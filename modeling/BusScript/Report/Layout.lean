import BusScript.Report.Number
import BusScript.Text.Blank

/-!
# Reports

A trace as text. Adjacent writes, or adjacent reads, in one notation share a row; a row is broken
after eight values, or after four if they are binary or shown as characters. Everything else has a
line of its own. A remark follows its entry in parentheses.
-/

namespace BusScript.Report

/-- A row that a further value may join. -/
structure Row where
  /-- Whether it holds writes or reads. -/
  op : Operation
  /-- The notation of its values. -/
  radix : Radix
  /-- The number of values until the row is broken. -/
  left : Nat
deriving DecidableEq, Repr

/-- The number of values between two breaks of a row. -/
def rowLength (display : Display) (radix : Radix) : Nat :=
  if radix = .bin ∨ display = .ascii then 4 else 8

/-- What separates the parts of a broken row. -/
def rowBreak : List Char :=
  "\n    ".toList

/-- A number with the sequences for numbers around it. -/
def colored (p : Palette) (n : Nat) : List Char :=
  p.number ++ Nat.toDigits 10 n ++ p.reset

/-- A line with a label and a number. -/
def labelled (p : Palette) (label : String) (n : Nat) : List Char :=
  ['\n'] ++ p.notice ++ label.toList ++ [':'] ++ p.reset ++ [' '] ++ colored p n

/-- The note of an entry, after a blank. -/
def trailingNote (entry : Instruction) : List Char :=
  match entry.note with
  | none => []
  | some note => ' ' :: note.toList

/-- A line about a pin that was driven to a level. -/
def outputLine (p : Palette) (level pin : Nat) : List Char :=
  "\nIO".toList ++ colored p pin ++ " set to OUTPUT: ".toList ++ colored p level

/-- A line about the voltage on a pin. -/
def voltsLine (p : Palette) (entry : Instruction) : List Char :=
  let mv := millivolts entry.received
  ['\n'] ++ p.info ++ "Volts on IO".toList ++ Nat.toDigits 10 entry.pin ++ [':'] ++ p.reset ++ [' '] ++
    p.number ++ Nat.toDigits 10 (mv / 1000) ++ ['.'] ++ Digits.fixed 10 3 mv ++ p.reset ++ " V".toList

/-- The heading of a row. -/
def rowHeading (p : Palette) (isRead : Bool) : List Char :=
  ['\n'] ++ p.info ++ (if isRead then "RX:" else "TX:").toList ++ p.reset ++ [' ']

/-- A value in a row: the value of the transfer, what came in beside it, and the note. -/
def cell (settings : Settings) (p : Palette) (entry : Instruction) : List Char :=
  let isRead := entry.op == .read
  let value := if isRead then entry.received else entry.sent
  let shown := number p (entry.display settings.display isRead) entry.bits value
  let echo :=
    if entry.echoes then
      ['('] ++ number p (entry.display settings.display false) entry.bits entry.received ++ [')']
    else []
  shown ++ echo ++ trailingNote entry ++ [' ']

/-- Adds a value to the row it can join, or else opens a row, and breaks a row that is complete. -/
def dataText (settings : Settings) (p : Palette) (row : Option Row) (entry : Instruction) :
    List Char × Row :=
  let full := rowLength settings.display entry.radix
  let joined := row.filter fun r => r.op == entry.op && r.radix == entry.radix
  let heading := if joined.isSome then [] else rowHeading p (entry.op == .read)
  let left := (joined.map Row.left).getD full - 1
  let current : Row := { op := entry.op, radix := entry.radix, left := left }
  if left = 0 then (heading ++ cell settings p entry ++ rowBreak, { current with left := full })
  else (heading ++ cell settings p entry, current)

/-- The line of an entry that belongs in no row. -/
def lineText (p : Palette) (entry : Instruction) : List Char :=
  match entry.op with
  | .write | .read => []
  | .start | .stop | .startAlt | .stopAlt =>
    match entry.note with
    | none => []
    | some note => '\n' :: note.toList
  | .delayUs => labelled p "Delay" entry.repeats ++ "us".toList
  | .delayMs => labelled p "Delay" entry.repeats ++ "ms".toList
  | .tickClock => labelled p "Tick clock" entry.repeats
  | .clockHigh => labelled p "Set CLK" 1 ++ trailingNote entry
  | .clockLow => labelled p "Set CLK" 0 ++ trailingNote entry
  | .dataHigh => labelled p "Set DAT" 1 ++ trailingNote entry
  | .dataLow => labelled p "Set DAT" 0 ++ trailingNote entry
  | .readBit => labelled p "Read DAT" entry.received.toNat ++ trailingNote entry
  | .outputHigh => outputLine p 1 entry.pin
  | .outputLow => outputLine p 0 entry.pin
  | .input =>
    "\nIO".toList ++ colored p entry.pin ++ " set to INPUT: ".toList ++
      colored p entry.received.toNat
  | .sample => voltsLine p entry

/-- The remark of an entry in parentheses. -/
def remarkText (entry : Instruction) : List Char :=
  if entry.severity = .none then []
  else ['('] ++ (entry.remark.getD "").toList ++ [')', ' ']

/-- The text of an entry, given the row it may join, and the row that the next entry may join. -/
def entryText (settings : Settings) (p : Palette) (row : Option Row) (entry : Instruction) :
    List Char × Option Row :=
  if entry.op = .write ∨ entry.op = .read then
    let (text, row) := dataText settings p row entry
    (text ++ remarkText entry, some row)
  else (lineText p entry ++ remarkText entry, none)

/-- The text of entries before it is cut into lines. -/
def rawText (settings : Settings) (p : Palette) (entries : List Instruction) : List Char :=
  let addEntry (state : Array (List Char) × Option Row) (entry : Instruction) :=
    let (text, row) := entryText settings p state.2 entry
    (state.1.push text, row)
  (entries.foldl addEntry (#[], none)).1.toList.flatten

/-- The lines of the report on some entries. -/
def reportLines (settings : Settings) (p : Palette) (entries : List Instruction) :
    List (List Char) :=
  Text.tidyLines (rawText settings p entries)

/-- The report on some entries. -/
def render (settings : Settings) (entries : List Instruction) : String :=
  String.ofList (Text.unlines (reportLines settings (Palette.ofColor settings.color) entries))

end BusScript.Report
