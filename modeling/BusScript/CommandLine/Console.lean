import BusScript.Bus.Simulated
import BusScript.CommandLine.Options
import BusScript.Session

/-!
# Console

The program behind the command line, as a function from its arguments and its standard input to what
it writes. The report of every line goes to the standard output and the reason why a line is turned
down to the standard error. A line that asks for nothing is passed over.
-/

namespace BusScript.CommandLine

/-- A session with the bus and the board that it runs on. -/
structure Console where
  session : Session
  driver : SimulatedBus
  board : SimulatedBoard

/-- What was written on the two streams. -/
structure Reply where
  out : String := ""
  err : String := ""
deriving DecidableEq, Repr

instance : Append Reply where
  append a b := { out := a.out ++ b.out, err := a.err ++ b.err }

/-- The bus that the options ask for. -/
def Options.bus (o : Options) : SimulatedBus :=
  match o.mode with
  | .hiz => .highZ {}
  | .dummy => .dummy {}
  | .i2c =>
    .i2c
      { targets := (o.targets.map fun address => I2c.Target.ofList address []).toArray
        pullUps := !o.noPullUps }
  | .spi => .spi {}

namespace Console

/-- The console that the options ask for. -/
def ofOptions (o : Options) : Except SettingsError Console :=
  (Session.ofSettings o.settings).map fun session =>
    { session := session, driver := o.bus, board := .ofCount o.settings.pins }

/-- What is written about a line. -/
def reply : Except LineError Output → Reply
  | .ok output => { out := output.text ++ "\n" }
  | .error .nothingToDo => {}
  | .error (.rejected reason) => { err := (LineError.rejected reason).message ++ "\n" }

/-- Handles a line. -/
def submit (line : String) (c : Console) : Reply × Console :=
  let handled := c.session.runLine line c.driver c.board
  (reply handled.result,
    { session := handled.session, driver := handled.driver, board := handled.board })

/-- Handles lines one after the other. -/
def submitAll (lines : List String) (c : Console) : Reply × Console :=
  lines.foldl
    (fun (written, c) line =>
      let (more, c) := c.submit line
      (written ++ more, c))
    ({}, c)

end Console

/-! ### Standard input -/

/-- The line feed. -/
def lineFeed : UInt8 := 10

/-- The carriage return. -/
def carriageReturn : UInt8 := 13

/-- A line without the carriage return that belongs to its end. -/
def dropReturn (line : List UInt8) : List UInt8 :=
  if line.getLast? = some carriageReturn then line.dropLast else line

/-- The lines of some bytes. What follows the last line feed is a line of its own unless it is
empty, and keeps a carriage return at its end. -/
def byteLines (bytes : List UInt8) : List (List UInt8) :=
  let segments := Text.segments lineFeed bytes
  segments.dropLast.map dropReturn ++ segments.getLast?.toList.filter fun last => !last.isEmpty

/-- The characters that some bytes encode. -/
def decode? (bytes : List UInt8) : Option String :=
  String.fromUTF8? ⟨bytes.toArray⟩

/-- The lines in front of the first that is no text, and whether there is such a line. -/
def decodeLines : List (List UInt8) → List String × Bool
  | [] => ([], false)
  | bytes :: rest =>
    match decode? bytes with
    | none => ([], true)
    | some line =>
      let (lines, broken) := decodeLines rest
      (line :: lines, broken)

/-! ### Programs -/

/-- How the program ended and what it left behind. -/
structure Outcome where
  code : UInt32 := 0
  reply : Reply := {}
  /-- The time that its delays add up to, in microseconds. -/
  delayedUs : Nat := 0
  /-- What an observer is told at the end. -/
  summary : List Event := []

/-- The report of an error that ends the program. -/
def failureText (context cause : String) : String :=
  "Error: " ++ context ++ "\n\nCaused by:\n    " ++ cause ++ "\n"

/-- Runs the lines that the options ask for. Standard input is looked at only if they hold no
script. -/
def Options.run (o : Options) (input : List UInt8) : Outcome :=
  match Console.ofOptions o with
  | .error fault =>
    { code := 1, reply := { err := failureText "invalid session settings" fault.message } }
  | .ok console =>
    let (lines, broken) :=
      if o.scripts.isEmpty then decodeLines (byteLines input) else (o.scripts, false)
    let (reply, console) := console.submitAll lines
    if broken then
      { code := 1
        reply := reply ++
          { err := failureText "failed to read script from stdin"
              "stream did not contain valid UTF-8" }
        delayedUs := console.board.delayedUs }
    else
      { reply := reply
        delayedUs := console.board.delayedUs
        summary := if o.stats then console.session.tally.summary else [] }

/-- How the program is used. -/
def usage : String :=
  "Usage: [OPTIONS] [SCRIPTS]...\n\n" ++
    "Options:\n" ++
    "  --mode <hiz|dummy|i2c|spi>\n" ++
    "  --bits <BITS>\n" ++
    "  --display <auto|hex|dec|bin|ascii>\n" ++
    "  --pins <PINS>\n" ++
    "  --capacity <SLOTS>\n" ++
    "  --target <ADDRESS>\n" ++
    "  --no-pull-ups\n" ++
    "  --realtime\n" ++
    "  --color\n" ++
    "  --stats\n"

/-- What the program does with its arguments and its standard input. -/
def run (arguments : List String) (input : List UInt8) : Outcome :=
  match Request.parse? arguments with
  | none => { code := 2, reply := { err := usage } }
  | some .help => { reply := { out := usage } }
  | some (.run options) => options.run input

end BusScript.CommandLine
