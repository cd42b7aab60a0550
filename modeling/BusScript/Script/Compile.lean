import BusScript.Event
import BusScript.Script.Cursor
import BusScript.Script.Token

/-!
# Compiling a line

A line becomes a program token by token. A `Draft` is what has been appended so far; it never asks
for as many slots as there are, since the last slot is kept for a final remark. Either the whole
line compiles or nothing does.
-/

namespace BusScript

/-- The instructions appended so far. -/
structure Draft where
  instructions : Array Instruction := #[]
  /-- The slots they are charged for. -/
  slots : Nat := 0
  events : Array Event := #[]
deriving DecidableEq, Repr, Inhabited

/-- What became of a line. -/
structure Compilation where
  /-- The program, or why there is none. -/
  result : Except Rejection Program
  /-- What was not consumed. -/
  input : Input
  events : List Event

namespace Draft

/-- Appends an instruction. -/
def push (i : Instruction) (d : Draft) : Draft :=
  { d with instructions := d.instructions.push i, slots := d.slots + i.slotCost }

/-- Records an event. -/
def tell (e : Event) (d : Draft) : Draft :=
  { d with events := d.events.push e }

/-- Whether so many more slots can be charged. -/
def hasRoom (capacity cost : Nat) (d : Draft) : Bool :=
  d.slots + cost < capacity

/-- The compilation that stops with a failure. -/
def fail (reason : Rejection) (input : Input) (d : Draft) : Compilation where
  result := .error reason
  input := input
  events := d.events.toList

/-- Appends the writes of a quoted text of which the given input starts with the first character.
When the writes of a character do not fit, that character is consumed still. -/
def pushText (settings : Settings) : List Char → Input → Draft → Except Compilation Draft
  | [], _, d => .ok d
  | c :: chars, i, d =>
    let writes := Token.charWrites settings c
    if d.hasRoom settings.capacity writes.length then
      pushText settings chars (i.advance 1) (writes.foldl (fun d write => d.push write) d)
    else .error (d.fail (.exceedsCapacity settings.capacity) (i.advance 1))

/-- Appends the instruction of a literal or a command that lies between two inputs, given the
character it starts with, its attributes, and the instruction without them. -/
def pushCommand (settings : Settings) (role : Nat → PinRole) (symbol : Char) (start rest : Input)
    (attributes : Attributes) (plain : Instruction) (d : Draft) : Except Compilation Draft :=
  let position := start.tokenPosition
  match Token.applyAttributes settings role symbol position attributes plain with
  | .error reason => .error (d.fail reason rest)
  | .ok i =>
    if d.hasRoom settings.capacity i.slotCost then .ok ((d.tell (.appended i position)).push i)
    else .error (d.fail (.exceedsCapacity settings.capacity) rest)

/-- Appends what a token stands for. The token starts with the given character and lies between the
two inputs. -/
def append (settings : Settings) (role : Nat → PinRole) (symbol : Char) (start rest : Input)
    (d : Draft) : Token → Except Compilation Draft
  | .value literal attributes =>
    d.pushCommand settings role symbol start rest attributes
      (.write literal.value literal.radix settings.bits)
  | .command symbol op attributes =>
    d.pushCommand settings role symbol start rest attributes { op := op, bits := settings.bits }
  | .text chars => d.pushText settings chars (start.advance 1)

end Draft

/-- Compiles what is unread, after what was appended already. -/
def compileFrom (settings : Settings) (role : Nat → PinRole) (d : Draft) (i : Input) :
    Compilation :=
  match _ : i.rest with
  | [] => { result := .ok d.instructions.toList, input := i, events := d.events.toList }
  | c :: _ =>
    if isSeparator c then compileFrom settings role d (i.advance 1)
    else
      match _ : Token.read c i with
      | .error failure => d.fail failure.reason failure.input
      | .ok (token, rest) =>
        match d.append settings role c i rest token with
        | .error stopped => stopped
        | .ok d => compileFrom settings role d rest
termination_by i.rest.length
decreasing_by
  · simp [*]
  · exact Token.rest_length_lt_of_read ‹_› ‹_›

/-- What an observer is told at the end of a compilation. -/
def Compilation.verdict (c : Compilation) : Event :=
  match c.result with
  | .ok program => .compiled program.length program.slots
  | .error reason => .rejected reason

/-- Compiles what is unread of a line. The function tells the use of each pin. -/
def compile (settings : Settings) (role : Nat → PinRole) (i : Input) : Compilation :=
  let c := compileFrom settings role {} i
  { c with events := .compileBegins settings.capacity :: c.events ++ [c.verdict] }

namespace Cursor

/-- The unread part of the line. -/
def input (c : Cursor) : Input where
  position := c.position
  rest := c.rest

/-- Compiles what is unread of the line, and moves the mark to where the compilation stopped. -/
def compile (settings : Settings) (role : Nat → PinRole) (c : Cursor) : Compilation × Cursor :=
  let compilation := BusScript.compile settings role c.input
  (compilation, c.seek compilation.input.position)

end Cursor

end BusScript
