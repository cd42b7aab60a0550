import BusScript.Instruction
import BusScript.Script.Rejection

/-!
# Events

What an observer is told while a line is compiled, run and reported. An event is plain data; its
level, its text and its fields are read off it.
-/

namespace BusScript

/-- How much detail an observer asks for, the least first. -/
inductive EventLevel where
  | error
  | warn
  | info
  | debug
  | trace
deriving DecidableEq, Repr, Inhabited

/-- The amount of detail of a level, `0` for the least. -/
def EventLevel.detail : EventLevel → Nat
  | error => 0
  | warn => 1
  | info => 2
  | debug => 3
  | trace => 4

/-- Something worth telling an observer. -/
inductive Event where
  /-- A line is about to be handled on the named bus. -/
  | lineBegins (driver : String)
  /-- The bus looks wrong before a line starts. -/
  | busWarning (text : String)
  | compileBegins (capacity : Nat)
  | appended (instruction : Instruction) (position : Nat)
  | compiled (instructions slots : Nat)
  | rejected (reason : Rejection)
  /-- A program is about to run on the named bus. -/
  | runBegins (driver : String) (instructions : Nat)
  | dispatchBegins (instruction : Instruction)
  | pinPut (pin : Nat) (level : Bool)
  /-- There was no slot left for the instruction with this index. -/
  | traceFull (index capacity : Nat)
  /-- The instruction with this index stopped the run in the given repeat. -/
  | halted (index repetition : Nat)
  | executed (entries : Nat) (stopped : Bool)
  /-- A trace is about to be turned into text. -/
  | reportBegins (entries : Nat)
  | dispatchCount (op : Operation) (count : Nat)
deriving DecidableEq, Repr

/-- The value of a field of an event. -/
inductive EventField where
  | number (value : Nat)
  | flag (value : Bool)
  | text (value : String)
deriving DecidableEq, Repr

namespace Event

/-- The level an event belongs to. -/
def level : Event → EventLevel
  | busWarning _ | rejected _ => .warn
  | dispatchCount _ _ => .info
  | compiled _ _ | dispatchBegins _ | pinPut _ _ => .trace
  | lineBegins _ | compileBegins _ | appended _ _ | runBegins _ _ | traceFull _ _ | halted _ _
  | executed _ _ | reportBegins _ => .debug

/-- Whether an event opens a stretch of work and does not merely report a fact. -/
def opensSpan : Event → Bool
  | lineBegins _ | compileBegins _ | runBegins _ _ | dispatchBegins _ | reportBegins _ => true
  | _ => false

/-- The fixed text of an event. -/
def text : Event → String
  | lineBegins _ => "run"
  | busWarning text => text
  | compileBegins _ => "compile"
  | appended _ _ => "instruction"
  | compiled _ _ => "compiled"
  | rejected _ => "rejected syntax"
  | runBegins _ _ => "run"
  | dispatchBegins _ => "dispatch"
  | pinPut _ _ => "put"
  | traceFull _ _ => "trace full"
  | halted _ _ => "halted"
  | executed _ _ => "executed"
  | reportBegins _ => "format"
  | dispatchCount _ _ => "dispatch stats"

/-- A word in hexadecimal, lower case and without padding. -/
def hexWord (value : UInt32) : String :=
  String.ofList ('0' :: 'x' :: Nat.toDigits 16 value.toNat)

/-- The named values of an event. -/
def fields : Event → List (String × EventField)
  | lineBegins driver => [("driver", .text driver)]
  | busWarning _ => []
  | compileBegins capacity => [("capacity", .number capacity)]
  | appended i position =>
    [("opcode", .text i.op.name), ("out_data", .number i.sent.toNat), ("bits", .number i.bits),
      ("repeat", .number i.repeats), ("position", .number position)]
  | compiled instructions slots =>
    [("instructions", .number instructions), ("slots", .number slots)]
  | rejected reason => [("err", .text reason.message)]
  | runBegins driver instructions =>
    [("driver", .text driver), ("instructions", .number instructions)]
  | dispatchBegins i =>
    [("self", .text i.op.name), ("out_data", .text (hexWord i.sent)), ("bits", .number i.bits),
      ("repeat", .number i.repeats)]
  | pinPut pin level => [("pin", .number pin), ("level", .flag level)]
  | traceFull index capacity => [("pos", .number index), ("capacity", .number capacity)]
  | halted index repetition => [("pos", .number index), ("repeat", .number repetition)]
  | executed entries stopped => [("entries", .number entries), ("halted", .flag stopped)]
  | reportBegins entries => [("entries", .number entries)]
  | dispatchCount op count => [("opcode", .text op.name), ("count", .number count)]

/-- Whether an observer who asked for the given level is told. -/
def visibleAt (level : EventLevel) (e : Event) : Bool :=
  e.level.detail ≤ level.detail

end Event

end BusScript
