/-!
# Operations

The eighteen operations a bus script can carry: how each is written, whether it names a pin, and how
its repeat count is to be read. The position of an operation in `Operation.all` is its stable index.
-/

namespace BusScript

/-- One kind of thing a script asks for. -/
inductive Operation where
  | write
  | read
  | start
  | stop
  | startAlt
  | stopAlt
  | tickClock
  | clockHigh
  | clockLow
  | dataHigh
  | dataLow
  | readBit
  | delayUs
  | delayMs
  | outputHigh
  | outputLow
  /-- Turns a pin into an input and senses its level. -/
  | input
  /-- Measures the voltage on a pin. -/
  | sample
deriving DecidableEq, Repr, Inhabited

namespace Operation

/-- The number of operations. -/
abbrev count : Nat := 18

/-- Every operation, in the order of the indices. -/
def all : List Operation :=
  [write, read, start, stop, startAlt, stopAlt, tickClock, clockHigh, clockLow, dataHigh, dataLow,
    readBit, delayUs, delayMs, outputHigh, outputLow, input, sample]

/-- The stable index of an operation. -/
def index : Operation → Fin count
  | write => 0
  | read => 1
  | start => 2
  | stop => 3
  | startAlt => 4
  | stopAlt => 5
  | tickClock => 6
  | clockHigh => 7
  | clockLow => 8
  | dataHigh => 9
  | dataLow => 10
  | readBit => 11
  | delayUs => 12
  | delayMs => 13
  | outputHigh => 14
  | outputLow => 15
  | input => 16
  | sample => 17

/-- The operation with the given index. -/
def ofIndex? (i : Nat) : Option Operation :=
  all[i]?

theorem ofIndex?_index (op : Operation) : ofIndex? op.index = some op := by
  cases op <;> rfl

theorem index_injective {a b : Operation} (h : a.index = b.index) : a = b := by
  have h₁ := ofIndex?_index a
  rw [h, ofIndex?_index b] at h₁
  exact (Option.some.inj h₁).symm

/-- The name under which logs mention an operation. -/
def name : Operation → String
  | write => "Write"
  | read => "Read"
  | start => "Start"
  | stop => "Stop"
  | startAlt => "StartAlt"
  | stopAlt => "StopAlt"
  | tickClock => "TickClock"
  | clockHigh => "ClockHigh"
  | clockLow => "ClockLow"
  | dataHigh => "DataHigh"
  | dataLow => "DataLow"
  | readBit => "ReadBit"
  | delayUs => "DelayUs"
  | delayMs => "DelayMs"
  | outputHigh => "AuxOutputHigh"
  | outputLow => "AuxOutputLow"
  | input => "AuxInput"
  | sample => "AdcRead"

/-- The character that stands for an operation in a script. Writes have none: they are written as
literals and quoted text. -/
def symbol? : Operation → Option Char
  | write => none
  | read => some 'r'
  | start => some '['
  | stop => some ']'
  | startAlt => some '\x7b'
  | stopAlt => some '\x7d'
  | tickClock => some '^'
  | clockHigh => some '/'
  | clockLow => some '\\'
  | dataHigh => some '-'
  | dataLow => some '_'
  | readBit => some '.'
  | delayUs => some 'd'
  | delayMs => some 'D'
  | outputHigh => some 'A'
  | outputLow => some 'a'
  | input => some '@'
  | sample => some 'v'

/-- The operation a character stands for. -/
def ofSymbol? (c : Char) : Option Operation :=
  all.find? fun op => op.symbol? == some c

theorem symbol?_of_ofSymbol? {c : Char} {op : Operation} (h : ofSymbol? c = some op) :
    op.symbol? = some c := by
  simpa using List.find?_some h

theorem ofSymbol?_of_symbol? {c : Char} {op : Operation} (h : op.symbol? = some c) :
    ofSymbol? c = some op := by
  cases op <;> simp only [symbol?, Option.some.injEq, reduceCtorEq] at h <;> subst h <;> decide

/-- Whether the number after the dot names a pin and not a width. -/
def usesPin : Operation → Bool
  | outputHigh | outputLow | input | sample => true
  | _ => false

/-- Whether the operation needs the pin for itself. Measuring only senses. -/
def claimsPin : Operation → Bool
  | outputHigh | outputLow | input => true
  | _ => false

/-- Whether the repeat count is an amount handled in one go: a time or a number of pulses. -/
def repeatIsMagnitude : Operation → Bool
  | delayUs | delayMs | tickClock => true
  | _ => false

/-- Whether every repeat is carried out and recorded on its own. -/
def expandsRepeat : Operation → Bool
  | write | read | readBit => true
  | _ => false

/-- Whether the operation opens or closes a transfer. -/
def isFraming : Operation → Bool
  | start | stop | startAlt | stopAlt => true
  | _ => false

theorem usesPin_of_claimsPin {op : Operation} (h : op.claimsPin = true) : op.usesPin = true := by
  cases op <;> simp_all [claimsPin, usesPin]

/-- The number of slots that an operation with the given repeat count is charged for. -/
def slotCost (op : Operation) (repeats : Nat) : Nat :=
  if op.repeatIsMagnitude then 1 else repeats

/-- The number of times an operation with the given repeat count is carried out and recorded. -/
def expansion (op : Operation) (repeats : Nat) : Nat :=
  if op.expandsRepeat then max repeats 1 else 1

theorem expansion_pos (op : Operation) (repeats : Nat) : 0 < op.expansion repeats := by
  unfold expansion
  split <;> omega

end Operation

end BusScript
