import BusScript.Event

/-!
# Bus drivers

A bus protocol is a type of states with an instance of `Driver`: what it does with each of the
twelve `Capability`s, one entry of the trace at a time. What a protocol has no use for has no effect
and says so.
-/

namespace BusScript

/-- A thing a bus can be asked to do. -/
inductive Capability where
  | write
  | read
  | start
  | startAlt
  | stop
  | stopAlt
  | tickClock
  | clockHigh
  | clockLow
  | dataHigh
  | dataLow
  | readBit
deriving DecidableEq, Repr, Inhabited

/-- The capability that carries an operation out. Delays and pins are no matter of the bus. -/
def Operation.capability? : Operation → Option Capability
  | write => some .write
  | read => some .read
  | start => some .start
  | stop => some .stop
  | startAlt => some .startAlt
  | stopAlt => some .stopAlt
  | tickClock => some .tickClock
  | clockHigh => some .clockHigh
  | clockLow => some .clockLow
  | dataHigh => some .dataHigh
  | dataLow => some .dataLow
  | readBit => some .readBit
  | delayUs | delayMs | outputHigh | outputLow | input | sample => none

/-- The operation that a capability carries out. -/
def Capability.operation : Capability → Operation
  | write => .write
  | read => .read
  | start => .start
  | startAlt => .startAlt
  | stop => .stop
  | stopAlt => .stopAlt
  | tickClock => .tickClock
  | clockHigh => .clockHigh
  | clockLow => .clockLow
  | dataHigh => .dataHigh
  | dataLow => .dataLow
  | readBit => .readBit

@[simp] theorem Capability.capability?_operation (c : Capability) :
    c.operation.capability? = some c := by
  cases c <;> rfl

/-- Whether a capability can be told which instruction comes next. It is up to its caller whether it
is. -/
def Capability.looksAhead : Capability → Bool
  | write | read => true
  | _ => false

/-- The entry of an instruction that the bus has no use for. -/
def Instruction.noEffect (i : Instruction) : Instruction :=
  i.flag .warn "command has no effect here"

/-- A bus protocol, as functions on its state. -/
class Driver (σ : Type) where
  name : σ → String
  /-- What happens before a line is compiled, and what an observer is told of it. -/
  preflight : σ → σ × List Event := fun s => (s, [])
  /-- What happens after a line has run. -/
  waitDone : σ → σ := id
  /-- Uses a capability on one entry. The option is the instruction that comes next, for those that
  look ahead. -/
  perform : Capability → Option Instruction → Instruction → σ → Instruction × σ

end BusScript
