import BusScript.Event

/-!
# Boards

`Board` is what a run asks of the hardware beside the bus: pins, the voltage meter and time.
`SimulatedBoard` is a board made of memory. It ignores pins it does not have, and adds waiting times
up in place of waiting.
-/

namespace BusScript

/-- The services of a board, as functions on its state. -/
class Board (β : Type) where
  setOutput : Nat → β → β
  /-- Sets the level of a pin, and says what an observer is told of it. -/
  put : Nat → Bool → β → β × List Event
  setInput : Nat → β → β
  level : Nat → β → Bool
  /-- Takes a raw reading of the voltage on a pin. -/
  sample : Nat → β → UInt32 × β
  delayUs : Nat → β → β
  delayMs : Nat → β → β

/-- One pin of a simulated board. -/
structure SimulatedPin where
  isOutput : Bool := false
  level : Bool := false
  /-- The raw reading of its voltage. -/
  reading : UInt32 := 0
deriving DecidableEq, Repr, Inhabited

/-- A board made of memory. -/
structure SimulatedBoard where
  /-- The pins, from pin `0` on. -/
  pins : Array SimulatedPin
  /-- The time waited so far, in microseconds. -/
  delayedUs : Nat := 0
deriving DecidableEq, Repr

namespace SimulatedBoard

/-- A board whose pins are inputs at low level. -/
def ofCount (count : Nat) : SimulatedBoard where
  pins := Array.replicate count {}

/-- Sets the level that comes in on a pin. -/
def setLevel (pin : Nat) (level : Bool) (b : SimulatedBoard) : SimulatedBoard :=
  { b with pins := b.pins.modify pin fun p => { p with level := level } }

/-- Sets the reading of a pin. A reading has twelve bits. -/
def setReading (pin : Nat) (raw : UInt32) (b : SimulatedBoard) : SimulatedBoard :=
  { b with pins := b.pins.modify pin fun p => { p with reading := raw &&& lowBits 12 } }

/-- Turns a pin into an output or an input. -/
def setDirection (pin : Nat) (isOutput : Bool) (b : SimulatedBoard) : SimulatedBoard :=
  { b with pins := b.pins.modify pin fun p => { p with isOutput := isOutput } }

/-- Whether a pin is an output. -/
def isOutput (b : SimulatedBoard) (pin : Nat) : Bool :=
  (b.pins[pin]?.map SimulatedPin.isOutput).getD false

/-- The level of a pin. -/
def level (b : SimulatedBoard) (pin : Nat) : Bool :=
  (b.pins[pin]?.map SimulatedPin.level).getD false

/-- The reading of a pin. -/
def reading (b : SimulatedBoard) (pin : Nat) : UInt32 :=
  (b.pins[pin]?.map SimulatedPin.reading).getD 0

/-- Adds to the time waited so far. -/
def wait (us : Nat) (b : SimulatedBoard) : SimulatedBoard :=
  { b with delayedUs := b.delayedUs + us }

instance : Board SimulatedBoard where
  setOutput pin b := b.setDirection pin true
  put pin level b := (b.setLevel pin level, [.pinPut pin level])
  setInput pin b := b.setDirection pin false
  level pin b := b.level pin
  sample pin b := (b.reading pin, b)
  delayUs us b := b.wait us
  delayMs ms b := b.wait (ms * 1000)

/-! ### Direction and level after each operation -/

theorem isOutput_setDirection (pin other : Nat) (on : Bool) (b : SimulatedBoard) :
    (b.setDirection pin on).isOutput other =
      if other = pin ∧ pin < b.pins.size then on else b.isOutput other := by
  simp only [setDirection, isOutput, Array.getElem?_modify, eq_comm (a := pin)]
  by_cases same : other = pin
  · subst same
    by_cases inside : other < b.pins.size <;> simp [inside]
  · simp [same]

theorem level_setLevel (pin other : Nat) (on : Bool) (b : SimulatedBoard) :
    (b.setLevel pin on).level other =
      if other = pin ∧ pin < b.pins.size then on else b.level other := by
  simp only [setLevel, level, Array.getElem?_modify, eq_comm (a := pin)]
  by_cases same : other = pin
  · subst same
    by_cases inside : other < b.pins.size <;> simp [inside]
  · simp [same]

@[simp] theorem level_setDirection (pin other : Nat) (on : Bool) (b : SimulatedBoard) :
    (b.setDirection pin on).level other = b.level other := by
  simp only [setDirection, level, Array.getElem?_modify]
  split <;> simp [Function.comp_def]

@[simp] theorem isOutput_setLevel (pin other : Nat) (on : Bool) (b : SimulatedBoard) :
    (b.setLevel pin on).isOutput other = b.isOutput other := by
  simp only [setLevel, isOutput, Array.getElem?_modify]
  split <;> simp [Function.comp_def]

@[simp] theorem size_setDirection (pin : Nat) (on : Bool) (b : SimulatedBoard) :
    (b.setDirection pin on).pins.size = b.pins.size := by
  simp [setDirection]

@[simp] theorem size_setLevel (pin : Nat) (on : Bool) (b : SimulatedBoard) :
    (b.setLevel pin on).pins.size = b.pins.size := by
  simp [setLevel]

end SimulatedBoard

end BusScript
