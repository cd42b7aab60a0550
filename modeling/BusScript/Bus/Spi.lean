import BusScript.Bus.Driver

/-!
# SPI bus

An SPI controller that shifts a value in with every value it shifts out: the next of the queued
responses, or the very value it sent when the queue is empty. A transfer opened in the alternative
way shows what comes in during writes.
-/

namespace BusScript

/-- The controller. -/
structure Spi where
  /-- The values to be shifted in next. -/
  responses : List UInt32 := []
  selected : Bool := false
  /-- Whether writes show what came in. -/
  echoes : Bool := false
deriving DecidableEq, Repr, Inhabited

namespace Spi

/-- Shifts a value out and another in. -/
def transfer (out : UInt32) (bus : Spi) : UInt32 × Spi :=
  match bus.responses with
  | [] => (out, bus)
  | response :: later => (response, { bus with responses := later })

/-- Selects the chip. -/
def select (echoes : Bool) (entry : Instruction) (bus : Spi) : Instruction × Spi :=
  (entry.annotate "CS Enabled", { bus with selected := true, echoes := echoes })

/-- Deselects the chip. -/
def deselect (entry : Instruction) (bus : Spi) : Instruction × Spi :=
  (entry.annotate "CS Disabled", { bus with selected := false, echoes := false })

/-- Sends a value and keeps what came in. -/
def write (entry : Instruction) (bus : Spi) : Instruction × Spi :=
  let (value, after) := bus.transfer entry.sent
  ({ entry.receive (value &&& entry.mask) with echoes := bus.echoes }, after)

/-- Fetches a value, sending ones. -/
def read (entry : Instruction) (bus : Spi) : Instruction × Spi :=
  let (value, after) := bus.transfer 0xffffffff
  (entry.receive (value &&& entry.mask), after)

end Spi

instance : Driver Spi where
  name _ := "SPI"
  perform
    | .write, _, entry, bus => bus.write entry
    | .read, _, entry, bus => bus.read entry
    | .start, _, entry, bus => bus.select false entry
    | .startAlt, _, entry, bus => bus.select true entry
    | .stop, _, entry, bus | .stopAlt, _, entry, bus => bus.deselect entry
    | .tickClock, _, entry, bus | .clockHigh, _, entry, bus | .clockLow, _, entry, bus
    | .dataHigh, _, entry, bus | .dataLow, _, entry, bus | .readBit, _, entry, bus =>
      (entry.noEffect, bus)

end BusScript
