import BusScript.Bus.Driver

/-!
# Dummy bus

A bus to try scripts on: it notes every call, answers every read with one value, and stops the run
when the value `0xff` is written.
-/

namespace BusScript

/-- The dummy bus. -/
structure Dummy where
  /-- The value that every read finds. -/
  readValue : UInt32 := 0
deriving DecidableEq, Repr, Inhabited

namespace Dummy

/-- The value whose write stops the run. -/
def haltValue : UInt32 := 0xff

/-- What the dummy bus does with an entry. -/
def respond (bus : Dummy) : Capability → Instruction → Instruction
  | .write, entry =>
    if entry.sent = haltValue then entry.flag .error "Halting: 0xff entered"
    else entry.annotate "--DUMMY1- write()"
  | .read, entry =>
    (entry.receive (bus.readValue &&& entry.mask)).annotate "--DUMMY1- read()"
  | .start, entry | .startAlt, entry => entry.annotate "-DUMMY1- start()"
  | .stop, entry | .stopAlt, entry => entry.annotate "-DUMMY1- stop()"
  | .tickClock, entry => entry.annotate "-DUMMY1- clk()"
  | .clockHigh, entry => entry.annotate "-DUMMY1- clkh()"
  | .clockLow, entry => entry.annotate "-DUMMY1- clkl()"
  | .dataHigh, entry => entry.annotate "-DUMMY1- dath()"
  | .dataLow, entry => entry.annotate "-DUMMY1- datl()"
  | .readBit, entry => (entry.receive (bus.readValue &&& 1)).annotate "-DUMMY1- bitr()"

end Dummy

instance : Driver Dummy where
  name _ := "DUMMY1"
  perform capability _ entry bus := (bus.respond capability entry, bus)

end BusScript
