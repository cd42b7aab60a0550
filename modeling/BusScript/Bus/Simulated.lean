import BusScript.Bus.HighZ
import BusScript.Bus.Dummy
import BusScript.Bus.I2c
import BusScript.Bus.Spi

/-!
# Simulated buses

One of the four buses that need no hardware, chosen when a program starts.
-/

namespace BusScript

/-- A bus that needs no hardware. -/
inductive SimulatedBus where
  | highZ (bus : HighZ)
  | dummy (bus : Dummy)
  | i2c (bus : I2c)
  | spi (bus : Spi)
deriving DecidableEq, Repr

instance : Driver SimulatedBus where
  name
    | .highZ bus => Driver.name bus
    | .dummy bus => Driver.name bus
    | .i2c bus => Driver.name bus
    | .spi bus => Driver.name bus
  preflight
    | .highZ bus => (Driver.preflight bus).map .highZ id
    | .dummy bus => (Driver.preflight bus).map .dummy id
    | .i2c bus => (Driver.preflight bus).map .i2c id
    | .spi bus => (Driver.preflight bus).map .spi id
  waitDone
    | .highZ bus => .highZ (Driver.waitDone bus)
    | .dummy bus => .dummy (Driver.waitDone bus)
    | .i2c bus => .i2c (Driver.waitDone bus)
    | .spi bus => .spi (Driver.waitDone bus)
  perform capability next entry
    | .highZ bus => (Driver.perform capability next entry bus).map id .highZ
    | .dummy bus => (Driver.perform capability next entry bus).map id .dummy
    | .i2c bus => (Driver.perform capability next entry bus).map id .i2c
    | .spi bus => (Driver.perform capability next entry bus).map id .spi

end BusScript
