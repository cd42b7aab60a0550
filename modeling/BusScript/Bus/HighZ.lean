import BusScript.Bus.Driver

/-!
# High impedance

The state in which no bus is active: nothing a script asks of the bus has an effect.
-/

namespace BusScript

/-- The bus that is not there. -/
structure HighZ where
deriving DecidableEq, Repr, Inhabited

instance : Driver HighZ where
  name _ := "HiZ"
  perform _ _ entry bus := (entry.noEffect, bus)

end BusScript
