/-!
# Pin registry

Who owns each pin, and which pins a script is driving. Compiling a script only looks the owners up;
running it claims and releases pins.

Every operation ignores pins beyond the registry. The register of driven pins is a word of its own
and covers pins `0` to `31` whatever the size of the registry.
-/

namespace BusScript

/-- What a pin is in use for. -/
inductive PinRole where
  /-- Free for scripts. -/
  | io
  /-- Owned by the active bus. -/
  | mode
  | supply
  | generator
  | counter
deriving DecidableEq, Repr, Inhabited

/-- What is known of one pin. -/
structure PinEntry where
  /-- What the pin is in use for. -/
  role : PinRole := .io
  label : Option String := none
deriving DecidableEq, Repr, Inhabited

/-- The owners and labels of the pins, and the register of pins that scripts drive. -/
structure PinRegistry where
  /-- The pins, from pin `0` on. -/
  pins : Array PinEntry
  /-- The pins that scripts drive, one bit for each. -/
  driven : BitVec 32 := 0#32
deriving DecidableEq, Repr

namespace PinRegistry

/-- A registry of free pins. -/
def free (count : Nat) : PinRegistry where
  pins := Array.replicate count {}

/-- What a pin is in use for. -/
def role (r : PinRegistry) (pin : Nat) : PinRole :=
  (r.pins[pin]?.map PinEntry.role).getD .io

/-- The name a pin goes by. -/
def label? (r : PinRegistry) (pin : Nat) : Option String :=
  r.pins[pin]?.bind PinEntry.label

/-- Hands a pin over to a new use. -/
def claim (pin : Nat) (role : PinRole) (label : String) (r : PinRegistry) : PinRegistry :=
  { r with pins := r.pins.modify pin fun _ => { role := role, label := some label } }

/-- Frees a pin and forgets its label. -/
def release (pin : Nat) (r : PinRegistry) : PinRegistry :=
  { r with pins := r.pins.modify pin fun _ => {} }

/-- Records whether scripts drive a pin. -/
def setDriven (pin : Nat) (isDriven : Bool) (r : PinRegistry) : PinRegistry :=
  if isDriven then { r with driven := r.driven ||| BitVec.twoPow 32 pin }
  else { r with driven := r.driven &&& ~~~ BitVec.twoPow 32 pin }

/-- Whether scripts drive a pin. -/
def isDriven (r : PinRegistry) (pin : Nat) : Bool :=
  r.driven.getLsbD pin

/-! ### Owners, labels and driven pins after each operation -/

@[simp] theorem size_free (count : Nat) : (free count).pins.size = count := by
  simp [free]

@[simp] theorem role_free (count pin : Nat) : (free count).role pin = .io := by
  by_cases h : pin < count <;> simp [free, role, h]

@[simp] theorem label?_free (count pin : Nat) : (free count).label? pin = none := by
  by_cases h : pin < count <;> simp [free, label?, h]

@[simp] theorem size_claim (pin : Nat) (role : PinRole) (label : String) (r : PinRegistry) :
    (r.claim pin role label).pins.size = r.pins.size := by
  simp [claim]

@[simp] theorem size_release (pin : Nat) (r : PinRegistry) :
    (r.release pin).pins.size = r.pins.size := by
  simp [release]

@[simp] theorem pins_setDriven (pin : Nat) (on : Bool) (r : PinRegistry) :
    (r.setDriven pin on).pins = r.pins := by
  cases on <;> simp [setDriven]

theorem role_claim (pin other : Nat) (purpose : PinRole) (label : String) (r : PinRegistry) :
    (r.claim pin purpose label).role other =
      if other = pin ∧ pin < r.pins.size then purpose else r.role other := by
  simp only [claim, role, Array.getElem?_modify, eq_comm (a := pin)]
  by_cases same : other = pin
  · subst same
    by_cases inside : other < r.pins.size <;> simp [inside]
  · simp [same]

theorem role_release (pin other : Nat) (r : PinRegistry) :
    (r.release pin).role other = if other = pin then .io else r.role other := by
  simp only [release, role, Array.getElem?_modify, eq_comm (a := pin)]
  by_cases same : other = pin
  · subst same
    by_cases inside : other < r.pins.size <;> simp [inside]
  · simp [same]

theorem label?_claim (pin other : Nat) (purpose : PinRole) (label : String) (r : PinRegistry) :
    (r.claim pin purpose label).label? other =
      if other = pin ∧ pin < r.pins.size then some label else r.label? other := by
  simp only [claim, label?, Array.getElem?_modify, eq_comm (a := pin)]
  by_cases same : other = pin
  · subst same
    by_cases inside : other < r.pins.size <;> simp [inside]
  · simp [same]

theorem label?_release (pin other : Nat) (r : PinRegistry) :
    (r.release pin).label? other = if other = pin then none else r.label? other := by
  simp only [release, label?, Array.getElem?_modify, eq_comm (a := pin)]
  by_cases same : other = pin
  · subst same
    by_cases inside : other < r.pins.size <;> simp [inside]
  · simp [same]

theorem isDriven_setDriven (pin other : Nat) (on : Bool) (r : PinRegistry) :
    (r.setDriven pin on).isDriven other =
      if other = pin ∧ pin < 32 then on else r.isDriven other := by
  by_cases inside : other < 32
  · by_cases same : other = pin
    · subst same
      cases on <;> simp [setDriven, isDriven, inside]
    · cases on <;> simp [setDriven, isDriven, inside, same]
  · have beyond : ∀ word : BitVec 32, word.getLsbD other = false :=
      fun word => BitVec.getLsbD_of_ge word other (by omega)
    rw [isDriven, isDriven, beyond, beyond, if_neg (by omega)]

@[simp] theorem isDriven_claim (pin other : Nat) (purpose : PinRole) (label : String)
    (r : PinRegistry) : (r.claim pin purpose label).isDriven other = r.isDriven other := rfl

@[simp] theorem isDriven_release (pin other : Nat) (r : PinRegistry) :
    (r.release pin).isDriven other = r.isDriven other := rfl

@[simp] theorem role_setDriven (pin other : Nat) (on : Bool) (r : PinRegistry) :
    (r.setDriven pin on).role other = r.role other := by
  simp [role]

@[simp] theorem label?_setDriven (pin other : Nat) (on : Bool) (r : PinRegistry) :
    (r.setDriven pin on).label? other = r.label? other := by
  simp [label?]

end PinRegistry

end BusScript
