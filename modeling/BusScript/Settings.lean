import BusScript.Instruction

/-!
# Settings

What a session is told once and for all, and the ranges outside of which it does not open.
-/

namespace BusScript

/-- How values are shown. -/
inductive Display where
  /-- Writes the way they were written, reads in hexadecimal. -/
  | auto
  | hex
  | dec
  | bin
  /-- As a character, with the hexadecimal value beside it. -/
  | ascii
deriving DecidableEq, Repr, Inhabited

/-- The display that shows values in the given notation. -/
def Radix.display : Radix → Display
  | .hex => .hex
  | .dec => .dec
  | .bin => .bin
  | .ascii => .ascii

/-- What every phase of a session reads and none changes. -/
structure Settings where
  /-- The width of a value whose width the script does not give. -/
  bits : Nat := 8
  display : Display := .auto
  /-- The number of pins a script can name. -/
  pins : Nat := 8
  /-- The number of slots of a run, the last of which is kept for a final remark. -/
  capacity : Nat := Program.defaultCapacity
  color : Bool := false
deriving DecidableEq, Repr, Inhabited

/-- Why a session does not open. -/
inductive SettingsError where
  /-- The default width is no width of a word. -/
  | bits (n : Nat)
  /-- There are no pins, or more than the register of driven pins has bits. -/
  | pins (n : Nat)
  /-- There is no slot beside the one for the final remark. -/
  | capacity (n : Nat)
deriving DecidableEq, Repr

/-- The text shown to the user. -/
def SettingsError.message : SettingsError → String
  | .bits n => s!"default bit width {n} is out of range, expected 1-32"
  | .pins n => s!"pin count {n} is out of range, expected 1-32"
  | .capacity n => s!"slot capacity {n} is too small"

namespace Settings

/-- Widths and pins lie within a word, and there is room for at least one result. -/
structure Valid (s : Settings) : Prop where
  /-- A default width is positive. -/
  bits_pos : 1 ≤ s.bits
  /-- A default width fits a word. -/
  bits_le : s.bits ≤ 32
  /-- There is a pin. -/
  pins_pos : 1 ≤ s.pins
  /-- Every pin has a bit in the register of driven pins. -/
  pins_le : s.pins ≤ 32
  /-- One slot is left beside the final one. -/
  two_le_capacity : 2 ≤ s.capacity

/-- The first setting that is out of range, in the order width, pins, capacity. -/
def fault? (s : Settings) : Option SettingsError :=
  if s.bits < 1 ∨ 32 < s.bits then some (.bits s.bits)
  else if s.pins < 1 ∨ 32 < s.pins then some (.pins s.pins)
  else if s.capacity < 2 then some (.capacity s.capacity)
  else none

theorem fault?_eq_none_iff {s : Settings} : s.fault? = none ↔ s.Valid := by
  unfold fault?
  constructor
  · intro fault
    split at fault
    · contradiction
    · split at fault
      · contradiction
      · split at fault
        · contradiction
        · constructor <;> omega
  · intro valid
    obtain ⟨_, _, _, _, _⟩ := valid
    rw [if_neg (by omega), if_neg (by omega), if_neg (by omega)]

end Settings

end BusScript
