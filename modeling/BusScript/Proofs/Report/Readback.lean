import BusScript.Proofs.Report.Grouping
import BusScript.Proofs.Script.Acceptance

/-!
# Numbers that are read back

The numbers of a report without colours are literals of the script language: written one after the
other, with separators between them, they compile to a write of every value, in the notation and the
width in which it was shown.
-/

namespace BusScript

/-- The notation of the digits that a value is shown with. -/
def Display.radix : Display → Radix
  | .auto | .hex | .ascii => .hex
  | .dec => .dec
  | .bin => .bin

/-! ### Digits -/

namespace Digits

/-- The low digits of a number are a numeral for what is left of it. -/
theorem isNumeral_fixed {base : Nat} (base_pos : 0 < base) (count value : Nat) :
    IsNumeral base (value % base ^ (count + 1)) (fixed base (count + 1) value) := by
  have is_digit (value : Nat) : IsDigit base (value % base) (char (value % base)) :=
    ⟨Nat.mod_lt _ base_pos, .inr rfl⟩
  induction count generalizing value with
  | zero =>
    rw [Nat.zero_add, pow_one]
    exact (is_digit value).isNumeral
  | succ count induction =>
    rw [fixed, pow_succ', Nat.mod_mul, Nat.add_comm]
    exact (induction _).append_digit (is_digit value)

theorem isNumeral_fixed_of_lt {base count n : Nat} (base_pos : 0 < base) (count_pos : 0 < count)
    (fits : n < base ^ count) : IsNumeral base n (fixed base count n) := by
  obtain ⟨count, rfl⟩ := Nat.exists_eq_succ_of_ne_zero count_pos.ne'
  have numeral := isNumeral_fixed base_pos count n
  rwa [Nat.mod_eq_of_lt fits] at numeral

theorem lt_pow_of_lt_two_pow {bits n : Nat} (n_lt : n < 2 ^ bits) :
    n < 16 ^ (2 * ((bits + 7) / 8)) :=
  calc
    n < 2 ^ bits := n_lt
    _ ≤ 2 ^ (4 * (2 * ((bits + 7) / 8))) := Nat.pow_le_pow_right (by decide) (by omega)
    _ = 16 ^ (2 * ((bits + 7) / 8)) := Nat.pow_mul 2 4 _

end Digits

namespace Report

/-- A value that is shown as a number alone. -/
structure Shown where
  value : UInt32
  bits : Nat
  display : Display
  bits_pos : 1 ≤ bits
  /-- The width is that of a word at most. -/
  bits_le : bits ≤ 32
  /-- No character stands in front of the number. -/
  unquoted : display ≠ .ascii

namespace Shown

/-- The number of a value, without colours. -/
def text (x : Shown) : List Char :=
  number .plain x.display x.bits x.value

/-- The part of a value that is shown. -/
def word (x : Shown) : UInt32 :=
  x.value &&& lowBits x.bits

/-- The write that a shown value is read back as. -/
def write (x : Shown) : Instruction :=
  { Instruction.write x.word x.display.radix x.bits with hasBits := decide (x.bits ≠ 8) }

/-- The token that a shown value is. -/
def token (x : Shown) : Token :=
  .value ⟨x.word, x.display.radix⟩ { bits := if x.bits = 8 then none else some x.bits }

end Shown

end Report

end BusScript
