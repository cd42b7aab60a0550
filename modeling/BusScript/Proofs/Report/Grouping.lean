import BusScript.Report.Number
import Mathlib.Algebra.Ring.Nat

/-!
# Digits in groups

A number in hexadecimal is written byte by byte, and one in binary bit by bit. Either way its text
is that of its digits in groups that are counted from the last digit, with the sequences for numbers
and for plain text in front of the groups in turn.
-/

namespace BusScript

theorem toNat_lowBits (n : Nat) : (lowBits n).toNat = 2 ^ min n 32 - 1 := by
  have below : ∀ n < 32, ((1 <<< UInt32.ofNat n) - 1 : UInt32).toNat = 2 ^ n - 1 := by decide
  rw [lowBits]
  split
  next whole => rw [Nat.min_eq_right whole]; rfl
  next part => rw [Nat.min_eq_left (Nat.le_of_not_le part), below n (Nat.lt_of_not_le part)]

/-- The low bits of a word are its remainder. -/
theorem toNat_and_lowBits (value : UInt32) (n : Nat) :
    (value &&& lowBits n).toNat = value.toNat % 2 ^ min n 32 := by
  rw [UInt32.toNat_and, toNat_lowBits, Nat.and_two_pow_sub_one_eq_mod]

namespace Digits

/-- The `count` low digits of a number in groups of `size`, counted from the least significant
digit. Only the first group may be shorter. -/
def groups (base size count value : Nat) : List (List Char) :=
  (List.range ((count + size - 1) / size)).reverse.map fun i =>
    fixed base (min size (count - size * i)) (value / base.pow (size * i))

/-- Writes groups of digits, of which the first is highlighted and then every other one. -/
def alternate (p : Palette) : Bool → List (List Char) → List Char
  | _, [] => []
  | isOn, group :: later => p.highlight isOn ++ group ++ alternate p (!isOn) later

/-- The `n` low groups of `size` digits each. -/
def wholeGroups (base size value : Nat) : Nat → List (List Char)
  | 0 => []
  | n + 1 => fixed base size (value / base ^ (size * n)) :: wholeGroups base size value n

theorem fixed_add (base high low value : Nat) :
    fixed base (high + low) value =
      fixed base high (value / base ^ low) ++ fixed base low value := by
  induction low generalizing value with
  | zero => simp [fixed]
  | succ low induction =>
    rw [← Nat.add_assoc, fixed, fixed, induction, Nat.div_div_eq_div_mul, ← pow_succ',
      List.append_assoc]

theorem fixed_succ (base count value : Nat) :
    fixed base (count + 1) value = char (value / base ^ count % base) :: fixed base count value := by
  rw [Nat.add_comm, fixed_add]
  rfl

theorem fixed_mod (base count value : Nat) :
    fixed base count (value % base ^ count) = fixed base count value := by
  induction count generalizing value with
  | zero => rfl
  | succ count induction =>
    rw [fixed, fixed, pow_succ', Nat.mod_mul_right_div_self, induction, Nat.mod_mul_right_mod]

theorem flatten_groups {size : Nat} (size_pos : 0 < size) (base count value : Nat) :
    (groups base size count value).flatten = fixed base count value := by
  -- Groups are counted from the low end, and only the highest may be shorter than the others.
  have flatten_range (n : Nat) :
      ((List.range n).reverse.map fun i =>
        fixed base (min size (count - size * i)) (value / base.pow (size * i))).flatten =
      fixed base (min count (size * n)) value := by
    induction n with
    | zero => simp [fixed]
    | succ n induction =>
      rw [List.range_succ, List.reverse_append, List.reverse_singleton, List.singleton_append,
        List.map_cons, List.flatten_cons, induction, Nat.mul_succ]
      by_cases covered : count ≤ size * n
      · rw [Nat.sub_eq_zero_of_le covered, Nat.min_zero, Nat.min_eq_left covered,
          Nat.min_eq_left (by omega)]
        rfl
      · rw [Nat.min_eq_right (Nat.le_of_not_le covered),
          show min count (size * n + size) = min size (count - size * n) + size * n by omega,
          fixed_add]
        rfl
  have enough : count ≤ size * ((count + size - 1) / size) := by
    have remainder_lt := Nat.mod_lt (count + size - 1) size_pos
    have divided := Nat.div_add_mod (count + size - 1) size
    omega
  rw [groups, flatten_range, Nat.min_eq_left enough]

theorem alternate_plain (isOn : Bool) (groups : List (List Char)) :
    alternate .plain isOn groups = groups.flatten := by
  induction groups generalizing isOn with
  | nil => rfl
  | cons group later induction =>
    rw [alternate, induction, List.flatten_cons]
    cases isOn <;> rfl

theorem groups_add {size left : Nat} (left_pos : 1 ≤ left) (left_le : left ≤ size)
    (base n value : Nat) :
    groups base size (size * n + left) value =
      fixed base left (value / base ^ (size * n)) :: wholeGroups base size value n := by
  have later_eq {m : Nat} (inside : m ≤ n) :
      ((List.range m).reverse.map fun i =>
        fixed base (min size (size * n + left - size * i)) (value / base.pow (size * i))) =
      wholeGroups base size value m := by
    induction m with
    | zero => rfl
    | succ m induction =>
      have whole : size * m + size ≤ size * n :=
        Nat.mul_succ size m ▸ Nat.mul_le_mul_left size inside
      rw [List.range_succ, List.reverse_append, List.reverse_singleton, List.singleton_append,
        List.map_cons, induction (Nat.le_of_succ_le inside), Nat.min_eq_left (by omega)]
      rfl
  have number_eq : (size * n + left + size - 1) / size = n + 1 := by
    refine Nat.div_eq_of_lt_le ?_ ?_
    · rw [Nat.succ_mul, Nat.mul_comm]
      omega
    · rw [Nat.succ_mul, Nat.succ_mul, Nat.mul_comm n]
      omega
  rw [groups, number_eq, List.range_succ, List.reverse_append, List.reverse_singleton,
    List.singleton_append, List.map_cons, later_eq (Nat.le_refl n), Nat.add_sub_cancel_left,
    Nat.min_eq_right left_le]
  rfl

end Digits

namespace Report

open Digits

theorem shownWidth_pos (bits : Nat) : 1 ≤ shownWidth bits :=
  Nat.le_max_left _ _

theorem shownWidth_le (bits : Nat) : shownWidth bits ≤ 32 := by
  rw [shownWidth]
  omega

theorem toNat_shiftRight_and {word mask : UInt32} {shift n : Nat} (shift_lt : shift < 32)
    (mask_eq : mask.toNat = 2 ^ n - 1) :
    ((word >>> UInt32.ofNat shift) &&& mask).toNat = word.toNat / 2 ^ shift % 2 ^ n := by
  have shift_eq : (UInt32.ofNat shift).toNat % 32 = shift := by
    rw [UInt32.toNat_ofNat_of_lt' (Nat.lt_trans shift_lt (by decide)), Nat.mod_eq_of_lt shift_lt]
  rw [UInt32.toNat_and, UInt32.toNat_shiftRight, shift_eq, mask_eq, Nat.and_two_pow_sub_one_eq_mod,
    Nat.shiftRight_eq_div_pow]

theorem bitChar_eq (word : UInt32) {i : Nat} (i_lt : i < 32) :
    bitChar word i = char (word.toNat / 2 ^ i % 2) := by
  have bit_eq : ((word >>> UInt32.ofNat i) &&& 1).toNat = word.toNat / 2 ^ i % 2 :=
    toNat_shiftRight_and (n := 1) i_lt rfl
  have one_iff : (word >>> UInt32.ofNat i) &&& 1 = 1 ↔ word.toNat / 2 ^ i % 2 = 1 := by
    rw [← bit_eq, ← UInt32.toNat_inj]
    rfl
  rw [bitChar, if_congr one_iff rfl rfl]
  rcases Nat.mod_two_eq_zero_or_one (word.toNat / 2 ^ i) with zero | one
  · rw [zero]
    rfl
  · rw [one]
    rfl

variable (p : Palette) (word : UInt32)

/-- Bytes that are written one after the other are groups of two digits. -/
theorem hexBytes_eq {n : Nat} (n_le : n ≤ 4) (isOn : Bool) :
    hexBytes p word isOn n = alternate p isOn (wholeGroups 16 2 word.toNat n) := by
  induction n generalizing isOn with
  | zero => rfl
  | succ n induction =>
    have byte_eq : ((word >>> UInt32.ofNat (n * 8)) &&& 0xff).toNat =
        word.toNat / 16 ^ (2 * n) % 16 ^ 2 := by
      have place_eq : 16 ^ (2 * n) = 2 ^ (n * 8) := by
        rw [show (16 : Nat) = 2 ^ 4 from rfl, ← Nat.pow_mul, show 4 * (2 * n) = n * 8 by omega]
      rw [place_eq]
      exact toNat_shiftRight_and (n := 8) (by omega) rfl
    rw [hexBytes, induction (Nat.le_of_succ_le n_le), byte_eq, fixed_mod, wholeGroups, alternate]

/-- Bits that are written one by one are the digits of a nibble and then of whole nibbles. -/
theorem binDigits_eq {left n : Nat} (inside : 4 * n + left ≤ 32) (isOn : Bool) :
    binDigits p word isOn left (4 * n + left) =
      fixed 2 left (word.toNat / 2 ^ (4 * n)) ++
        alternate p (!isOn) (wholeGroups 2 4 word.toNat n) := by
  have bit_cons {left n : Nat} (inside : 4 * n + left < 32) :
      bitChar word (4 * n + left) :: fixed 2 left (word.toNat / 2 ^ (4 * n)) =
        fixed 2 (left + 1) (word.toNat / 2 ^ (4 * n)) := by
    rw [fixed_succ, bitChar_eq word inside, Nat.div_div_eq_div_mul, ← Nat.pow_add]
  have more {left n : Nat} {isOn : Bool} {later : List Char} (inside : 4 * n + left < 32)
      (rest_eq : binDigits p word isOn left (4 * n + left) =
        fixed 2 left (word.toNat / 2 ^ (4 * n)) ++ later) :
      bitChar word (4 * n + left) :: binDigits p word isOn left (4 * n + left) =
        fixed 2 (left + 1) (word.toNat / 2 ^ (4 * n)) ++ later := by
    rw [rest_eq, ← bit_cons inside, List.cons_append]
  induction n generalizing left isOn with
  | zero =>
    induction left with
    | zero => rfl
    | succ left induction => exact more inside (induction (Nat.le_of_succ_le inside))
  | succ n whole =>
    induction left with
    | zero =>
      rw [Nat.mul_succ] at inside
      have nibble := more (show 4 * n + 3 < 32 by omega) (whole (by omega) (!isOn))
      rw [wholeGroups, alternate]
      show p.highlight (!isOn) ++ bitChar word (4 * n + 3) ::
        binDigits p word (!isOn) 3 (4 * n + 3) = _
      rw [nibble, ← List.append_assoc]
      rfl
    | succ left induction => exact more inside (induction (Nat.le_of_succ_le inside))

/-- A number in hexadecimal is its digits in bytes, as many as the bits begin. -/
theorem hexNumber_eq {bits : Nat} (bits_pos : 1 ≤ bits) (bits_le : bits ≤ 32) :
    hexNumber p bits word =
      ['0', 'x'] ++ alternate p true (groups 16 2 (2 * ((bits + 7) / 8)) word.toNat) ++ p.reset := by
  have bytes_eq : nextMultiple (ceilDiv bits 4) 2 / 2 = (bits + 7) / 8 := by
    rw [nextMultiple, ceilDiv]
    split <;> split <;> omega
  obtain ⟨n, number_eq⟩ : ∃ n, (bits + 7) / 8 = n + 1 := ⟨(bits + 7) / 8 - 1, by omega⟩
  have groups_eq : groups 16 2 (2 * (n + 1)) word.toNat = wholeGroups 16 2 word.toNat (n + 1) :=
    groups_add (by decide) (Nat.le_refl 2) 16 n word.toNat
  rw [hexNumber, bytes_eq, number_eq, groups_eq, ← hexBytes_eq p word (by omega)]

/-- A number in binary is its digits in nibbles, of which only the first may be shorter. -/
theorem binNumber_eq {bits : Nat} (bits_pos : 1 ≤ bits) (bits_le : bits ≤ 32) :
    binNumber p bits word =
      ['0', 'b'] ++ alternate p true (groups 2 4 bits word.toNat) ++ p.reset := by
  obtain ⟨n, left, left_pos, left_le, rfl⟩ : ∃ n left, 1 ≤ left ∧ left ≤ 4 ∧ bits = 4 * n + left :=
    ⟨(bits - 1) / 4, (bits - 1) % 4 + 1, by omega, by omega, by omega⟩
  have left_eq : (if (4 * n + left) % 4 = 0 then 4 else (4 * n + left) % 4) = left := by
    split <;> omega
  rw [binNumber, left_eq, binDigits_eq p word bits_le, groups_add left_pos left_le, alternate]
  simp only [List.append_assoc, Bool.not_true]

end Report

end BusScript
