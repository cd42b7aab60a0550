import BusScript.Proofs.Script.Numeral
import BusScript.Script.Token

/-!
# Literals that fit a word

A literal is read exactly if there are digits behind its mark and all of them, as far as they go,
denote a number that fits a word. Reading gives up at the first digit with which the number does not
fit any more. The digits behind it cannot make the number smaller, so the answer is that for all of
them; and up to there, no product and no sum runs out of a word.
-/

namespace BusScript

theorem Radix.Mark.eq_nil_or_length_eq_two {radix : Radix} {mark : List Char}
    (marked : radix.Mark mark) : mark = [] ∨ mark.length = 2 := by
  cases marked with
  | hex | upperHex | bin | upperBin => exact .inr rfl
  | dec => exact .inl rfl

namespace Literal

/-- How a text is divided where a literal may begin: a mark, as many digits of its notation as there
are, and what is behind them. Without any other mark the notation is decimal. -/
structure Division (text : List Char) (radix : Radix) (mark block tail : List Char)
    (digits : List Nat) : Prop where
  text_eq : text = mark ++ (block ++ tail)
  marked : radix.Mark mark
  longest : ∀ (other : Radix) (more : List Char), other.Mark more → more <+: text →
    more.length ≤ mark.length
  spelled : List.Forall₂ (IsDigit radix.base) digits block
  stops : Stops radix.base tail

/-- Every text can be divided so. -/
theorem exists_division (text : List Char) :
    ∃ radix mark block tail digits, Division text radix mark block tail digits := by
  have found : ∃ (radix : Radix) (mark : List Char), radix.Mark mark ∧ mark <+: text ∧
      ∀ (other : Radix) (more : List Char), other.Mark more → more <+: text →
        more.length ≤ mark.length := by
    by_cases announced : ∃ (radix : Radix) (mark : List Char), radix.Mark mark ∧ mark <+: text ∧
        mark ≠ []
    · obtain ⟨radix, mark, marked, front, nonempty⟩ := announced
      have length_eq := marked.eq_nil_or_length_eq_two.resolve_left nonempty
      refine ⟨radix, mark, marked, front, fun other more otherMarked _ => ?_⟩
      rcases otherMarked.eq_nil_or_length_eq_two with rfl | more_eq
      · exact Nat.zero_le _
      · rw [more_eq, length_eq]
    · refine ⟨.dec, [], .dec, List.nil_prefix, fun other more otherMarked front => ?_⟩
      by_contra longer
      exact announced ⟨other, more, otherMarked, front, by rintro rfl; exact longer (Nat.le_refl 0)⟩
  obtain ⟨radix, mark, marked, ⟨behind, text_eq⟩, longest⟩ := found
  obtain ⟨digits, block, tail, rfl, spelled, stops⟩ := exists_digits radix.base behind
  exact ⟨radix, mark, block, tail, digits, text_eq.symm, marked, longest, spelled, stops⟩

/-- The number that the first `k` of some digits denote. -/
def valueUpTo (base : Nat) (digits : List Nat) (k : Nat) : Nat :=
  Nat.ofDigits base (digits.take k).reverse

theorem valueUpTo_succ {base k digit : Nat} {digits : List Nat}
    (digit_eq : digits[k]? = some digit) :
    valueUpTo base digits (k + 1) = valueUpTo base digits k * base + digit := by
  rw [valueUpTo, List.take_add_one, digit_eq, Option.toList_some, List.reverse_append,
    List.reverse_singleton, List.singleton_append, Nat.ofDigits_cons, Nat.add_comm, Nat.mul_comm]
  rfl

theorem valueUpTo_length (base : Nat) (digits : List Nat) :
    valueUpTo base digits digits.length = Nat.ofDigits base digits.reverse := by
  rw [valueUpTo, List.take_length]

/-- Further digits do not make a number smaller. -/
theorem monotone_valueUpTo {base : Nat} (base_pos : 0 < base) (digits : List Nat) :
    Monotone (valueUpTo base digits) := by
  refine monotone_nat_of_le_succ fun k => ?_
  cases digit_eq : digits[k]? with
  | none =>
    have beyond := List.getElem?_eq_none_iff.mp digit_eq
    rw [valueUpTo, valueUpTo, List.take_of_length_le beyond,
      List.take_of_length_le (beyond.trans (Nat.le_succ k))]
  | some digit =>
    rw [valueUpTo_succ digit_eq]
    exact (Nat.le_mul_of_pos_right _ base_pos).trans (Nat.le_add_right _ _)

theorem appendDigit?_valueUpTo {base k digit : Nat} {digits : List Nat}
    (digit_eq : digits[k]? = some digit) :
    appendDigit? base (valueUpTo base digits k) digit =
      if valueUpTo base digits (k + 1) < 2 ^ 32 then some (valueUpTo base digits (k + 1))
      else none := by
  rw [valueUpTo_succ digit_eq]
  rfl

namespace Division

variable {text : List Char} {radix : Radix} {mark block tail : List Char} {digits : List Nat}

/-- One digit: reading goes on behind it with it appended, or gives up. -/
theorem readDigits?_drop (division : Division text radix mark block tail digits) {k digit : Nat}
    (digit_eq : digits[k]? = some digit) :
    readDigits? radix.base (valueUpTo radix.base digits k) k (block.drop k ++ tail) =
      if valueUpTo radix.base digits (k + 1) < 2 ^ 32 then
        readDigits? radix.base (valueUpTo radix.base digits (k + 1)) (k + 1)
          (block.drop (k + 1) ++ tail)
      else none := by
  obtain ⟨inside, rfl⟩ := List.getElem?_eq_some_iff.mp digit_eq
  have inside' : k < block.length := division.spelled.length_eq ▸ inside
  have is_digit : IsDigit radix.base digits[k] block[k] := division.spelled.get inside inside'
  have read_eq := (digit?_eq_some_iff division.marked.base_le.2).mpr is_digit
  rw [List.drop_eq_getElem_cons inside', List.cons_append, readDigits?, read_eq]
  simp only [appendDigit?_valueUpTo digit_eq]
  by_cases fits : valueUpTo radix.base digits (k + 1) < 2 ^ 32
  · rw [if_pos fits, if_pos fits]
  · rw [if_neg fits, if_neg fits]

/-- While the number fits a word, reading comes to a digit with that of the digits in front. -/
theorem readDigits?_valueUpTo (division : Division text radix mark block tail digits) {k : Nat}
    (k_le : k ≤ block.length) (fits : valueUpTo radix.base digits k < 2 ^ 32) :
    readDigits? radix.base 0 0 (block ++ tail) =
      readDigits? radix.base (valueUpTo radix.base digits k) k (block.drop k ++ tail) := by
  induction k with
  | zero => rfl
  | succ k induction =>
    have inside : k < digits.length := division.spelled.length_eq ▸ k_le
    have smaller := monotone_valueUpTo division.marked.base_le.1 digits (Nat.le_succ k)
    rw [induction (Nat.le_of_succ_le k_le) (smaller.trans_lt fits),
      division.readDigits?_drop (List.getElem?_eq_getElem inside), if_pos fits]

theorem mark?_eq (division : Division text radix mark block tail digits)
    (decimal : ∃ c ∈ text.head?, c.isDigit = true) :
    mark? text = some { radix := radix, base := radix.base, length := mark.length } := by
  obtain ⟨text_eq, marked, longest, -, -⟩ := division
  cases marked with
  | hex | upperHex | bin | upperBin =>
    subst text_eq
    rfl
  | dec =>
    obtain ⟨c, head_eq, is_digit⟩ := decimal
    obtain ⟨rest, rfl⟩ := List.head?_eq_some_iff.mp head_eq
    -- Any other mark would be longer than none.
    have not_announced {other : Radix} {letter : Char} (marks : other.Mark ['0', letter])
        (zero : c = '0') : rest.head? ≠ some letter := by
      intro letter_eq
      obtain ⟨later, rfl⟩ := List.head?_eq_some_iff.mp letter_eq
      exact absurd (longest _ _ marks ⟨later, zero ▸ rfl⟩) (Nat.not_succ_le_zero 1)
    rw [mark?, if_neg, if_neg, if_pos is_digit]
    · rfl
    · rintro ⟨zero, announced | announced⟩
      · exact not_announced .bin zero announced
      · exact not_announced .upperBin zero announced
    · rintro ⟨zero, announced | announced⟩
      · exact not_announced .hex zero announced
      · exact not_announced .upperHex zero announced

/-- The digits behind the mark are read as far as they go, if the number they denote fits a word. -/
theorem readDigits?_eq (division : Division text radix mark block tail digits) :
    readDigits? radix.base 0 0 (block ++ tail) =
      if Nat.ofDigits radix.base digits.reverse < 2 ^ 32 then
        some (Nat.ofDigits radix.base digits.reverse, block.length)
      else none := by
  obtain ⟨base_pos, base_le⟩ := division.marked.base_le
  have read_eq : readDigits? radix.base 0 0 (block ++ tail) = _ :=
    readDigits?_append base_pos base_le (by decide) division.spelled division.stops
  rwa [Nat.zero_mul, Nat.zero_add, Nat.zero_add] at read_eq

/-- What is read is decided by all the digits behind the mark. -/
theorem read?_eq (division : Division text radix mark block tail digits)
    (decimal : ∃ c ∈ text.head?, c.isDigit = true) :
    read? text =
      if block ≠ [] ∧ Nat.ofDigits radix.base digits.reverse < 2 ^ 32 then
        some (⟨UInt32.ofNat (Nat.ofDigits radix.base digits.reverse), radix⟩,
          mark.length + block.length)
      else none := by
  have behind_eq : text.drop mark.length = block ++ tail := by
    rw [division.text_eq, List.drop_left]
  simp only [read?, division.mark?_eq decimal, Option.bind_eq_bind, Option.bind_some, behind_eq,
    division.readDigits?_eq]
  by_cases fits : Nat.ofDigits radix.base digits.reverse < 2 ^ 32
  · rw [if_pos fits, Option.bind_some]
    simp only [List.length_eq_zero_iff, fits, and_true, ne_eq, ite_not]
  · rw [if_neg fits, Option.bind_none, if_neg fun both => fits both.2]

example : read? "0x00000ffffffff,".toList = some (⟨0xffffffff, .hex⟩, 15) ∧
    read? "4294967296".toList = none := by decide

/-- A digit is appended by a product and a sum that fit a word, or the number that all the digits
denote does not fit one and nothing is read. -/
theorem appends_or_gives_up (division : Division text radix mark block tail digits) {k digit : Nat}
    (digit_eq : digits[k]? = some digit) :
    let value := valueUpTo radix.base digits k
    (value * radix.base < 2 ^ 32 ∧ value * radix.base + digit < 2 ^ 32 ∧
        appendDigit? radix.base value digit = some (value * radix.base + digit)) ∨
      (appendDigit? radix.base value digit = none ∧
        readDigits? radix.base 0 0 (block ++ tail) = none ∧
        2 ^ 32 ≤ Nat.ofDigits radix.base digits.reverse) := by
  intro value
  have next_eq : valueUpTo radix.base digits (k + 1) = value * radix.base + digit :=
    valueUpTo_succ digit_eq
  have appended : appendDigit? radix.base value digit = _ := appendDigit?_valueUpTo digit_eq
  rw [next_eq] at appended
  by_cases fits : value * radix.base + digit < 2 ^ 32
  · rw [if_pos fits] at appended
    exact .inl ⟨(Nat.le_add_right _ _).trans_lt fits, fits, appended⟩
  · rw [if_neg fits] at appended
    have inside := (List.getElem?_eq_some_iff.mp digit_eq).1
    have whole_ge := monotone_valueUpTo division.marked.base_le.1 digits (Nat.succ_le_of_lt inside)
    rw [valueUpTo_length, Nat.succ_eq_add_one, next_eq] at whole_ge
    have large := (Nat.le_of_not_lt fits).trans whole_ge
    exact .inr ⟨appended, by rw [division.readDigits?_eq, if_neg large.not_gt], large⟩

end Division

theorem read?_eq_none_of_not_isDigit {text : List Char}
    (no_digit : ¬∃ c ∈ text.head?, c.isDigit = true) : read? text = none := by
  have no_mark : mark? text = none := by
    cases text with
    | nil => rfl
    | cons c rest =>
      have other : ¬c.isDigit = true := fun is_digit => no_digit ⟨c, rfl, is_digit⟩
      have not_zero : c ≠ '0' := by
        rintro rfl
        exact other rfl
      simp [mark?, other, not_zero]
  simp [read?, no_mark]

end Literal

/-- A number is read as the literal at the beginning and the attributes behind it. -/
theorem Token.readValue_eq_literal (i : Input) :
    Token.readValue i =
      match i.literal with
      | (none, rest) => .error { reason := .badNumber i.tokenPosition, input := rest }
      | (some l, rest) =>
        (Token.readAttributes i.tokenPosition rest).map fun (attributes, rest) =>
          (.value l attributes, rest) := by
  rw [Token.readValue]
  obtain ⟨literal, rest⟩ := i.literal
  cases literal with
  | none => rfl
  | some l =>
    simp only
    cases Token.readAttributes i.tokenPosition rest <;> rfl

namespace Input

open Literal

/-- A literal is read exactly if all the digits behind its mark denote the value of a word, and
no product or sum that reading it takes overflows one. -/
theorem literal_decided (i : Input) :
    (∀ l rest, i.literal = (some l, rest) ↔
      (∃ c ∈ i.rest.head?, c.isDigit = true) ∧ ∃ mark block tail digits,
        Division i.rest l.radix mark block tail digits ∧ block ≠ [] ∧
          Nat.ofDigits l.radix.base digits.reverse = l.value.toNat ∧
          rest = i.advance (mark.length + block.length)) ∧
      (∀ rest, i.literal = (none, rest) → rest = i) ∧
      (∀ radix mark block tail digits, Division i.rest radix mark block tail digits →
        let value := valueUpTo radix.base digits
        (∀ k ≤ block.length, value k < 2 ^ 32 → readDigits? radix.base 0 0 (block ++ tail) =
          readDigits? radix.base (value k) k (block.drop k ++ tail)) ∧
        ∀ k digit, digits[k]? = some digit →
          (value k * radix.base < 2 ^ 32 ∧ value k * radix.base + digit < 2 ^ 32 ∧
            appendDigit? radix.base (value k) digit = some (value k * radix.base + digit)) ∨
          (appendDigit? radix.base (value k) digit = none ∧
            readDigits? radix.base 0 0 (block ++ tail) = none ∧
            2 ^ 32 ≤ Nat.ofDigits radix.base digits.reverse)) ∧
      (Token.readValue i =
        match i.literal with
        | (none, rest) => .error { reason := .badNumber i.tokenPosition, input := rest }
        | (some l, rest) =>
          (Token.readAttributes i.tokenPosition rest).map fun (attributes, rest) =>
            (.value l attributes, rest)) ∧
      Attributes.readValue i =
        match (i.advance 1).literal with
        | (none, rest) => .error rest
        | (some l, rest) => .ok (l.value.toNat, rest) := by
  refine ⟨fun l rest => ⟨fun found => ?_, ?_⟩, fun rest nothing => ?_,
    fun radix mark block tail digits division => ⟨fun k k_le fits =>
      division.readDigits?_valueUpTo k_le fits, fun k digit digit_eq =>
      division.appends_or_gives_up digit_eq⟩, Token.readValue_eq_literal i, rfl⟩
  · rw [literal] at found
    split at found
    next => cases found
    next read_eq =>
      cases found
      by_cases decimal : ∃ c ∈ i.rest.head?, c.isDigit = true
      · obtain ⟨radix, mark, block, tail, digits, division⟩ := exists_division i.rest
        rw [division.read?_eq decimal] at read_eq
        split at read_eq
        next both =>
          cases read_eq
          exact ⟨decimal, mark, block, tail, digits, division, both.1,
            (UInt32.toNat_ofNat_of_lt' both.2).symm, rfl⟩
        next => contradiction
      · rw [read?_eq_none_of_not_isDigit decimal] at read_eq
        contradiction
  · rintro ⟨decimal, mark, block, tail, digits, division, nonempty, value_eq, rfl⟩
    have fits : Nat.ofDigits l.radix.base digits.reverse < 2 ^ 32 :=
      value_eq ▸ l.value.toNat_lt
    rw [literal, division.read?_eq decimal, if_pos ⟨nonempty, fits⟩, value_eq,
      UInt32.ofNat_toNat]
  · rw [literal] at nothing
    split at nothing
    next =>
      cases nothing
      rfl
    next => cases nothing

end Input

end BusScript
