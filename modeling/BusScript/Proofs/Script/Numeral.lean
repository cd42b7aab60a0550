import BusScript.Script.Literal
import Mathlib.Data.List.Forall2
import Mathlib.Data.Nat.Digits.Defs
import Mathlib.Tactic.Ring

/-!
# Literals and the digits they are written with

A literal is the mark of its notation, if it has one, and the digits of its value in the base of
that notation. `Literal.read?` takes the longest literal that a text begins with.
-/

namespace BusScript

/-- The digit of a base that a character stands for. Letters may be in either case. -/
def IsDigit (base digit : Nat) (c : Char) : Prop :=
  digit < base ∧ (c = digit.digitChar ∨ c = digit.digitChar.toUpper)

private theorem digit?_hex_of_code : ∀ code < 128, ∀ digit < 16,
    digit? 16 (Char.ofNat code) = some digit →
      Char.ofNat code = digit.digitChar ∨ Char.ofNat code = digit.digitChar.toUpper := by
  decide +kernel

private theorem digit?_hex_of_digit : ∀ digit < 16,
    digit? 16 digit.digitChar = some digit ∧ digit? 16 digit.digitChar.toUpper = some digit := by
  decide +kernel

theorem toNat_lt_of_digit? {base digit : Nat} {c : Char} (found : digit? base c = some digit) :
    c.toNat < 128 := by
  rw [digit?, Option.filter_eq_some_iff] at found
  obtain ⟨value_eq, -⟩ := found
  split at value_eq
  next decimal =>
    have c_le : c.val ≤ '9'.val := by
      rw [Char.isDigit, Bool.and_eq_true] at decimal
      exact of_decide_eq_true decimal.2
    exact Nat.lt_of_le_of_lt (show c.toNat ≤ '9'.toNat from c_le) (by decide)
  next =>
    split at value_eq
    next lower => exact Nat.lt_of_le_of_lt (show c.toNat ≤ 'f'.toNat from lower.2) (by decide)
    next =>
      split at value_eq
      next upper => exact Nat.lt_of_le_of_lt (show c.toNat ≤ 'F'.toNat from upper.2) (by decide)
      next => contradiction

theorem digit?_eq_some_iff {base digit : Nat} {c : Char} (base_le : base ≤ 16) :
    digit? base c = some digit ↔ IsDigit base digit c := by
  have narrow : digit? base c = some digit ↔ digit < base ∧ digit? 16 c = some digit := by
    simp only [digit?, Option.filter_eq_some_iff, decide_eq_true_eq]
    constructor
    · rintro ⟨value_eq, digit_lt⟩
      exact ⟨digit_lt, value_eq, by omega⟩
    · rintro ⟨digit_lt, value_eq, -⟩
      exact ⟨value_eq, digit_lt⟩
  rw [narrow, IsDigit]
  refine and_congr_right fun digit_lt => ?_
  constructor
  · intro found
    have spelled := digit?_hex_of_code c.toNat (toNat_lt_of_digit? found) digit (by omega)
    rw [Char.ofNat_toNat] at spelled
    exact spelled found
  · rintro (rfl | rfl)
    · exact (digit?_hex_of_digit digit (by omega)).1
    · exact (digit?_hex_of_digit digit (by omega)).2

/-- A text whose first character, if any, is no digit of the base. -/
def Stops (base : Nat) (text : List Char) : Prop :=
  ∀ c ∈ text.head?, ∀ digit, ¬IsDigit base digit c

theorem digit?_eq_none_of_stops {base : Nat} {c : Char} {rest : List Char} (base_le : base ≤ 16)
    (stops : Stops base (c :: rest)) : digit? base c = none := by
  cases found : digit? base c with
  | none => rfl
  | some digit => exact absurd ((digit?_eq_some_iff base_le).mp found) (stops c rfl digit)

namespace Literal

/-- Reading a whole block of digits gives their number, or nothing if that fits no word. -/
theorem readDigits?_append {base value count : Nat} {digits : List Nat} {chars rest : List Char}
    (base_pos : 0 < base) (base_le : base ≤ 16) (value_lt : value < wordSize)
    (spelled : List.Forall₂ (IsDigit base) digits chars) (stops : Stops base rest) :
    readDigits? base value count (chars ++ rest) =
      if value * base ^ chars.length + Nat.ofDigits base digits.reverse < wordSize then
        some (value * base ^ chars.length + Nat.ofDigits base digits.reverse, count + chars.length)
      else none := by
  induction spelled generalizing value count with
  | nil =>
    have end_eq : readDigits? base value count rest = some (value, count) := by
      cases rest with
      | nil => rfl
      | cons c rest => rw [readDigits?, digit?_eq_none_of_stops base_le stops]
    simp [end_eq, value_lt]
  | @cons digit c digits chars first spelled induction =>
    have total_eq : value * base ^ (c :: chars).length +
          Nat.ofDigits base (digit :: digits).reverse =
        (value * base + digit) * base ^ chars.length + Nat.ofDigits base digits.reverse := by
      rw [Nat.ofDigits_reverse_cons, spelled.length_eq, List.length_cons, pow_succ]
      ring
    rw [List.cons_append, readDigits?, (digit?_eq_some_iff base_le).mpr first, total_eq]
    by_cases fits : value * base + digit < wordSize
    · simp only [appendDigit?, if_pos fits, induction fits, List.length_cons]
      rw [Nat.add_assoc count 1, Nat.add_comm 1]
    · have grows : value * base + digit ≤ (value * base + digit) * base ^ chars.length :=
        Nat.le_mul_of_pos_right _ (Nat.pow_pos base_pos)
      simp only [appendDigit?, if_neg fits]
      rw [if_neg (by omega)]

/-- Every text begins with a block of digits that nothing continues. -/
theorem exists_digits (base : Nat) (text : List Char) :
    ∃ digits chars rest, text = chars ++ rest ∧ List.Forall₂ (IsDigit base) digits chars ∧
      Stops base rest := by
  induction text with
  | nil => exact ⟨[], [], [], rfl, .nil, by simp [Stops]⟩
  | cons c text induction =>
    by_cases first : ∃ digit, IsDigit base digit c
    · obtain ⟨digit, is_digit⟩ := first
      obtain ⟨digits, chars, rest, rfl, spelled, stops⟩ := induction
      exact ⟨digit :: digits, c :: chars, rest, rfl, .cons is_digit spelled, stops⟩
    · refine ⟨[], [], c :: text, rfl, .nil, ?_⟩
      intro d d_eq digit is_digit
      obtain rfl : c = d := by simpa using d_eq
      exact first ⟨digit, is_digit⟩

/-- A block of digits is not longer than one at the same place that nothing continues. -/
theorem length_le_of_stops {base : Nat} {digits : List Nat} {block chars rest : List Char}
    (spelled : List.Forall₂ (IsDigit base) digits block) (stops : Stops base rest)
    (front : block <+: chars ++ rest) : block.length ≤ chars.length := by
  induction spelled generalizing chars with
  | nil => exact Nat.zero_le _
  | @cons digit c digits block first spelled induction =>
    cases chars with
    | nil =>
      obtain ⟨tail, tail_eq⟩ := front
      rw [List.nil_append] at tail_eq
      subst tail_eq
      exact absurd first (stops c rfl digit)
    | cons d chars => exact Nat.succ_le_succ (induction (List.cons_prefix_cons.mp front).2)

end Literal

/-- The base of the digits of a literal. Characters of quoted text have no digits. -/
def Radix.base : Radix → Nat
  | .hex => 16
  | .dec => 10
  | .bin => 2
  | .ascii => 0

/-- What a literal begins with in each notation, in front of its digits. -/
inductive Radix.Mark : Radix → List Char → Prop
  | hex : Mark .hex ['0', 'x']
  | upperHex : Mark .hex ['0', 'X']
  | bin : Mark .bin ['0', 'b']
  | upperBin : Mark .bin ['0', 'B']
  | dec : Mark .dec []

/-- The characters are digits of the base, at least one and the most significant first, and together
they denote the number. -/
def IsNumeral (base n : Nat) (chars : List Char) : Prop :=
  chars ≠ [] ∧
    ∃ digits, List.Forall₂ (IsDigit base) digits chars ∧ Nat.ofDigits base digits.reverse = n

theorem IsNumeral.append_digit {base n digit : Nat} {chars : List Char} {c : Char}
    (numeral : IsNumeral base n chars) (is_digit : IsDigit base digit c) :
    IsNumeral base (base * n + digit) (chars ++ [c]) := by
  obtain ⟨-, digits, spelled, rfl⟩ := numeral
  refine ⟨by simp, digits ++ [digit], List.rel_append spelled (.cons is_digit .nil), ?_⟩
  rw [List.reverse_append, List.reverse_singleton, List.singleton_append, Nat.ofDigits_cons,
    Nat.add_comm]

theorem IsDigit.isNumeral {base digit : Nat} {c : Char} (is_digit : IsDigit base digit c) :
    IsNumeral base digit [c] :=
  ⟨List.cons_ne_nil _ _, [digit], .cons is_digit .nil, Nat.ofDigits_singleton⟩

/-- The decimal digits of a number are a numeral for it. -/
theorem isNumeral_toDigits (n : Nat) : IsNumeral 10 n (Nat.toDigits 10 n) := by
  induction n using Nat.strong_induction_on with
  | _ n induction =>
    rw [Nat.toDigits_eq_if (by decide)]
    split
    next small => exact IsDigit.isNumeral ⟨small, .inl rfl⟩
    next large =>
      have is_digit : IsDigit 10 (n % 10) (n % 10).digitChar :=
        ⟨Nat.mod_lt _ (by decide), .inl rfl⟩
      have numeral := (induction (n / 10) (by omega)).append_digit is_digit
      rwa [Nat.div_add_mod] at numeral

/-- A text that the characters of a literal cannot go on into: it does not begin with a letter or a
decimal digit. -/
def Quiet (text : List Char) : Prop :=
  ∀ c ∈ text.head?, c.isAlphanum = false

theorem Radix.Mark.base_le {radix : Radix} {mark : List Char} (marked : radix.Mark mark) :
    0 < radix.base ∧ radix.base ≤ 16 := by
  cases marked <;> decide

theorem Radix.Mark.isAlphanum {radix : Radix} {mark : List Char} (marked : radix.Mark mark)
    {c : Char} (member : c ∈ mark) : c.isAlphanum = true := by
  have all : mark.all Char.isAlphanum = true := by
    cases marked <;> decide
  exact List.all_eq_true.mp all c member

private theorem isAlphanum_of_digit : ∀ digit < 16,
    digit.digitChar.isAlphanum = true ∧ digit.digitChar.toUpper.isAlphanum = true := by
  decide

theorem IsDigit.isAlphanum {base digit : Nat} {c : Char} (base_le : base ≤ 16)
    (is_digit : IsDigit base digit c) : c.isAlphanum = true := by
  obtain ⟨digit_lt, rfl | rfl⟩ := is_digit
  · exact (isAlphanum_of_digit digit (by omega)).1
  · exact (isAlphanum_of_digit digit (by omega)).2

theorem Quiet.stops {base : Nat} {text : List Char} (base_le : base ≤ 16) (quiet : Quiet text) :
    Stops base text := by
  intro c c_eq digit is_digit
  have alphanumeric := is_digit.isAlphanum base_le
  rw [quiet c c_eq] at alphanumeric
  contradiction

private theorem isDigit_of_decimal : ∀ digit < 10,
    digit.digitChar.isDigit = true ∧ digit.digitChar.toUpper.isDigit = true := by
  decide

theorem IsDigit.isDigit {digit : Nat} {c : Char} (is_digit : IsDigit 10 digit c) :
    c.isDigit = true := by
  obtain ⟨digit_lt, rfl | rfl⟩ := is_digit
  · exact (isDigit_of_decimal digit digit_lt).1
  · exact (isDigit_of_decimal digit digit_lt).2

theorem exists_isDigit_of_isDigit {c : Char} (decimal : c.isDigit = true) :
    ∃ digit, IsDigit 10 digit c := by
  have at_most : c.toNat ≤ '9'.toNat := by
    rw [Char.isDigit, Bool.and_eq_true] at decimal
    exact of_decide_eq_true decimal.2
  have small : c.toNat - '0'.toNat < 10 := Nat.lt_of_le_of_lt (Nat.sub_le_sub_right at_most _)
    (by decide)
  refine ⟨_, (digit?_eq_some_iff (by decide)).mp (?_ : digit? 10 c = some (c.toNat - '0'.toNat))⟩
  rw [digit?, if_pos decimal, Option.filter_some, decide_eq_true small, if_pos rfl]

namespace Literal

/-- How a literal is written: the mark of its notation and the digits of its value. -/
inductive Spelled (l : Literal) : List Char → Prop
  | intro {mark digits : List Char} (marked : l.radix.Mark mark)
      (numeral : IsNumeral l.radix.base l.value.toNat digits) : Spelled l (mark ++ digits)

theorem spelled_toDigits (word : UInt32) :
    Spelled ⟨word, .dec⟩ (Nat.toDigits 10 word.toNat) :=
  .intro (l := ⟨word, .dec⟩) .dec (isNumeral_toDigits word.toNat)

/-- The mark of a decimal literal is found where the second character announces no other. -/
theorem mark?_eq_dec {c : Char} {rest : List Char} (decimal : c.isDigit = true)
    (plain : ∀ next ∈ rest.head?, next.isDigit = true ∨ next.isAlphanum = false) :
    mark? (c :: rest) = some { radix := .dec, base := 10, length := 0 } := by
  have not_letter : ∀ letter : Char, letter.isDigit = false → letter.isAlphanum = true →
      rest.head? ≠ some letter := by
    intro letter no_digit alphanumeric head_eq
    rcases plain letter head_eq with h | h
    · rw [no_digit] at h
      contradiction
    · rw [alphanumeric] at h
      contradiction
  rw [mark?, if_neg, if_neg, if_pos decimal]
  · rintro ⟨-, announced | announced⟩
    · exact not_letter 'b' rfl rfl announced
    · exact not_letter 'B' rfl rfl announced
  · rintro ⟨-, announced | announced⟩
    · exact not_letter 'x' rfl rfl announced
    · exact not_letter 'X' rfl rfl announced

theorem mark?_append {radix : Radix} {n : Nat} {mark digits rest : List Char}
    (marked : radix.Mark mark) (numeral : IsNumeral radix.base n digits) (quiet : Quiet rest) :
    mark? (mark ++ digits ++ rest) =
      some { radix := radix, base := radix.base, length := mark.length } := by
  cases marked with
  | hex | upperHex | bin | upperBin => rfl
  | dec =>
    obtain ⟨nonempty, values, spelled, -⟩ := numeral
    cases spelled with
    | nil => exact absurd rfl nonempty
    | cons first later =>
      refine mark?_eq_dec first.isDigit fun next next_eq => ?_
      cases later with
      | nil => exact .inr (quiet next next_eq)
      | cons second _ =>
        obtain rfl := Option.some.inj next_eq
        exact .inl second.isDigit

/-- A literal is read off the beginning of a text where no letter or digit follows it. -/
theorem read?_append {l : Literal} {text rest : List Char} (spelled : l.Spelled text)
    (quiet : Quiet rest) : read? (text ++ rest) = some (l, text.length) := by
  obtain ⟨marked, numeral⟩ := spelled
  rename_i mark chars
  have mark_eq := mark?_append marked numeral quiet
  obtain ⟨nonempty, digits, block, value_eq⟩ := numeral
  obtain ⟨base_pos, base_le⟩ := marked.base_le
  have digits_eq : readDigits? l.radix.base 0 0 (chars ++ rest) =
      some (l.value.toNat, chars.length) := by
    have fits : l.value.toNat < wordSize := l.value.toNat_lt
    rw [readDigits?_append base_pos base_le (by decide) block (quiet.stops base_le), value_eq,
      Nat.zero_mul, Nat.zero_add, Nat.zero_add, if_pos fits]
  have positive : chars.length ≠ 0 := by
    rw [Ne, List.length_eq_zero_iff]
    exact nonempty
  have drop_eq : (mark ++ chars ++ rest).drop mark.length = chars ++ rest := by
    rw [List.append_assoc, List.drop_left]
  simp only [read?, mark_eq, Option.bind_eq_bind, Option.bind_some, drop_eq, digits_eq,
    if_neg positive, UInt32.ofNat_toNat, List.length_append]

theorem exists_of_mark? {text : List Char} {m : Mark} (found : mark? text = some m) :
    ∃ mark rest, text = mark ++ rest ∧ m.radix.Mark mark ∧ m.base = m.radix.base ∧
      m.length = mark.length := by
  cases text with
  | nil => contradiction
  | cons c rest =>
    rw [mark?] at found
    split at found
    next announced =>
      obtain ⟨rfl, second⟩ := announced
      cases found
      rcases second with second | second
      · have split_eq := congrArg (List.cons '0') (List.eq_cons_of_mem_head? second)
        exact ⟨['0', 'x'], rest.tail, split_eq, .hex, rfl, rfl⟩
      · have split_eq := congrArg (List.cons '0') (List.eq_cons_of_mem_head? second)
        exact ⟨['0', 'X'], rest.tail, split_eq, .upperHex, rfl, rfl⟩
    next =>
      split at found
      next announced =>
        obtain ⟨rfl, second⟩ := announced
        cases found
        rcases second with second | second
        · have split_eq := congrArg (List.cons '0') (List.eq_cons_of_mem_head? second)
          exact ⟨['0', 'b'], rest.tail, split_eq, .bin, rfl, rfl⟩
        · have split_eq := congrArg (List.cons '0') (List.eq_cons_of_mem_head? second)
          exact ⟨['0', 'B'], rest.tail, split_eq, .upperBin, rfl, rfl⟩
      next =>
        split at found
        next =>
          cases found
          exact ⟨[], c :: rest, rfl, .dec, rfl, rfl⟩
        next => contradiction

/-- Two literals that begin at the same place have the same mark, unless one of them is the decimal
zero in front of the letter of the other's mark. -/
theorem mark_eq_or_length_le_one {text mark digits : List Char} {m : Mark} {radix : Radix} {n : Nat}
    (found : mark? text = some m) (marked : radix.Mark mark)
    (numeral : IsNumeral radix.base n digits) (front : mark ++ digits <+: text) :
    (m.radix = radix ∧ m.length = mark.length) ∨ (mark ++ digits).length ≤ 1 := by
  obtain ⟨tail, rfl⟩ := front
  cases marked with
  | hex | upperHex | bin | upperBin =>
    cases found
    exact .inl ⟨rfl, rfl⟩
  | dec =>
    obtain ⟨nonempty, values, spelled, -⟩ := numeral
    cases spelled with
    | nil => exact absurd rfl nonempty
    | cons first later =>
      cases later with
      | nil => exact .inr (Nat.le_refl 1)
      | @cons _ d _ chars second _ =>
        have plain : ∀ next ∈ (d :: (chars ++ tail)).head?,
            next.isDigit = true ∨ next.isAlphanum = false := by
          intro next next_eq
          obtain rfl := Option.some.inj next_eq
          exact .inl second.isDigit
        rw [List.nil_append, List.cons_append, List.cons_append,
          mark?_eq_dec first.isDigit plain] at found
        cases found
        exact .inl ⟨rfl, rfl⟩

/-- No literal goes on behind a mark and the block of digits that follows it. -/
theorem length_le_of_mark? {mark chars rest more : List Char} {m : Mark} {other : Literal}
    (mark_eq : mark? (mark ++ (chars ++ rest)) = some m) (length_eq : m.length = mark.length)
    (nonempty : chars ≠ []) (stops : Stops m.radix.base rest) (spelled : Spelled other more)
    (front : more <+: mark ++ (chars ++ rest)) : more.length ≤ mark.length + chars.length := by
  have chars_pos : 1 ≤ chars.length := List.length_pos_of_ne_nil nonempty
  obtain ⟨otherMarked, numeral⟩ := spelled
  rename_i otherMark block
  rcases mark_eq_or_length_le_one mark_eq otherMarked numeral front with same | short
  · obtain ⟨radix_eq, same_length⟩ := same
    obtain ⟨tail, tail_eq⟩ := front
    rw [List.append_assoc] at tail_eq
    obtain ⟨rfl, block_eq⟩ := List.append_inj tail_eq (same_length.symm.trans length_eq)
    obtain ⟨-, values, block_spelled, -⟩ := numeral
    rw [← radix_eq] at block_spelled
    rw [List.length_append]
    exact Nat.add_le_add_left (length_le_of_stops block_spelled stops ⟨tail, block_eq⟩) _
  · omega

/-- What is read is a literal, and no literal that begins at the same place is longer. -/
theorem spelled_of_read? {text : List Char} {l : Literal} {length : Nat}
    (found : read? text = some (l, length)) :
    ∃ front rest, text = front ++ rest ∧ front.length = length ∧ l.Spelled front ∧
      ∀ other more, Spelled other more → more <+: text → more.length ≤ length := by
  simp only [read?, Option.bind_eq_bind, Option.bind_eq_some_iff] at found
  obtain ⟨m, mark_eq, ⟨value, count⟩, digits_eq, taken⟩ := found
  obtain ⟨mark, tail, rfl, marked, base_eq, length_eq⟩ := exists_of_mark? mark_eq
  obtain ⟨base_pos, base_le⟩ := marked.base_le
  obtain ⟨digits, chars, rest, rfl, spelled, stops⟩ := exists_digits m.radix.base tail
  rw [length_eq, List.drop_left, base_eq,
    readDigits?_append base_pos base_le (by decide) spelled stops] at digits_eq
  split at digits_eq
  next fits =>
    rw [Nat.zero_mul, Nat.zero_add] at fits digits_eq
    cases digits_eq
    split at taken
    next => contradiction
    next positive =>
      cases taken
      have nonempty : chars ≠ [] := by
        rintro rfl
        exact positive rfl
      refine ⟨mark ++ chars, rest, (List.append_assoc ..).symm, ?_, ?_, ?_⟩
      · rw [List.length_append, length_eq, Nat.zero_add]
      · exact .intro marked ⟨nonempty, digits, spelled, (UInt32.toNat_ofNat_of_lt' fits).symm⟩
      · intro other more otherSpelled front
        rw [length_eq, Nat.zero_add]
        exact length_le_of_mark? mark_eq length_eq nonempty stops otherSpelled front
  next => contradiction

/-- A text is that of at most one literal. -/
theorem Spelled.unique {l other : Literal} {text : List Char} (spelled : l.Spelled text)
    (otherSpelled : other.Spelled text) : l = other := by
  have quiet : Quiet [] := by simp [Quiet]
  have found := read?_append spelled quiet
  rw [read?_append otherSpelled quiet] at found
  exact (congrArg Prod.fst (Option.some.inj found)).symm

theorem Spelled.exists_decimal {l : Literal} {text : List Char} (spelled : l.Spelled text) :
    ∃ c rest, text = c :: rest ∧ c.isDigit = true := by
  obtain ⟨value, radix⟩ := l
  obtain ⟨marked, nonempty, digits, block, -⟩ := spelled
  cases marked with
  | hex | upperHex | bin | upperBin => exact ⟨'0', _, rfl, rfl⟩
  | dec =>
    cases block with
    | nil => exact absurd rfl nonempty
    | cons first _ => exact ⟨_, _, rfl, first.isDigit⟩

theorem Spelled.isAlphanum {l : Literal} {text : List Char} (spelled : l.Spelled text) {c : Char}
    (member : c ∈ text) : c.isAlphanum = true := by
  obtain ⟨marked, -, digits, block, -⟩ := spelled
  rcases List.mem_append.mp member with inMark | inDigits
  · exact marked.isAlphanum inMark
  · clear member
    induction block with
    | nil => contradiction
    | cons first _ induction =>
      rcases List.mem_cons.mp inDigits with rfl | later
      · exact first.isAlphanum marked.base_le.2
      · exact induction later

/-- Where a literal is the longest at its place, another that is followed by something else than
letters and digits can only get further by what follows it, and then it is the same. -/
theorem length_append_le_of_longest {l other : Literal} {text otherText tail more : List Char}
    {bound : Nat} (spelled : l.Spelled text) (otherSpelled : other.Spelled otherText)
    (longest : ∀ other more, Spelled other more → more <+: text ++ tail → more.length ≤ text.length)
    (quiet : Quiet more) (front : otherText ++ more <+: text ++ tail)
    (same : otherText = text → more <+: tail → more.length ≤ bound) :
    (otherText ++ more).length ≤ text.length + bound := by
  have other_front : otherText <+: text ++ tail := (List.prefix_append _ _).trans front
  have text_front : text <+: text ++ tail := List.prefix_append _ _
  have otherText_le := longest other otherText otherSpelled other_front
  obtain ⟨between, rfl⟩ := List.prefix_of_prefix_length_le other_front text_front otherText_le
  rw [List.append_assoc, List.prefix_append_right_inj] at front
  cases between with
  | nil =>
    rw [List.append_nil, List.length_append]
    exact Nat.add_le_add_left (same (List.append_nil _).symm front) _
  | cons c between =>
    cases more with
    | nil =>
      simp only [List.length_append, List.length_cons, List.length_nil]
      omega
    | cons d more =>
      obtain ⟨rfl, -⟩ := List.cons_prefix_cons.mp front
      have alphanumeric : d.isAlphanum = true := spelled.isAlphanum (by simp)
      rw [quiet d rfl] at alphanumeric
      contradiction

end Literal

end BusScript
