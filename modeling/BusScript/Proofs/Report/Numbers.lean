import BusScript.Proofs.Report.Readback

/-!
# The digits of a number

How many digits a number is shown with, what they denote, and where escape sequences stand among
them. A number in hexadecimal has two digits for each byte, one in binary has a digit for each bit,
and one in decimal has as few as it can. Escape sequences stand in front of groups of digits, which
are bytes or nibbles counted from the last digit, and behind the last group.
-/

namespace BusScript

namespace Digits

/-- Digits in groups of the same size, counted from the last digit, so that only the first group may
be shorter. -/
structure IsCut (size : Nat) (digits : List Char) (groups : List (List Char)) : Prop where
  flatten_eq : groups.flatten = digits
  first : ∀ group ∈ groups.head?, 1 ≤ group.length ∧ group.length ≤ size
  later : ∀ group ∈ groups.tail, group.length = size

/-- Groups of digits with the sequences for numbers and for plain text in front of them in turn, and
the sequence for plain text behind the last. -/
def escaped (p : Palette) (groups : List (List Char)) : List Char :=
  (groups.zipIdx.flatMap fun (group, k) => (if k % 2 = 0 then p.number else p.reset) ++ group) ++
    p.reset

theorem length_of_mem_groups {base size count value : Nat} (size_pos : 0 < size) :
    (∀ group ∈ (groups base size count value).head?, 1 ≤ group.length ∧ group.length ≤ size) ∧
      ∀ group ∈ (groups base size count value).tail, group.length = size := by
  have enough : size * ((count + size - 1) / size) < count + size := by
    have := Nat.mul_div_le (count + size - 1) size
    omega
  rw [groups]
  cases length_eq : (count + size - 1) / size with
  | zero => simp
  | succ n =>
    rw [length_eq, Nat.mul_succ] at enough
    rw [List.range_succ, List.reverse_append, List.reverse_singleton, List.singleton_append,
      List.map_cons, List.head?_cons, List.tail_cons]
    constructor
    · rintro _ ⟨⟩
      rw [length_fixed]
      omega
    · intro group member
      obtain ⟨i, inside, rfl⟩ := List.mem_map.mp member
      rw [List.mem_reverse, List.mem_range] at inside
      have below : size * i + size ≤ size * n := by
        rw [← Nat.mul_succ]
        exact Nat.mul_le_mul_left size inside
      rw [length_fixed, Nat.min_eq_left (by omega)]

theorem isCut_groups {size : Nat} (size_pos : 0 < size) (base count value : Nat) :
    IsCut size (fixed base count value) (groups base size count value) where
  flatten_eq := flatten_groups size_pos base count value
  first := (length_of_mem_groups size_pos).1
  later := (length_of_mem_groups size_pos).2

/-- Groups are highlighted in turn: those at even places if the first is, and the others if not. -/
theorem alternate_eq_flatMap (p : Palette) (k : Nat) (groups : List (List Char)) :
    alternate p (k % 2 = 0) groups =
      (groups.zipIdx k).flatMap fun (group, k) =>
        (if k % 2 = 0 then p.number else p.reset) ++ group := by
  induction groups generalizing k with
  | nil => rfl
  | cons group later induction =>
    have turn : (!decide (k % 2 = 0)) = decide ((k + 1) % 2 = 0) := by
      rcases Nat.mod_two_eq_zero_or_one k with even | odd
      · simp [even, Nat.add_mod]
      · simp [odd, Nat.add_mod]
    rw [alternate, turn, induction, List.zipIdx_cons, List.flatMap_cons, Palette.highlight]
    simp

theorem alternate_append_reset (p : Palette) (groups : List (List Char)) :
    alternate p true groups ++ p.reset = escaped p groups := by
  rw [escaped, ← alternate_eq_flatMap]
  rfl

theorem mem_of_mem_fixed {base count value : Nat} {c : Char} (base_pos : 0 < base)
    (base_le : base ≤ 16) (member : c ∈ fixed base count value) :
    c ∈ "0123456789ABCDEF".toList := by
  have upper : ∀ digit < 16, char digit ∈ "0123456789ABCDEF".toList := by decide
  induction count generalizing value with
  | zero => contradiction
  | succ count induction =>
    rw [fixed, List.mem_append, List.mem_singleton] at member
    rcases member with earlier | rfl
    · exact induction earlier
    · exact upper _ (Nat.lt_of_lt_of_le (Nat.mod_lt _ base_pos) base_le)

end Digits

theorem IsNumeral.lt_pow_length {base n : Nat} {chars : List Char} (two_le : 1 < base)
    (numeral : IsNumeral base n chars) : n < base ^ chars.length := by
  obtain ⟨-, digits, spelled, rfl⟩ := numeral
  have digits_lt : ∀ digit ∈ digits.reverse, digit < base := by
    intro digit member
    rw [List.mem_reverse] at member
    obtain ⟨i, inside, rfl⟩ := List.mem_iff_getElem.mp member
    exact (spelled.get inside (spelled.length_eq ▸ inside)).1
  have value_lt := Nat.ofDigits_lt_base_pow_length two_le digits_lt
  rwa [List.length_reverse, spelled.length_eq] at value_lt

/-- No decimal numeral is shorter than the decimal digits of its number. -/
theorem IsNumeral.length_toDigits_le {n : Nat} {chars : List Char}
    (numeral : IsNumeral 10 n chars) : (Nat.toDigits 10 n).length ≤ chars.length :=
  (Nat.length_toDigits_le_iff (by decide) (List.length_pos_of_ne_nil numeral.1)).mpr
    (numeral.lt_pow_length (by decide))

namespace Report

/-- A text for each palette: so many digits of a number in a base, between what is in front of them
and what is behind. The digits are in upper case. Escape sequences of the palette stand in front of
their groups and behind the last of them, and nowhere else. -/
def WritesDigits (text : Palette → List Char) (front back : List Char)
    (base size count n : Nat) : Prop :=
  ∃ digits groups, digits.length = count ∧ IsNumeral base n digits ∧
    (∀ c ∈ digits, c ∈ "0123456789ABCDEF".toList) ∧ Digits.IsCut size digits groups ∧
    text .plain = front ++ digits ++ back ∧
    ∀ p, text p = front ++ Digits.escaped p groups ++ back

section WritesDigits

variable {text : Palette → List Char} {front back : List Char} {bits n : Nat}

/-- Digits that are written in groups, with what is in front of them and behind. -/
theorem writesDigits_of_groups {base size count : Nat} (base_pos : 0 < base) (base_le : base ≤ 16)
    (size_pos : 0 < size) (count_pos : 0 < count) (fits : n < base ^ count)
    (text_eq : ∀ p, text p =
      front ++ (Digits.alternate p true (Digits.groups base size count n) ++ p.reset) ++ back) :
    WritesDigits text front back base size count n := by
  refine ⟨Digits.fixed base count n, Digits.groups base size count n, Digits.length_fixed ..,
    Digits.isNumeral_fixed_of_lt base_pos count_pos fits,
    fun c => Digits.mem_of_mem_fixed base_pos base_le, Digits.isCut_groups size_pos base count n,
    ?_, fun p => ?_⟩
  · rw [text_eq, Digits.alternate_plain, Digits.flatten_groups size_pos,
      show Palette.plain.reset = [] from rfl, List.append_nil]
  · rw [text_eq, Digits.alternate_append_reset]

theorem writesDigits_of_hexNumber {word : UInt32} (bits_pos : 1 ≤ bits) (bits_le : bits ≤ 32)
    (word_lt : word.toNat < 2 ^ bits)
    (text_eq : ∀ p, text p = front ++ hexNumber p bits word ++ back) :
    WritesDigits text (front ++ "0x".toList) back 16 2 (2 * ((bits + 7) / 8)) word.toNat := by
  refine writesDigits_of_groups (by decide) (Nat.le_refl 16) (by decide) (by omega)
    (Digits.lt_pow_of_lt_two_pow word_lt) fun p => ?_
  simp [text_eq, hexNumber_eq p word bits_pos bits_le]

theorem writesDigits_of_binNumber {word : UInt32} (bits_pos : 1 ≤ bits) (bits_le : bits ≤ 32)
    (word_lt : word.toNat < 2 ^ bits) (text_eq : ∀ p, text p = binNumber p bits word ++ back) :
    WritesDigits text "0b".toList back 2 4 bits word.toNat := by
  refine writesDigits_of_groups (by decide) (by decide) (by decide) bits_pos word_lt fun p => ?_
  simp [text_eq, binNumber_eq p word bits_pos bits_le]

end WritesDigits

/-- A number is shown with as many digits as its width calls for, which denote the part of the value
that the width selects. -/
theorem number_writesDigits (bits : Nat) (value : UInt32) :
    (∀ p, number p .auto bits value = number p .hex bits value) ∧
      let width := max 1 (min bits 32)
      let shown := value.toNat % 2 ^ width
      let mark := if width = 8 then [] else '.' :: Nat.toDigits 10 width
      let low := shown % 256
      let quoted :=
        if 0x20 ≤ low ∧ low ≤ 0x7e then ['\'', Char.ofNat low, '\'', ' ']
        else ['\'', '\'', ' ', ' ']
      let bytes := (width + 7) / 8
      WritesDigits (number · .hex bits value) "0x".toList mark 16 2 (2 * bytes) shown ∧
        WritesDigits (number · .ascii bits value) (quoted ++ "0x".toList) mark 16 2 (2 * bytes)
          shown ∧
        quoted.length = 4 ∧
        WritesDigits (number · .bin bits value) "0b".toList mark 2 4 width shown ∧
        ∃ digits, IsNumeral 10 shown digits ∧
          (∀ other, IsNumeral 10 shown other → digits.length ≤ other.length) ∧
          ∀ p, number p .dec bits value = digits ++ mark := by
  refine ⟨fun p => rfl, ?_⟩
  intro width shown mark low quoted bytes
  let word := shownValue bits value
  have width_pos : 1 ≤ width := shownWidth_pos bits
  have width_le : width ≤ 32 := shownWidth_le bits
  have word_eq : word.toNat = shown :=
    calc
      (value &&& lowBits (shownWidth bits)).toNat = value.toNat % 2 ^ min (shownWidth bits) 32 :=
        toNat_and_lowBits value _
      _ = shown := by rw [Nat.min_eq_left (shownWidth_le bits)]; rfl
  have word_lt : word.toNat < 2 ^ width := word_eq ▸ Nat.mod_lt _ (Nat.two_pow_pos width)
  have quoted_eq : quotedByte word = quoted := by
    have low_eq : (word &&& 0xff).toNat = low := by
      rw [UInt32.toNat_and, word_eq]
      exact Nat.and_two_pow_sub_one_eq_mod shown 8
    rw [quotedByte, low_eq]
  have hex (display : Display) (front : List Char)
      (number_eq : ∀ p, number p display bits value = front ++ hexNumber p width word ++ mark) :
      WritesDigits (number · display bits value) (front ++ "0x".toList) mark 16 2 (2 * bytes)
        shown := word_eq ▸ writesDigits_of_hexNumber width_pos width_le word_lt number_eq
  have bin (number_eq : ∀ p, number p .bin bits value = binNumber p width word ++ mark) :
      WritesDigits (number · .bin bits value) "0b".toList mark 2 4 width shown :=
    word_eq ▸ writesDigits_of_binNumber width_pos width_le word_lt number_eq
  have quoted_length : quoted.length = 4 := by
    unfold quoted
    split <;> rfl
  refine ⟨hex .hex [] fun p => rfl, hex .ascii quoted fun p => ?_, quoted_length,
    bin fun p => rfl, Nat.toDigits 10 shown, isNumeral_toDigits shown,
    fun other numeral => numeral.length_toDigits_le, fun p => ?_⟩
  · rw [← quoted_eq]
    rfl
  · rw [← word_eq]
    rfl

/-- Twelve bits of a value are two bytes in hexadecimal, the first of them highlighted. -/
example : number .terminal .hex 12 0xf1ab =
    "0x\x1b[38;5;103m01\x1b[0mAB\x1b[0m.12".toList := by decide

end Report

end BusScript
