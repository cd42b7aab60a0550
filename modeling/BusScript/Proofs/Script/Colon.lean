import BusScript.Proofs.Script.Sequence

/-!
# The colon behind a token

In front of a digit, a colon announces a repeat count where it comes directly behind a literal or a
command that has none yet. There it belongs to that token, and anywhere else to no token at all.
-/

namespace BusScript

/-- A text that begins as a repeat count does: with a colon and a decimal digit. -/
def BeginsCount (text : List Char) : Prop :=
  ∃ digit rest, text = ':' :: digit :: rest ∧ digit.isDigit = true

namespace Attributes

theorem announces_repeats_iff {text : List Char} :
    announces ':' text = true ↔ BeginsCount text := by
  constructor
  · intro announced
    match text, announced with
    | c :: digit :: rest, announced =>
      rw [announces, Bool.and_eq_true, beq_iff_eq] at announced
      obtain ⟨rfl, decimal⟩ := announced
      exact ⟨digit, rest, rfl, decimal⟩
  · rintro ⟨digit, rest, rfl, decimal⟩
    rw [announces, decimal]
    rfl

theorem exists_isNumber_of_isDigit {c : Char} (decimal : c.isDigit = true) :
    ∃ n, IsNumber n [c] := by
  obtain ⟨digit, is_digit⟩ := exists_isDigit_of_isDigit decimal
  have value_eq : (UInt32.ofNat digit).toNat = digit :=
    UInt32.toNat_ofNat_of_lt' (is_digit.1.trans (by decide))
  have numeral : IsNumeral 10 (UInt32.ofNat digit).toNat [c] := by
    rw [value_eq]
    exact is_digit.isNumeral
  exact ⟨_, ⟨UInt32.ofNat digit, .dec⟩, .intro (l := ⟨UInt32.ofNat digit, .dec⟩) .dec numeral, rfl⟩

theorem Spelled.append_repeats {seen all : Attributes} {n : Nat} {text number : List Char}
    (spelled : Spelled seen all text) (fresh : all.repeats = none) (is_number : IsNumber n number) :
    Spelled seen { all with repeats := some n } (text ++ ':' :: number) := by
  induction spelled with
  | @done seen =>
    have last : Spelled seen { seen with repeats := some n } (':' :: (number ++ [])) :=
      .repeats fresh is_number .done
    rwa [List.append_nil] at last
  | bits unset own _ induction =>
    rw [List.cons_append, List.append_assoc]
    exact .bits unset own (induction fresh)
  | repeats unset own _ induction =>
    rw [List.cons_append, List.append_assoc]
    exact .repeats unset own (induction fresh)

end Attributes

namespace Token

/-- A literal or a command that has no repeat count. -/
def Uncounted : Token → Prop
  | .value _ attributes | .command _ _ attributes => attributes.repeats = none
  | .text _ => False

theorem Spelled.exists_append_repeats {t : Token} {n : Nat} {word number : List Char}
    (spelled : t.Spelled word) (uncounted : t.Uncounted)
    (is_number : Attributes.IsNumber n number) :
    ∃ counted, Spelled counted (word ++ ':' :: number) := by
  cases spelled with
  | value literal behind =>
    rw [List.append_assoc]
    exact ⟨_, .value literal (behind.append_repeats uncounted is_number)⟩
  | command symbol_eq behind =>
    exact ⟨_, .command symbol_eq (behind.append_repeats uncounted is_number)⟩
  | text => exact uncounted.elim

/-- A colon that begins no repeat count of a token does not continue it. -/
theorem endedBy_colon {t : Token} {rest : List Char}
    (silent : t.Uncounted → ¬ BeginsCount (':' :: rest)) : t.EndedBy (':' :: rest) := by
  have quiet : Quiet (':' :: rest) := by
    rintro _ ⟨⟩
    rfl
  have no_bits : Attributes.announces '.' (':' :: rest) = false := by cases rest <;> rfl
  have no_repeats (silent : ¬ BeginsCount (':' :: rest)) :
      Attributes.announces ':' (':' :: rest) = false := by
    rwa [← Bool.not_eq_true, Attributes.announces_repeats_iff]
  cases t with
  | value | command => exact ⟨quiet, fun _ => no_bits, fun fresh => no_repeats (silent fresh)⟩
  | text => exact trivial

end Token

namespace IsScript

theorem Longest.of_append {front text tail : List Char} (longest : Longest front (text ++ tail)) :
    Longest front text := fun t more spelled ahead =>
  longest t more spelled (ahead.trans ⟨tail, List.append_assoc _ _ _⟩)

/-- A repeat count that begins directly behind a token without one belongs to it. -/
theorem Longest.not_beginsCount {t : Token} {word rest : List Char} (longest : Longest word rest)
    (spelled : t.Spelled word) (uncounted : t.Uncounted) : ¬ BeginsCount rest := by
  rintro ⟨digit, behind, rfl, decimal⟩
  obtain ⟨n, is_number⟩ := Attributes.exists_isNumber_of_isDigit decimal
  obtain ⟨counted, counted_spelled⟩ := spelled.exists_append_repeats uncounted is_number
  have longer_le := longest counted _ counted_spelled ⟨behind, by simp⟩
  rw [List.length_append] at longer_le
  exact absurd longer_le (by simp)

/-- A token is read in front of a character that begins no token as it is in front of the same
character with other text behind it, unless the two begin a repeat count of the token. -/
theorem Read.of_unknown {t : Token} {c : Char} {word text other : List Char}
    (reads : Read word (c :: text)) (spelled : t.Spelled word)
    (no_symbol : Operation.ofSymbol? c = none)
    (silent : t.Uncounted → ¬ BeginsCount (c :: other)) : Read word (c :: other) := by
  by_cases colon : c = ':'
  · subst colon
    exact .of_endedBy spelled (Token.endedBy_colon silent)
  · refine reads.of_clearer ⟨.inr rfl, fun announced => ?_, fun announced => ?_⟩
    · obtain ⟨body, body_eq⟩ := Attributes.exists_of_announces announced
      obtain ⟨rfl, -⟩ := List.cons.inj body_eq
      contradiction
    · obtain ⟨body, body_eq⟩ := Attributes.exists_of_announces announced
      exact absurd (List.cons.inj body_eq).1 colon

end IsScript

open IsScript

/-- A text that ends with a literal or a command without a repeat count, where each token of the
text is as long as it can be. -/
inductive AwaitsCount : List Char → Prop
  | last {t : Token} {word : List Char} (spelled : t.Spelled word) (uncounted : t.Uncounted) :
      AwaitsCount word
  | separator {c : Char} {text : List Char} (separates : isSeparator c = true)
      (later : AwaitsCount text) : AwaitsCount (c :: text)
  | token {t : Token} {word text : List Char} (spelled : t.Spelled word)
      (longest : Longest word text) (later : AwaitsCount text) : AwaitsCount (word ++ text)

theorem AwaitsCount.ne_nil {text : List Char} (awaits : AwaitsCount text) : text ≠ [] := by
  cases awaits with
  | last spelled | token spelled =>
    obtain ⟨c, more, rfl, -⟩ := spelled.exists_head
    exact List.cons_ne_nil c _
  | separator => exact List.cons_ne_nil _ _

/-- A single token awaits a repeat count if it can have one and has none. -/
theorem awaitsCount_iff_of_spelled {t : Token} {word : List Char} (spelled : t.Spelled word) :
    AwaitsCount word ↔ t.Uncounted := by
  refine ⟨fun awaits => ?_, .last spelled⟩
  cases awaits with
  | last otherSpelled uncounted => exact spelled.unique otherSpelled ▸ uncounted
  | separator separates =>
    obtain ⟨c, more, word_eq, ordinary⟩ := spelled.exists_head
    obtain ⟨rfl, -⟩ := List.cons.inj word_eq
    rw [ordinary] at separates
    contradiction
  | token _ longest later =>
    have word_le := longest t _ spelled (List.prefix_refl _)
    rw [List.length_append] at word_le
    exact absurd (List.length_eq_zero_iff.mp (by omega)) later.ne_nil

namespace IsBeginning

variable {tail front text other : List Char} {tokens : List Token} {c : Char}

/-- What comes behind tokens that await a repeat count and were read without it begins none. -/
theorem not_beginsCount (beginning : IsBeginning Read tail tokens front)
    (awaits : AwaitsCount front) : ¬ BeginsCount tail := by
  induction awaits generalizing tokens with
  | @last t word spelled uncounted =>
    have longest : Longest word [] := fun _ _ _ ahead => by
      rw [List.append_nil] at ahead
      exact ahead.length_le
    rw [← List.append_nil word] at beginning
    obtain ⟨_, -, reads, -⟩ := beginning.exists_of_longest spelled longest
    exact reads.longest.not_beginsCount spelled uncounted
  | separator separates _ induction => exact induction (beginning.of_separator separates)
  | token spelled longest _ induction =>
    obtain ⟨_, -, -, behind⟩ := beginning.exists_of_longest spelled longest
    exact induction behind

/-- What is in front of a character that begins no token is read as it was whatever comes behind
that character, unless the two begin a repeat count where one is awaited. -/
theorem of_unknown (beginning : IsBeginning Read (c :: text) tokens front)
    (no_symbol : Operation.ofSymbol? c = none)
    (silent : AwaitsCount front → ¬ BeginsCount (c :: other)) :
    IsBeginning Read (c :: other) tokens front := by
  induction beginning with
  | nil => exact .nil
  | separator separates _ induction =>
    exact .separator separates (induction fun awaits => silent (.separator separates awaits))
  | @token t tokens word behind spelled reads _ induction =>
    have later := induction fun awaits => silent (.token spelled reads.longest.of_append awaits)
    refine .token spelled ?_ later
    cases behind with
    | nil =>
      rw [List.append_nil] at silent
      exact reads.of_unknown spelled no_symbol fun uncounted => silent (.last spelled uncounted)
    | cons d behind =>
      have head_eq : (c :: other).head? = (c :: text).head? := rfl
      exact reads.of_clearer (.append_of_head (.inr head_eq) (List.cons_ne_nil d behind))

end IsBeginning

end BusScript
