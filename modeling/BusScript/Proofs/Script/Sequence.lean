import BusScript.Proofs.Script.Continuation

/-!
# Sequences of tokens

How tokens are written one after the other, as a whole line or in front of a further text. A token
may be required to be as long as it can be where it begins, or to be read exactly as it is written;
what is read is as long as it can be.
-/

namespace BusScript

/-- How a sequence of tokens is written, with separators wherever one likes. The condition relates
each token as it is written to the text behind it. -/
inductive IsScript (ends : List Char → List Char → Prop) : List Token → List Char → Prop
  | nil : IsScript ends [] []
  | separator {tokens : List Token} {c : Char} {text : List Char} (separates : isSeparator c = true)
      (later : IsScript ends tokens text) : IsScript ends tokens (c :: text)
  | token {t : Token} {tokens : List Token} {front text : List Char} (spelled : t.Spelled front)
      (boundary : ends front text) (later : IsScript ends tokens text) :
      IsScript ends (t :: tokens) (front ++ text)

namespace IsScript

/-- Nothing or a separator comes behind a token. -/
def Apart (_ text : List Char) : Prop :=
  ∀ c ∈ text.head?, isSeparator c = true

/-- No token that begins in the same place is longer. -/
def Longest (front text : List Char) : Prop :=
  ∀ t more, Token.Spelled t more → more <+: front ++ text → more.length ≤ front.length

/-- A token is read in front of the text exactly as far as it is written, wherever that is. -/
def Read (front text : List Char) : Prop :=
  ∃ t, Token.Spelled t front ∧ ∀ c (i : Input), front.head? = some c → i.rest = front ++ text →
    Token.read c i = .ok (t, i.advance front.length)

theorem Read.of_endedBy {t : Token} {front text : List Char} (spelled : t.Spelled front)
    (ends : t.EndedBy text) : Read front text :=
  ⟨t, spelled, fun _ _ head_eq rest_eq => Token.read_append spelled head_eq ends rest_eq⟩

theorem Read.of_clear {t : Token} {front text : List Char} (spelled : t.Spelled front)
    (clear : Clear text) : Read front text :=
  .of_endedBy spelled (Token.endedBy_of_clear clear t)

theorem Read.of_read {t : Token} {c : Char} {i : Input} {front text : List Char}
    (spelled : t.Spelled (c :: front)) (rest_eq : i.rest = c :: front ++ text)
    (found : Token.read c i = .ok (t, i.advance (c :: front).length)) : Read (c :: front) text := by
  refine ⟨t, spelled, ?_⟩
  rintro _ j ⟨⟩ j_eq
  exact Token.read_of_clearer found rest_eq j_eq (.refl text)

theorem Read.of_clearer {front text other : List Char} (reads : Read front text)
    (clearer : Clearer other text) : Read front other := by
  obtain ⟨t, spelled, read_eq⟩ := reads
  obtain ⟨c, more, rfl, -⟩ := spelled.exists_head
  refine ⟨t, spelled, ?_⟩
  rintro _ j ⟨⟩ j_eq
  exact Token.read_of_clearer (read_eq c ⟨0, c :: more ++ text⟩ rfl rfl) rfl j_eq clearer

theorem Read.read_eq {t : Token} {c : Char} {i : Input} {front text : List Char}
    (reads : Read front text) (spelled : t.Spelled front) (head_eq : front.head? = some c)
    (rest_eq : i.rest = front ++ text) : Token.read c i = .ok (t, i.advance front.length) := by
  obtain ⟨other, otherSpelled, read_eq⟩ := reads
  rw [spelled.unique otherSpelled]
  exact read_eq c i head_eq rest_eq

/-- What is read is as long as it can be. -/
theorem Read.longest {front text : List Char} (reads : Read front text) : Longest front text := by
  obtain ⟨t, spelled, read_eq⟩ := reads
  obtain ⟨c, more, rfl, -⟩ := spelled.exists_head
  have start : (Input.mk 0 (c :: more ++ text)).rest = c :: (more ++ text) := rfl
  obtain ⟨found, tail, -, advance_eq, -, longest⟩ :=
    Token.spelled_of_read start (read_eq c _ rfl rfl)
  intro other text otherSpelled ahead
  rw [Input.advance_inj advance_eq]
  exact longest other text otherSpelled ahead

theorem mono_of_spelled {ends weaker : List Char → List Char → Prop} {tokens : List Token}
    {text : List Char} (script : IsScript ends tokens text)
    (implied : ∀ (t : Token) front text, t.Spelled front → ends front text → weaker front text) :
    IsScript weaker tokens text := by
  induction script with
  | nil => exact .nil
  | separator separates _ induction => exact .separator separates induction
  | token spelled boundary _ induction =>
    exact .token spelled (implied _ _ _ spelled boundary) induction

/-- Every token of a script is written in it. -/
theorem exists_spelled_of_mem {ends : List Char → List Char → Prop} {tokens : List Token}
    {text : List Char} (script : IsScript ends tokens text) {t : Token} (member : t ∈ tokens) :
    ∃ word, t.Spelled word := by
  induction script with
  | nil => contradiction
  | separator _ _ induction => exact induction member
  | token spelled _ _ induction =>
    rcases List.mem_cons.mp member with rfl | later
    · exact ⟨_, spelled⟩
    · exact induction later

theorem mono {ends weaker : List Char → List Char → Prop} {tokens : List Token} {text : List Char}
    (script : IsScript ends tokens text)
    (implied : ∀ front text, ends front text → weaker front text) :
    IsScript weaker tokens text :=
  script.mono_of_spelled fun _ front text _ boundary => implied front text boundary

end IsScript

/-- How a sequence of tokens is written in front of a further text. -/
inductive IsBeginning (ends : List Char → List Char → Prop) (tail : List Char) :
    List Token → List Char → Prop
  | nil : IsBeginning ends tail [] []
  | separator {tokens : List Token} {c : Char} {text : List Char} (separates : isSeparator c = true)
      (later : IsBeginning ends tail tokens text) : IsBeginning ends tail tokens (c :: text)
  | token {t : Token} {tokens : List Token} {front text : List Char} (spelled : t.Spelled front)
      (boundary : ends front (text ++ tail)) (later : IsBeginning ends tail tokens text) :
      IsBeginning ends tail (t :: tokens) (front ++ text)

namespace IsBeginning

open IsScript

variable {tail text : List Char} {tokens : List Token}

/-- A whole line is a beginning with nothing behind it. -/
theorem nil_iff {ends : List Char → List Char → Prop} :
    IsBeginning ends [] tokens text ↔ IsScript ends tokens text := by
  constructor
  · intro beginning
    induction beginning with
    | nil => exact .nil
    | separator separates _ induction => exact .separator separates induction
    | token spelled boundary _ induction =>
      rw [List.append_nil] at boundary
      exact .token spelled boundary induction
  · intro script
    induction script with
    | nil => exact .nil
    | separator separates _ induction => exact .separator separates induction
    | token spelled boundary _ induction =>
      exact .token spelled (by rwa [List.append_nil]) induction

theorem of_separator {ends : List Char → List Char → Prop} {c : Char}
    (beginning : IsBeginning ends tail tokens (c :: text)) (separates : isSeparator c = true) :
    IsBeginning ends tail tokens text := by
  generalize whole_eq : c :: text = whole at beginning
  cases beginning with
  | nil => contradiction
  | separator _ later =>
    obtain ⟨rfl, rfl⟩ := List.cons.inj whole_eq
    exact later
  | token spelled _ _ =>
    obtain ⟨d, more, rfl, ordinary⟩ := spelled.exists_head
    obtain ⟨rfl, -⟩ := List.cons.inj whole_eq
    rw [ordinary] at separates
    contradiction

/-- Where the longest token is, that token is the first. -/
theorem exists_of_longest {t : Token} {front : List Char}
    (beginning : IsBeginning Read tail tokens (front ++ text)) (spelled : t.Spelled front)
    (longest : Longest front text) :
    ∃ later, tokens = t :: later ∧ Read front (text ++ tail) ∧
      IsBeginning Read tail later text := by
  obtain ⟨c, more, rfl, ordinary⟩ := spelled.exists_head
  generalize whole_eq : c :: more ++ text = whole at beginning
  cases beginning with
  | nil => contradiction
  | separator separates _ =>
    obtain ⟨rfl, -⟩ := List.cons.inj whole_eq
    rw [ordinary] at separates
    contradiction
  | @token other later front behind otherSpelled reads beginning =>
    have front_le := longest other _ otherSpelled ⟨behind, whole_eq.symm⟩
    have le_front := reads.longest t _ spelled ⟨text ++ tail, by
      rw [← List.append_assoc, whole_eq, List.append_assoc]⟩
    obtain ⟨rfl, rfl⟩ := List.append_inj whole_eq (Nat.le_antisymm le_front front_le)
    exact ⟨later, by rw [spelled.unique otherSpelled], reads, beginning⟩

end IsBeginning

namespace IsScript

variable {tokens : List Token} {text : List Char}

theorem isBeginning {ends : List Char → List Char → Prop} (script : IsScript ends tokens text) :
    IsBeginning ends [] tokens text :=
  IsBeginning.nil_iff.mpr script

theorem of_separator {ends : List Char → List Char → Prop} {c : Char}
    (script : IsScript ends tokens (c :: text)) (separates : isSeparator c = true) :
    IsScript ends tokens text :=
  IsBeginning.nil_iff.mp (script.isBeginning.of_separator separates)

theorem of_separators {ends : List Char → List Char → Prop} {gap : List Char}
    (script : IsScript ends tokens (gap ++ text)) (separate : ∀ c ∈ gap, isSeparator c = true) :
    IsScript ends tokens text := by
  induction gap with
  | nil => exact script
  | cons c gap induction =>
    obtain ⟨separates, separate⟩ := List.forall_mem_cons.mp separate
    exact induction (script.of_separator separates) separate

theorem exists_of_longest {t : Token} {front : List Char}
    (script : IsScript Read tokens (front ++ text)) (spelled : t.Spelled front)
    (longest : Longest front text) :
    ∃ later, tokens = t :: later ∧ Read front text ∧ IsScript Read later text := by
  obtain ⟨later, rfl, reads, behind⟩ := script.isBeginning.exists_of_longest spelled longest
  rw [List.append_nil] at reads
  exact ⟨later, rfl, reads, IsBeginning.nil_iff.mp behind⟩

end IsScript

namespace IsBeginning

open IsScript

variable {tail text : List Char} {tokens : List Token}

theorem reads_of_apart (beginning : IsBeginning Apart tail tokens text) :
    IsBeginning Read tail tokens text := by
  induction beginning with
  | nil => exact .nil
  | separator separates _ induction => exact .separator separates induction
  | token spelled apart _ induction =>
    exact .token spelled (.of_clear spelled (clear_of_isSeparator apart)) induction

theorem ne_nil {ends : List Char → List Char → Prop} (beginning : IsBeginning ends tail tokens text)
    (some_token : tokens ≠ []) : text ≠ [] := by
  cases beginning with
  | nil => exact absurd rfl some_token
  | separator => exact List.cons_ne_nil _ _
  | token spelled =>
    obtain ⟨c, more, rfl, -⟩ := spelled.exists_head
    exact List.cons_ne_nil _ _

theorem append {later : List Token} (beginning : IsBeginning Read tail tokens text)
    (script : IsScript Read later tail) : IsScript Read (tokens ++ later) (text ++ tail) := by
  induction beginning with
  | nil => exact script
  | separator separates _ induction => exact .separator separates induction
  | token spelled reads _ induction =>
    rw [List.append_assoc]
    exact .token spelled reads induction

/-- The beginning of a line is read as written if each of its tokens is as long as it can be. -/
theorem exists_later {all : List Token} (beginning : IsBeginning Longest tail tokens text)
    (script : IsScript Read all (text ++ tail)) :
    ∃ later, all = tokens ++ later ∧ IsBeginning Read tail tokens text ∧
      IsScript Read later tail := by
  induction beginning generalizing all with
  | nil => exact ⟨all, rfl, .nil, script⟩
  | separator separates _ induction =>
    obtain ⟨later, rfl, reads, behind⟩ := induction (script.of_separator separates)
    exact ⟨later, rfl, .separator separates reads, behind⟩
  | token spelled longest _ induction =>
    rw [List.append_assoc] at script
    obtain ⟨others, rfl, first, script⟩ := script.exists_of_longest spelled longest
    obtain ⟨later, rfl, reads, behind⟩ := induction script
    exact ⟨later, rfl, .token spelled first reads, behind⟩

/-- What is read in front of one text is read in front of another that continues it no further. -/
theorem of_clearer {other : List Char} (beginning : IsBeginning Read tail tokens text)
    (clearer : tokens ≠ [] → Clearer other tail) : IsBeginning Read other tokens text := by
  induction beginning with
  | nil => exact .nil
  | separator separates _ induction => exact .separator separates (induction clearer)
  | token spelled reads _ induction =>
    have clearer := clearer (List.cons_ne_nil _ _)
    exact .token spelled (reads.of_clearer (clearer.append _)) (induction fun _ => clearer)

/-- What is read in front of one text is read in front of another that cannot continue a token. -/
theorem of_clear {other : List Char} (beginning : IsBeginning Read tail tokens text)
    (clear : tokens = [] ∨ Clear other) : IsBeginning Read other tokens text :=
  beginning.of_clearer fun some_token => .of_clear (clear.resolve_left some_token) tail

end IsBeginning

/-- What separators keep apart is read as it is written. -/
theorem IsScript.reads_of_apart {tokens : List Token} {text : List Char}
    (script : IsScript Apart tokens text) : IsScript Read tokens text :=
  script.mono_of_spelled fun _ _ _ spelled apart =>
    .of_clear spelled (clear_of_isSeparator apart)

/-- Tokens that are read as a whole line are read in front of any text that cannot continue them. -/
theorem IsScript.isBeginning_of_clear {tokens : List Token} {text other : List Char}
    (script : IsScript Read tokens text) (clear : Clear other) :
    IsBeginning Read other tokens text :=
  script.isBeginning.of_clear (.inr clear)

/-! ### Texts set apart -/

/-- Texts one after the other with separators around them, at least one between two of them. -/
inductive SetApart : List (List Char) → List Char → Prop
  | nil : SetApart [] []
  | separator {texts : List (List Char)} {c : Char} {rest : List Char}
      (separates : isSeparator c = true) (later : SetApart texts rest) : SetApart texts (c :: rest)
  | text {front : List Char} {texts : List (List Char)} {rest : List Char}
      (apart : ∀ c ∈ rest.head?, isSeparator c = true) (later : SetApart texts rest) :
      SetApart (front :: texts) (front ++ rest)

/-- Tokens whose texts are set apart are a script. -/
theorem SetApart.isScript {tokens : List Token} {texts : List (List Char)} {rest : List Char}
    (spelled : List.Forall₂ Token.Spelled tokens texts) (apart : SetApart texts rest) :
    IsScript IsScript.Apart tokens rest := by
  induction apart generalizing tokens with
  | nil =>
    obtain rfl := List.forall₂_nil_right_iff.mp spelled
    exact .nil
  | separator separates _ induction => exact .separator separates (induction spelled)
  | text apart _ induction =>
    obtain ⟨t, later, first, others, rfl⟩ := List.forall₂_cons_right_iff.mp spelled
    exact .token first apart (induction others)

theorem setApart_separators {gap : List Char} (separate : ∀ c ∈ gap, isSeparator c = true)
    {texts : List (List Char)} {rest : List Char} (later : SetApart texts rest) :
    SetApart texts (gap ++ rest) := by
  induction gap with
  | nil => exact later
  | cons c gap induction =>
    obtain ⟨separates, separate⟩ := List.forall_mem_cons.mp separate
    exact .separator separates (induction separate)

/-- Texts that are joined by separators are set apart. -/
theorem setApart_intercalate {gap : List Char} (some_gap : gap ≠ [])
    (separate : ∀ c ∈ gap, isSeparator c = true) (texts : List (List Char)) :
    SetApart texts (gap.intercalate texts) := by
  induction texts with
  | nil => exact .nil
  | cons front texts induction =>
    cases texts with
    | nil =>
      have single : SetApart [front] (front ++ []) := .text (by simp) .nil
      rw [List.append_nil] at single
      rwa [List.intercalate_singleton]
    | cons next texts =>
      rw [List.intercalate_cons_cons, List.append_assoc]
      refine .text ?_ (setApart_separators separate induction)
      obtain ⟨c, gap, rfl⟩ := List.exists_cons_of_ne_nil some_gap
      rintro _ ⟨⟩
      exact separate c List.mem_cons_self

end BusScript
