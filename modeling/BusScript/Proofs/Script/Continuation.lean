import BusScript.Proofs.Script.Grammar

/-!
# What comes behind a token

Where a token ends depends on the text behind it, but not on all of it. A token that was read in
front of one text is read in front of every other that continues it no further, and wherever it
stands in a line.
-/

namespace BusScript

/-- A text continues a token at most as another text does. -/
structure Clearer (other text : List Char) : Prop where
  head : Quiet other ∨ other.head? = text.head?
  bits : Attributes.announces '.' other = true → Attributes.announces '.' text = true
  repeats : Attributes.announces ':' other = true → Attributes.announces ':' text = true

namespace Clearer

theorem refl (text : List Char) : Clearer text text :=
  ⟨.inr rfl, id, id⟩

theorem of_clear {other : List Char} (clear : Clear other) (text : List Char) :
    Clearer other text where
  head := .inl clear.quiet
  bits announced := by
    rw [clear.no_bits] at announced
    contradiction
  repeats announced := by
    rw [clear.no_repeats] at announced
    contradiction

/-- Behind other text, what continues a token depends on the first character at most. -/
theorem append_of_head {other text : List Char} (head : Quiet other ∨ other.head? = text.head?)
    {front : List Char} (some_front : front ≠ []) : Clearer (front ++ other) (front ++ text) := by
  match front with
  | [c] =>
    -- What a single character announces depends on the first character behind it.
    have announced_of (delimiter : Char)
        (announced : Attributes.announces delimiter ([c] ++ other) = true) :
        Attributes.announces delimiter ([c] ++ text) = true := by
      cases other with
      | nil => contradiction
      | cons d rest =>
        have both : (c == delimiter && d.isDigit) = true := announced
        rcases head with quiet | head_eq
        · have plain := quiet d rfl
          rw [Char.isAlphanum, Bool.or_eq_false_iff] at plain
          rw [plain.2, Bool.and_false] at both
          contradiction
        · obtain ⟨tail, rfl⟩ := List.head?_eq_some_iff.mp head_eq.symm
          exact both
    exact ⟨.inr rfl, announced_of '.', announced_of ':'⟩
  | c :: d :: front => exact ⟨.inr rfl, id, id⟩

/-- With the same text in front of both, a text continues a token no more than another as before. -/
theorem append {other text : List Char} (clearer : Clearer other text) (front : List Char) :
    Clearer (front ++ other) (front ++ text) := by
  cases front with
  | nil => exact clearer
  | cons c front => exact append_of_head clearer.head (List.cons_ne_nil c front)

theorem append_of_clear {other : List Char} (clear : Clear other) (front text : List Char) :
    Clearer (front ++ other) (front ++ text) :=
  (of_clear clear text).append front

theorem of_append (front tail : List Char) : Clearer front (front ++ tail) := by
  have cut := append_of_clear clear_nil front tail
  rwa [List.append_nil] at cut

/-- A text continues a token no more with a separator at its end. -/
theorem append_separator {c : Char} (separates : isSeparator c = true) (text : List Char) :
    Clearer (text ++ [c]) text := by
  have apart : Clear [c] := clear_of_isSeparator (by simpa using separates)
  have longer := append_of_clear apart text []
  rwa [List.append_nil] at longer

theorem head_append {other text : List Char} (clearer : Clearer other text) (front : List Char) :
    Quiet (front ++ other) ∨ (front ++ other).head? = (front ++ text).head? := by
  cases front with
  | nil => exact clearer.head
  | cons c front => exact .inr rfl

end Clearer

namespace Literal

/-- Reading takes exactly so many digits if it takes all of them and what comes next is none. -/
theorem readDigits?_append_eq_some_iff {base value count total : Nat} {chars text : List Char} :
    readDigits? base value count (chars ++ text) = some (total, count + chars.length) ↔
      readDigits? base value count chars = some (total, count + chars.length) ∧
        ∀ c ∈ text.head?, digit? base c = none := by
  induction chars generalizing value count with
  | nil =>
    cases text with
    | nil => simp
    | cons c rest =>
      cases digit_eq : digit? base c with
      | none => simp [readDigits?, digit_eq]
      | some digit =>
        have further : readDigits? base value count (c :: rest) ≠ some (total, count) := by
          intro found
          rw [readDigits?, digit_eq] at found
          simp only at found
          split at found
          next => contradiction
          next => exact absurd (count_le_of_readDigits? found) (Nat.not_succ_le_self count)
        simp [further, digit_eq]
  | cons c chars induction =>
    rw [List.cons_append, readDigits?, readDigits?, List.length_cons, ← Nat.add_assoc,
      Nat.add_right_comm]
    cases digit? base c with
    | none =>
      have further : count ≠ count + 1 + chars.length := by omega
      simp [further]
    | some digit =>
      cases larger_eq : appendDigit? base value digit with
      | none => simp [larger_eq]
      | some larger => simpa only [larger_eq] using induction

theorem mark?_congr (c : Char) {rest other : List Char} (head_eq : other.head? = rest.head?) :
    mark? (c :: other) = mark? (c :: rest) := by
  simp only [mark?, head_eq]

theorem eq_dec_of_mark? {c : Char} {rest : List Char} {m : Mark}
    (found : mark? (c :: rest) = some m) (length_eq : m.length = 0) :
    c.isDigit = true ∧ m = { radix := .dec, base := 10, length := 0 } := by
  rw [mark?] at found
  split at found
  next =>
    cases found
    contradiction
  next =>
    split at found
    next =>
      cases found
      contradiction
    next =>
      split at found
      next decimal =>
        cases found
        exact ⟨decimal, rfl⟩
      next => contradiction

theorem mark?_of_head {front text other : List Char} {m : Mark}
    (found : mark? (front ++ text) = some m) (longer : m.length < front.length)
    (head : Quiet other ∨ other.head? = text.head?) : mark? (front ++ other) = some m := by
  match front with
  | [c] =>
    obtain ⟨decimal, rfl⟩ := eq_dec_of_mark? found (Nat.lt_one_iff.mp longer)
    rcases head with quiet | head_eq
    · exact mark?_eq_dec decimal fun next next_eq => .inr (quiet next next_eq)
    · rw [← found]
      exact mark?_congr c head_eq
  | c :: d :: front =>
    rw [← found]
    exact mark?_congr c rfl

/-- A literal is read in front of any text that begins in the same way or continues none. -/
theorem read?_of_head {front text other : List Char} {l : Literal}
    (found : read? (front ++ text) = some (l, front.length))
    (head : Quiet other ∨ other.head? = text.head?) :
    read? (front ++ other) = some (l, front.length) := by
  simp only [read?, Option.bind_eq_bind, Option.bind_eq_some_iff] at found
  obtain ⟨m, mark_eq, ⟨value, count⟩, digits_eq, taken⟩ := found
  obtain ⟨positive, l_eq, length_eq⟩ : count ≠ 0 ∧ (⟨UInt32.ofNat value, m.radix⟩ : Literal) = l ∧
      m.length + count = front.length := by
    simpa using taken
  have drop_eq (rest : List Char) : (front ++ rest).drop m.length = front.drop m.length ++ rest :=
    List.drop_append_of_le_length (by omega)
  have count_eq : count = 0 + (front.drop m.length).length := by
    rw [List.length_drop]
    omega
  rw [drop_eq, count_eq, readDigits?_append_eq_some_iff] at digits_eq
  obtain ⟨digits_eq, stops⟩ := digits_eq
  have other_stops : ∀ c ∈ other.head?, digit? m.base c = none := by
    rcases head with quiet | head_eq
    · obtain ⟨mark, tail, -, marked, base_eq, -⟩ := exists_of_mark? mark_eq
      intro c c_eq
      obtain ⟨rest, rfl⟩ : ∃ rest, other = c :: rest := ⟨_, List.eq_cons_of_mem_head? c_eq⟩
      rw [base_eq]
      exact digit?_eq_none_of_stops marked.base_le.2 (quiet.stops marked.base_le.2)
    · rwa [head_eq]
  simp only [read?, Option.bind_eq_bind, Option.bind_eq_some_iff]
  refine ⟨m, mark?_of_head mark_eq (by omega) head, (value, count), ?_, taken⟩
  rw [drop_eq, count_eq]
  exact readDigits?_append_eq_some_iff.mpr ⟨digits_eq, other_stops⟩

end Literal

theorem Input.advance_inj {i : Input} {m n : Nat} (advance_eq : i.advance m = i.advance n) :
    m = n := by
  have position_eq := congrArg Input.position advance_eq
  rw [position_advance, position_advance] at position_eq
  exact Nat.add_left_cancel position_eq

namespace Attributes

theorem readValue_of_head {i j : Input} {delimiter : Char} {n : Nat}
    {number text other : List Char} (found : readValue i = .ok (n, i.advance (number.length + 1)))
    (i_eq : i.rest = delimiter :: (number ++ text)) (j_eq : j.rest = delimiter :: (number ++ other))
    (head : Quiet other ∨ other.head? = text.head?) :
    readValue j = .ok (n, j.advance (number.length + 1)) := by
  have i_body : (i.advance 1).rest = number ++ text := by
    rw [Input.rest_advance, i_eq]
    rfl
  have j_body : (j.advance 1).rest = number ++ other := by
    rw [Input.rest_advance, j_eq]
    rfl
  rw [readValue_eq, i_body] at found
  split at found
  next => contradiction
  next l length literal_eq =>
    simp only [Except.ok.injEq, Prod.mk.injEq, Input.advance_advance] at found
    obtain ⟨rfl, advance_eq⟩ := found
    obtain rfl : length = number.length := by
      have := Input.advance_inj advance_eq
      omega
    rw [readValue_eq, j_body, Literal.read?_of_head literal_eq head]
    simp only [Input.advance_advance, Nat.add_comm 1]

theorem readOne?_eq_none_of_clearer {seen : Attributes} {i j : Input}
    (nothing : readOne? seen i = none) (clearer : Clearer j.rest i.rest) :
    readOne? seen j = none := by
  simp only [readOne?_eq_none_iff, ← Bool.not_eq_true] at nothing ⊢
  exact ⟨fun fresh => mt clearer.bits (nothing.1 fresh),
    fun fresh => mt clearer.repeats (nothing.2 fresh)⟩

/-- Attributes that are read in front of one text are read in front of another that continues them
no further. -/
theorem readUpTo_of_clearer {n : Nat} {seen all : Attributes} {i j : Input}
    {front text other : List Char}
    (found : readUpTo n seen i = .ok (all, i.advance front.length)) (enough : seen.missing ≤ n)
    (i_eq : i.rest = front ++ text) (j_eq : j.rest = front ++ other)
    (clearer : Clearer other text) : readUpTo n seen j = .ok (all, j.advance front.length) := by
  have nothing_read {seen : Attributes} {front : List Char} {i : Input}
      (found : (.ok (seen, i) : Except Input (Attributes × Input)) =
        .ok (all, i.advance front.length)) : seen = all ∧ front = [] := by
    simp only [Except.ok.injEq, Prod.mk.injEq] at found
    refine ⟨found.1, List.length_eq_zero_iff.mp ?_⟩
    exact (Input.advance_inj (i.advance_zero.trans found.2)).symm
  induction n generalizing seen i j front with
  | zero =>
    rw [readUpTo] at found
    obtain ⟨rfl, rfl⟩ := nothing_read found
    rw [readUpTo, List.length_nil, Input.advance_zero]
  | succ n induction =>
    rw [readUpTo] at found
    split at found
    next nothing =>
      obtain ⟨rfl, rfl⟩ := nothing_read found
      rw [List.nil_append] at i_eq j_eq
      rw [readUpTo, readOne?_eq_none_of_clearer nothing (by rwa [i_eq, j_eq])]
      simp only [List.length_nil, Input.advance_zero]
    next => contradiction
    next next behind one_eq =>
      obtain ⟨delimiter, value, announced, value_eq, given⟩ := exists_of_readOne? one_eq
      obtain ⟨body, body_eq⟩ := exists_of_announces announced
      obtain ⟨l, number, tail, rfl, spelled, rfl, rfl, -⟩ := spelled_of_readValue value_eq body_eq
      have missing_eq := given.missing_eq
      obtain ⟨more, rear, rear_eq, advance_eq, -⟩ := spelled_of_readUpTo found (by omega)
      rw [advance_eq] at found
      rw [Input.rest_advance, body_eq, List.drop_succ_cons, List.drop_left] at rear_eq
      subst rear_eq
      rw [Input.advance_advance] at advance_eq
      have length_eq : (delimiter :: (number ++ more)).length = front.length := by
        rw [Input.advance_inj advance_eq, List.length_cons, List.length_append, Nat.add_right_comm]
      rw [body_eq, ← List.append_assoc, ← List.cons_append] at i_eq
      obtain ⟨rfl, rfl⟩ := List.append_inj i_eq length_eq
      refine readUpTo_cons j_eq ?_ fun later_eq => induction found (by omega) ?_ later_eq
      · rw [List.cons_append, List.append_assoc] at j_eq
        refine readOne?_of_given given ?_
          (readValue_of_head value_eq body_eq j_eq (clearer.head_append more))
        rw [j_eq]
        exact IsNumber.announces ⟨l, spelled, rfl⟩ delimiter _
      · rw [Input.rest_advance, body_eq, List.drop_succ_cons, List.drop_left]

end Attributes

namespace Token

theorem readAttributes_of_clearer {position other_position : Nat} {attributes : Attributes}
    {i j : Input} {front text other : List Char}
    (found : readAttributes position i = .ok (attributes, i.advance front.length))
    (i_eq : i.rest = front ++ text) (j_eq : j.rest = front ++ other)
    (clearer : Clearer other text) :
    readAttributes other_position j = .ok (attributes, j.advance front.length) := by
  rw [readAttributes] at found
  split at found
  next read_eq =>
    cases found
    rw [readAttributes, Attributes.read,
      Attributes.readUpTo_of_clearer read_eq (by decide) i_eq j_eq clearer]
  next => contradiction

theorem readValue_of_clearer {t : Token} {i j : Input} {front text other : List Char}
    (found : readValue i = .ok (t, i.advance front.length)) (i_eq : i.rest = front ++ text)
    (j_eq : j.rest = front ++ other) (clearer : Clearer other text) :
    readValue j = .ok (t, j.advance front.length) := by
  rw [readValue_eq] at found
  split at found
  next => contradiction
  next l length literal_eq =>
    split at found
    next => contradiction
    next attributes behind attributes_eq =>
      obtain ⟨number, tail, rest_eq, rfl, -, -⟩ := Literal.spelled_of_read? literal_eq
      obtain ⟨more, rear, more_eq, rfl, -, -⟩ := spelled_of_readAttributes attributes_eq
      rw [Input.rest_advance, rest_eq, List.drop_left] at more_eq
      subst more_eq
      simp only [Except.ok.injEq, Prod.mk.injEq, Input.advance_advance] at found
      obtain ⟨rfl, advance_eq⟩ := found
      have length_eq : (number ++ more).length = front.length := by
        rw [List.length_append, Input.advance_inj advance_eq]
      rw [rest_eq, ← List.append_assoc] at i_eq
      obtain ⟨rfl, rfl⟩ := List.append_inj i_eq length_eq
      rw [List.append_assoc] at j_eq
      have later_eq {k : Input} {rear : List Char} (k_eq : k.rest = number ++ (more ++ rear)) :
          (k.advance number.length).rest = more ++ rear := by
        rw [Input.rest_advance, k_eq, List.drop_left]
      rw [rest_eq] at literal_eq
      rw [readValue_eq, j_eq, Literal.read?_of_head literal_eq (clearer.head_append more)]
      simp only [readAttributes_of_clearer attributes_eq (later_eq rest_eq) (later_eq j_eq) clearer,
        Input.advance_advance, List.length_append]

theorem readCommand_of_clearer {t : Token} {c : Char} {i j : Input} {front text other : List Char}
    (found : readCommand c i = .ok (t, i.advance (c :: front).length))
    (i_eq : i.rest = c :: front ++ text) (j_eq : j.rest = c :: front ++ other)
    (clearer : Clearer other text) : readCommand c j = .ok (t, j.advance (c :: front).length) := by
  have later_eq {k : Input} {rear : List Char} (k_eq : k.rest = c :: front ++ rear) :
      (k.advance 1).rest = front ++ rear := by
    rw [Input.rest_advance, k_eq]
    rfl
  have behind_eq (k : Input) :
      k.advance (c :: front).length = (k.advance 1).advance front.length := by
    rw [Input.advance_advance, List.length_cons, Nat.add_comm]
  rw [behind_eq] at found ⊢
  rw [readCommand] at found ⊢
  split at found
  next => contradiction
  next op op_eq =>
    split at found
    next => contradiction
    next attributes behind attributes_eq =>
      cases found
      simp only [readAttributes_of_clearer attributes_eq (later_eq i_eq) (later_eq j_eq) clearer]

/-- A token that is read in front of one text is read in front of another that continues it no
further, wherever it stands. -/
theorem read_of_clearer {t : Token} {c : Char} {i j : Input} {front text other : List Char}
    (found : read c i = .ok (t, i.advance (c :: front).length))
    (i_eq : i.rest = c :: front ++ text) (j_eq : j.rest = c :: front ++ other)
    (clearer : Clearer other text) : read c j = .ok (t, j.advance (c :: front).length) := by
  rw [read] at found ⊢
  split
  next decimal =>
    rw [if_pos decimal] at found
    exact readValue_of_clearer found i_eq j_eq clearer
  next not_decimal =>
    rw [if_neg not_decimal] at found
    split at found
    next quote =>
      subst quote
      rw [if_pos rfl]
      obtain ⟨chars, tail, rest_eq, unquoted, rfl, advance_eq⟩ := spelled_of_readText i_eq found
      rw [rest_eq] at i_eq
      obtain ⟨front_eq, -⟩ := List.append_inj i_eq (Input.advance_inj advance_eq).symm
      rw [← front_eq] at j_eq ⊢
      exact readText_append unquoted j_eq
    next no_quote =>
      rw [if_neg no_quote]
      exact readCommand_of_clearer found i_eq j_eq clearer

/-- A text is that of at most one token. -/
theorem Spelled.unique {t other : Token} {text : List Char} (spelled : t.Spelled text)
    (otherSpelled : other.Spelled text) : t = other := by
  obtain ⟨c, more, rfl, -⟩ := spelled.exists_head
  have alone : (Input.mk 0 (c :: more)).rest = c :: more ++ [] := (List.append_nil _).symm
  have found := read_append spelled rfl (endedBy_of_clear clear_nil t) alone
  rw [read_append otherSpelled rfl (endedBy_of_clear clear_nil other) alone] at found
  exact (congrArg Prod.fst (Except.ok.inj found)).symm

end Token

end BusScript
