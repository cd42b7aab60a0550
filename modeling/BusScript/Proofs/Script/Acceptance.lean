import BusScript.Proofs.Script.Meaning
import BusScript.Proofs.Script.Sequence

/-!
# The lines that compile

Tokens that are written apart from each other compile to what they stand for, one after the other.
Whatever compiles is a sequence of tokens, each as long as it can be where it begins, and compiles
to what they stand for.
-/

namespace BusScript

section Compile

variable {settings : Settings} {role : Nat → PinRole} {d : Draft} {i : Input}

theorem compileFrom_of_nil (rest_eq : i.rest = []) :
    (compileFrom settings role d i).result = .ok d.instructions.toList := by
  rw [compileFrom]
  split
  next => rfl
  next c text cons_eq =>
    rw [rest_eq] at cons_eq
    contradiction

theorem compileFrom_of_cons {c : Char} {text : List Char} (rest_eq : i.rest = c :: text) :
    compileFrom settings role d i =
      if isSeparator c then compileFrom settings role d (i.advance 1)
      else
        match Token.read c i with
        | .error failure => d.fail failure.reason failure.input
        | .ok (t, rest) =>
          match d.append settings role c i rest t with
          | .error stopped => stopped
          | .ok later => compileFrom settings role later rest := by
  rw [compileFrom]
  split
  next nil_eq =>
    rw [rest_eq] at nil_eq
    contradiction
  next c' text' cons_eq =>
    obtain ⟨rfl, -⟩ := List.cons.inj (rest_eq.symm.trans cons_eq)
    split
    next => rfl
    next =>
      split
      next failure failed => simp only [failed]
      next t rest read_eq =>
        cases append_eq : d.append settings role c i rest t <;> simp only [read_eq, append_eq]

theorem compileFrom_of_separator {c : Char} {text : List Char} (rest_eq : i.rest = c :: text)
    (separates : isSeparator c = true) :
    compileFrom settings role d i = compileFrom settings role d (i.advance 1) := by
  rw [compileFrom_of_cons rest_eq, if_pos separates]

theorem compileFrom_of_token {c : Char} {text : List Char} {t : Token} {rest : Input}
    {later : Draft} (rest_eq : i.rest = c :: text) (ordinary : isSeparator c = false)
    (read_eq : Token.read c i = .ok (t, rest))
    (appended : d.append settings role c i rest t = .ok later) :
    compileFrom settings role d i = compileFrom settings role later rest := by
  rw [compileFrom_of_cons rest_eq, ordinary, if_neg (by simp), read_eq]
  simp only [appended]

/-- A beginning for which there is room is appended, and what is behind it is compiled then. -/
theorem compileFrom_of_isBeginning {tokens : List Token} {front tail : List Char}
    (beginning : IsBeginning IsScript.Read tail tokens front)
    (rest_eq : i.rest = front ++ tail) (valid : ∀ t ∈ tokens, t.Fits settings ∧ t.PinFree role)
    (room : d.Room settings (tokens.flatMap (Token.denote settings))) :
    ∃ later, Draft.Extends d later (tokens.flatMap (Token.denote settings)) ∧
      compileFrom settings role d i =
        compileFrom settings role later (i.advance front.length) := by
  induction beginning generalizing d i with
  | nil => exact ⟨d, ⟨(List.append_nil _).symm, rfl⟩, by rw [List.length_nil, Input.advance_zero]⟩
  | @separator tokens c front separates _ induction =>
    have text_eq : (i.advance 1).rest = front ++ tail := by
      rw [Input.rest_advance, rest_eq]
      rfl
    obtain ⟨later, extended, compile_eq⟩ := induction text_eq valid room
    refine ⟨later, extended, ?_⟩
    rw [compileFrom_of_separator rest_eq separates, compile_eq, Input.advance_advance,
      List.length_cons, Nat.add_comm]
  | @token t tokens word front spelled reads _ induction =>
    obtain ⟨c, more, rfl, ordinary⟩ := spelled.exists_head
    rw [List.append_assoc] at rest_eq
    have text_eq : (i.advance (c :: more).length).rest = front ++ tail := by
      rw [Input.rest_advance, rest_eq, List.drop_left]
    obtain ⟨⟨fits, free⟩, valid⟩ := List.forall_mem_cons.mp valid
    rw [List.flatMap_cons] at room
    obtain ⟨middle, appended⟩ :=
      Draft.exists_append c i (i.advance (c :: more).length) fits free room.of_append
    obtain ⟨-, -, first⟩ := Draft.extends_of_append appended
    obtain ⟨later, extended, compile_eq⟩ :=
      induction text_eq valid ((Draft.room_append first).mp room).2
    refine ⟨later, by rw [List.flatMap_cons]; exact first.trans extended, ?_⟩
    rw [compileFrom_of_token rest_eq ordinary (reads.read_eq spelled rfl rest_eq) appended,
      compile_eq, Input.advance_advance, List.length_append]

/-- Tokens that are read as they are written compile to what they stand for. -/
theorem compileFrom_of_reads {tokens : List Token} {text : List Char}
    (script : IsScript IsScript.Read tokens text) (rest_eq : i.rest = text)
    (valid : ∀ t ∈ tokens, t.Fits settings ∧ t.PinFree role)
    (room : d.Room settings (tokens.flatMap (Token.denote settings))) :
    (compileFrom settings role d i).result =
      .ok (d.instructions.toList ++ tokens.flatMap (Token.denote settings)) := by
  have whole_eq : i.rest = text ++ [] := by rw [rest_eq, List.append_nil]
  obtain ⟨later, extended, compile_eq⟩ :=
    compileFrom_of_isBeginning script.isBeginning whole_eq valid room
  have nothing_left : (i.advance text.length).rest = [] := by
    rw [Input.rest_advance, whole_eq, List.drop_left]
  rw [compile_eq, compileFrom_of_nil nothing_left, extended.instructions_eq]

theorem exists_token_of_compileFrom {c : Char} {text : List Char} {p : Program}
    (rest_eq : i.rest = c :: text) (ordinary : isSeparator c = false)
    (compiled : (compileFrom settings role d i).result = .ok p) :
    ∃ t rest later, Token.read c i = .ok (t, rest) ∧
      d.append settings role c i rest t = .ok later ∧
      (compileFrom settings role later rest).result = .ok p := by
  rw [compileFrom_of_cons rest_eq, ordinary, if_neg (by simp)] at compiled
  split at compiled
  next => contradiction
  next t rest read_eq =>
    split at compiled
    next stopped append_eq =>
      obtain ⟨reason, result_eq⟩ := Draft.exists_reason_of_append append_eq
      rw [result_eq] at compiled
      contradiction
    next later appended => exact ⟨t, rest, later, read_eq, appended, compiled⟩

/-- What compiles is a sequence of tokens that are read as they are written. -/
theorem reads_of_compileFrom {p : Program}
    (compiled : (compileFrom settings role d i).result = .ok p) :
    ∃ tokens, IsScript IsScript.Read tokens i.rest ∧
      (∀ t ∈ tokens, t.Fits settings ∧ t.PinFree role) ∧
      d.Room settings (tokens.flatMap (Token.denote settings)) ∧
      p = d.instructions.toList ++ tokens.flatMap (Token.denote settings) := by
  induction length_eq : i.rest.length using Nat.strong_induction_on generalizing d i with
  | _ n induction =>
    cases rest_eq : i.rest with
    | nil =>
        rw [compileFrom_of_nil rest_eq, Except.ok.injEq] at compiled
        refine ⟨[], .nil, by simp, .inl rfl, ?_⟩
        rw [← compiled, List.flatMap_nil, List.append_nil]
    | cons c text =>
        by_cases separates : isSeparator c = true
        · rw [compileFrom_of_separator rest_eq separates] at compiled
          have text_eq : (i.advance 1).rest = text := by
            rw [Input.rest_advance, rest_eq, List.drop_one, List.tail_cons]
          have shorter : (i.advance 1).rest.length < n := by
            rw [text_eq, ← length_eq, rest_eq, List.length_cons]
            exact Nat.lt_succ_self _
          obtain ⟨tokens, script, valid, room, p_eq⟩ := induction _ shorter compiled rfl
          rw [text_eq] at script
          exact ⟨tokens, .separator separates script, valid, room, p_eq⟩
        · have ordinary : isSeparator c = false := Bool.not_eq_true _ ▸ separates
          obtain ⟨t, rest, later, read_eq, appended, compiled⟩ :=
            exists_token_of_compileFrom rest_eq ordinary compiled
          have shorter : rest.rest.length < n :=
            length_eq ▸ Token.rest_length_lt_of_read rest_eq read_eq
          obtain ⟨front, behind, split_eq, rfl, spelled, -⟩ :=
            Token.spelled_of_read rest_eq read_eq
          obtain ⟨fits, room, extended⟩ := Draft.extends_of_append appended
          obtain ⟨tokens, script, valid, room_later, p_eq⟩ := induction _ shorter compiled rfl
          rw [Input.rest_advance, split_eq, List.drop_left] at script
          obtain ⟨d, more, rfl, -⟩ := spelled.exists_head
          obtain ⟨rfl, -⟩ := List.cons.inj (rest_eq.symm.trans split_eq)
          have reads := IsScript.Read.of_read spelled split_eq read_eq
          refine ⟨t :: tokens, ?_, List.forall_mem_cons.mpr ⟨fits, valid⟩, ?_, ?_⟩
          · rw [← rest_eq, split_eq]
            exact .token spelled reads script
          · rw [List.flatMap_cons]
            exact (Draft.room_append extended).mpr ⟨room, room_later⟩
          · rw [p_eq, extended.instructions_eq, List.flatMap_cons, List.append_assoc]

theorem isScript_of_compileFrom {p : Program}
    (compiled : (compileFrom settings role d i).result = .ok p) :
    ∃ tokens, IsScript IsScript.Longest tokens i.rest ∧
      (∀ t ∈ tokens, t.Fits settings ∧ t.PinFree role) ∧
      d.Room settings (tokens.flatMap (Token.denote settings)) ∧
      p = d.instructions.toList ++ tokens.flatMap (Token.denote settings) := by
  obtain ⟨tokens, script, meaning⟩ := reads_of_compileFrom compiled
  exact ⟨tokens, script.mono fun _ _ reads => reads.longest, meaning⟩

end Compile

namespace Cursor

/-- Every instruction of a line that compiles is that of a valid token written there. -/
theorem exists_spelled_of_mem {settings : Settings} {role : Nat → PinRole} {line : Cursor}
    {p : Program} {i : Instruction} (compiled : (line.compile settings role).1.result = .ok p)
    (member : i ∈ p) :
    ∃ t : Token, (∃ word, t.Spelled word) ∧ t.Fits settings ∧ t.PinFree role ∧
      i ∈ t.denote settings := by
  obtain ⟨tokens, script, valid, -, p_eq⟩ := isScript_of_compileFrom compiled
  obtain rfl : p = tokens.flatMap (Token.denote settings) := p_eq
  obtain ⟨t, inside, denoted⟩ := List.mem_flatMap.mp member
  exact ⟨t, script.exists_spelled_of_mem inside, (valid t inside).1, (valid t inside).2, denoted⟩

theorem exists_token_of_mem {settings : Settings} {role : Nat → PinRole} {line : Cursor}
    {p : Program} {i : Instruction} (compiled : (line.compile settings role).1.result = .ok p)
    (member : i ∈ p) :
    ∃ t : Token, t.Fits settings ∧ t.PinFree role ∧ i ∈ t.denote settings := by
  obtain ⟨t, -, token⟩ := exists_spelled_of_mem compiled member
  exact ⟨t, token⟩

end Cursor

end BusScript
