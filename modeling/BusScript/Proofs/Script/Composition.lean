import BusScript.Proofs.Execution.Budget
import BusScript.Proofs.Script.Refusal

/-!
# Lines put together

A separator keeps what is in front of it apart from what is behind. Two lines with a separator
between them compile to the one program and then the other if there is room for both. A line that is
turned down by itself is turned down behind another too: for the same reason in a place further
behind, unless what is in front of that place leaves no room.
-/

namespace BusScript

/-- What a text compiles to as a whole line, or why it is turned down. -/
def compileText (settings : Settings) (role : Nat → PinRole) (text : List Char) :
    Except Rejection Program :=
  (({ line := text } : Cursor).compile settings role).1.result

theorem compileText_eq_compileFrom (settings : Settings) (role : Nat → PinRole)
    (text : List Char) :
    compileText settings role text = (compileFrom settings role {} ⟨0, text⟩).result := rfl

namespace Draft

variable {settings : Settings} {later : Draft} {p : Program}

theorem Extends.room_iff (extended : Extends {} later p) (q : Program) :
    later.Room settings q ↔ q = [] ∨ p.slots + q.slots < settings.capacity := by
  rw [Room, extended.slots_eq, Nat.zero_add]

/-- What has room behind a program has room without it. -/
theorem Extends.room_of_room (extended : Extends {} later p) {q : Program}
    (room : later.Room settings q) : Room settings {} q := by
  rcases (extended.room_iff q).mp room with nil_eq | fits
  · exact .inl nil_eq
  · refine .inr ?_
    rw [Nat.zero_add]
    exact Nat.lt_of_le_of_lt (Nat.le_add_left _ _) fits

end Draft

section Append

open IsScript

variable {settings : Settings} {role : Nat → PinRole} {front : List Char} {c : Char} {p : Program}

/-- What is behind a line that compiles and a separator is compiled as it would be by itself, with
the program of the line in front of it. -/
theorem exists_compileText_append (compiled : compileText settings role front = .ok p)
    (separates : isSeparator c = true) (behind : List Char) :
    ∃ later, Draft.Extends {} later p ∧ compileText settings role (front ++ c :: behind) =
      (compileFrom settings role later ⟨front.length + 1, behind⟩).result := by
  obtain ⟨tokens, script, valid, room, p_eq⟩ := reads_of_compileFrom compiled
  obtain rfl : p = tokens.flatMap (Token.denote settings) := p_eq
  have clear : Clear (c :: behind) := by
    apply clear_of_isSeparator
    rintro _ ⟨⟩
    exact separates
  have beginning : IsBeginning Read (c :: behind) tokens front := script.isBeginning_of_clear clear
  obtain ⟨later, extended, compile_eq⟩ :=
    compileFrom_of_isBeginning (i := ⟨0, front ++ c :: behind⟩) beginning rfl valid room
  refine ⟨later, extended, ?_⟩
  have behind_eq : (Input.advance front.length ⟨0, front ++ c :: behind⟩).rest = c :: behind :=
    List.drop_left
  have input_eq : (Input.advance front.length ⟨0, front ++ c :: behind⟩).advance 1 =
      ⟨front.length + 1, behind⟩ := by
    rw [Input.advance_advance, Input.advance, Nat.zero_add, ← List.drop_drop, List.drop_left]
    rfl
  rw [compileText_eq_compileFrom, compile_eq, compileFrom_of_separator behind_eq separates,
    input_eq]

/-- What precedes the token at which a line fails compiles by itself. -/
theorem compileText_of_isBeginning {tokens : List Token} {tail : List Char}
    (beginning : IsBeginning Read tail tokens front)
    (valid : ∀ t ∈ tokens, t.Fits settings ∧ t.PinFree role)
    (room : Draft.Room settings {} (tokens.flatMap (Token.denote settings))) :
    compileText settings role front = .ok (tokens.flatMap (Token.denote settings)) := by
  have alone : IsBeginning Read [] tokens front := beginning.of_clear (.inr clear_nil)
  have rest_eq : (Input.mk 0 front).rest = front ++ [] := (List.append_nil front).symm
  obtain ⟨later, extended, compile_eq⟩ := compileFrom_of_isBeginning alone rest_eq valid room
  have nothing_left : ((Input.mk 0 front).advance front.length).rest = [] := List.drop_length
  rw [compileText_eq_compileFrom, compile_eq, compileFrom_of_nil nothing_left,
    extended.instructions_eq]
  rfl

theorem compileText_append_of_ok {q : Program} {behind : List Char}
    (compiled : compileText settings role front = .ok p) (separates : isSeparator c = true)
    (alone : compileText settings role behind = .ok q) :
    compileText settings role (front ++ c :: behind) =
      if q = [] ∨ p.slots + q.slots < settings.capacity then .ok (p ++ q)
      else .error (.exceedsCapacity settings.capacity) := by
  obtain ⟨later, extended, whole_eq⟩ := exists_compileText_append compiled separates behind
  obtain ⟨tokens, script, fits, -, q_eq⟩ := reads_of_compileFrom alone
  obtain rfl : q = tokens.flatMap (Token.denote settings) := q_eq
  split
  next room =>
    have appended := compileFrom_of_reads (i := ⟨front.length + 1, behind⟩) script rfl fits
      ((extended.room_iff _).mpr room)
    rw [extended.instructions_eq] at appended
    exact whole_eq.trans appended
  next no_room =>
    exact whole_eq.trans (compileFrom_of_no_room script.isBeginning (List.append_nil _).symm fits
      fun room => no_room ((extended.room_iff _).mp room))

theorem compileText_append_of_full {n : Nat} {behind : List Char}
    (compiled : compileText settings role front = .ok p) (separates : isSeparator c = true)
    (alone : compileText settings role behind = .error (.exceedsCapacity n)) :
    compileText settings role (front ++ c :: behind) = .error (.exceedsCapacity n) := by
  obtain ⟨later, extended, whole_eq⟩ := exists_compileText_append compiled separates behind
  cases turnedDown_of_compileFrom alone with
  | full rest_eq beginning fits no_room =>
    exact whole_eq.trans (compileFrom_of_no_room beginning rest_eq fits
      fun room => no_room (extended.room_of_room room))
  | failed _ _ _ _ _ fails => exact absurd fails.position?_eq (by simp [Rejection.position?])

theorem compileText_append_of_failed {reason : Rejection} {position : Nat} {behind : List Char}
    (valid : settings.Valid) (compiled : compileText settings role front = .ok p)
    (separates : isSeparator c = true) (alone : compileText settings role behind = .error reason)
    (positioned : reason.position? = some position) :
    ∃ before q, before <+: behind ∧ position = before.length + 1 ∧
      compileText settings role before = .ok q ∧
      compileText settings role (front ++ c :: behind) =
        if settings.capacity ≤ p.slots + q.slots then .error (.exceedsCapacity settings.capacity)
        else .error (reason.shift (front.length + 1)) := by
  obtain ⟨later, extended, whole_eq⟩ := exists_compileText_append compiled separates behind
  rw [compileText_eq_compileFrom] at alone
  cases turnedDown_of_compileFrom alone with
  | full => contradiction
  | @failed tokens before text d _ rest_eq beginning fits room ordinary fails =>
    obtain rfl : behind = before ++ d :: text := rest_eq
    have position_eq : position = before.length + 1 := by
      rw [fails.position?_eq, Option.some.injEq] at positioned
      rw [← positioned, Input.tokenPosition, Input.position_advance, Nat.zero_add]
    refine ⟨before, _, List.prefix_append _ _, position_eq,
      compileText_of_isBeginning beginning fits room, ?_⟩
    split
    next no_room =>
      refine whole_eq.trans (compileFrom_of_no_room beginning rfl fits fun room_later => ?_)
      have slots_lt : p.slots < settings.capacity :=
        (Cursor.budgeted_of_compile valid compiled).slots_lt
      rcases (extended.room_iff _).mp room_later with nil_eq | enough
      · rw [nil_eq] at no_room
        exact absurd slots_lt no_room.not_gt
      · exact absurd enough no_room.not_gt
    next enough =>
      have room_later := (extended.room_iff (tokens.flatMap (Token.denote settings))).mpr
        (.inr (Nat.lt_of_not_le enough))
      have fails_later := fails.shift (j := Input.advance before.length
        ⟨front.length + 1, before ++ d :: text⟩) (n := front.length + 1) List.drop_left
        List.drop_left (by simp only [Input.position_advance]; omega)
      exact whole_eq.trans (compileFrom_eq_error_iff.mpr
        (.failed rfl beginning fits room_later ordinary fails_later))

/-- A separator at the end of a line changes nothing about what becomes of it. -/
theorem compileText_append_separator (separates : isSeparator c = true) :
    compileText settings role (front ++ [c]) = compileText settings role front := by
  cases result_eq : compileText settings role front with
  | ok p =>
    have nothing : compileText settings role [] = .ok [] := compileFrom_of_nil rfl
    rw [compileText_append_of_ok result_eq separates nothing, if_pos (.inl rfl), List.append_nil]
  | error reason =>
    have whole {before tail : List Char} (front_eq : front = before ++ tail) :
        front ++ [c] = before ++ (tail ++ [c]) := by rw [front_eq, List.append_assoc]
    have behind {all before tail : List Char} (all_eq : all = before ++ tail) :
        (Input.advance before.length ⟨0, all⟩).rest = tail := by
      rw [Input.rest_advance, all_eq, List.drop_left]
    refine compileFrom_eq_error_iff.mpr ?_
    cases turnedDown_of_compileFrom result_eq with
    | full rest_eq beginning valid no_room =>
      exact .full (whole rest_eq) (beginning.of_clearer fun _ => .append_separator separates _)
        valid no_room
    | @failed tokens before text d _ rest_eq beginning valid room ordinary fails =>
      have clearer : Clearer (d :: text ++ [c]) (d :: text) := .append_separator separates _
      exact .failed (whole rest_eq) (beginning.of_clearer fun _ => clearer) valid room ordinary
        (fails.append_separator separates (behind rest_eq) (behind (whole rest_eq)) rfl)

/-- A line that compiles, a separator and a further text compile to the one program and then the
other, or fail as the text does, further behind, where there is room for what is in front. -/
theorem compileText_append (valid : settings.Valid)
    (compiled : compileText settings role front = .ok p) (separates : isSeparator c = true)
    (behind : List Char) :
    let whole := compileText settings role (front ++ c :: behind)
    (∀ q, compileText settings role behind = .ok q →
      if q = [] ∨ p.slots + q.slots < settings.capacity then whole = .ok (p ++ q)
      else whole = .error (.exceedsCapacity settings.capacity)) ∧
    (∀ n, compileText settings role behind = .error (.exceedsCapacity n) →
      whole = .error (.exceedsCapacity n)) ∧
    ∀ reason position, compileText settings role behind = .error reason →
      reason.position? = some position →
      ∃ before q, before <+: behind ∧ position = before.length + 1 ∧
        compileText settings role before = .ok q ∧
        if settings.capacity ≤ p.slots + q.slots then
          whole = .error (.exceedsCapacity settings.capacity)
        else whole = .error (reason.shift (front.length + 1)) := by
  refine ⟨fun q alone => ?_, fun n => compileText_append_of_full compiled separates,
    fun reason position alone positioned => ?_⟩
  · have whole_eq := compileText_append_of_ok compiled separates alone
    split_ifs at whole_eq ⊢ <;> exact whole_eq
  · obtain ⟨before, q, front_of, position_eq, before_eq, whole_eq⟩ :=
      compileText_append_of_failed valid compiled separates alone positioned
    refine ⟨before, q, front_of, position_eq, before_eq, ?_⟩
    split_ifs at whole_eq ⊢ <;> exact whole_eq

/-- A symbol that stands for nothing is the third character of a line, and the seventh behind
another line of three characters and a blank. -/
theorem compileText_unknown_symbol_behind_reads :
    let reads : Program := [{ op := .read, repeats := 2, hasRepeats := true }]
    let front := ['r', ':', '2']
    let behind := ['.', ' ', 'q']
    Settings.Valid {} ∧ compileText {} (fun _ => .io) front = .ok reads ∧
      isSeparator ' ' = true ∧
      compileText {} (fun _ => .io) behind = .error (.unknownSymbol 'q' 3) ∧
      compileText {} (fun _ => .io) (front ++ ' ' :: behind) = .error (.unknownSymbol 'q' 7) := by
  intro reads front behind
  have valid : Settings.Valid {} := Settings.fault?_eq_none_iff.mp rfl
  have compiled : compileText {} (fun _ => .io) front = .ok reads := by
    cbv
  have alone : compileText {} (fun _ => .io) behind = .error (.unknownSymbol 'q' 3) := by
    cbv
  have blank : isSeparator ' ' = true := by decide
  have bit : compileText {} (fun _ => .io) ['.', ' '] = .ok [{ op := .readBit }] := by
    cbv
  obtain ⟨before, q, front_of, length_eq, before_eq, whole⟩ :=
    (compileText_append valid compiled blank behind).2.2 _ 3 alone rfl
  have short : before = ['.', ' '] := by
    rw [List.prefix_iff_eq_take.mp front_of, ← Nat.succ.inj length_eq]
    rfl
  rw [short, bit, Except.ok.injEq] at before_eq
  subst before_eq
  exact ⟨valid, compiled, blank, alone, whole⟩

end Append

end BusScript
