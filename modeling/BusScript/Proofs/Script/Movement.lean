import BusScript.Script.Compile
import Mathlib.Algebra.Ring.Nat

/-!
# Moving along a line

A cursor behaves like the unread part of its line as long as no index runs out of a machine word: it
shows the characters of that part, and passes over as many of them as it is told to, or over all.
A use whose index runs out has no result, and nothing comes after it.
-/

namespace BusScript

/-- One use of a cursor. -/
inductive CursorUse where
  | peek (n : Nat)
  | discard (n : Nat)
  | remove
deriving DecidableEq, Repr

namespace CursorUse

/-- How far behind the mark a use looks. -/
def distance : CursorUse → Nat
  | peek n | discard n => n
  | remove => 0

/-- What a use finds, and the cursor it leaves. -/
def apply : CursorUse → Cursor → Except Cursor.Overflow (Option Char × Cursor)
  | peek n, c => (c.peek n).map fun found => (found, c)
  | discard n, c => (c.discard n).map fun behind => (none, behind)
  | remove, c => c.remove

/-- What a use finds in the unread part of a line. -/
def find? : CursorUse → List Char → Option Char
  | peek n, rest => rest[n]?
  | discard _, _ => none
  | remove, rest => rest.head?

/-- How many characters of the unread part of a line a use passes over. -/
def passes : CursorUse → List Char → Nat
  | peek _, _ => 0
  | discard n, rest => min n rest.length
  | remove, rest => min 1 rest.length

/-- Whether the index that a use looks at does not fit a machine word. -/
def RunsOut (use : CursorUse) (c : Cursor) : Prop :=
  2 ^ 64 ≤ c.position + use.distance

/-- A use finds what is in the unread part of the line, and passes over so much of it. -/
def IsIdeal (use : CursorUse) (c : Cursor) : Prop :=
  ∃ behind, use.apply c = .ok (use.find? c.rest, behind) ∧ behind.line = c.line ∧
    behind.input = c.input.advance (use.passes c.rest)

end CursorUse

namespace Cursor

/-- The cursor behind uses one after the other. -/
def after : List CursorUse → Cursor → Except Overflow Cursor
  | [], c => .ok c
  | use :: uses, c => do
    let (_, behind) ← use.apply c
    behind.after uses

theorem length_rest (c : Cursor) : c.rest.length = c.line.length - c.position :=
  List.length_drop

/-- Passing over characters of the unread part moves the mark by as many. -/
theorem input_seek_add {c : Cursor} {n : Nat} (inside : n ≤ c.rest.length) :
    (c.seek (c.position + n)).input = c.input.advance n := by
  have position_le := c.position_le
  have position_eq : min (c.position + n) c.line.length = c.position + n := by
    rw [length_rest] at inside
    omega
  rw [input, rest, position_seek, line_seek, position_eq, Input.advance, input, rest,
    List.drop_drop]

theorem offset_of_lt {c : Cursor} {n : Nat} (fits : c.position + n < 2 ^ 64) :
    c.offset n = .ok (c.position + n) :=
  if_pos fits

theorem offset_of_le {c : Cursor} {n : Nat} (beyond : 2 ^ 64 ≤ c.position + n) :
    c.offset n = .error .index :=
  if_neg (Nat.not_lt.mpr beyond)

theorem peek_of_lt {c : Cursor} {n : Nat} (fits : c.position + n < 2 ^ 64) :
    c.peek n = .ok c.rest[n]? := by
  rw [peek, offset_of_lt fits, rest, List.getElem?_drop]
  rfl

theorem discard_of_lt {c : Cursor} {n : Nat} (fits : c.position + n < 2 ^ 64) :
    c.discard n = .ok (c.seek (c.position + n)) := by
  rw [discard, offset_of_lt fits]
  rfl

theorem input_seek_min (c : Cursor) (n : Nat) :
    (c.seek (c.position + n)).input = c.input.advance (min n c.rest.length) := by
  have position_le := c.position_le
  have same_place : min (c.position + n) c.line.length =
      min (c.position + min n c.rest.length) c.line.length := by
    rw [length_rest]
    omega
  have seek_eq : c.seek (c.position + n) = c.seek (c.position + min n c.rest.length) := by
    simp only [seek, same_place]
  rw [seek_eq, input_seek_add (Nat.min_le_right _ _)]

theorem isIdeal_remove {c : Cursor} (fits : c.position < 2 ^ 64) : CursorUse.remove.IsIdeal c := by
  have peek_eq : c.peek 0 = .ok c.rest[0]? := peek_of_lt fits
  rw [CursorUse.IsIdeal, CursorUse.apply, remove, peek_eq]
  cases rest_eq : c.rest with
  | nil => exact ⟨c, rfl, rfl, c.input.advance_zero.symm⟩
  | cons first later =>
    have inside : 1 ≤ c.rest.length := by simp [rest_eq]
    have passes_eq : CursorUse.remove.passes (first :: later) = 1 := by simp [CursorUse.passes]
    exact ⟨c.seek (c.position + 1), rfl, rfl, by rw [passes_eq, input_seek_add inside]⟩

/-- Using a cursor is using what is unread, wherever the index fits a machine word. -/
theorem isIdeal_of_not_runsOut {use : CursorUse} {c : Cursor} (fits : ¬ use.RunsOut c) :
    use.IsIdeal c := by
  replace fits : c.position + use.distance < 2 ^ 64 := Nat.lt_of_not_le fits
  cases use with
  | peek n =>
    have peek_eq : c.peek n = .ok c.rest[n]? := peek_of_lt fits
    refine ⟨c, ?_, rfl, c.input.advance_zero.symm⟩
    rw [CursorUse.apply, peek_eq]
    rfl
  | discard n =>
    have discard_eq : c.discard n = .ok (c.seek (c.position + n)) := discard_of_lt fits
    refine ⟨c.seek (c.position + n), ?_, rfl, c.input_seek_min n⟩
    rw [CursorUse.apply, discard_eq]
    rfl
  | remove => exact isIdeal_remove fits

theorem apply_of_runsOut {use : CursorUse} {c : Cursor} (beyond : use.RunsOut c) :
    use.apply c = .error .index := by
  have offset_eq : c.offset use.distance = .error .index := offset_of_le beyond
  cases use with
  | peek n =>
    rw [CursorUse.distance] at offset_eq
    rw [CursorUse.apply, peek, offset_eq]
    rfl
  | discard n =>
    rw [CursorUse.distance] at offset_eq
    rw [CursorUse.apply, discard, offset_eq]
    rfl
  | remove =>
    rw [CursorUse.distance] at offset_eq
    rw [CursorUse.apply, remove, peek, offset_eq]
    rfl

/-- A use is ideal exactly if its index fits a machine word. -/
theorem isIdeal_iff {use : CursorUse} {c : Cursor} : use.IsIdeal c ↔ ¬ use.RunsOut c := by
  refine ⟨fun ideal beyond => ?_, isIdeal_of_not_runsOut⟩
  obtain ⟨behind, apply_eq, -⟩ := ideal
  rw [apply_of_runsOut beyond] at apply_eq
  contradiction

theorem line_apply {use : CursorUse} {c behind : Cursor} {found : Option Char}
    (applied : use.apply c = .ok (found, behind)) : behind.line = c.line := by
  have fits : ¬ use.RunsOut c := by
    intro beyond
    rw [apply_of_runsOut beyond] at applied
    contradiction
  obtain ⟨ideal, apply_eq, line_eq, -⟩ := isIdeal_of_not_runsOut fits
  rw [apply_eq, Except.ok.injEq, Prod.mk.injEq] at applied
  rw [← applied.2, line_eq]

theorem after_cons_of_apply {use : CursorUse} {uses : List CursorUse} {c behind : Cursor}
    {found : Option Char} (applied : use.apply c = .ok (found, behind)) :
    c.after (use :: uses) = behind.after uses := by
  rw [after, applied]
  rfl

theorem after_cons_of_runsOut {use : CursorUse} (uses : List CursorUse) {c : Cursor}
    (beyond : use.RunsOut c) : c.after (use :: uses) = .error .index := by
  rw [after, apply_of_runsOut beyond]
  rfl

theorem after_append {before : List CursorUse} {c behind : Cursor}
    (led : c.after before = .ok behind) (uses : List CursorUse) :
    c.after (before ++ uses) = behind.after uses := by
  induction before generalizing c with
  | nil =>
    obtain rfl : c = behind := Except.ok.inj led
    rfl
  | cons use before induction =>
    cases applied : use.apply c with
    | error overflow =>
      rw [after, applied] at led
      contradiction
    | ok result =>
      rw [after_cons_of_apply applied] at led
      rw [List.cons_append, after_cons_of_apply applied, induction led]

theorem line_after {uses : List CursorUse} {c behind : Cursor} (led : c.after uses = .ok behind) :
    behind.line = c.line := by
  induction uses generalizing c with
  | nil =>
    obtain rfl : c = behind := Except.ok.inj led
    rfl
  | cons use uses induction =>
    cases applied : use.apply c with
    | error overflow =>
      rw [after, applied] at led
      contradiction
    | ok result =>
      rw [after_cons_of_apply applied] at led
      exact (induction led).trans (line_apply applied)

/-- Uses lead to a cursor unless the index of one of them runs out. -/
theorem after_eq_ok_or_runsOut (uses : List CursorUse) (c : Cursor) :
    (∃ behind, c.after uses = .ok behind) ∨
      ∃ before use later stuck, uses = before ++ use :: later ∧ c.after before = .ok stuck ∧
        use.RunsOut stuck := by
  induction uses generalizing c with
  | nil => exact .inl ⟨c, rfl⟩
  | cons use uses induction =>
    by_cases beyond : use.RunsOut c
    · exact .inr ⟨[], use, uses, c, rfl, rfl, beyond⟩
    · obtain ⟨behind, applied, -⟩ := isIdeal_of_not_runsOut beyond
      rw [after_cons_of_apply applied]
      rcases induction behind with led | ⟨before, other, later, stuck, rfl, led, out⟩
      · exact .inl led
      · refine .inr ⟨use :: before, other, later, stuck, rfl, ?_, out⟩
        rw [after_cons_of_apply applied, led]

/-- On a line that a machine can hold, a use is ideal exactly if its index fits a machine word, and
otherwise neither it nor anything behind it has a result. -/
theorem isIdeal_iff_not_runsOut {line : String} (short : line.length < 2 ^ 64)
    (uses : List CursorUse) :
    let start := ofString line
    (∀ before use later c, uses = before ++ use :: later → start.after before = .ok c →
      c.position ≤ line.length ∧ c.rest = line.toList.drop c.position ∧
        (use.IsIdeal c ↔ ¬ use.RunsOut c) ∧ (use.distance ≤ c.rest.length → use.IsIdeal c) ∧
        (use.RunsOut c → use.apply c = .error .index ∧ start.after uses = .error .index)) ∧
      ((∃ c, start.after uses = .ok c) ∨
        ∃ before use later c, uses = before ++ use :: later ∧ start.after before = .ok c ∧
          use.RunsOut c) := by
  intro start
  refine ⟨?_, after_eq_ok_or_runsOut uses start⟩
  rintro before use later c rfl led
  have line_eq : c.line = line.toList := line_after led
  have length_eq : c.line.length = line.length := by rw [line_eq, String.length_toList]
  have position_le : c.position ≤ line.length := length_eq ▸ c.position_le
  refine ⟨position_le, by rw [rest, line_eq], isIdeal_iff, fun near => ?_, fun beyond => ?_⟩
  · rw [length_rest, length_eq] at near
    refine isIdeal_of_not_runsOut fun beyond => ?_
    rw [CursorUse.RunsOut] at beyond
    omega
  · exact ⟨apply_of_runsOut beyond, by rw [after_append led, after_cons_of_runsOut later beyond]⟩

/-- Behind the first of two characters, the largest offset has no result, and the offset below it
stops at the end of the line. -/
theorem isIdeal_behind_first_of_two_characters :
    let start := ofString "ab"
    ∃ c, "ab".length < 2 ^ 64 ∧ start.after [.remove] = .ok c ∧ c.position = 1 ∧
      (CursorUse.discard (2 ^ 64 - 2)).IsIdeal c ∧ ¬ (CursorUse.discard (2 ^ 64 - 1)).IsIdeal c ∧
      start.after [.remove, .discard (2 ^ 64 - 1)] = .error .index := by
  intro start
  have short : "ab".length < 2 ^ 64 := by decide
  have led : start.after [.remove] = .ok { line := ['a', 'b'], position := 1 } := by cbv
  have second (n : Nat) := (isIdeal_iff_not_runsOut short [.remove, .discard n]).1 [.remove]
    (.discard n) [] _ rfl led
  obtain ⟨-, -, stops, -⟩ := second (2 ^ 64 - 2)
  obtain ⟨-, -, fails, -, out⟩ := second (2 ^ 64 - 1)
  have beyond : (CursorUse.discard (2 ^ 64 - 1)).RunsOut { line := ['a', 'b'], position := 1 } :=
    Nat.le_refl (2 ^ 64)
  exact ⟨_, short, led, rfl, stops.mpr (by simp [CursorUse.RunsOut, CursorUse.distance]),
    fun ideal => fails.mp ideal beyond, (out beyond).2⟩

/-- Not every use is ideal: behind the first of two characters, the largest offset has no result. -/
theorem discard_overflows_behind_first_character :
    ¬ ∀ (line : String) (before : List CursorUse) (use : CursorUse) (c : Cursor),
      use.distance < 2 ^ 64 → (ofString line).after before = .ok c → use.IsIdeal c := by
  intro ideal
  have led : (ofString "ab").after [.remove] = .ok { line := ['a', 'b'], position := 1 } := by cbv
  have impossible := ideal "ab" [.remove] (.discard (2 ^ 64 - 1)) _ (by decide) led
  exact isIdeal_iff.mp impossible (Nat.le_refl (2 ^ 64))

end Cursor

end BusScript
