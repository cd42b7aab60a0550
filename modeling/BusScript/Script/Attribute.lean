import BusScript.Script.Literal

/-!
# Attributes

A command may carry a dotted number, which is its width or its pin, and a repeat count after a
colon: each at most once, in either order. The dot and the colon only count when a decimal digit
follows, so that `..` stays two commands.
-/

namespace BusScript

/-- The attributes of a command as they were written. -/
structure Attributes where
  /-- The number after the dot. -/
  bits : Option Nat := none
  /-- The number after the colon. -/
  repeats : Option Nat := none
deriving DecidableEq, Repr, Inhabited

namespace Attributes

/-- Whether a text goes on with an attribute that the given character announces. -/
def announces (delimiter : Char) : List Char → Bool
  | c :: next :: _ => c == delimiter && next.isDigit
  | _ => false

/-- Reads the number of an attribute, the delimiter of which is the next character. If the number
cannot be read, only the delimiter is consumed. -/
def readValue (i : Input) : Except Input (Nat × Input) :=
  match (i.advance 1).literal with
  | (none, rest) => .error rest
  | (some literal, rest) => .ok (literal.value.toNat, rest)

/-- Reads one attribute that was not given yet. The answer is `none` where no such attribute
follows; on failure it is the input behind the delimiter. -/
def readOne? (seen : Attributes) (i : Input) : Option (Except Input (Attributes × Input)) :=
  if seen.bits.isNone && announces '.' i.rest then
    some ((readValue i).map fun (n, rest) => ({ seen with bits := some n }, rest))
  else if seen.repeats.isNone && announces ':' i.rest then
    some ((readValue i).map fun (n, rest) => ({ seen with repeats := some n }, rest))
  else none

/-- Reads at most `n` further attributes. -/
def readUpTo : Nat → Attributes → Input → Except Input (Attributes × Input)
  | 0, seen, i => .ok (seen, i)
  | n + 1, seen, i =>
    match readOne? seen i with
    | none => .ok (seen, i)
    | some (.error stuck) => .error stuck
    | some (.ok (more, rest)) => readUpTo n more rest

/-- Reads all attributes that follow. As each of the two is read at most once, no third can follow.
-/
def read (i : Input) : Except Input (Attributes × Input) :=
  readUpTo 2 {} i

theorem readValue_eq (i : Input) :
    readValue i =
      match Literal.read? (i.advance 1).rest with
      | none => .error (i.advance 1)
      | some (literal, length) => .ok (literal.value.toNat, (i.advance 1).advance length) := by
  rw [readValue, Input.literal]
  cases Literal.read? (i.advance 1).rest <;> rfl

theorem rest_length_le_of_readValue {i rest : Input} {n : Nat} (h : readValue i = .ok (n, rest)) :
    rest.rest.length ≤ i.rest.length := by
  rw [readValue_eq] at h
  split at h
  · contradiction
  · simp only [Except.ok.injEq, Prod.mk.injEq] at h
    rw [← h.2]
    simp only [Input.rest_advance, List.length_drop]
    omega

theorem rest_length_le_of_readOne? {seen more : Attributes} {i rest : Input}
    (h : readOne? seen i = some (.ok (more, rest))) : rest.rest.length ≤ i.rest.length := by
  unfold readOne? at h
  split at h
  · cases value : readValue i with
    | error stuck => simp [value, Except.map] at h
    | ok found =>
      simp only [value, Except.map, Option.some.injEq, Except.ok.injEq, Prod.mk.injEq] at h
      rw [← h.2]
      exact rest_length_le_of_readValue value
  · split at h
    · cases value : readValue i with
      | error stuck => simp [value, Except.map] at h
      | ok found =>
        simp only [value, Except.map, Option.some.injEq, Except.ok.injEq, Prod.mk.injEq] at h
        rw [← h.2]
        exact rest_length_le_of_readValue value
    · contradiction

theorem rest_length_le_of_readUpTo {n : Nat} {seen more : Attributes} {i rest : Input}
    (h : readUpTo n seen i = .ok (more, rest)) : rest.rest.length ≤ i.rest.length := by
  induction n generalizing seen i with
  | zero =>
    simp only [readUpTo, Except.ok.injEq, Prod.mk.injEq] at h
    obtain ⟨_, rfl⟩ := h
    exact Nat.le_refl _
  | succ n induction =>
    simp only [readUpTo] at h
    split at h
    · simp only [Except.ok.injEq, Prod.mk.injEq] at h
      obtain ⟨_, rfl⟩ := h
      exact Nat.le_refl _
    · contradiction
    · next one =>
      exact Nat.le_trans (induction h) (rest_length_le_of_readOne? one)

/-- Reading attributes never lengthens the input. -/
theorem rest_length_le_of_read {attributes : Attributes} {i rest : Input}
    (h : read i = .ok (attributes, rest)) : rest.rest.length ≤ i.rest.length :=
  rest_length_le_of_readUpTo h

end Attributes

end BusScript
