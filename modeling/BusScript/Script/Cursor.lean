/-!
# Line cursors

A line of text with a mark between what was consumed and what was not. The mark never leaves the
line.

An offset is added to the mark before it is compared with the end of the line. Where the sum does
not fit a machine word there is no result, however short the line is.
-/

namespace BusScript

/-- A line and the number of its characters that are consumed. -/
structure Cursor where
  line : List Char
  /-- The number of characters consumed. -/
  position : Nat := 0
  /-- The mark lies within the line. -/
  position_le : position ≤ line.length := by simp
deriving DecidableEq, Repr

namespace Cursor

/-- The cursor at the beginning of a line. -/
def ofString (line : String) : Cursor where
  line := line.toList

/-- Why there is neither a result nor a cursor. -/
inductive Overflow where
  /-- An index does not fit a machine word. -/
  | index
deriving DecidableEq, Repr

/-- The number of values of a machine word. -/
def wordSize : Nat := UInt64.size

/-- The index that lies `n` characters after the mark, if it fits a machine word. -/
def offset (c : Cursor) (n : Nat) : Except Overflow Nat :=
  if c.position + n < wordSize then .ok (c.position + n) else .error .index

/-- Moves the mark to an index, or to the end of the line if that comes first. -/
def seek (i : Nat) (c : Cursor) : Cursor where
  line := c.line
  position := min i c.line.length
  position_le := Nat.min_le_right _ _

/-- The characters that are not consumed. -/
def rest (c : Cursor) : List Char :=
  c.line.drop c.position

/-- Whether everything is consumed. -/
def isEmpty (c : Cursor) : Bool :=
  c.line.length ≤ c.position

/-- The character `n` places after the mark, if there is one. -/
def peek (n : Nat) (c : Cursor) : Except Overflow (Option Char) := do
  let i ← c.offset n
  return c.line[i]?

/-- Consumes `n` characters, or all if there are fewer. -/
def discard (n : Nat) (c : Cursor) : Except Overflow Cursor := do
  let i ← c.offset n
  return c.seek i

/-- Consumes the next character. -/
def remove (c : Cursor) : Except Overflow (Option Char × Cursor) := do
  match ← c.peek 0 with
  | none => return (none, c)
  | some next => return (some next, c.seek (c.position + 1))

@[simp] theorem line_seek (i : Nat) (c : Cursor) : (c.seek i).line = c.line := rfl

@[simp] theorem position_seek (i : Nat) (c : Cursor) :
    (c.seek i).position = min i c.line.length := rfl

end Cursor

end BusScript
