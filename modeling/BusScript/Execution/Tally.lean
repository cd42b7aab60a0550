import BusScript.Event

/-!
# Tallies

How often each operation was carried out, over all runs of a session.
-/

namespace BusScript

/-- A count for every operation. -/
structure Tally where
  /-- The counts, in the order of the indices. -/
  counts : Vector Nat Operation.count
deriving DecidableEq, Repr

namespace Tally

/-- Nothing was carried out yet. -/
def empty : Tally where
  counts := Vector.replicate Operation.count 0

instance : EmptyCollection Tally where
  emptyCollection := empty

/-- How often an operation was carried out. -/
def count (t : Tally) (op : Operation) : Nat :=
  t.counts[op.index]

/-- Counts an operation. -/
def record (op : Operation) (t : Tally) : Tally where
  counts := t.counts.set op.index (t.count op + 1)

/-- How often operations were carried out in all. -/
def total (t : Tally) : Nat :=
  t.counts.foldl (· + ·) 0

/-- The operations that were carried out at all, each with its count. -/
def summary (t : Tally) : List Event :=
  Operation.all.filterMap fun op =>
    if t.count op = 0 then none else some (.dispatchCount op (t.count op))

@[simp] theorem count_empty (op : Operation) : count ∅ op = 0 := by
  simp [count, EmptyCollection.emptyCollection, empty]

theorem count_record (op other : Operation) (t : Tally) :
    (t.record op).count other = if other = op then t.count op + 1 else t.count other := by
  unfold record count
  by_cases same : other = op
  · subst same
    simp
  · have apart : op.index ≠ other.index := fun h => same (Operation.index_injective h.symm)
    simp [same, Fin.val_ne_of_ne apart]

end Tally

end BusScript
