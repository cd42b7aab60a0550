import BusScript.Instruction

/-!
# Traces

The record of a run, one entry for each thing done. A trace never grows beyond its capacity, and
counts as full when only the slot for a final remark is left.
-/

namespace BusScript

/-- The record of a run. -/
structure Trace where
  entries : Array Instruction := #[]
  /-- The largest number of entries. -/
  capacity : Nat
deriving DecidableEq, Repr

namespace Trace

/-- Whether no more than the slot for a final remark is left. -/
def isFull (t : Trace) : Bool :=
  t.capacity ≤ t.entries.size + 1

/-- Adds an entry, if there is a slot at all. -/
def push (entry : Instruction) (t : Trace) : Trace :=
  if t.entries.size < t.capacity then { t with entries := t.entries.push entry } else t

/-- The entry that was added last. -/
def last? (t : Trace) : Option Instruction :=
  t.entries.back?

/-- Whether the last entry stopped the run. -/
def halted (t : Trace) : Bool :=
  t.last?.any Instruction.isFatal

@[simp] theorem capacity_push (entry : Instruction) (t : Trace) :
    (t.push entry).capacity = t.capacity := by
  unfold push
  split <;> rfl

theorem entries_push_of_not_isFull {entry : Instruction} {t : Trace} (h : t.isFull = false) :
    (t.push entry).entries = t.entries.push entry := by
  simp only [isFull, decide_eq_false_iff_not] at h
  simp only [push, if_pos (show t.entries.size < t.capacity by omega)]

/-- The remark on the entry for which there was no slot. -/
def overflowRemark (capacity : Nat) : String :=
  s!"result exceeds available space ({capacity} slots)"

end Trace

end BusScript
