import BusScript.Execution.Run
import Mathlib.Algebra.Ring.Nat

/-!
# The slots of a program

How many slots a program unrolls to, and what each of them knows of the program: its instruction,
which repeat of it it is, and the instruction behind it if there is no further repeat.
-/

namespace BusScript

theorem Instruction.length_slots (index : Nat) (next : Option Instruction) (i : Instruction) :
    (i.slots index next).length = i.expansion := by
  simp [Instruction.slots]

namespace Program

/-- A program unrolls to one slot for each time one of its instructions is carried out. -/
theorem length_unrollFrom (index : Nat) (p : Program) :
    (p.unrollFrom index).length = (p.map Instruction.expansion).sum := by
  induction p generalizing index with
  | nil => rfl
  | cons i rest induction =>
    rw [unrollFrom, List.length_append, Instruction.length_slots, induction (index + 1)]
    rfl

theorem length_unroll (p : Program) : p.unroll.length = (p.map Instruction.expansion).sum :=
  p.length_unrollFrom 0

/-- What a slot knows of the program it belongs to. -/
structure Describes (p : Program) (slot : Slot) : Prop where
  /-- The instruction is the one with the index. -/
  source_eq : p[slot.index]? = some slot.source
  /-- The repeat is one of those the instruction asks for. -/
  repetition_lt : slot.repetition < slot.source.expansion
  /-- Only the last repeat knows the next instruction. -/
  next_eq : slot.next =
    if slot.repetition + 1 = slot.source.expansion then p[slot.index + 1]? else none

theorem exists_index_of_mem_unrollFrom {p : Program} {start : Nat} {slot : Slot}
    (member : slot ∈ p.unrollFrom start) :
    ∃ offset, slot.index = start + offset ∧ p[offset]? = some slot.source ∧
      slot.repetition < slot.source.expansion ∧
      slot.next =
        if slot.repetition + 1 = slot.source.expansion then p[offset + 1]? else none := by
  induction p generalizing start with
  | nil => exact absurd member List.not_mem_nil
  | cons i rest induction =>
    rw [unrollFrom, List.mem_append] at member
    rcases member with here | later
    · obtain ⟨repetition, inside, rfl⟩ := List.mem_map.mp here
      have next_eq : rest.head? = (i :: rest)[0 + 1]? := by
        rw [List.head?_eq_getElem?, List.getElem?_cons_succ]
      refine ⟨0, rfl, rfl, List.mem_range.mp inside, ?_⟩
      rw [← next_eq]
    · obtain ⟨offset, index_eq, source_eq, inside, next_eq⟩ := induction later
      refine ⟨offset + 1, by omega, ?_, inside, ?_⟩
      · rw [List.getElem?_cons_succ, source_eq]
      · rw [next_eq, List.getElem?_cons_succ]

theorem describes_of_mem_unroll {p : Program} {slot : Slot} (member : slot ∈ p.unroll) :
    p.Describes slot := by
  obtain ⟨offset, index_eq, source_eq, inside, next_eq⟩ := exists_index_of_mem_unrollFrom member
  have offset_eq : slot.index = offset := by omega
  subst offset_eq
  exact ⟨source_eq, inside, next_eq⟩

end Program

end BusScript
