import BusScript.Proofs.Execution.Budget
import BusScript.Proofs.Execution.Calls
import BusScript.Proofs.Execution.Invariant

/-!
# Uses of a bus

A bus is used through its capabilities, one entry after the other. Where a program has nothing but
single uses of the bus in it, what it does to the bus and what it records are the outcomes of these.
-/

namespace BusScript

/-- One use of a bus: what it is asked for, and the entry that it is given. -/
structure Use extends Request where
  entry : Instruction
deriving DecidableEq, Repr

/-- The uses that an instruction makes of the bus, given the instruction behind it. -/
def Instruction.uses (next : Option Instruction) (i : Instruction) : List Use :=
  (i.requests next).map fun request => { toRequest := request, entry := i }

/-- The uses that a program makes of the bus. -/
def Program.uses : Program → List Use
  | [] => []
  | i :: rest => i.uses rest.head? ++ uses rest

/-- The uses that a slot of a program makes of the bus. -/
def Slot.uses (slot : Slot) : List Use :=
  slot.requests.map fun request => { toRequest := request, entry := slot.source }

/-- Whether an operation is a single use of the bus, each time that it is carried out. -/
def Operation.isSingleUse (op : Operation) : Bool :=
  op.capability?.any (· != .tickClock)

theorem Instruction.flatMap_uses_slots (index : Nat) (next : Option Instruction)
    (i : Instruction) : (i.slots index next).flatMap Slot.uses = i.uses next := by
  rw [uses, ← flatMap_requests_slots index, List.map_flatMap]
  refine List.flatMap_congr fun slot member => ?_
  obtain ⟨repetition, -, rfl⟩ := List.mem_map.mp member
  rfl

theorem Program.flatMap_uses_unrollFrom (index : Nat) (p : Program) :
    (p.unrollFrom index).flatMap Slot.uses = p.uses := by
  induction p generalizing index with
  | nil => rfl
  | cons i rest induction =>
    rw [unrollFrom, List.flatMap_append, Instruction.flatMap_uses_slots, induction (index + 1)]
    rfl

variable {σ : Type} [Driver σ]

/-- What a bus makes of an entry, and the bus behind that. -/
def Use.perform (use : Use) (bus : σ) : Instruction × σ :=
  Driver.perform use.capability use.next use.entry bus

namespace Driver

/-- A bus behind uses of it. -/
def after (uses : List Use) (bus : σ) : σ :=
  uses.foldl (fun bus use => (use.perform bus).2) bus

/-- What a bus makes of the entries that it is given one after the other. -/
def outcomes : List Use → σ → List Instruction
  | [], _ => []
  | use :: later, bus => (use.perform bus).1 :: outcomes later (use.perform bus).2

theorem after_cons (use : Use) (later : List Use) (bus : σ) :
    after (use :: later) bus = after later (use.perform bus).2 := rfl

theorem outcomes_cons (use : Use) (later : List Use) (bus : σ) :
    outcomes (use :: later) bus = (use.perform bus).1 :: outcomes later (use.perform bus).2 := rfl

theorem after_append (front back : List Use) (bus : σ) :
    after (front ++ back) bus = after back (after front bus) :=
  List.foldl_append

theorem outcomes_append (front back : List Use) (bus : σ) :
    outcomes (front ++ back) bus = outcomes front bus ++ outcomes back (after front bus) := by
  induction front generalizing bus with
  | nil => rfl
  | cons use front induction =>
    rw [List.cons_append, outcomes_cons, induction]
    rfl

end Driver

namespace Bench

variable {β : Type} [Board β]

/-- Carrying out a slot that is a single use of the bus is that use. -/
theorem exists_use_of_isSingleUse {slot : Slot} (single : slot.source.op.isSingleUse = true)
    (bench : Bench σ β) :
    ∃ use : Use, slot.uses = [use] ∧
      (bench.dispatch slot.next slot.source).entry = (use.perform bench.driver).1 ∧
      (bench.dispatch slot.next slot.source).bench.driver = (use.perform bench.driver).2 := by
  rw [Slot.uses, Slot.requests, dispatch, execute]
  cases op_eq : slot.source.op <;> first
    | exact ⟨_, rfl, rfl, rfl⟩
    | simp [op_eq, Operation.isSingleUse, Operation.capability?] at single

/-- The history of single uses of the bus, none of them fatal, has their outcomes. -/
theorem history_of_isSingleUse {slots : List Slot}
    (single : ∀ slot ∈ slots, slot.source.op.isSingleUse = true) (bench : Bench σ β)
    (mild : ∀ entry ∈ Driver.outcomes (slots.flatMap Slot.uses) bench.driver,
      entry.isFatal = false) :
    (bench.history slots).map Dispatched.entry =
        Driver.outcomes (slots.flatMap Slot.uses) bench.driver ∧
      (bench.after (bench.history slots)).driver =
        Driver.after (slots.flatMap Slot.uses) bench.driver := by
  induction slots generalizing bench with
  | nil => exact ⟨rfl, rfl⟩
  | cons slot slots induction =>
    obtain ⟨first, single⟩ := List.forall_mem_cons.mp single
    obtain ⟨use, uses_eq, entry_eq, driver_eq⟩ := exists_use_of_isSingleUse first bench
    rw [List.flatMap_cons, uses_eq, List.singleton_append, Driver.outcomes_cons] at mild ⊢
    obtain ⟨first_mild, mild⟩ := List.forall_mem_cons.mp mild
    -- The bus behind the first slot is the one that the later slots find.
    rw [← driver_eq] at mild ⊢
    rw [← entry_eq] at first_mild ⊢
    obtain ⟨entries_eq, after_eq⟩ := induction single _ mild
    rw [history_cons_of_not_isFatal slots first_mild, List.map_cons, entries_eq]
    refine ⟨rfl, after_eq.trans ?_⟩
    rw [driver_eq]
    rfl

end Bench

/-- A program of single uses of the bus, none of them fatal, records their outcomes. -/
theorem Program.Budgeted.run_of_isSingleUse {β : Type} [Board β] {capacity : Nat} {p : Program}
    (budgeted : p.Budgeted capacity) (single : ∀ i ∈ p, i.op.isSingleUse = true)
    (bench : Bench σ β)
    (mild : ∀ entry ∈ Driver.outcomes p.uses bench.driver, entry.isFatal = false) :
    (p.run capacity bench).trace.entries.toList = Driver.outcomes p.uses bench.driver ∧
      (p.run capacity bench).bench.driver = Driver.after p.uses bench.driver := by
  have slots_single : ∀ slot ∈ p.unroll, slot.source.op.isSingleUse = true := fun slot member =>
    single slot.source (Program.source_mem_of_mem_unroll member)
  rw [(budgeted.run_records_history bench).1, (budgeted.run_records_history bench).2]
  rw [← p.flatMap_uses_unrollFrom 0] at mild ⊢
  exact Bench.history_of_isSingleUse slots_single bench mild

end BusScript
