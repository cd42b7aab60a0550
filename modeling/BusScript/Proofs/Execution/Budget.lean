import BusScript.Proofs.Execution.Unbounded
import BusScript.Proofs.Execution.Unroll
import BusScript.Proofs.Script.Acceptance
import Mathlib.Algebra.BigOperators.Group.List.Basic

/-!
# The budget of a program

A program that was compiled is charged for at least as many slots as it is carried out in, and for
fewer than the trace has. So its trace never ends in the remark that there was no room.
-/

namespace BusScript

/-- The number of times an instruction is to be carried out. -/
def Instruction.dispatches (i : Instruction) : Nat :=
  match i.op with
  | .write | .read | .readBit => i.repeats
  | _ => 1

/-- The number of times the instructions of a program are to be carried out. -/
def Program.dispatches (p : Program) : Nat :=
  (p.map Instruction.dispatches).sum

/-- The operations whose repeats are either carried out one by one or an amount. -/
def Operation.countsRepeats : Operation → Bool
  | .write | .read | .readBit | .delayUs | .delayMs | .tickClock => true
  | _ => false

namespace Instruction

theorem expansion_eq_dispatches {i : Instruction} (repeats_pos : 1 ≤ i.repeats) :
    i.expansion = i.dispatches := by
  rw [expansion, Operation.expansion, Nat.max_eq_left repeats_pos, dispatches]
  cases i.op <;> rfl

/-- What an instruction is charged for beyond the times it is carried out. -/
theorem slotCost_eq_dispatches_add {i : Instruction} (repeats_pos : 1 ≤ i.repeats) :
    i.slotCost = i.dispatches + if i.op.countsRepeats then 0 else i.repeats - 1 := by
  rw [slotCost, Operation.slotCost, dispatches]
  cases i.op <;> simp [Operation.repeatIsMagnitude, Operation.countsRepeats] <;> omega

end Instruction

namespace Program

/-- A program each instruction of which is to be done at least once, and which is charged for fewer
slots than the trace has. -/
structure Budgeted (capacity : Nat) (p : Program) : Prop where
  repeats_pos : ∀ i ∈ p, 1 ≤ i.repeats
  slots_lt : p.slots < capacity

theorem length_unroll_eq_dispatches {p : Program} (repeats_pos : ∀ i ∈ p, 1 ≤ i.repeats) :
    p.unroll.length = p.dispatches := by
  rw [length_unroll, dispatches,
    List.map_congr_left fun i member => Instruction.expansion_eq_dispatches (repeats_pos i member)]

theorem slots_eq_sum (p : Program) : p.slots = (p.map Instruction.slotCost).sum := by
  induction p with
  | nil => rfl
  | cons i rest induction => rw [slots_cons, induction, List.map_cons, List.sum_cons]

theorem slots_eq_dispatches_add {p : Program} (repeats_pos : ∀ i ∈ p, 1 ≤ i.repeats) :
    p.slots = p.dispatches +
      (p.map fun i => if i.op.countsRepeats then 0 else i.repeats - 1).sum := by
  rw [slots_eq_sum, dispatches, ← List.sum_map_add,
    List.map_congr_left fun i member =>
      Instruction.slotCost_eq_dispatches_add (repeats_pos i member)]

theorem dispatches_le_slots {p : Program} (repeats_pos : ∀ i ∈ p, 1 ≤ i.repeats) :
    p.dispatches ≤ p.slots := by
  rw [slots_eq_dispatches_add repeats_pos]
  exact Nat.le_add_right _ _

/-- A program is charged for what is carried out unless it has repeats that do not count. -/
theorem dispatches_eq_slots_iff {p : Program} (repeats_pos : ∀ i ∈ p, 1 ≤ i.repeats) :
    p.dispatches = p.slots ↔ ∀ i ∈ p, i.op.countsRepeats = false → i.repeats ≤ 1 := by
  rw [slots_eq_dispatches_add repeats_pos, Nat.left_eq_add, List.sum_eq_zero_iff_forall_eq_nat,
    List.forall_mem_map]
  refine forall₂_congr fun i member => ?_
  cases i.op.countsRepeats with
  | true => simp
  | false => simp [Nat.sub_eq_zero_iff_le]

end Program

theorem Token.repeats_pos {settings : Settings} {t : Token} {i : Instruction}
    (member : i ∈ t.denote settings) : 1 ≤ i.repeats := by
  cases t with
  | value l attributes =>
    obtain rfl := List.mem_singleton.mp member
    exact Nat.le_max_right _ _
  | command symbol op attributes =>
    obtain rfl := List.mem_singleton.mp member
    exact Nat.le_max_right _ _
  | text chars =>
    obtain ⟨byte, -, rfl⟩ := List.mem_map.mp member
    exact Nat.le_refl _

theorem Cursor.budgeted_of_compile {settings : Settings} {role : Nat → PinRole} {line : Cursor}
    {p : Program} (valid : settings.Valid)
    (compiled : (line.compile settings role).1.result = .ok p) : p.Budgeted settings.capacity := by
  constructor
  · intro i member
    obtain ⟨t, -, -, denoted⟩ := exists_token_of_mem compiled member
    exact Token.repeats_pos denoted
  · obtain ⟨tokens, -, -, room, p_eq⟩ := isScript_of_compileFrom compiled
    obtain rfl : p = tokens.flatMap (Token.denote settings) := p_eq
    rcases room with nil_eq | slots_lt
    · rw [nil_eq, Program.slots_nil]
      exact Nat.lt_of_lt_of_le Nat.two_pos valid.two_le_capacity
    · rwa [Nat.zero_add] at slots_lt

section Run

variable {σ β : Type} [Driver σ] [Board β]

theorem Bench.any_isFatal_getLast?_history (bench : Bench σ β) (slots : List Slot) :
    ((bench.history slots).map Dispatched.entry).getLast?.any Instruction.isFatal = true ↔
      ∃ done ∈ bench.history slots, done.entry.severity = .error := by
  constructor
  · intro fatal
    obtain ⟨entry, entry_eq, fatal⟩ := (Option.any_eq_true _ _).mp fatal
    obtain ⟨done, member, rfl⟩ := List.mem_map.mp (List.mem_of_getLast? entry_eq)
    exact ⟨done, member, Severity.isFatal_iff.mp fatal⟩
  · rintro ⟨done, member, severe⟩
    have fatal : done.entry.isFatal = true := Severity.isFatal_iff.mpr severe
    obtain nil_eq | ⟨front, last, split_eq⟩ := List.eq_nil_or_concat' (bench.history slots)
    · rw [nil_eq] at member
      contradiction
    · have late : done ∉ front := by
        intro early
        have inside : done ∈ (bench.history slots).dropLast := by
          rwa [split_eq, List.dropLast_concat]
        rw [not_isFatal_of_mem_dropLast_history inside] at fatal
        contradiction
      rw [split_eq] at member ⊢
      have done_eq : done = last := by
        rcases List.mem_append.mp member with early | last_place
        · contradiction
        · exact List.mem_singleton.mp last_place
      rw [List.map_append, List.map_singleton, List.getLast?_concat, Option.any_some, ← done_eq]
      exact fatal

/-- The trace of a budgeted program holds exactly what was carried out. -/
theorem Program.Budgeted.entries_eq_history {capacity : Nat} {p : Program}
    (budgeted : p.Budgeted capacity) (bench : Bench σ β) :
    (p.run capacity bench).trace.entries.toList =
        (bench.history p.unroll).map Dispatched.entry ∧
      (bench.history p.unroll).length ≤ p.slots := by
  have length_le : (bench.history p.unroll).length ≤ p.slots :=
    calc (bench.history p.unroll).length ≤ p.unroll.length := bench.length_history_le p.unroll
      _ = p.dispatches := Program.length_unroll_eq_dispatches budgeted.repeats_pos
      _ ≤ p.slots := Program.dispatches_le_slots budgeted.repeats_pos
  exact ⟨(Program.run_of_length_history_lt
    (Nat.lt_of_le_of_lt length_le budgeted.slots_lt)).1, length_le⟩

/-- A budgeted program is recorded in full, and leaves the bench behind as its history does. -/
theorem Program.Budgeted.run_records_history {capacity : Nat} {p : Program}
    (budgeted : p.Budgeted capacity) (bench : Bench σ β) :
    (p.run capacity bench).trace.entries.toList =
        (bench.history p.unroll).map Dispatched.entry ∧
      (p.run capacity bench).bench = bench.after (bench.history p.unroll) :=
  Program.run_of_length_history_lt
    (Nat.lt_of_le_of_lt (budgeted.entries_eq_history bench).2 budgeted.slots_lt)

/-- Whatever compiles runs within its budget, on any bus and any board, and halts only where an
entry is an error. -/
theorem Program.run_within_budget {settings : Settings} {role : Nat → PinRole} {line : Cursor}
    {p : Program} (valid : settings.Valid)
    (compiled : (line.compile settings role).1.result = .ok p) (bench : Bench σ β) :
    let trace := (p.run settings.capacity bench).trace
    trace.entries.toList = (bench.history p.unroll).map Dispatched.entry ∧
      trace.entries.size ≤ p.slots ∧ p.slots ≤ settings.capacity - 1 ∧ (p = [] → p.slots = 0) ∧
      (trace.halted = true ↔ ∃ done ∈ bench.history p.unroll, done.entry.severity = .error) ∧
      (trace.halted = false → trace.entries.size = p.dispatches) ∧
      (p.dispatches = p.slots ↔ ∀ i ∈ p, i.op.countsRepeats = false → i.repeats ≤ 1) := by
  intro trace
  have budgeted := Cursor.budgeted_of_compile valid compiled
  obtain ⟨entries_eq, length_le⟩ := budgeted.entries_eq_history bench
  have size_eq : trace.entries.size = (bench.history p.unroll).length := by
    rw [← Array.length_toList, entries_eq, List.length_map]
  have halted_iff : trace.halted = true ↔
      ∃ done ∈ bench.history p.unroll, done.entry.severity = .error := by
    rw [Trace.halted, Trace.last?, ← Array.getLast?_toList, entries_eq,
      bench.any_isFatal_getLast?_history]
  refine ⟨entries_eq, size_eq ▸ length_le, Nat.le_sub_one_of_lt budgeted.slots_lt, ?_, halted_iff,
    ?_, Program.dispatches_eq_slots_iff budgeted.repeats_pos⟩
  · rintro rfl
    rfl
  · intro unhalted
    have mild : ∀ done ∈ bench.history p.unroll, done.entry.isFatal = false := by
      intro done member
      rw [← Bool.not_eq_true]
      intro fatal
      rw [halted_iff.mpr ⟨done, member, Severity.isFatal_iff.mp fatal⟩] at unhalted
      contradiction
    rw [size_eq, Bench.length_history_of_forall_not_isFatal mild,
      Program.length_unroll_eq_dispatches budgeted.repeats_pos]

end Run

/-- Two reads and a start with a repeat count: six slots are charged for, and three things are done
unless something goes wrong. -/
theorem Program.run_three_of_six_slots :
    let p : Program := [{ op := .read, repeats := 2, hasRepeats := true },
      { op := .start, repeats := 4, hasRepeats := true }]
    let bench : Bench HighZ SimulatedBoard :=
      { driver := {}, board := .ofCount 8, pins := .free 8, tally := ∅ }
    Settings.Valid {} ∧ ((Cursor.ofString "r:2 [:4").compile {} fun _ => .io).1.result = .ok p ∧
      (p.run 1024 bench).trace.entries.size ≤ 6 ∧
      ((p.run 1024 bench).trace.halted = false → (p.run 1024 bench).trace.entries.size = 3) := by
  intro p bench
  have valid : Settings.Valid {} := Settings.fault?_eq_none_iff.mp rfl
  have compiled : ((Cursor.ofString "r:2 [:4").compile {} fun _ => .io).1.result = .ok p := by
    cbv
  have within := Program.run_within_budget valid compiled bench
  exact ⟨valid, compiled, within.2.1, within.2.2.2.2.2.1⟩

end BusScript
