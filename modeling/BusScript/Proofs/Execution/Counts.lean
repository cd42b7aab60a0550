import BusScript.Proofs.Bus.Outcomes
import BusScript.Proofs.Execution.Budget
import BusScript.Proofs.Session

/-!
# Counts and traces

The tally of a session counts what is carried out while it is carried out, and the traces record it.
They agree over all lines of a session: every operation was counted as often as the traces have an
entry for it.
-/

namespace BusScript

/-! ### Tallies -/

namespace Tally

/-- Counts operations one after the other. -/
def recordAll (ops : List Operation) (t : Tally) : Tally :=
  ops.foldl (fun t op => t.record op) t

theorem recordAll_append (front back : List Operation) (t : Tally) :
    t.recordAll (front ++ back) = (t.recordAll front).recordAll back :=
  List.foldl_append

theorem count_recordAll (ops : List Operation) (t : Tally) (op : Operation) :
    (t.recordAll ops).count op = t.count op + ops.count op := by
  induction ops generalizing t with
  | nil => rfl
  | cons first later induction =>
    rw [recordAll, List.foldl_cons, ← recordAll, induction, count_record, List.count_cons]
    by_cases same : op = first
    · subst same
      simp only [if_pos, beq_self_eq_true]
      omega
    · rw [if_neg same, if_neg (by simpa using Ne.symm same), Nat.add_zero]

theorem total_eq_sum (t : Tally) : t.total = t.counts.toList.sum := by
  rw [total, List.sum_eq_foldl, Vector.foldl_toList]

theorem total_record (op : Operation) (t : Tally) : (t.record op).total = t.total + 1 := by
  have inside : op.index.val < t.counts.toList.length := by
    rw [Vector.length_toList]
    exact op.index.isLt
  have parts := List.sum_take_add_sum_drop t.counts.toList op.index.val
  rw [List.drop_eq_getElem_cons inside, List.sum_cons] at parts
  have count_eq : t.count op = t.counts.toList[op.index.val] := by
    rw [Vector.getElem_toList]
    rfl
  rw [total_eq_sum, total_eq_sum, record, Vector.toList_set, List.sum_set, if_pos inside, ← parts,
    count_eq]
  omega

theorem total_recordAll (ops : List Operation) (t : Tally) :
    (t.recordAll ops).total = t.total + ops.length := by
  induction ops generalizing t with
  | nil => rfl
  | cons first later induction =>
    rw [recordAll, List.foldl_cons, ← recordAll, induction, total_record, List.length_cons]
    omega

theorem total_empty : (∅ : Tally).total = 0 := by
  decide

end Tally

/-! ### Runs -/

/-- The operations that a program asks for, each as often as it is to be carried out. -/
def Program.operations (p : Program) : List Operation :=
  p.flatMap fun i => List.replicate i.dispatches i.op

theorem Instruction.map_op_slots (index : Nat) (next : Option Instruction) (i : Instruction) :
    (i.slots index next).map (fun slot => slot.source.op) = List.replicate i.expansion i.op := by
  calc (i.slots index next).map (fun slot => slot.source.op)
      = (List.range i.expansion).map fun _ => i.op := by rw [slots, List.map_map]; rfl
    _ = List.replicate i.expansion i.op := by rw [List.map_const', List.length_range]

theorem Program.map_op_unrollFrom {p : Program} (repeats_pos : ∀ i ∈ p, 1 ≤ i.repeats)
    (index : Nat) : (p.unrollFrom index).map (fun slot => slot.source.op) = p.operations := by
  induction p generalizing index with
  | nil => rfl
  | cons i rest induction =>
    obtain ⟨first_pos, repeats_pos⟩ := List.forall_mem_cons.mp repeats_pos
    rw [unrollFrom, List.map_append, Instruction.map_op_slots, induction repeats_pos,
      Instruction.expansion_eq_dispatches first_pos]
    rfl

namespace Bench

variable {σ β : Type} [Driver σ] [Board β]

/-- One step: what is carried out is counted once. -/
theorem tally_dispatch (next : Option Instruction) (entry : Instruction) (bench : Bench σ β) :
    (bench.dispatch next entry).bench.tally = bench.tally.record entry.op := by
  have tally_execute : (bench.execute next entry).bench.tally = bench.tally := by
    rw [execute]
    cases entry.op <;> rfl
  rw [dispatch, tally_execute]

/-- A whole run: the operations of the entries are counted. -/
theorem tally_after_history (fills : Driver.FillsOutcomes σ) (slots : List Slot)
    (bench : Bench σ β) :
    (bench.after (bench.history slots)).tally =
      bench.tally.recordAll ((bench.history slots).map fun done => done.entry.op) := by
  induction slots generalizing bench with
  | nil => rfl
  | cons slot slots induction =>
    have op_eq := (keepsSource_dispatch fills slot.next slot.source bench).op_eq
    have first_tally := tally_dispatch slot.next slot.source bench
    cases fatal : (bench.dispatch slot.next slot.source).entry.isFatal with
    | true =>
      rw [history_cons_of_isFatal slots fatal, List.map_singleton, op_eq]
      exact first_tally
    | false =>
      rw [history_cons_of_not_isFatal slots fatal, List.map_cons, op_eq, after, induction,
        first_tally]
      rfl

end Bench

/-- A budgeted program counts the operations it asks for, up to where it stops. -/
theorem Program.Budgeted.tally_run {σ β : Type} [Driver σ] [Board β] {capacity : Nat} {p : Program}
    (budgeted : p.Budgeted capacity) (fills : Driver.FillsOutcomes σ) (bench : Bench σ β) :
    let trace := (p.run capacity bench).trace
    (p.run capacity bench).bench.tally =
        bench.tally.recordAll (trace.entries.toList.map Instruction.op) ∧
      trace.entries.toList.map Instruction.op = p.operations.take trace.entries.size := by
  intro trace
  obtain ⟨entries_eq, bench_eq⟩ := budgeted.run_records_history bench
  have ops_eq : trace.entries.toList.map Instruction.op =
      (bench.history p.unroll).map fun done => done.entry.op := by
    rw [entries_eq, List.map_map]
    rfl
  have size_eq : trace.entries.size = (bench.history p.unroll).length := by
    rw [← Array.length_toList, entries_eq, List.length_map]
  constructor
  · rw [bench_eq, ops_eq, Bench.tally_after_history fills]
  · rw [ops_eq, Bench.map_op_history fills, size_eq, List.map_take, unroll,
      map_op_unrollFrom budgeted.repeats_pos]

/-! ### Sessions -/

namespace Session

/-- A session that was opened, behind lines for any of the simulated buses and any board, and the
outputs of the lines that were not turned down. The pins may change owners between two lines. -/
inductive Recorded (settings : Settings) : Session → List Output → Prop
  | opened {s : Session} (opened : ofSettings settings = .ok s) : Recorded settings s []
  | line {s : Session} {outputs : List Output} {β : Type} [Board β]
      (before : Recorded settings s outputs) (line : Cursor) (bus : SimulatedBus) (board : β) :
      Recorded settings (s.run line bus board).session
        (outputs ++ (s.run line bus board).result.toOption.toList)
  | modifyPins {s : Session} {outputs : List Output} (before : Recorded settings s outputs)
      (change : PinRegistry → PinRegistry) : Recorded settings (s.modifyPins change) outputs

theorem tally_of_ofSettings {settings : Settings} {s : Session}
    (opened : ofSettings settings = .ok s) : s.tally = ∅ := by
  rw [ofSettings] at opened
  split at opened
  next => contradiction
  next =>
    cases opened
    rfl

theorem tally_run {β : Type} [Board β] (s : Session) (line : Cursor) (bus : SimulatedBus)
    (board : β) :
    (s.run line bus board).session.tally =
        s.tally.recordAll ((s.run line bus board).result.toOption.toList.flatMap fun out =>
          out.trace.entries.toList.map Instruction.op) ∧
      ∀ out ∈ (s.run line bus board).result.toOption, out.trace.entries.toList.map Instruction.op =
        out.program.operations.take out.trace.entries.size := by
  rcases s.exists_refused_or_ran line bus board with ⟨error, refused⟩ | ⟨p, compiled, ran⟩
  · rw [refused.session_eq, refused.result_eq]
    exact ⟨rfl, by simp [Except.toOption]⟩
  · obtain ⟨tally_eq, ops_eq⟩ := (Cursor.budgeted_of_compile s.valid compiled).tally_run
      SimulatedBus.fillsOutcomes (s.bench bus board)
    rw [ran.session_eq, ran.result_eq]
    constructor
    · simp only [Except.toOption, Option.toList_some, List.flatMap_singleton]
      exact tally_eq
    · rintro out ⟨⟩
      exact ops_eq

namespace Recorded

variable {settings : Settings} {s : Session} {outputs : List Output}

/-- The tally of a session is that of the operations of the traces. -/
theorem tally_eq (recorded : Recorded settings s outputs) :
    s.tally = (∅ : Tally).recordAll
        (outputs.flatMap fun out => out.trace.entries.toList.map Instruction.op) ∧
      ∀ out ∈ outputs, out.trace.entries.toList.map Instruction.op =
        out.program.operations.take out.trace.entries.size := by
  induction recorded with
  | opened opened => exact ⟨tally_of_ofSettings opened, by simp⟩
  | line before line bus board induction =>
    obtain ⟨tally_eq, ops_eq⟩ := induction
    obtain ⟨line_tally_eq, line_ops_eq⟩ := tally_run _ line bus board
    constructor
    · rw [line_tally_eq, tally_eq, List.flatMap_append, Tally.recordAll_append]
    · simp only [List.mem_append, Option.mem_toList]
      rintro out (earlier | added)
      · exact ops_eq out earlier
      · exact line_ops_eq out added
  | modifyPins before change induction => exact induction

/-- The counts of a session agree with its traces, whatever lines were run on whatever buses. -/
theorem counts_eq_entries (recorded : Recorded settings s outputs) :
    (∀ op, s.tally.count op = (outputs.map fun out =>
      out.trace.entries.toList.countP fun entry => entry.op == op).sum) ∧
    s.tally.total = (outputs.map fun out => out.trace.entries.size).sum ∧
    ∀ out ∈ outputs, out.trace.entries.toList.map Instruction.op =
      out.program.operations.take out.trace.entries.size := by
  obtain ⟨tally_eq, ops_eq⟩ := recorded.tally_eq
  refine ⟨fun op => ?_, ?_, ops_eq⟩
  · rw [tally_eq, Tally.count_recordAll, Tally.count_empty, Nat.zero_add, List.count_flatMap]
    congr 1
    refine List.map_congr_left fun out _ => ?_
    rw [Function.comp_apply, List.count, List.countP_map]
    rfl
  · rw [tally_eq, Tally.total_recordAll, Tally.total_empty, Nat.zero_add, List.length_flatMap]
    simp only [List.length_map, Array.length_toList]

/-- Two lines on one session: three reads that nothing answers, and on the dummy bus four pulses of
the clock and a write that stops the run in front of a read. -/
theorem counts_of_reads_and_halt :
    ∃ s outputs, Recorded {} s outputs ∧ outputs.length = 2 ∧ s.tally.count .read = 3 ∧
      s.tally.count .tickClock = 1 ∧ s.tally.total = 5 := by
  let s : Session :=
    { settings := {}, valid := Settings.fault?_eq_none_iff.mp rfl, pins := .free 8, tally := ∅ }
  let board := SimulatedBoard.ofCount 8
  let reads := Cursor.ofString "r:3"
  let halt := Cursor.ofString "^:4 0xff r"
  let p : Program := [{ op := .read, repeats := 3, hasRepeats := true }]
  let q : Program := [{ op := .tickClock, repeats := 4, hasRepeats := true },
    { op := .write, sent := 0xff }, { op := .read }]
  have reads_compiled : (reads.compile s.settings s.pins.role).1.result = .ok p := by
    cbv
  have reads_ran := ran_of_compile (SimulatedBus.highZ {}) board reads_compiled (by decide)
  have halt_compiled : (halt.compile (s.run reads (SimulatedBus.highZ {}) board).session.settings
      (s.run reads (SimulatedBus.highZ {}) board).session.pins.role).1.result = .ok q := by
    have for_any_role (role : Nat → PinRole) : (halt.compile {} role).1.result = .ok q := by
      cbv
    rw [reads_ran.session_eq]
    exact for_any_role _
  have halt_ran := ran_of_compile (SimulatedBus.dummy {}) board halt_compiled (by decide)
  have opened : Recorded {} s [] := .opened rfl
  have recorded := (opened.line reads (.highZ {}) board).line halt (.dummy {}) board
  obtain ⟨counts, total, -⟩ := recorded.counts_eq_entries
  refine ⟨_, _, recorded, ?_, ?_⟩
  · rw [halt_ran.result_eq, reads_ran.result_eq]
    rfl
  · rw [counts, counts, total, halt_ran.result_eq, reads_ran.result_eq, reads_ran.session_eq]
    decide +kernel

end Recorded

end Session

end BusScript
