import BusScript.Bus.Simulated
import BusScript.Proofs.Bus.Acknowledgement
import BusScript.Proofs.Execution.Calls
import BusScript.Proofs.Execution.Invariant
import Mathlib.Data.List.Forall2

/-!
# Unfolded programs

A program unfolds another if it has, in place of an instruction with a repeat count, as many copies
of it without one. On a bus that takes no notice of repeat counts both do the same step by step, and
the report on both is the same.
-/

namespace BusScript

namespace Operation

theorem not_isFraming_of_expandsRepeat {op : Operation} (expands : op.expandsRepeat = true) :
    op.isFraming = false := by
  cases op <;> first
    | rfl
    | contradiction

theorem not_repeatIsMagnitude_of_expandsRepeat {op : Operation}
    (expands : op.expandsRepeat = true) : op.repeatIsMagnitude = false := by
  cases op <;> first
    | rfl
    | contradiction

end Operation

namespace Instruction

/-- The instruction with another repeat count. -/
def withCount (repeats : Nat) (hasRepeats : Bool) (i : Instruction) : Instruction :=
  { i with repeats := repeats, hasRepeats := hasRepeats }

/-- The instruction without a repeat count. -/
def once (i : Instruction) : Instruction :=
  i.withCount 1 false

/-- Whether two instructions differ in nothing but their repeat counts. -/
def EqButCount (i j : Instruction) : Prop :=
  j = { i with repeats := j.repeats, hasRepeats := j.hasRepeats }

/-- Whether two instructions are the same except for a repeat count of which every repeat is carried
out on its own. -/
structure Alike (i j : Instruction) : Prop where
  eq_withCount : i.EqButCount j
  eq_of_not_expands : i.op.expandsRepeat = false → j = i

theorem Alike.refl (i : Instruction) : i.Alike i := ⟨rfl, fun _ => rfl⟩

theorem alike_withCount {i : Instruction} (expands : i.op.expandsRepeat = true) (repeats : Nat)
    (hasRepeats : Bool) : i.Alike (i.withCount repeats hasRepeats) where
  eq_withCount := rfl
  eq_of_not_expands not_expands := by
    rw [expands] at not_expands
    contradiction

theorem Alike.severity_eq {i j : Instruction} (alike : i.Alike j) : j.severity = i.severity := by
  rw [alike.eq_withCount]

theorem Alike.op_eq {i j : Instruction} (alike : i.Alike j) : j.op = i.op := by
  rw [alike.eq_withCount]

end Instruction

/-! ### Buses -/

/-- A bus that takes no notice of repeat counts, and of what comes next only whether that opens or
closes a transfer. -/
structure Driver.IgnoresCounts (σ : Type) [Driver σ] : Prop where
  perform_withCount : ∀ (capability : Capability) {next other : Option Instruction}
    (entry : Instruction) (repeats : Nat) (hasRepeats : Bool) (bus : σ),
    (next.any fun i => i.op.isFraming) = (other.any fun i => i.op.isFraming) →
    Driver.perform capability other (entry.withCount repeats hasRepeats) bus =
      ((Driver.perform capability next entry bus).1.withCount repeats hasRepeats,
        (Driver.perform capability next entry bus).2)
  op_perform : ∀ (capability : Capability) (next : Option Instruction) (entry : Instruction)
    (bus : σ), (Driver.perform capability next entry bus).1.op = entry.op

theorem HighZ.ignoresCounts : Driver.IgnoresCounts HighZ where
  perform_withCount _ _ _ _ _ _ _ _ := rfl
  op_perform _ _ _ _ := rfl

theorem Dummy.ignoresCounts : Driver.IgnoresCounts Dummy where
  perform_withCount capability _ _ entry repeats hasRepeats bus _ := by
    have respond_eq : bus.respond capability (entry.withCount repeats hasRepeats) =
        (bus.respond capability entry).withCount repeats hasRepeats := by
      cases capability with
      | write =>
        show (if entry.sent = haltValue then _ else _) =
          (if entry.sent = haltValue then _ else _ : Instruction).withCount repeats hasRepeats
        split <;> rfl
      | _ => rfl
    exact congrArg (·, bus) respond_eq
  op_perform capability next entry bus := (Dummy.fillsOutcomes capability next entry bus).op_eq

theorem I2c.ignoresCounts : Driver.IgnoresCounts I2c where
  perform_withCount capability next other entry repeats hasRepeats bus framing := by
    have timeout_eq (i : Instruction) : bus.timeout (i.withCount repeats hasRepeats) =
        (bus.timeout i).withCount repeats hasRepeats := by
      rw [timeout, timeout]
      split <;> rfl
    have start_eq : bus.start (entry.withCount repeats hasRepeats) =
        ((bus.start entry).1.withCount repeats hasRepeats, (bus.start entry).2) := by
      rw [start, start, ← timeout_eq]
      split
      · rfl
      · split <;> rfl
    have stop_eq : bus.stop (entry.withCount repeats hasRepeats) =
        ((bus.stop entry).1.withCount repeats hasRepeats, (bus.stop entry).2) := by
      rw [stop, stop, ← timeout_eq]
      rfl
    cases capability with
    | write => rfl
    | read =>
      show bus.read other _ = _
      rw [read, ← framing]
      rfl
    | start | startAlt => exact start_eq
    | stop | stopAlt => exact stop_eq
    | _ => rfl
  op_perform := op_perform

theorem Spi.ignoresCounts : Driver.IgnoresCounts Spi where
  perform_withCount capability _ _ _ _ _ _ _ := by
    cases capability <;> rfl
  op_perform capability _ _ _ := by
    cases capability <;> rfl

/-- None of the simulated buses takes notice of repeat counts. -/
theorem SimulatedBus.ignoresCounts : Driver.IgnoresCounts SimulatedBus where
  perform_withCount capability next other entry repeats hasRepeats bus framing := by
    cases bus with
    | highZ bus =>
      exact congrArg (Prod.map id highZ)
        (HighZ.ignoresCounts.perform_withCount capability entry repeats hasRepeats bus framing)
    | dummy bus =>
      exact congrArg (Prod.map id dummy)
        (Dummy.ignoresCounts.perform_withCount capability entry repeats hasRepeats bus framing)
    | i2c bus =>
      exact congrArg (Prod.map id i2c)
        (I2c.ignoresCounts.perform_withCount capability entry repeats hasRepeats bus framing)
    | spi bus =>
      exact congrArg (Prod.map id spi)
        (Spi.ignoresCounts.perform_withCount capability entry repeats hasRepeats bus framing)
  op_perform capability next entry bus := by
    cases bus with
    | highZ bus => exact HighZ.ignoresCounts.op_perform capability next entry bus
    | dummy bus => exact Dummy.ignoresCounts.op_perform capability next entry bus
    | i2c bus => exact I2c.ignoresCounts.op_perform capability next entry bus
    | spi bus => exact Spi.ignoresCounts.op_perform capability next entry bus

/-! ### Runs -/

section Run

variable {σ β : Type}

/-- Whether alike entries were carried out and the benches are the same behind them. -/
structure Dispatched.Alike (done other : Dispatched σ β) : Prop where
  entry : done.entry.Alike other.entry
  bench_eq : other.bench = done.bench

/-- Whether slots are about alike instructions and neither or both are told that a transfer is
opened or closed next. -/
structure Slot.Alike (slot other : Slot) : Prop where
  source : slot.source.Alike other.source
  framing : (slot.next.any fun i => i.op.isFraming) = (other.next.any fun i => i.op.isFraming)

theorem Bench.after_alike {history other : List (Dispatched σ β)} (bench : Bench σ β)
    (alike : List.Forall₂ Dispatched.Alike history other) :
    bench.after other = bench.after history := by
  induction alike generalizing bench with
  | nil => rfl
  | cons first _ induction => rw [after, after, first.bench_eq, induction]

variable [Driver σ]

theorem Bench.perform_alike (ignores : Driver.IgnoresCounts σ) {entry : Instruction}
    (expands : entry.op.expandsRepeat = true) (capability : Capability)
    {next other : Option Instruction} (repeats : Nat) (hasRepeats : Bool) (bench : Bench σ β)
    (framing : (next.any fun i => i.op.isFraming) = (other.any fun i => i.op.isFraming)) :
    (bench.perform capability next entry).Alike
      (bench.perform capability other (entry.withCount repeats hasRepeats)) := by
  have perform_eq :=
    ignores.perform_withCount capability entry repeats hasRepeats bench.driver framing
  have filled_expands :
      (Driver.perform capability next entry bench.driver).1.op.expandsRepeat = true := by
    rw [ignores.op_perform, expands]
  rw [perform, perform, perform_eq]
  exact ⟨Instruction.alike_withCount filled_expands repeats hasRepeats, rfl⟩

variable [Board β]

/-- What is repeated one by one is a matter of the bus, which may be told what comes next. -/
theorem Bench.execute_of_expands {op : Operation} (expands : op.expandsRepeat = true) :
    ∃ capability, ∃ ahead : Bool, ∀ (next : Option Instruction) (entry : Instruction)
      (bench : Bench σ β), entry.op = op →
        bench.execute next entry =
          bench.perform capability (if ahead then next else none) entry := by
  cases op with
  | write => exact ⟨.write, false, fun next entry bench op_eq => by rw [execute, op_eq]; rfl⟩
  | read => exact ⟨.read, true, fun next entry bench op_eq => by rw [execute, op_eq]; rfl⟩
  | readBit => exact ⟨.readBit, false, fun next entry bench op_eq => by rw [execute, op_eq]; rfl⟩
  | _ => contradiction

/-- One step: slots that are alike have alike entries and leave the same bench. -/
theorem Bench.dispatch_alike (ignores : Driver.IgnoresCounts σ) {slot other : Slot}
    (alike : slot.Alike other) (bench : Bench σ β) :
    (bench.dispatch slot.next slot.source).Alike (bench.dispatch other.next other.source) := by
  obtain ⟨source_alike, framing⟩ := alike
  cases expands : slot.source.op.expandsRepeat with
  | false =>
    have no_read : slot.source.op ≠ .read := by
      intro is_read
      rw [is_read] at expands
      contradiction
    rw [source_alike.eq_of_not_expands expands, dispatch_of_ne_read no_read slot.next other.next]
    exact ⟨.refl _, rfl⟩
  | true =>
    have source_eq : other.source =
        slot.source.withCount other.source.repeats other.source.hasRepeats :=
      source_alike.eq_withCount
    obtain ⟨capability, ahead, execute_eq⟩ := execute_of_expands (σ := σ) (β := β) expands
    have told : ((if ahead then slot.next else none).any fun i => i.op.isFraming) =
        ((if ahead then other.next else none).any fun i => i.op.isFraming) := by
      cases ahead with
      | false => rfl
      | true => exact framing
    have executed : (bench.execute slot.next slot.source).Alike
        (bench.execute other.next other.source) := by
      rw [execute_eq slot.next _ bench rfl, execute_eq other.next _ bench source_alike.op_eq,
        source_eq]
      exact perform_alike ignores expands capability _ _ bench told
    refine ⟨executed.entry, ?_⟩
    rw [dispatch, dispatch, executed.bench_eq, source_alike.op_eq]

/-- A whole run: the histories of slots that are alike are alike. -/
theorem Bench.history_alike (ignores : Driver.IgnoresCounts σ) {slots others : List Slot}
    (alike : List.Forall₂ Slot.Alike slots others) (bench : Bench σ β) :
    List.Forall₂ Dispatched.Alike (bench.history slots) (bench.history others) := by
  induction alike generalizing bench with
  | nil => exact .nil
  | @cons slot other slots others first _ induction =>
    have step := dispatch_alike ignores first bench
    have fatal_eq : (bench.dispatch other.next other.source).entry.isFatal =
        (bench.dispatch slot.next slot.source).entry.isFatal :=
      congrArg Severity.isFatal step.entry.severity_eq
    cases fatal : (bench.dispatch slot.next slot.source).entry.isFatal with
    | true =>
      rw [history_cons_of_isFatal slots fatal,
        history_cons_of_isFatal others (fatal_eq.trans fatal)]
      exact .cons step .nil
    | false =>
      rw [history_cons_of_not_isFatal slots fatal,
        history_cons_of_not_isFatal others (fatal_eq.trans fatal)]
      refine .cons step ?_
      rw [step.bench_eq]
      exact induction _

end Run

/-! ### Programs -/

theorem Instruction.slots_alike (index other_index : Nat) {next other : Option Instruction}
    (framing : (next.any fun i => i.op.isFraming) = (other.any fun i => i.op.isFraming))
    (i : Instruction) :
    List.Forall₂ Slot.Alike (i.slots index next) (i.slots other_index other) := by
  rw [slots, slots, List.forall₂_map_left_iff, List.forall₂_map_right_iff, List.forall₂_same]
  intro repetition _
  refine ⟨.refl i, ?_⟩
  by_cases last : repetition + 1 = i.expansion
  · simpa only [if_pos last] using framing
  · simp only [if_neg last]

namespace Program

theorem unrollFrom_alike (index other_index : Nat) (p : Program) :
    List.Forall₂ Slot.Alike (p.unrollFrom index) (p.unrollFrom other_index) := by
  induction p generalizing index other_index with
  | nil => exact .nil
  | cons i rest induction =>
    exact List.rel_append (i.slots_alike index other_index rfl) (induction _ _)

/-- One program unfolds another: in place of an instruction every repeat of which is carried out on
its own it has as many copies without a repeat count. -/
inductive Unfolds : Program → Program → Prop
  | intro {front behind : Program} {i : Instruction} (expands : i.op.expandsRepeat = true)
      (repeats_pos : 1 ≤ i.repeats) :
      Unfolds (front ++ i :: behind) (front ++ (List.replicate i.repeats i.once ++ behind))

/-- The repeats of an instruction that are left and the copies that stand for them. -/
theorem unrollFrom_replicate_alike {i : Instruction} (expands : i.op.expandsRepeat = true)
    (behind : Program) (index other_index : Nat) {first left : Nat}
    (left_eq : first + left = i.expansion) :
    List.Forall₂ Slot.Alike
      (((List.range' first left).map fun repetition =>
        { index := index
          repetition := repetition
          source := i
          next := if repetition + 1 = i.expansion then behind.head? else none : Slot }) ++
        behind.unrollFrom (index + 1))
      (unrollFrom other_index (List.replicate left i.once ++ behind)) := by
  induction left generalizing first other_index with
  | zero => exact unrollFrom_alike _ _ behind
  | succ left induction =>
    have once_slots (next : Option Instruction) : i.once.slots other_index next =
        [{ index := other_index, repetition := 0, source := i.once, next := next }] := by
      have expansion_eq : i.once.expansion = 1 := by
        rw [Instruction.expansion, Operation.expansion, ite_eq_right_iff]
        exact fun _ => rfl
      rw [Instruction.slots, expansion_eq]
      rfl
    rw [List.range'_succ, List.map_cons, List.cons_append, List.replicate_succ, List.cons_append,
      unrollFrom, once_slots, List.singleton_append]
    refine .cons ⟨Instruction.alike_withCount expands 1 false, ?_⟩ (induction _ (by omega))
    cases left with
    | zero => rw [if_pos left_eq, List.replicate_zero, List.nil_append]
    | succ left =>
      rw [if_neg (by omega), List.replicate_succ, List.cons_append, List.head?_cons]
      exact (Operation.not_isFraming_of_expandsRepeat expands).symm

namespace Unfolds

variable {p q : Program}

theorem ne_nil (unfolds : p.Unfolds q) : p ≠ [] ∧ q ≠ [] := by
  obtain ⟨-, repeats_pos⟩ := unfolds
  constructor
  · simp
  · simp only [Ne, List.append_eq_nil_iff, List.replicate_eq_nil_iff]
    omega

theorem slots_eq (unfolds : p.Unfolds q) : q.slots = p.slots := by
  obtain ⟨expands, -⟩ := unfolds
  rename_i front behind i
  have costs_repeats : i.slotCost = i.repeats := by
    rw [Instruction.slotCost, Operation.slotCost,
      Operation.not_repeatIsMagnitude_of_expandsRepeat expands, if_neg Bool.false_ne_true]
  have costs_one : i.once.slotCost = 1 := ite_self 1
  simp only [slots_append, slots_cons, slots_eq_sum (List.replicate _ _), List.map_replicate,
    List.sum_replicate_nat, costs_repeats, costs_one, Nat.mul_one]

theorem unroll_alike (unfolds : p.Unfolds q) :
    List.Forall₂ Slot.Alike p.unroll q.unroll := by
  obtain ⟨expands, repeats_pos⟩ := unfolds
  rename_i front behind i
  have expansion_eq : i.expansion = i.repeats := by
    rw [Instruction.expansion, Operation.expansion, if_pos expands, Nat.max_eq_left repeats_pos]
  have replicate_eq : List.replicate i.repeats i.once =
      i.once :: List.replicate (i.repeats - 1) i.once := by
    rw [← List.replicate_succ, Nat.sub_add_cancel repeats_pos]
  suffices alike : ∀ index other_index, List.Forall₂ Slot.Alike
      ((front ++ i :: behind).unrollFrom index)
      ((front ++ (List.replicate i.repeats i.once ++ behind)).unrollFrom other_index) from
    alike 0 0
  induction front with
  | nil =>
    intro index other_index
    have copies_alike := unrollFrom_replicate_alike expands behind index other_index
      (Nat.zero_add i.expansion)
    rw [← List.range_eq_range', expansion_eq] at copies_alike
    rw [List.nil_append, List.nil_append, unrollFrom, Instruction.slots, expansion_eq]
    exact copies_alike
  | cons j front induction =>
    intro index other_index
    refine List.rel_append (j.slots_alike index other_index ?_) (induction _ _)
    cases front with
    | nil =>
      rw [replicate_eq]
      rfl
    | cons => rfl

variable {σ β : Type} [Driver σ] [Board β]

/-- Within their budget a program and what it unfolds to record alike entries. -/
theorem run_alike (unfolds : p.Unfolds q) (ignores : Driver.IgnoresCounts σ) {capacity : Nat}
    (budgeted : p.Budgeted capacity) (other_budgeted : q.Budgeted capacity) (bench : Bench σ β) :
    List.Forall₂ Instruction.Alike (p.run capacity bench).trace.entries.toList
        (q.run capacity bench).trace.entries.toList ∧
      (q.run capacity bench).bench = (p.run capacity bench).bench := by
  have alike := bench.history_alike ignores unfolds.unroll_alike
  obtain ⟨entries_eq, bench_eq⟩ := budgeted.run_records_history bench
  obtain ⟨other_entries_eq, other_bench_eq⟩ := other_budgeted.run_records_history bench
  rw [entries_eq, other_entries_eq, bench_eq, other_bench_eq]
  refine ⟨?_, bench.after_alike alike⟩
  rw [List.forall₂_map_left_iff, List.forall₂_map_right_iff]
  exact alike.imp fun _ _ dispatched => dispatched.entry

end Unfolds

end Program

/-! ### Reports -/

theorem Trace.halted_eq_of_alike {t other : Trace}
    (alike : List.Forall₂ Instruction.Alike t.entries.toList other.entries.toList) :
    other.halted = t.halted := by
  have severities_eq {entries others : List Instruction}
      (alike : List.Forall₂ Instruction.Alike entries others) :
      others.map Instruction.severity = entries.map Instruction.severity := by
    induction alike with
    | nil => rfl
    | cons first _ induction => rw [List.map_cons, List.map_cons, first.severity_eq, induction]
  have halted_eq (t : Trace) : t.halted =
      (t.entries.toList.map Instruction.severity).getLast?.any Severity.isFatal := by
    rw [halted, last?, ← Array.getLast?_toList, List.getLast?_map, Option.any_map]
    rfl
  rw [halted_eq, halted_eq, severities_eq alike]

namespace Report

/-- A repeat count that was carried out one by one is not part of the text. -/
theorem entryText_eq_of_alike {i j : Instruction} (alike : i.Alike j) (settings : Settings)
    (p : Palette) (row : Option Row) : entryText settings p row j = entryText settings p row i := by
  cases expands : i.op.expandsRepeat with
  | false => rw [alike.eq_of_not_expands expands]
  | true =>
    rw [alike.eq_withCount]
    obtain ⟨op⟩ := i
    cases op <;> first
      | rfl
      | contradiction

theorem render_eq_of_alike {entries others : List Instruction}
    (alike : List.Forall₂ Instruction.Alike entries others) (settings : Settings) :
    render settings others = render settings entries := by
  have foldl_eq {γ : Type} {add : γ → Instruction → γ}
      (add_eq : ∀ state i j, Instruction.Alike i j → add state j = add state i) (state : γ) :
      others.foldl add state = entries.foldl add state := by
    induction alike generalizing state with
    | nil => rfl
    | cons first _ induction => rw [List.foldl_cons, List.foldl_cons, add_eq _ _ _ first, induction]
  rw [render, render, reportLines, reportLines, rawText, rawText, foldl_eq]
  intro state i j alike
  simp only [entryText_eq_of_alike alike]

end Report

end BusScript
