import BusScript.Proofs.Execution.Unbounded
import BusScript.Proofs.Execution.Unroll

/-!
# What a run keeps

Whatever holds of a bench and is kept each time an instruction of a program is carried out holds of
the bench behind a run of the program, wherever the run stops.
-/

namespace BusScript

variable {σ β : Type} [Driver σ] [Board β]

namespace Bench

/-- What is no read is carried out in one way, whatever comes next. -/
theorem dispatch_of_ne_read {entry : Instruction} (no_read : entry.op ≠ .read)
    (next other : Option Instruction) (bench : Bench σ β) :
    bench.dispatch next entry = bench.dispatch other entry := by
  have execute_eq : bench.execute next entry = bench.execute other entry := by
    rw [execute, execute]
    cases op_eq : entry.op with
    | read => exact absurd op_eq no_read
    | _ => rfl
  rw [dispatch, dispatch, execute_eq]

/-- What any use of a bus keeps, carrying an entry out keeps. -/
theorem driver_dispatch_of_perform {Holds : σ → Prop}
    (kept : ∀ capability next entry bus, Holds bus →
      Holds (Driver.perform capability next entry bus).2)
    (next : Option Instruction) (entry : Instruction) {bench : Bench σ β}
    (start : Holds bench.driver) : Holds (bench.dispatch next entry).bench.driver := by
  have kept_pulses (n : Nat) : Holds (Nat.repeat (fun state : Instruction × σ =>
      Driver.perform .tickClock none state.1 state.2) n (entry, bench.driver)).2 := by
    induction n with
    | zero => exact start
    | succ n induction => exact kept _ _ _ _ induction
  rw [dispatch, execute]
  cases op_eq : entry.op with
  | tickClock => exact kept_pulses entry.repeats
  | delayUs | delayMs | outputHigh | outputLow | input | sample => exact start
  | _ => exact kept _ _ _ _ start

/-- Whatever stands in a history was carried out in one of the slots, on a bench of which holds what
carrying any of the slots out keeps. -/
theorem exists_dispatch_of_mem_history (Holds : Bench σ β → Prop) {slots : List Slot}
    (kept : ∀ slot ∈ slots, ∀ bench, Holds bench →
      Holds (bench.dispatch slot.next slot.source).bench)
    {bench : Bench σ β} (start : Holds bench) {done : Dispatched σ β}
    (member : done ∈ bench.history slots) :
    ∃ slot ∈ slots, ∃ before, Holds before ∧ done = before.dispatch slot.next slot.source := by
  induction slots generalizing bench with
  | nil => contradiction
  | cons slot slots induction =>
    obtain ⟨first, later⟩ := List.forall_mem_cons.mp kept
    cases fatal : (bench.dispatch slot.next slot.source).entry.isFatal with
    | true =>
      rw [history_cons_of_isFatal slots fatal, List.mem_singleton] at member
      exact ⟨slot, List.mem_cons_self, bench, start, member⟩
    | false =>
      rw [history_cons_of_not_isFatal slots fatal] at member
      rcases List.mem_cons.mp member with here | behind
      · exact ⟨slot, List.mem_cons_self, bench, start, here⟩
      · obtain ⟨found, inside, dispatched⟩ := induction later (first bench start) behind
        exact ⟨found, List.mem_cons_of_mem _ inside, dispatched⟩

end Bench

theorem Run.bench_step_of_dispatch {Holds : Bench σ β → Prop} {slot : Slot} {r : Run σ β}
    (start : Holds r.bench) (kept : Holds (r.bench.dispatch slot.next slot.source).bench) :
    Holds (r.step slot).bench := by
  rw [step]
  split
  · exact start
  · exact kept

theorem Run.bench_steps_of_dispatch {Holds : Bench σ β → Prop} {slots : List Slot}
    (kept : ∀ slot ∈ slots, ∀ bench, Holds bench →
      Holds (bench.dispatch slot.next slot.source).bench)
    {r : Run σ β} (start : Holds r.bench) : Holds (r.steps slots).bench := by
  induction slots generalizing r with
  | nil => exact start
  | cons slot slots induction =>
    obtain ⟨first, later⟩ := List.forall_mem_cons.mp kept
    rw [steps]
    split
    · exact start
    · exact induction later (bench_step_of_dispatch start (first r.bench start))

namespace Program

theorem source_mem_of_mem_unroll {p : Program} {slot : Slot} (member : slot ∈ p.unroll) :
    slot.source ∈ p :=
  List.mem_of_getElem? (describes_of_mem_unroll member).source_eq

/-- What carrying out any of its instructions keeps, a run of a program keeps. -/
theorem bench_run_of_dispatch (Holds : Bench σ β → Prop) {p : Program} {bench : Bench σ β}
    (capacity : Nat)
    (kept : ∀ i ∈ p, ∀ next bench, Holds bench → Holds (bench.dispatch next i).bench)
    (start : Holds bench) : Holds (p.run capacity bench).bench := by
  rw [(run_eq_steps capacity p bench).2]
  refine Run.bench_steps_of_dispatch (fun slot member before => ?_) start
  exact kept slot.source (source_mem_of_mem_unroll member) slot.next before

end Program

end BusScript
