import BusScript.Bus.HighZ
import BusScript.Execution.Run

/-!
# Runs without a bound

The history of a list of slots is what would be carried out if a trace had no end: every slot in
turn, up to and with the first entry that is fatal. A run with a bounded trace records the history
if that leaves the last place of the trace free. Otherwise it records as much of it as that and puts
a remark into the last place.
-/

namespace BusScript

variable {σ β : Type}

namespace Bench

/-- The bench behind what was carried out. -/
def after (bench : Bench σ β) : List (Dispatched σ β) → Bench σ β
  | [] => bench
  | done :: later => done.bench.after later

variable [Driver σ] [Board β]

/-- Carries slots out one after the other, up to and with the first entry that is fatal. -/
def history (bench : Bench σ β) : List Slot → List (Dispatched σ β)
  | [] => []
  | slot :: slots =>
    let done := bench.dispatch slot.next slot.source
    done :: if done.entry.isFatal then [] else done.bench.history slots

theorem history_cons_of_isFatal {bench : Bench σ β} {slot : Slot} (slots : List Slot)
    (fatal : (bench.dispatch slot.next slot.source).entry.isFatal = true) :
    bench.history (slot :: slots) = [bench.dispatch slot.next slot.source] := by
  simp [history, fatal]

theorem history_cons_of_not_isFatal {bench : Bench σ β} {slot : Slot} (slots : List Slot)
    (mild : (bench.dispatch slot.next slot.source).entry.isFatal = false) :
    bench.history (slot :: slots) =
      bench.dispatch slot.next slot.source ::
        (bench.dispatch slot.next slot.source).bench.history slots := by
  simp [history, mild]

theorem length_history_le (bench : Bench σ β) (slots : List Slot) :
    (bench.history slots).length ≤ slots.length := by
  induction slots generalizing bench with
  | nil => exact Nat.le_refl _
  | cons slot slots induction =>
    cases fatal : (bench.dispatch slot.next slot.source).entry.isFatal with
    | true =>
      rw [history_cons_of_isFatal slots fatal]
      simp
    | false =>
      rw [history_cons_of_not_isFatal slots fatal]
      exact Nat.succ_le_succ (induction _)

theorem length_history_of_forall_not_isFatal {bench : Bench σ β} {slots : List Slot}
    (mild : ∀ done ∈ bench.history slots, done.entry.isFatal = false) :
    (bench.history slots).length = slots.length := by
  induction slots generalizing bench with
  | nil => rfl
  | cons slot slots induction =>
    have first_mild : (bench.dispatch slot.next slot.source).entry.isFatal = false :=
      mild _ List.mem_cons_self
    rw [history_cons_of_not_isFatal slots first_mild] at mild ⊢
    rw [List.length_cons, induction fun done later => mild done (List.mem_cons_of_mem _ later)]
    rfl

/-- What stands in a place of a history was carried out in the slot with that place, on the bench
behind what stands in front of it. -/
theorem dispatch_of_history {bench : Bench σ β} {slots : List Slot} {k : Nat}
    {done : Dispatched σ β} (done_eq : (bench.history slots)[k]? = some done) :
    ∃ slot, slots[k]? = some slot ∧
      done = (bench.after ((bench.history slots).take k)).dispatch slot.next slot.source := by
  induction slots generalizing bench k with
  | nil => simp [history] at done_eq
  | cons slot slots induction =>
    cases k with
    | zero => exact ⟨slot, rfl, (Option.some.inj done_eq).symm⟩
    | succ k =>
      cases fatal : (bench.dispatch slot.next slot.source).entry.isFatal with
      | true =>
        rw [history_cons_of_isFatal slots fatal] at done_eq
        simp at done_eq
      | false =>
        rw [history_cons_of_not_isFatal slots fatal, List.getElem?_cons_succ] at done_eq
        rw [history_cons_of_not_isFatal slots fatal, List.getElem?_cons_succ]
        exact induction done_eq

theorem exists_dispatch_of_history {bench : Bench σ β} {slots : List Slot} {k : Nat}
    {done : Dispatched σ β} (done_eq : (bench.history slots)[k]? = some done) :
    ∃ slot, ∃ before : Bench σ β,
      slots[k]? = some slot ∧ done = before.dispatch slot.next slot.source := by
  obtain ⟨slot, slot_eq, dispatched⟩ := dispatch_of_history done_eq
  exact ⟨slot, _, slot_eq, dispatched⟩

theorem not_isFatal_of_mem_dropLast_history {bench : Bench σ β} {slots : List Slot}
    {done : Dispatched σ β} (member : done ∈ (bench.history slots).dropLast) :
    done.entry.isFatal = false := by
  induction slots generalizing bench with
  | nil => simp [history] at member
  | cons slot slots induction =>
    cases fatal : (bench.dispatch slot.next slot.source).entry.isFatal with
    | true =>
      rw [history_cons_of_isFatal slots fatal] at member
      simp at member
    | false =>
      rw [history_cons_of_not_isFatal slots fatal] at member
      cases rest : (bench.dispatch slot.next slot.source).bench.history slots with
      | nil => simp [rest] at member
      | cons second later =>
        rw [rest, List.dropLast_cons_of_ne_nil (by simp), ← rest] at member
        rcases List.mem_cons.mp member with rfl | behind
        · exact fatal
        · exact induction behind

end Bench

namespace Run

variable [Driver σ] [Board β]

/-- A slot for which the trace has room is carried out and recorded. -/
theorem step_of_room {r : Run σ β} (room : r.trace.entries.size + 1 < r.trace.capacity)
    (slot : Slot) :
    (r.step slot).trace.entries =
        r.trace.entries.push (r.bench.dispatch slot.next slot.source).entry ∧
      (r.step slot).trace.capacity = r.trace.capacity ∧
      (r.step slot).bench = (r.bench.dispatch slot.next slot.source).bench ∧
      (r.step slot).stopped = (r.bench.dispatch slot.next slot.source).entry.isFatal := by
  have not_full : r.trace.isFull = false := by
    rw [Trace.isFull, decide_eq_false_iff_not]
    omega
  rw [step, not_full, if_neg (by simp)]
  exact ⟨Trace.entries_push_of_not_isFull not_full, Trace.capacity_push _ _, rfl, rfl⟩

/-- Where only the last place of the trace is left, a slot is not carried out but remarked on. -/
theorem step_of_full {r : Run σ β} (full : r.trace.entries.size + 1 = r.trace.capacity)
    (slot : Slot) :
    (r.step slot).trace.entries =
        r.trace.entries.push
          (slot.source.flag .error (Trace.overflowRemark r.trace.capacity)) ∧
      (r.step slot).bench = r.bench ∧ (r.step slot).stopped = true := by
  have is_full : r.trace.isFull = true := by
    rw [Trace.isFull, decide_eq_true_iff]
    omega
  rw [step, if_pos is_full, overflow, Trace.push, if_pos (by omega)]
  exact ⟨rfl, rfl, rfl⟩

/-- Where the history of the slots leaves the last place of the trace free, the run records it. -/
theorem steps_of_length_history_lt {slots : List Slot} {r : Run σ β} (going : r.stopped = false)
    (room : r.trace.entries.size + (r.bench.history slots).length < r.trace.capacity) :
    (r.steps slots).trace.entries.toList =
        r.trace.entries.toList ++ (r.bench.history slots).map Dispatched.entry ∧
      (r.steps slots).bench = r.bench.after (r.bench.history slots) := by
  induction slots generalizing r with
  | nil => simp [steps, Bench.history, Bench.after]
  | cons slot slots induction =>
    have size_lt : r.trace.entries.size + 1 < r.trace.capacity := by
      simp only [Bench.history, List.length_cons] at room
      omega
    obtain ⟨entries_eq, capacity_eq, bench_eq, stopped_eq⟩ := step_of_room size_lt slot
    rw [steps, going, if_neg (by simp)]
    cases fatal : (r.bench.dispatch slot.next slot.source).entry.isFatal with
    | true =>
      rw [steps_of_stopped (stopped_eq.trans fatal), Bench.history_cons_of_isFatal slots fatal]
      exact ⟨by rw [entries_eq, Array.toList_push]; rfl, bench_eq⟩
    | false =>
      rw [Bench.history_cons_of_not_isFatal slots fatal] at room ⊢
      have room_left : (r.step slot).trace.entries.size +
          ((r.step slot).bench.history slots).length < (r.step slot).trace.capacity := by
        rw [entries_eq, capacity_eq, bench_eq, Array.size_push]
        simp only [List.length_cons] at room
        omega
      obtain ⟨later_entries, later_bench⟩ := induction (stopped_eq.trans fatal) room_left
      rw [later_entries, later_bench, entries_eq, bench_eq, Array.toList_push]
      exact ⟨by simp, rfl⟩

/-- Where the history of the slots does not leave the last place of the trace free, the run records
as much of it as does, and the remark behind. -/
theorem steps_of_le_length_history {slots : List Slot} {r : Run σ β} (going : r.stopped = false)
    {room : Nat} (room_eq : r.trace.entries.size + room + 1 = r.trace.capacity)
    (short : room < (r.bench.history slots).length) :
    ∃ slot, slots[room]? = some slot ∧
      (r.steps slots).trace.entries.toList =
        r.trace.entries.toList ++ ((r.bench.history slots).take room).map Dispatched.entry ++
          [slot.source.flag .error (Trace.overflowRemark r.trace.capacity)] ∧
      (r.steps slots).bench = r.bench.after ((r.bench.history slots).take room) := by
  induction slots generalizing r room with
  | nil => simp [Bench.history] at short
  | cons slot slots induction =>
    rw [steps, going, if_neg (by simp)]
    cases room with
    | zero =>
      obtain ⟨entries_eq, bench_eq, stopped_eq⟩ := step_of_full room_eq slot
      refine ⟨slot, rfl, ?_, ?_⟩
      · rw [steps_of_stopped stopped_eq, entries_eq, Array.toList_push]
        simp
      · rw [steps_of_stopped stopped_eq, bench_eq]
        rfl
    | succ room =>
      obtain ⟨entries_eq, capacity_eq, bench_eq, stopped_eq⟩ :=
        step_of_room (by omega : r.trace.entries.size + 1 < r.trace.capacity) slot
      -- A fatal entry would have ended the history here, and that would have left room.
      have mild : (r.bench.dispatch slot.next slot.source).entry.isFatal = false := by
        rw [← Bool.not_eq_true]
        intro fatal
        rw [Bench.history_cons_of_isFatal slots fatal, List.length_singleton] at short
        omega
      rw [Bench.history_cons_of_not_isFatal slots mild] at short ⊢
      have room_left : (r.step slot).trace.entries.size + room + 1 =
          (r.step slot).trace.capacity := by
        rw [entries_eq, capacity_eq, Array.size_push]
        omega
      have short_left : room < ((r.step slot).bench.history slots).length := by
        rw [bench_eq]
        simpa using short
      obtain ⟨next, next_eq, later_entries, later_bench⟩ :=
        induction (stopped_eq.trans mild) room_left short_left
      refine ⟨next, ?_, ?_, ?_⟩
      · rw [List.getElem?_cons_succ, next_eq]
      · rw [later_entries, entries_eq, capacity_eq, bench_eq, Array.toList_push]
        simp
      · rw [later_bench, bench_eq]
        rfl

end Run

namespace Program

variable [Driver σ] [Board β]

theorem run_eq_steps (capacity : Nat) (p : Program) (bench : Bench σ β) :
    (p.run capacity bench).trace = ((Run.ofBench capacity bench).steps p.unroll).trace ∧
      (p.run capacity bench).bench = ((Run.ofBench capacity bench).steps p.unroll).bench := by
  rw [run, Run.instructions_eq_steps, unroll]
  exact ⟨rfl, rfl⟩

theorem run_of_length_history_lt {capacity : Nat} {p : Program} {bench : Bench σ β}
    (fits : (bench.history p.unroll).length < capacity) :
    (p.run capacity bench).trace.entries.toList =
        (bench.history p.unroll).map Dispatched.entry ∧
      (p.run capacity bench).bench = bench.after (bench.history p.unroll) := by
  have room : (Run.ofBench capacity bench).trace.entries.size +
      (bench.history p.unroll).length < capacity := by
    rw [Run.ofBench, Array.size_empty, Nat.zero_add]
    exact fits
  rw [(run_eq_steps capacity p bench).1, (run_eq_steps capacity p bench).2]
  exact Run.steps_of_length_history_lt rfl room

theorem run_of_lt_length_history {room : Nat} {p : Program} {bench : Bench σ β}
    (long : room < (bench.history p.unroll).length) :
    ∃ slot, p.unroll[room]? = some slot ∧
      (p.run (room + 1) bench).trace.entries.toList =
        ((bench.history p.unroll).take room).map Dispatched.entry ++
          [slot.source.flag .error (Trace.overflowRemark (room + 1))] ∧
      (p.run (room + 1) bench).bench = bench.after ((bench.history p.unroll).take room) := by
  have room_eq : (Run.ofBench (room + 1) bench).trace.entries.size + room + 1 = room + 1 := by
    rw [Run.ofBench, Array.size_empty, Nat.zero_add]
  rw [(run_eq_steps (room + 1) p bench).1, (run_eq_steps (room + 1) p bench).2]
  exact Run.steps_of_le_length_history rfl room_eq long

/-- A run records the history of its program, cut where the trace ends. -/
theorem run_eq_history (p : Program) (bench : Bench σ β) {capacity : Nat}
    (capacity_pos : 1 ≤ capacity) :
    ((bench.history p.unroll).length ≤ capacity - 1 →
      (p.run capacity bench).trace.entries.toList =
          (bench.history p.unroll).map Dispatched.entry ∧
        (p.run capacity bench).bench = bench.after (bench.history p.unroll)) ∧
    (capacity - 1 < (bench.history p.unroll).length →
      ∃ slot, p.unroll[capacity - 1]? = some slot ∧
        (p.run capacity bench).trace.entries.toList =
          ((bench.history p.unroll).take (capacity - 1)).map Dispatched.entry ++
            [slot.source.flag .error s!"result exceeds available space ({capacity} slots)"] ∧
        (p.run capacity bench).bench =
          bench.after ((bench.history p.unroll).take (capacity - 1))) ∧
    (p.run capacity bench).trace.entries.toList.length ≤ capacity ∧
    ∀ entry ∈ (p.run capacity bench).trace.entries.toList.dropLast,
      entry.severity ≠ .error := by
  obtain ⟨room, rfl⟩ : ∃ room, capacity = room + 1 := ⟨capacity - 1, by omega⟩
  rw [Nat.add_sub_cancel]
  refine ⟨fun short => run_of_length_history_lt (by omega), run_of_lt_length_history, ?_⟩
  have mild : ∀ entry ∈ (bench.history p.unroll).dropLast.map Dispatched.entry,
      entry.severity ≠ .error := by
    intro entry member
    obtain ⟨done, early, rfl⟩ := List.mem_map.mp member
    rw [Ne, ← Severity.isFatal_iff, Bool.not_eq_true]
    exact Bench.not_isFatal_of_mem_dropLast_history early
  by_cases fits : (bench.history p.unroll).length < room + 1
  · rw [(run_of_length_history_lt fits).1, List.length_map, List.dropLast_eq_take,
      List.length_map, ← List.map_take, ← List.dropLast_eq_take]
    exact ⟨by omega, mild⟩
  · obtain ⟨slot, -, entries_eq, -⟩ := run_of_lt_length_history (by omega :
      room < (bench.history p.unroll).length)
    rw [entries_eq, List.dropLast_concat]
    refine ⟨?_, fun entry member => mild entry ?_⟩
    · simp only [List.length_append, List.length_map, List.length_take, List.length_singleton]
      omega
    · have early : (bench.history p.unroll).take room =
          (bench.history p.unroll).dropLast.take room := by
        rw [List.dropLast_eq_take, List.take_take, Nat.min_eq_left (by omega)]
      rw [early, List.map_take] at member
      exact List.mem_of_mem_take member

/-- Of ten reads on four places, three are carried out and the fourth place has the remark. -/
theorem run_ten_reads_on_four_places :
    let p : Program := [{ op := .read, repeats := 10 }]
    let bench : Bench HighZ SimulatedBoard :=
      { driver := {}, board := .ofCount 8, pins := .free 8, tally := ∅ }
    1 ≤ 4 ∧ ∃ slot, p.unroll[3]? = some slot ∧
      (p.run 4 bench).trace.entries.toList =
        ((bench.history p.unroll).take 3).map Dispatched.entry ++
          [slot.source.flag .error "result exceeds available space (4 slots)"] ∧
      (p.run 4 bench).bench = bench.after ((bench.history p.unroll).take 3) := by
  intro p bench
  have longer : 4 - 1 < (bench.history p.unroll).length := by decide
  exact ⟨by decide, (run_eq_history p bench (show 1 ≤ 4 by decide)).2.1 longer⟩

end Program

end BusScript
