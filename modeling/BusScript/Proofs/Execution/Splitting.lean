import BusScript.Bus.Simulated
import BusScript.Proofs.Execution.Budget
import BusScript.Proofs.Pin.Ownership
import BusScript.Proofs.Script.Composition

/-!
# Lines handled in two parts

Two lines handled one after the other do what the line does that has both in it, provided that the
first does not stop early. All that the seam can change is what a bus is told of the instruction
behind the last read of the first line, and only one of the buses asks for that.
-/

namespace BusScript

/-! ### Buses -/

namespace SimulatedBus

/-- Whether a bus takes note of what comes next. -/
def IsI2c (bus : SimulatedBus) : Prop := ∃ controller, bus = .i2c controller

/-- A bus does the same whatever comes next, but for the note of an I2C bus on a read. -/
theorem perform_read_of_next (next other : Option Instruction) (entry : Instruction)
    (bus : SimulatedBus) :
    let done := Driver.perform .read next entry bus
    let again := Driver.perform .read other entry bus
    again.2 = done.2 ∧ (again.1 = done.1 ∨
      done.2.IsI2c ∧ done.1.op = entry.op ∧ again.1 = { done.1 with note := again.1.note }) := by
  cases bus with
  | highZ | dummy | spi => exact ⟨rfl, .inl rfl⟩
  | i2c controller => exact ⟨rfl, .inr ⟨⟨_, rfl⟩, rfl, rfl⟩⟩

theorem not_isI2c_perform (capability : Capability) (next : Option Instruction)
    (entry : Instruction) {bus : SimulatedBus} (no_i2c : ¬ bus.IsI2c) :
    ¬ (Driver.perform capability next entry bus).2.IsI2c := by
  rintro ⟨controller, bus_eq⟩
  cases bus with
  | i2c => exact no_i2c ⟨_, rfl⟩
  | highZ | dummy | spi => cases bus_eq

@[simp] theorem preflight_fst (bus : SimulatedBus) : (Driver.preflight bus).1 = bus := by
  cases bus <;> rfl

@[simp] theorem waitDone_eq (bus : SimulatedBus) : Driver.waitDone bus = bus := by
  cases bus <;> rfl

end SimulatedBus

/-- Whether two entries are the same but for what an I2C bus notes on a read. -/
inductive Instruction.EqButNote (isI2c : Prop) (entry : Instruction) : Instruction → Prop
  | same : EqButNote isI2c entry entry
  | noted (i2c : isI2c) (is_read : entry.op = .read) (note : Option String) :
      EqButNote isI2c entry { entry with note := note }

theorem Instruction.EqButNote.isFatal_eq {isI2c : Prop} {entry other : Instruction}
    (eq_but : entry.EqButNote isI2c other) : other.isFatal = entry.isFatal := by
  cases eq_but <;> rfl

theorem Instruction.EqButNote.imp {isI2c weaker : Prop} {entry other : Instruction}
    (eq_but : entry.EqButNote isI2c other) (implied : isI2c → weaker) :
    entry.EqButNote weaker other := by
  cases eq_but with
  | same => exact .same
  | noted i2c is_read note => exact .noted (implied i2c) is_read note

/-! ### Slots -/

/-- The slot with its instruction further behind. -/
def Slot.shift (n : Nat) (slot : Slot) : Slot :=
  { slot with index := slot.index + n }

/-- The slots of an instruction differ only in what the last of them knows of the next one. -/
theorem Instruction.exists_slots (index : Nat) (i : Instruction) :
    ∃ front, ∃ last : Slot, ∀ next, i.slots index next = front ++ [{ last with next := next }] := by
  have expansion_pos : 0 < i.expansion := i.op.expansion_pos i.repeats
  obtain ⟨n, expansion_eq⟩ := Nat.exists_eq_add_of_lt expansion_pos
  rw [Nat.zero_add] at expansion_eq
  refine ⟨(List.range n).map fun repetition =>
    { index := index, repetition := repetition, source := i, next := none },
    { index := index, repetition := n, source := i, next := none }, fun next => ?_⟩
  rw [slots, expansion_eq, List.range_succ, List.map_append, List.map_singleton, if_pos rfl]
  congr 1
  refine List.map_congr_left fun repetition inside => ?_
  have not_last : repetition + 1 ≠ n + 1 := by
    have := List.mem_range.mp inside
    omega
  rw [if_neg not_last]

namespace Program

theorem unrollFrom_add (index n : Nat) (p : Program) :
    p.unrollFrom (index + n) = (p.unrollFrom index).map (Slot.shift n) := by
  induction p generalizing index with
  | nil => rfl
  | cons i rest induction =>
    rw [unrollFrom, unrollFrom, List.map_append, Nat.add_right_comm, induction, Instruction.slots,
      Instruction.slots, List.map_map]
    rfl

/-- A program behind another changes only what the last slot of the other knows of the next. -/
theorem exists_unrollFrom_append {p : Program} (nonempty : p ≠ []) (index : Nat) :
    ∃ front, ∃ last : Slot, ∀ q : Program, (p ++ q).unrollFrom index =
      front ++ { last with next := q.head? } :: q.unrollFrom (index + p.length) := by
  induction p generalizing index with
  | nil => contradiction
  | cons i rest induction =>
    obtain ⟨front, last, slots_eq⟩ := i.exists_slots index
    cases rest with
    | nil =>
      refine ⟨front, last, fun q => ?_⟩
      rw [List.singleton_append, unrollFrom, slots_eq, List.append_assoc]
      rfl
    | cons j rest =>
      obtain ⟨front', last', rest_eq⟩ := induction (List.cons_ne_nil j rest) (index + 1)
      refine ⟨i.slots index (some j) ++ front', last', fun q => ?_⟩
      rw [List.cons_append, unrollFrom, rest_eq, List.append_assoc, List.length_cons, Nat.add_assoc,
        Nat.add_comm 1]
      rfl

end Program

/-! ### Runs -/

namespace Bench

theorem after_append {σ β : Type} (bench : Bench σ β) (front back : List (Dispatched σ β)) :
    bench.after (front ++ back) = (bench.after front).after back := by
  induction front generalizing bench with
  | nil => rfl
  | cons done front induction => exact induction done.bench

variable {β : Type} [Board β]

/-- What is carried out does not depend on where an instruction is in its program. -/
theorem history_map_shift {σ : Type} [Driver σ] (n : Nat) (slots : List Slot)
    (bench : Bench σ β) : bench.history (slots.map (Slot.shift n)) = bench.history slots := by
  induction slots generalizing bench with
  | nil => rfl
  | cons slot slots induction =>
    rw [List.map_cons, history, history, induction]
    rfl

/-- One step: an entry is carried out in one way whatever comes next, but for a note. -/
theorem dispatch_of_next (next other : Option Instruction) (entry : Instruction)
    (bench : Bench SimulatedBus β) :
    (bench.dispatch other entry).bench = (bench.dispatch next entry).bench ∧
      (bench.dispatch next entry).entry.EqButNote (bench.dispatch next entry).bench.driver.IsI2c
        (bench.dispatch other entry).entry := by
  by_cases is_read : entry.op = .read
  · obtain ⟨driver_eq, entry_eq⟩ :=
      SimulatedBus.perform_read_of_next next other entry bench.driver
    have dispatch_eq (known : Option Instruction) :
        (bench.dispatch known entry).entry = (Driver.perform .read known entry bench.driver).1 ∧
          (bench.dispatch known entry).bench =
            { bench with
              driver := (Driver.perform .read known entry bench.driver).2
              tally := bench.tally.record entry.op } := by
      rw [dispatch, execute, is_read]
      exact ⟨rfl, rfl⟩
    rw [(dispatch_eq next).1, (dispatch_eq next).2, (dispatch_eq other).1, (dispatch_eq other).2,
      driver_eq]
    refine ⟨rfl, ?_⟩
    rcases entry_eq with same | ⟨is_i2c, op_eq, noted⟩
    · rw [same]
      exact .same
    · rw [noted]
      exact .noted is_i2c (op_eq.trans is_read) _
  · rw [dispatch_of_ne_read is_read next other]
    exact ⟨rfl, .same⟩

/-- A whole run: slots in which nothing is fatal, with further ones behind. -/
theorem history_of_next {front : List Slot} {last : Slot} (next : Option Instruction)
    (behind : List Slot) {bench : Bench SimulatedBus β}
    (mild : ∀ done ∈ bench.history (front ++ [last]), done.entry.isFatal = false) :
    ∃ before done again, bench.history (front ++ [last]) = before ++ [done] ∧
      bench.history (front ++ { last with next := next } :: behind) =
        before ++ again ::
          (bench.after (bench.history (front ++ [last]))).history behind ∧
      again.bench = done.bench ∧ done.entry.EqButNote done.bench.driver.IsI2c again.entry := by
  induction front generalizing bench with
  | nil =>
    obtain ⟨bench_eq, eq_but⟩ := bench.dispatch_of_next last.next next last.source
    have last_mild := mild _ List.mem_cons_self
    have history_eq : bench.history ([] ++ [last]) = [bench.dispatch last.next last.source] := by
      rw [List.nil_append, history_cons_of_not_isFatal [] last_mild]
      rfl
    refine ⟨[], _, bench.dispatch next last.source, history_eq, ?_, bench_eq, eq_but⟩
    rw [history_eq, after, after, ← bench_eq]
    exact history_cons_of_not_isFatal behind (eq_but.isFatal_eq.trans last_mild)
  | cons slot front induction =>
    have first_mild : (bench.dispatch slot.next slot.source).entry.isFatal = false :=
      mild _ List.mem_cons_self
    simp only [List.cons_append, history_cons_of_not_isFatal _ first_mild] at mild ⊢
    obtain ⟨before, done, again, history_eq, whole_eq, bench_eq, eq_but⟩ :=
      induction fun done member => mild done (List.mem_cons_of_mem _ member)
    refine ⟨bench.dispatch slot.next slot.source :: before, done, again, ?_, ?_, bench_eq, eq_but⟩
    · rw [history_eq, List.cons_append]
    · rw [whole_eq, List.cons_append]
      rfl

end Bench

namespace Program

variable {β : Type} [Board β] {p q : Program} {capacity : Nat}

theorem Budgeted.of_append (budgeted : (p ++ q).Budgeted capacity) :
    p.Budgeted capacity ∧ q.Budgeted capacity := by
  have slots_lt := budgeted.slots_lt
  rw [slots_append] at slots_lt
  obtain ⟨front_pos, back_pos⟩ := List.forall_mem_append.mp budgeted.repeats_pos
  exact ⟨⟨front_pos, by omega⟩, ⟨back_pos, by omega⟩⟩

theorem isI2c_of_run {bench : Bench SimulatedBus β}
    (is_i2c : (p.run capacity bench).bench.driver.IsI2c) : bench.driver.IsI2c := by
  by_contra no_i2c
  let Holds (after : Bench SimulatedBus β) : Prop := ¬ after.driver.IsI2c
  refine bench_run_of_dispatch Holds capacity ?_ no_i2c is_i2c
  intro i _ next before
  exact before.driver_dispatch_of_perform SimulatedBus.not_isI2c_perform next i

/-- Two programs one behind the other run as the one does and then the other. -/
theorem run_append (nonempty : p ≠ []) (budgeted : (p ++ q).Budgeted capacity)
    {bench : Bench SimulatedBus β}
    (mild : ∀ entry ∈ (p.run capacity bench).trace.entries.toList, entry.isFatal = false) :
    let first := p.run capacity bench
    let second := q.run capacity first.bench
    let whole := (p ++ q).run capacity bench
    whole.bench = second.bench ∧
      ∃ before last final, first.trace.entries.toList = before ++ [last] ∧
        whole.trace.entries.toList = before ++ final :: second.trace.entries.toList ∧
        last.EqButNote bench.driver.IsI2c final := by
  intro first second whole
  obtain ⟨first_budgeted, second_budgeted⟩ := budgeted.of_append
  obtain ⟨first_entries, first_bench⟩ := first_budgeted.run_records_history bench
  obtain ⟨second_entries, second_bench⟩ := second_budgeted.run_records_history first.bench
  obtain ⟨whole_entries, whole_bench⟩ := budgeted.run_records_history bench
  obtain ⟨front, last, unroll_eq⟩ := exists_unrollFrom_append nonempty 0
  have first_unroll : p.unroll = front ++ [{ last with next := none }] := by
    have alone := unroll_eq []
    rwa [List.append_nil] at alone
  have whole_unroll : (p ++ q).unroll = front ++
      { last with next := q.head? } :: q.unroll.map (Slot.shift p.length) := by
    rw [unroll, unroll_eq, unrollFrom_add]
    rfl
  have history_mild : ∀ done ∈ bench.history (front ++ [{ last with next := none }]),
      done.entry.isFatal = false := by
    intro done member
    rw [← first_unroll] at member
    exact mild done.entry (first_entries ▸ List.mem_map_of_mem member)
  obtain ⟨before, done, again, first_eq, whole_eq, bench_eq, eq_but⟩ :=
    Bench.history_of_next q.head? (q.unroll.map (Slot.shift p.length)) history_mild
  rw [← first_unroll] at first_eq whole_eq
  rw [← whole_unroll, ← first_bench, Bench.history_map_shift] at whole_eq
  have done_bench : done.bench = first.bench := by
    rw [first_bench, first_eq, Bench.after_append]
    rfl
  constructor
  · rw [whole_bench, second_bench, whole_eq, Bench.after_append, ← done_bench, ← bench_eq]
    rfl
  · refine ⟨before.map Dispatched.entry, done.entry, again.entry, ?_, ?_, ?_⟩
    · rw [first_entries, first_eq, List.map_append, List.map_singleton]
    · rw [whole_entries, second_entries, whole_eq, List.map_append, List.map_cons]
    · rw [done_bench] at eq_but
      exact eq_but.imp isI2c_of_run

end Program

/-! ### Sessions -/

namespace Session

/-- Two lines with a blank between them compile to the one program and then the other. -/
theorem program_append_of_compile {settings : Settings} {role : Nat → PinRole} {a b : String}
    {p q whole : Program}
    (first : ((Cursor.ofString a).compile settings role).1.result = .ok p)
    (second : ((Cursor.ofString b).compile settings role).1.result = .ok q)
    (together : ((Cursor.ofString (a ++ " " ++ b)).compile settings role).1.result = .ok whole) :
    whole = p ++ q := by
  have text_eq : (a ++ " " ++ b).toList = a.toList ++ ' ' :: b.toList := by
    simp
  have together : compileText settings role (a.toList ++ ' ' :: b.toList) = .ok whole := by
    rw [← text_eq]
    exact together
  have blank : isSeparator ' ' = true := by decide
  have whole_eq := compileText_append_of_ok first blank second
  split at whole_eq
  · exact Except.ok.inj (together.symm.trans whole_eq)
  · rw [together] at whole_eq
    contradiction

/-- Splitting a line does not change its effect, but for what an I2C bus notes on a read that is the
last entry of the first line. -/
theorem runLine_append {β : Type} [Board β] {s : Session} {a b : String} {p q whole : Program}
    (first_compiled : ((Cursor.ofString a).compile s.settings s.pins.role).1.result = .ok p)
    (first_nonempty : p ≠ [])
    (second_compiled : ((Cursor.ofString b).compile s.settings s.pins.role).1.result = .ok q)
    (second_nonempty : q ≠ [])
    (whole_compiled :
      ((Cursor.ofString (a ++ " " ++ b)).compile s.settings s.pins.role).1.result = .ok whole)
    (bus : SimulatedBus) (board : β) :
    let first := s.runLine a bus board
    let second := first.session.runLine b first.driver first.board
    let together := s.runLine (a ++ " " ++ b) bus board
    ∃ out, first.result = .ok out ∧
      ((∀ entry ∈ out.trace.entries.toList, entry.severity ≠ .error) →
        ∃ later all, second.result = .ok later ∧ together.result = .ok all ∧
          together.session = second.session ∧ together.driver = second.driver ∧
          together.board = second.board ∧
          ∃ before last final, out.trace.entries.toList = before ++ [last] ∧
            all.trace.entries.toList = before ++ final :: later.trace.entries.toList ∧
            last.EqButNote bus.IsI2c final) := by
  intro first second together
  obtain rfl : whole = p ++ q :=
    program_append_of_compile first_compiled second_compiled whole_compiled
  have ran : s.Ran p bus board first := ran_of_compile bus board first_compiled first_nonempty
  have together_ran : s.Ran (p ++ q) bus board together :=
    ran_of_compile bus board whole_compiled (by simp [first_nonempty])
  let run := p.run s.settings.capacity (s.bench bus board)
  let middle : Session := { s with pins := run.bench.pins, tally := run.bench.tally }
  -- The first run changes no owner, so the second line compiles after it as it does before.
  have roles : middle.pins.role = s.pins.role := by
    have permitted : p.Permitted s.settings (s.bench bus board).pins.role :=
      Cursor.permitted_of_compile first_compiled
    exact permitted.role_run s.settings.capacity
  have second_ran : middle.Ran q first.driver first.board second := by
    have session_eq : first.session = middle := ran.session_eq
    have compiled :
        ((Cursor.ofString b).compile middle.settings middle.pins.role).1.result = .ok q := by
      rw [roles]
      exact second_compiled
    rw [show second = middle.run (.ofString b) first.driver first.board from session_eq ▸ rfl]
    exact ran_of_compile first.driver first.board compiled second_nonempty
  have bench_eq : middle.bench first.driver first.board = run.bench := by
    rw [bench, SimulatedBus.preflight_fst, ran.driver_eq, ran.board_eq, SimulatedBus.waitDone_eq]
  refine ⟨_, ran.result_eq, fun mild => ⟨_, _, second_ran.result_eq, together_ran.result_eq, ?_⟩⟩
  have not_fatal : ∀ entry ∈ run.trace.entries.toList, entry.isFatal = false := by
    intro entry member
    rw [← Bool.not_eq_true]
    exact fun fatal => mild entry member (Severity.isFatal_iff.mp fatal)
  obtain ⟨whole_bench, traces⟩ := Program.run_append first_nonempty
    (Cursor.budgeted_of_compile s.valid whole_compiled) not_fatal
  rw [together_ran.session_eq, second_ran.session_eq, together_ran.driver_eq, second_ran.driver_eq,
    together_ran.board_eq, second_ran.board_eq, bench_eq, whole_bench]
  refine ⟨rfl, rfl, rfl, ?_⟩
  rw [show (s.bench bus board).driver = bus from bus.preflight_fst] at traces
  exact traces

/-- Two bytes are read from a device by one line, and another line closes the transfer. -/
theorem runLine_two_reads_and_stop :
    let s : Session :=
      { settings := {}, valid := Settings.fault?_eq_none_iff.mp rfl, pins := .free 8, tally := ∅ }
    let bus : SimulatedBus := .i2c { targets := #[.ofList 0x50 [7, 9]] }
    let board := SimulatedBoard.ofCount 8
    let first := s.runLine "[0xa1 r:2" bus board
    let second := first.session.runLine "]" first.driver first.board
    let together := s.runLine ("[0xa1 r:2" ++ " " ++ "]") bus board
    ∃ out later all, first.result = .ok out ∧
      (∀ entry ∈ out.trace.entries.toList, entry.severity ≠ .error) ∧
      second.result = .ok later ∧ together.result = .ok all ∧
      together.session = second.session ∧ together.driver = second.driver ∧
      ∃ before last final, out.trace.entries.toList = before ++ [last] ∧
        all.trace.entries.toList = before ++ final :: later.trace.entries.toList ∧
        last.EqButNote bus.IsI2c final := by
  intro s bus board first second together
  let p : Program := [{ op := .start }, { op := .write, sent := 0xa1 },
    { op := .read, repeats := 2, hasRepeats := true }]
  have first_compiled :
      ((Cursor.ofString "[0xa1 r:2").compile s.settings s.pins.role).1.result = .ok p := by
    cbv
  have second_compiled :
      ((Cursor.ofString "]").compile s.settings s.pins.role).1.result = .ok [{ op := .stop }] := by
    cbv
  have whole_compiled : ((Cursor.ofString ("[0xa1 r:2" ++ " " ++ "]")).compile s.settings
      s.pins.role).1.result = .ok (p ++ [{ op := .stop }]) := by
    cbv
  have mild : ∀ entry ∈ (p.run s.settings.capacity (s.bench bus board)).trace.entries.toList,
      entry.severity ≠ .error := by
    decide +kernel
  obtain ⟨out, ran, split⟩ := runLine_append first_compiled (List.cons_ne_nil _ _) second_compiled
    (List.cons_ne_nil _ _) whole_compiled bus board
  obtain ⟨compiled, -, trace_eq⟩ := compile_of_run ran
  rw [Except.ok.inj (first_compiled.symm.trans compiled), ← trace_eq] at mild
  obtain ⟨later, all, second_ran, all_ran, session_eq, driver_eq, -, traces⟩ := split mild
  exact ⟨out, later, all, ran, mild, second_ran, all_ran, session_eq, driver_eq, traces⟩

end Session

end BusScript
