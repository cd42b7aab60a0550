import BusScript.Proofs.Execution.Calls
import BusScript.Proofs.Session.Station

/-!
# Buses that project to others

Where all that a bus does can be read off another through a projection of its states, so can all
that is run on it: entries, sessions, boards and events are the same, and only the state of the bus
is projected. A bus that keeps a record beside its work projects to the bus without the record.
-/

namespace BusScript

/-- A projection from the states of a bus to those of another that does the same. -/
structure Driver.Projects {τ σ : Type} [Driver τ] [Driver σ] (f : τ → σ) : Prop where
  name_eq : ∀ bus, Driver.name (f bus) = Driver.name bus
  preflight_eq : ∀ bus,
    Driver.preflight (f bus) = (f (Driver.preflight bus).1, (Driver.preflight bus).2)
  waitDone_eq : ∀ bus, Driver.waitDone (f bus) = f (Driver.waitDone bus)
  perform_eq : ∀ capability next entry bus, Driver.perform capability next entry (f bus) =
    ((Driver.perform capability next entry bus).1, f (Driver.perform capability next entry bus).2)

section Definitions

variable {τ σ β : Type}

/-- The bench with the projected bus. -/
def Bench.project (f : τ → σ) (bench : Bench τ β) : Bench σ β where
  driver := f bench.driver
  board := bench.board
  pins := bench.pins
  tally := bench.tally

/-- What was carried out, with the projected bus. -/
def Dispatched.project (f : τ → σ) (done : Dispatched τ β) : Dispatched σ β where
  entry := done.entry
  bench := done.bench.project f
  events := done.events

/-- The run with the projected bus. -/
def Run.project (f : τ → σ) (r : Run τ β) : Run σ β where
  trace := r.trace
  bench := r.bench.project f
  events := r.events
  stopped := r.stopped

/-- What is left of a line, with the projected bus. -/
def Handled.project (f : τ → σ) (handled : Handled τ β) : Handled σ β where
  result := handled.result
  session := handled.session
  driver := f handled.driver
  board := handled.board
  cursor := handled.cursor
  events := handled.events

/-- The station with the projected bus. -/
def Station.project (f : τ → σ) (st : Station τ β) : Station σ β where
  session := st.session
  driver := f st.driver
  board := st.board

end Definitions

namespace Driver.Projects

variable {τ σ β : Type} [Driver τ] [Driver σ] [Board β] {f : τ → σ}

theorem pulses (projects : Driver.Projects f) (n : Nat) (entry : Instruction) (bus : τ) :
    Bench.pulses n entry (f bus) = (Bench.pulses n entry bus).map id f := by
  induction n with
  | zero => rfl
  | succ n induction =>
    rw [Bench.pulses_succ, Bench.pulses_succ, induction]
    exact projects.perform_eq _ _ _ _

theorem execute (projects : Driver.Projects f) (next : Option Instruction) (entry : Instruction)
    (bench : Bench τ β) :
    (bench.project f).execute next entry = (bench.execute next entry).project f := by
  have perform (capability : Capability) (next : Option Instruction) :
      (bench.project f).perform capability next entry =
        (bench.perform capability next entry).project f := by
    rw [Bench.perform]
    simp only [Bench.project, projects.perform_eq]
    rfl
  have tick : (bench.project f).tick entry = (bench.tick entry).project f := by
    rw [Bench.tick_eq_pulses, Bench.tick_eq_pulses]
    simp only [Bench.project, projects.pulses]
    rfl
  rw [Bench.execute, Bench.execute]
  cases entry.op with
  | tickClock => exact tick
  | delayUs | delayMs | outputHigh | outputLow | input | sample => rfl
  | _ => exact perform _ _

theorem dispatch (projects : Driver.Projects f) (next : Option Instruction) (entry : Instruction)
    (bench : Bench τ β) :
    (bench.project f).dispatch next entry = (bench.dispatch next entry).project f := by
  rw [Bench.dispatch, projects.execute]
  rfl

theorem step (projects : Driver.Projects f) (slot : Slot) (r : Run τ β) :
    (r.project f).step slot = (r.step slot).project f := by
  have record_eq : (r.project f).record slot ((r.project f).bench.dispatch slot.next slot.source) =
      (r.record slot (r.bench.dispatch slot.next slot.source)).project f := by
    rw [show (r.project f).bench = r.bench.project f from rfl, projects.dispatch]
    rfl
  rw [Run.step, Run.step, record_eq, apply_ite (Run.project f)]
  rfl

theorem steps (projects : Driver.Projects f) (slots : List Slot) (r : Run τ β) :
    (r.project f).steps slots = (r.steps slots).project f := by
  induction slots generalizing r with
  | nil => rfl
  | cons slot slots induction =>
    rw [Run.steps, Run.steps, projects.step, induction, apply_ite (Run.project f)]
    rfl

/-- A whole run: it records the same and stops at the same place. -/
theorem run (projects : Driver.Projects f) (capacity : Nat) (p : Program) (bench : Bench τ β) :
    p.run capacity (bench.project f) = (p.run capacity bench).project f := by
  have start_eq : Run.ofBench capacity (bench.project f) =
      (Run.ofBench capacity bench).project f := rfl
  have name_eq : Driver.name (bench.project f).driver = Driver.name bench.driver :=
    projects.name_eq bench.driver
  simp only [Program.run, Run.instructions_eq_steps, start_eq, projects.steps, name_eq]
  rfl

theorem executeProgram (projects : Driver.Projects f) (p : Program) (cursor : Cursor) (bus : τ)
    (board : β) (events : List Event) (s : Session) :
    s.execute p cursor (f bus) board events = (s.execute p cursor bus board events).project f := by
  let bench : Bench τ β := { driver := bus, board := board, pins := s.pins, tally := s.tally }
  have run_eq := projects.run s.settings.capacity p bench
  have waitDone_eq := projects.waitDone_eq (p.run s.settings.capacity bench).bench.driver
  rw [Session.execute, show ({ driver := f bus, board := board, pins := s.pins, tally := s.tally } :
    Bench σ β) = bench.project f from rfl, run_eq]
  simp only [Run.project, Bench.project, waitDone_eq]
  rfl

/-- A line: it is turned down for the same reason or has the same output. -/
theorem submit (projects : Driver.Projects f) (line : Cursor) (st : Station τ β) :
    (st.project f).submit line = (st.submit line).project f := by
  rw [Station.submit, Session.run, Station.submit, Session.run]
  simp only [Station.project, projects.name_eq, projects.preflight_eq]
  split
  · rfl
  · rfl
  · exact projects.executeProgram _ _ _ _ _ _

theorem submitAll (projects : Driver.Projects f) (lines : List Cursor) (st : Station τ β) :
    (st.project f).submitAll lines = (st.submitAll lines).map (Handled.project f) ∧
      (st.project f).after lines = (st.after lines).project f := by
  induction lines generalizing st with
  | nil => exact ⟨rfl, rfl⟩
  | cons line later induction =>
    obtain ⟨handled_eq, after_eq⟩ := induction (st.submit line).station
    have station_eq : ((st.project f).submit line).station =
        (st.submit line).station.project f := by
      rw [projects.submit]
      rfl
    rw [Station.submitAll_cons, Station.submitAll_cons, Station.after_cons, Station.after_cons,
      station_eq, handled_eq, after_eq, projects.submit]
    exact ⟨rfl, rfl⟩

end Driver.Projects

end BusScript
