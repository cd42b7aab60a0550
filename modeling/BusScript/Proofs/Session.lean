import BusScript.Session

/-!
# Lines of a session

A line has an output where it compiles to a program that is not empty. The output is that of a run
of the program on the bus as it was prepared, on the board, and on the pins and the tally of the
session.
-/

namespace BusScript.Session

variable {σ β : Type} [Driver σ]

/-- What the programs of a session run on. -/
def bench (s : Session) (driver : σ) (board : β) : Bench σ β where
  driver := (Driver.preflight driver).1
  board := board
  pins := s.pins
  tally := s.tally

variable [Board β]

theorem run_of_compile {s : Session} {line : Cursor} {p : Program} (driver : σ) (board : β)
    (compiled : (line.compile s.settings s.pins.role).1.result = .ok p) (nonempty : p ≠ []) :
    ∃ out, (s.run line driver board).result = .ok out ∧ out.program = p ∧
      out.trace = (p.run s.settings.capacity (s.bench driver board)).trace := by
  obtain ⟨i, rest, rfl⟩ := List.exists_cons_of_ne_nil nonempty
  rw [run]
  simp only [compiled]
  exact ⟨_, rfl, rfl, rfl⟩

theorem compile_of_run {s : Session} {line : Cursor} {driver : σ} {board : β} {out : Output}
    (ran : (s.run line driver board).result = .ok out) :
    (line.compile s.settings s.pins.role).1.result = .ok out.program ∧ out.program ≠ [] ∧
      out.trace = (out.program.run s.settings.capacity (s.bench driver board)).trace := by
  cases compiled : (line.compile s.settings s.pins.role).1.result with
  | error reason =>
    rw [run] at ran
    simp only [compiled] at ran
    contradiction
  | ok p =>
    by_cases empty : p = []
    · subst empty
      rw [run] at ran
      simp only [compiled] at ran
      contradiction
    · obtain ⟨other, result_eq, rfl, trace_eq⟩ := run_of_compile driver board compiled empty
      obtain rfl := Except.ok.inj (result_eq.symm.trans ran)
      exact ⟨rfl, empty, trace_eq⟩

/-- A line that is not run: only the bus was prepared for it. -/
structure Refused (s : Session) (driver : σ) (board : β) (error : LineError)
    (handled : Handled σ β) : Prop where
  result_eq : handled.result = .error error
  session_eq : handled.session = s
  driver_eq : handled.driver = (Driver.preflight driver).1
  board_eq : handled.board = board

/-- A line that is run: what is left is what the run of its program leaves. -/
structure Ran (s : Session) (p : Program) (driver : σ) (board : β) (handled : Handled σ β) :
    Prop where
  result_eq : handled.result = .ok
    { program := p
      trace := (p.run s.settings.capacity (s.bench driver board)).trace
      text := Report.render s.settings
        (p.run s.settings.capacity (s.bench driver board)).trace.entries.toList }
  session_eq : handled.session =
    { s with
      pins := (p.run s.settings.capacity (s.bench driver board)).bench.pins
      tally := (p.run s.settings.capacity (s.bench driver board)).bench.tally }
  driver_eq : handled.driver =
    Driver.waitDone (p.run s.settings.capacity (s.bench driver board)).bench.driver
  board_eq : handled.board = (p.run s.settings.capacity (s.bench driver board)).bench.board

theorem ran_of_compile {s : Session} {line : Cursor} {p : Program} (driver : σ) (board : β)
    (compiled : (line.compile s.settings s.pins.role).1.result = .ok p) (nonempty : p ≠ []) :
    s.Ran p driver board (s.run line driver board) := by
  obtain ⟨i, rest, rfl⟩ := List.exists_cons_of_ne_nil nonempty
  rw [run]
  simp only [compiled]
  exact ⟨rfl, rfl, rfl, rfl⟩

/-- What becomes of a line is decided by what it compiles to. -/
theorem refused_or_ran (s : Session) (line : Cursor) (driver : σ) (board : β) :
    (∃ reason, (line.compile s.settings s.pins.role).1.result = .error reason ∧
      s.Refused driver board (.rejected reason) (s.run line driver board)) ∨
    ((line.compile s.settings s.pins.role).1.result = .ok [] ∧
      s.Refused driver board .nothingToDo (s.run line driver board)) ∨
    ∃ p, p ≠ [] ∧ (line.compile s.settings s.pins.role).1.result = .ok p ∧
      s.Ran p driver board (s.run line driver board) := by
  cases compiled : (line.compile s.settings s.pins.role).1.result with
  | error reason =>
    refine .inl ⟨reason, rfl, ?_⟩
    rw [run]
    simp only [compiled]
    exact ⟨rfl, rfl, rfl, rfl⟩
  | ok p =>
    by_cases empty : p = []
    · subst empty
      refine .inr (.inl ⟨rfl, ?_⟩)
      rw [run]
      simp only [compiled]
      exact ⟨rfl, rfl, rfl, rfl⟩
    · exact .inr (.inr ⟨p, empty, rfl, ran_of_compile driver board compiled empty⟩)

/-- Lines that compile to the same have the same output and leave the same. -/
theorem run_congr {s : Session} {line other : Cursor}
    (same : (line.compile s.settings s.pins.role).1.result =
      (other.compile s.settings s.pins.role).1.result) (driver : σ) (board : β) :
    (s.run line driver board).result = (s.run other driver board).result ∧
      (s.run line driver board).session = (s.run other driver board).session ∧
      (s.run line driver board).driver = (s.run other driver board).driver ∧
      (s.run line driver board).board = (s.run other driver board).board := by
  rw [run, run]
  simp only [same]
  split <;> exact ⟨rfl, rfl, rfl, rfl⟩

/-- A line is turned down or run, whatever it is turned down for. -/
theorem exists_refused_or_ran (s : Session) (line : Cursor) (driver : σ) (board : β) :
    (∃ error, s.Refused driver board error (s.run line driver board)) ∨
    ∃ p, (line.compile s.settings s.pins.role).1.result = .ok p ∧
      s.Ran p driver board (s.run line driver board) := by
  rcases s.refused_or_ran line driver board with
    ⟨reason, -, refused⟩ | ⟨-, refused⟩ | ⟨p, -, compiled, ran⟩
  · exact .inl ⟨_, refused⟩
  · exact .inl ⟨_, refused⟩
  · exact .inr ⟨p, compiled, ran⟩

end BusScript.Session
