import BusScript.Proofs.Execution.Splitting
import BusScript.Proofs.Session

/-!
# Lines one after the other

A station is a session with the bus and the board that its lines are run on. Each line finds what
the line before it left. On the buses that need no hardware a line that is turned down leaves
everything as it was, so that the other lines are handled as if it had never been there.
-/

namespace BusScript

/-- A session with the bus and the board that its lines are run on. -/
structure Station (σ β : Type) where
  session : Session
  driver : σ
  board : β

namespace Handled

variable {σ β : Type}

/-- Whether a line has an output. -/
def isAccepted (handled : Handled σ β) : Bool :=
  handled.result.isOk

/-- The station that a line leaves. -/
def station (handled : Handled σ β) : Station σ β where
  session := handled.session
  driver := handled.driver
  board := handled.board

/-- The entries of the trace of a line, if there is one. -/
def entries (handled : Handled σ β) : List Instruction :=
  match handled.result with
  | .ok out => out.trace.entries.toList
  | .error _ => []

theorem exists_output_of_mem_entries {handled : Handled σ β} {entry : Instruction}
    (member : entry ∈ handled.entries) :
    ∃ out, handled.result = .ok out ∧ out.trace.entries.toList = handled.entries := by
  rw [entries] at member ⊢
  cases result_eq : handled.result with
  | error error =>
    rw [result_eq] at member
    contradiction
  | ok out => exact ⟨out, rfl, rfl⟩

end Handled

namespace Station

variable {σ β : Type} [Driver σ] [Board β]

/-- Handles a line. -/
def submit (line : Cursor) (st : Station σ β) : Handled σ β :=
  st.session.run line st.driver st.board

/-- Handles lines one after the other. -/
def submitAll : List Cursor → Station σ β → List (Handled σ β)
  | [], _ => []
  | line :: later, st => st.submit line :: (st.submit line).station.submitAll later

/-- The station behind lines that are handled one after the other. -/
def after (lines : List Cursor) (st : Station σ β) : Station σ β :=
  lines.foldl (fun st line => (st.submit line).station) st

/-- The lines that are not turned down when lines are handled one after the other. -/
def acceptedLines (lines : List Cursor) (st : Station σ β) : List Cursor :=
  ((lines.zip (st.submitAll lines)).filter fun x => x.2.isAccepted).map Prod.fst

theorem submitAll_cons (line : Cursor) (later : List Cursor) (st : Station σ β) :
    st.submitAll (line :: later) =
      st.submit line :: (st.submit line).station.submitAll later := rfl

theorem length_submitAll (lines : List Cursor) (st : Station σ β) :
    (st.submitAll lines).length = lines.length := by
  induction lines generalizing st with
  | nil => rfl
  | cons line later induction => rw [submitAll_cons, List.length_cons, induction, List.length_cons]

theorem after_cons (line : Cursor) (later : List Cursor) (st : Station σ β) :
    st.after (line :: later) = (st.submit line).station.after later := rfl

theorem acceptedLines_cons (line : Cursor) (later : List Cursor) (st : Station σ β) :
    st.acceptedLines (line :: later) =
      if (st.submit line).isAccepted then
        line :: (st.submit line).station.acceptedLines later
      else (st.submit line).station.acceptedLines later := by
  rw [acceptedLines, submitAll_cons, List.zip_cons_cons, List.filter_cons]
  split <;> rfl

/-- A line is turned down or run, as its session does. -/
theorem refused_or_ran (line : Cursor) (st : Station σ β) :
    (∃ error, (st.submit line).isAccepted = false ∧
      st.session.Refused st.driver st.board error (st.submit line)) ∨
    ∃ p, (st.submit line).isAccepted = true ∧
      (line.compile st.session.settings st.session.pins.role).1.result = .ok p ∧
      st.session.Ran p st.driver st.board (st.submit line) := by
  rcases st.session.exists_refused_or_ran line st.driver st.board with
    ⟨error, refused⟩ | ⟨p, compiled, ran⟩
  · refine .inl ⟨error, ?_, refused⟩
    rw [Handled.isAccepted, submit, refused.result_eq]
    rfl
  · refine .inr ⟨p, ?_, compiled, ran⟩
    rw [Handled.isAccepted, submit, ran.result_eq]
    rfl

/-- No line changes the settings. -/
theorem settings_submit (line : Cursor) (st : Station σ β) :
    (st.submit line).session.settings = st.session.settings := by
  rcases refused_or_ran line st with ⟨error, -, refused⟩ | ⟨p, -, -, ran⟩
  · rw [refused.session_eq]
  · rw [ran.session_eq]

/-- The output of a line is the report on its entries. -/
theorem text_submit {line : Cursor} {st : Station σ β} {out : Output}
    (ran : (st.submit line).result = .ok out) :
    out.text = Report.render st.session.settings (st.submit line).entries := by
  rcases refused_or_ran line st with ⟨error, -, refused⟩ | ⟨p, -, -, done⟩
  · rw [refused.result_eq] at ran
    contradiction
  · rw [done.result_eq] at ran
    rw [Handled.entries, done.result_eq, ← Except.ok.inj ran]

/-- What every line keeps of a station and the entries so far holds wherever one is handled. -/
theorem exists_submit_of_invariant {Holds : List Instruction → Station σ β → Prop}
    (kept : ∀ before st line, Holds before st →
      Holds (before ++ (Station.submit line st).entries) (Station.submit line st).station)
    {before : List Instruction} {st : Station σ β} (start : Holds before st) {lines : List Cursor}
    {earlier later : List (Handled σ β)} {handled : Handled σ β}
    (split : st.submitAll lines = earlier ++ handled :: later) :
    ∃ line found, handled = submit line found ∧
      Holds (before ++ earlier.flatMap Handled.entries) found := by
  induction lines generalizing before st earlier with
  | nil =>
    rw [submitAll] at split
    simp at split
  | cons line rest induction =>
    rw [submitAll_cons] at split
    cases earlier with
    | nil =>
      obtain ⟨handled_eq, -⟩ := List.cons.inj split
      refine ⟨line, st, handled_eq.symm, ?_⟩
      rwa [List.flatMap_nil, List.append_nil]
    | cons first earlier =>
      obtain ⟨first_eq, split⟩ := List.cons.inj split
      obtain ⟨line, found, handled_eq, holds⟩ := induction (kept before st _ start) split
      refine ⟨line, found, handled_eq, ?_⟩
      rwa [List.flatMap_cons, ← List.append_assoc, ← first_eq]

/-- A line that is turned down leaves a station with a bus that needs no hardware as it was. -/
theorem station_submit_of_refused {line : Cursor} {st : Station SimulatedBus β}
    (not_accepted : (st.submit line).isAccepted = false) : (st.submit line).station = st := by
  rcases refused_or_ran line st with ⟨error, -, refused⟩ | ⟨p, accepted, -, -⟩
  · rw [Handled.station, refused.session_eq, refused.driver_eq, refused.board_eq,
      SimulatedBus.preflight_fst]
  · rw [accepted] at not_accepted
    contradiction

/-- Lines that are turned down cannot be told from lines that were never there. -/
theorem submitAll_acceptedLines (st : Station SimulatedBus β) (lines : List Cursor) :
    st.submitAll (st.acceptedLines lines) = (st.submitAll lines).filter Handled.isAccepted ∧
      st.after (st.acceptedLines lines) = st.after lines := by
  induction lines generalizing st with
  | nil => exact ⟨rfl, rfl⟩
  | cons line later induction =>
    obtain ⟨handled_eq, after_eq⟩ := induction (st.submit line).station
    rw [acceptedLines_cons, submitAll_cons, after_cons]
    cases accepted : (st.submit line).isAccepted with
    | true =>
      rw [if_pos rfl, List.filter_cons_of_pos accepted, submitAll_cons, after_cons, handled_eq,
        after_eq]
      exact ⟨rfl, rfl⟩
    | false =>
      -- The later lines start from the station in front of the line, as they do without it.
      rw [station_submit_of_refused accepted] at handled_eq after_eq ⊢
      rw [if_neg (by simp), List.filter_cons_of_neg (by simp [accepted])]
      exact ⟨handled_eq, after_eq⟩

end Station

end BusScript
