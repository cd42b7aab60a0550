import BusScript.Proofs.Bus.Projection
import BusScript.Proofs.Execution.Invariant

/-!
# Hooks around lines

A bus is prepared before a line is compiled and told that the line is done after it has run. Where
no line is turned down, the two hooks alternate and every use of the bus is between them. A line
that is turned down is prepared for and never done, so the bus is prepared again for the next line
without having been told that anything was done.
-/

namespace BusScript

/-- One thing that a bus is asked for. -/
inductive Contact where
  | preflight
  | call (call : Call)
  | waitDone
deriving DecidableEq, Repr

namespace Contact

/-- The hooks alternate, the first of them a preparation and the last an end, and every use of the
bus is behind a preparation and in front of its end. -/
inductive Wrapped : List Contact → Prop
  | nil : Wrapped []
  | round (calls : List Call) {later : List Contact} (wrapped : Wrapped later) :
      Wrapped (preflight :: (calls.map call ++ waitDone :: later))

/-- What a bus is asked for over a line, which may be turned down or accepted. -/
inductive Round : Bool → List Contact → Prop
  | refused : Round false [preflight]
  | accepted (calls : List Call) : Round true (preflight :: (calls.map call ++ [waitDone]))

theorem count_map_call {hook : Contact} (no_call : ∀ c, call c ≠ hook) (calls : List Call) :
    (calls.map call).count hook = 0 := by
  rw [List.count_eq_zero, List.mem_map]
  rintro ⟨c, -, same⟩
  exact no_call c same

theorem count_call_waitDone (calls : List Call) (later : List Contact) :
    (preflight :: (calls.map call ++ waitDone :: later)).count preflight =
        later.count preflight + 1 ∧
      (preflight :: (calls.map call ++ waitDone :: later)).count waitDone =
        later.count waitDone + 1 := by
  have no_preflight : (calls.map call).count preflight = 0 := count_map_call (by simp) calls
  have no_waitDone : (calls.map call).count waitDone = 0 := count_map_call (by simp) calls
  simp [List.count_append, no_preflight, no_waitDone]

theorem Wrapped.count_eq {contacts : List Contact} (wrapped : Wrapped contacts) :
    contacts.count preflight = contacts.count waitDone := by
  induction wrapped with
  | nil => rfl
  | round calls _ induction =>
    rw [(count_call_waitDone calls _).1, (count_call_waitDone calls _).2, induction]

/-! ### Rounds one after the other -/

variable {accepted : List Bool} {rounds : List (List Contact)}

theorem count_flatten (are_rounds : List.Forall₂ Round accepted rounds) :
    rounds.flatten.count preflight = accepted.length ∧
      rounds.flatten.count waitDone = accepted.count true := by
  induction are_rounds with
  | nil => exact ⟨rfl, rfl⟩
  | cons first _ induction =>
    obtain ⟨preflight_eq, waitDone_eq⟩ := induction
    rw [List.flatten_cons, List.length_cons, List.count_cons, ← preflight_eq, ← waitDone_eq]
    cases first with
    | refused => exact ⟨List.count_cons_self, List.count_cons_of_ne (by simp)⟩
    | accepted calls =>
      rw [List.cons_append, List.append_assoc, List.singleton_append]
      exact count_call_waitDone calls _

/-- Rounds have their hooks in pairs exactly if all are rounds of lines that are accepted. -/
theorem wrapped_flatten_iff (are_rounds : List.Forall₂ Round accepted rounds) :
    Wrapped rounds.flatten ↔ ∀ each ∈ accepted, each = true := by
  constructor
  · intro wrapped
    -- There is a preparation for every line and an end for every line that is accepted.
    obtain ⟨preflight_eq, waitDone_eq⟩ := count_flatten are_rounds
    have all_counted : accepted.count true = accepted.length := by
      rw [← waitDone_eq, ← preflight_eq, wrapped.count_eq]
    exact fun each member => ((List.count_eq_length.mp all_counted) each member).symm
  · intro all_accepted
    induction are_rounds with
    | nil => exact .nil
    | cons first _ induction =>
      obtain ⟨first_accepted, later_accepted⟩ := List.forall_mem_cons.mp all_accepted
      cases first with
      | refused => contradiction
      | accepted calls =>
        rw [List.flatten_cons, List.cons_append, List.append_assoc, List.singleton_append]
        exact .round calls (induction later_accepted)

end Contact

/-! ### Watching a bus -/

/-- A bus and all that it was asked for so far. -/
structure Watched (σ : Type) where
  bus : σ
  contacts : List Contact := []

variable {σ β : Type} [Driver σ]

/-- A watched bus does what the bus does, and what it is asked for is noted. -/
instance : Driver (Watched σ) where
  name w := Driver.name w.bus
  preflight w :=
    let (bus, events) := Driver.preflight w.bus
    ({ bus := bus, contacts := w.contacts ++ [.preflight] }, events)
  waitDone w := { bus := Driver.waitDone w.bus, contacts := w.contacts ++ [.waitDone] }
  perform capability next entry w :=
    let (returned, bus) := Driver.perform capability next entry w.bus
    let call : Call :=
      { request := { capability := capability, next := next }
        given := entry
        returned := returned }
    (returned, { bus := bus, contacts := w.contacts ++ [.call call] })

/-- Watching a bus changes nothing. -/
theorem Watched.projects : Driver.Projects (Watched.bus : Watched σ → σ) where
  name_eq _ := rfl
  preflight_eq _ := rfl
  waitDone_eq _ := rfl
  perform_eq _ _ _ _ := rfl

variable [Board β]

/-- A run notes nothing but uses of the bus. -/
theorem Watched.contacts_run (capacity : Nat) (p : Program) (bench : Bench (Watched σ) β) :
    ∃ calls : List Call, (p.run capacity bench).bench.driver.contacts =
      bench.driver.contacts ++ calls.map .call := by
  let Noted (w : Watched σ) : Prop :=
    ∃ calls : List Call, w.contacts = bench.driver.contacts ++ calls.map .call
  have kept (capability : Capability) (next : Option Instruction) (entry : Instruction)
      (w : Watched σ) (noted : Noted w) : Noted (Driver.perform capability next entry w).2 := by
    obtain ⟨calls, contacts_eq⟩ := noted
    let last : Call :=
      { request := { capability := capability, next := next }
        given := entry
        returned := (Driver.perform capability next entry w.bus).1 }
    refine ⟨calls ++ [last], ?_⟩
    rw [List.map_append, ← List.append_assoc, ← contacts_eq]
    rfl
  refine Program.bench_run_of_dispatch (fun after => Noted after.driver) capacity ?_ ⟨[], by simp⟩
  intro i _ next before noted
  exact before.driver_dispatch_of_perform kept next i noted

namespace Station

/-- The station with its bus watched. -/
def watched (st : Station σ β) : Station (Watched σ) β where
  session := st.session
  driver := { bus := st.driver }
  board := st.board

/-- One line: the bus is asked for a round. -/
theorem exists_round_of_submit (line : Cursor) (st : Station (Watched σ) β) :
    ∃ round, Contact.Round (st.submit line).isAccepted round ∧
      (st.submit line).driver.contacts = st.driver.contacts ++ round := by
  rcases refused_or_ran line st with ⟨error, not_accepted, refused⟩ | ⟨p, accepted, -, ran⟩
  · rw [not_accepted, refused.driver_eq]
    exact ⟨_, .refused, rfl⟩
  · obtain ⟨calls, contacts_eq⟩ := Watched.contacts_run st.session.settings.capacity p
      (st.session.bench st.driver st.board)
    rw [accepted, ran.driver_eq]
    refine ⟨_, .accepted calls, ?_⟩
    show _ ++ [Contact.waitDone] = _
    rw [contacts_eq]
    simp [Session.bench, Driver.preflight]

/-- Lines one after the other: the bus is asked for a round for each of them. -/
theorem exists_rounds_of_submitAll (lines : List Cursor) (st : Station (Watched σ) β) :
    ∃ rounds,
      List.Forall₂ Contact.Round ((st.submitAll lines).map Handled.isAccepted) rounds ∧
      (st.after lines).driver.contacts = st.driver.contacts ++ rounds.flatten := by
  induction lines generalizing st with
  | nil => exact ⟨[], .nil, (List.append_nil _).symm⟩
  | cons line later induction =>
    obtain ⟨round, is_round, contacts_eq⟩ := exists_round_of_submit line st
    obtain ⟨rounds, are_rounds, after_eq⟩ := induction (st.submit line).station
    refine ⟨round :: rounds, .cons is_round are_rounds, ?_⟩
    rw [after_cons, after_eq, List.flatten_cons, ← List.append_assoc, ← contacts_eq]
    rfl

/-- Hooks are called around the lines that are accepted, and alternate exactly if no line is turned
down: for such a line there is a preparation alone. -/
theorem wrapped_iff_accepted (st : Station σ β) (lines : List Cursor) :
    let contacts := (st.watched.after lines).driver.contacts
    let accepted := (st.submitAll lines).map Handled.isAccepted
    (st.watched.submitAll lines).map (Handled.project Watched.bus) = st.submitAll lines ∧
      (st.watched.after lines).project Watched.bus = st.after lines ∧
      (∃ rounds, List.Forall₂ Contact.Round accepted rounds ∧ contacts = rounds.flatten) ∧
      contacts.count .preflight = lines.length ∧
      contacts.count .waitDone = accepted.count true ∧
      (Contact.Wrapped contacts ↔ ∀ each ∈ accepted, each = true) := by
  intro contacts accepted
  obtain ⟨handled_eq, after_eq⟩ := Watched.projects.submitAll lines st.watched
  obtain ⟨rounds, are_rounds, contacts_eq⟩ := exists_rounds_of_submitAll lines st.watched
  have accepted_eq : (st.watched.submitAll lines).map Handled.isAccepted = accepted := by
    rw [show accepted = ((st.watched.project Watched.bus).submitAll lines).map Handled.isAccepted
      from rfl, handled_eq, List.map_map]
    rfl
  have length_eq : accepted.length = lines.length := by
    rw [List.length_map, length_submitAll]
  rw [accepted_eq] at are_rounds
  rw [show st.watched.driver.contacts = [] from rfl, List.nil_append] at contacts_eq
  obtain ⟨preflight_eq, waitDone_eq⟩ := Contact.count_flatten are_rounds
  refine ⟨handled_eq.symm, after_eq.symm, ⟨rounds, are_rounds, contacts_eq⟩, ?_, ?_, ?_⟩
  · rw [← length_eq, ← preflight_eq, ← contacts_eq]
  · rw [← waitDone_eq, ← contacts_eq]
  · rw [← Contact.wrapped_flatten_iff are_rounds, ← contacts_eq]

/-- Behind a line that is turned down, the bus was prepared and not told of any end. -/
theorem not_wrapped_behind_unknown_symbol :
    ¬ ∀ (σ β : Type) [Driver σ] [Board β] (st : Station σ β) (lines : List Cursor),
      Contact.Wrapped (st.watched.after lines).driver.contacts := by
  intro documented
  let s : Session :=
    { settings := {}, valid := Settings.fault?_eq_none_iff.mp rfl, pins := .free 8, tally := ∅ }
  let st : Station HighZ SimulatedBoard := { session := s, driver := {}, board := .ofCount 8 }
  have wrapped := documented HighZ SimulatedBoard st [.ofString "q"]
  have contacts_eq : (st.watched.after [.ofString "q"]).driver.contacts = [.preflight] := by
    rcases refused_or_ran (.ofString "q") st.watched with ⟨error, -, refused⟩ | ⟨p, -, compiled, -⟩
    · exact congrArg Watched.contacts refused.driver_eq
    · have unknown_symbol (role : Nat → PinRole) :
          ((Cursor.ofString "q").compile {} role).1.result = .error (.unknownSymbol 'q' 1) := by
        cbv
      rw [show st.watched.session.settings = {} from rfl, unknown_symbol] at compiled
      contradiction
  rw [contacts_eq] at wrapped
  have paired := wrapped.count_eq
  simp at paired

end Station

end BusScript
