import BusScript.Proofs.Execution.Invariant
import BusScript.Proofs.Script.Acceptance
import BusScript.Proofs.Session

/-!
# Owners of pins

A script is checked against the owners of the pins before it runs, and changes pins while it runs.
No owner changes on the way, so what is checked stays true: a line changes nothing about a pin that
belongs to something else, and nothing about a pin that scripts cannot name.
-/

namespace BusScript

/-- Nobody comes to own a pin if the pin that an entry claims is free, on any board. -/
theorem Bench.role_dispatch {σ β : Type} [Driver σ] [Board β] {bench : Bench σ β}
    {entry : Instruction} (free : entry.op.claimsPin = true → bench.pins.role entry.pin = .io)
    (next : Option Instruction) (pin : Nat) :
    (bench.dispatch next entry).bench.pins.role pin = bench.pins.role pin := by
  have driven (level : Bool) (owner_io : bench.pins.role entry.pin = .io) :
      (bench.drive level entry).bench.pins.role pin = bench.pins.role pin := by
    rw [drive, PinRegistry.role_setDriven, PinRegistry.role_claim, ite_eq_right_iff]
    rintro ⟨rfl, -⟩
    exact owner_io.symm
  have sensed (owner_io : bench.pins.role entry.pin = .io) :
      (bench.sense entry).bench.pins.role pin = bench.pins.role pin := by
    rw [sense, PinRegistry.role_setDriven, PinRegistry.role_release, ite_eq_right_iff]
    rintro rfl
    exact owner_io.symm
  rw [dispatch, execute]
  cases op_eq : entry.op with
  | outputHigh => exact driven true (free (by rw [op_eq]; rfl))
  | outputLow => exact driven false (free (by rw [op_eq]; rfl))
  | input => exact sensed (free (by rw [op_eq]; rfl))
  | _ => rfl

namespace Bench

variable {σ : Type} [Driver σ]

/-- What carrying an entry out does to the pins: nothing, or the one pin that the entry claims is
driven to a level, or is turned back into an input. -/
inductive PinEffect (entry : Instruction) (before after : Bench σ SimulatedBoard) : Prop
  | nothing (pins_eq : after.pins = before.pins) (board_eq : after.board.pins = before.board.pins)
  | driven (claims : entry.op.claimsPin = true) (level : Bool)
      (pins_eq : after.pins =
        (before.pins.claim entry.pin .io (outputLabel level)).setDriven entry.pin true)
      (board_eq : after.board = (before.board.setDirection entry.pin true).setLevel entry.pin level)
  | sensed (claims : entry.op.claimsPin = true)
      (pins_eq : after.pins = (before.pins.release entry.pin).setDriven entry.pin false)
      (board_eq : after.board = before.board.setDirection entry.pin false)

theorem pinEffect_dispatch (next : Option Instruction) (entry : Instruction)
    (bench : Bench σ SimulatedBoard) : PinEffect entry bench (bench.dispatch next entry).bench := by
  rw [dispatch, execute]
  cases op_eq : entry.op with
  | outputHigh => exact .driven (by rw [op_eq]; rfl) true rfl rfl
  | outputLow => exact .driven (by rw [op_eq]; rfl) false rfl rfl
  | input => exact .sensed (by rw [op_eq]; rfl) rfl rfl
  | _ => exact .nothing rfl rfl

end Bench

/-- What is the same about a pin: its use and its label, whether scripts drive it, and its
direction, level and reading on the board. -/
structure PinUnchanged (pin : Nat) (pins after : PinRegistry) (board boardAfter : SimulatedBoard) :
    Prop where
  entry_eq : after.pins[pin]? = pins.pins[pin]?
  isDriven_eq : after.isDriven pin = pins.isDriven pin
  board_eq : boardAfter.pins[pin]? = board.pins[pin]?

namespace PinUnchanged

variable {pin : Nat} {pins middle after : PinRegistry}
  {board boardMiddle boardAfter : SimulatedBoard}

theorem of_eq (pin : Nat) (pins_eq : after = pins) (board_eq : boardAfter.pins = board.pins) :
    PinUnchanged pin pins after board boardAfter :=
  ⟨by rw [pins_eq], by rw [pins_eq], by rw [board_eq]⟩

theorem trans (first : PinUnchanged pin pins middle board boardMiddle)
    (second : PinUnchanged pin middle after boardMiddle boardAfter) :
    PinUnchanged pin pins after board boardAfter where
  entry_eq := second.entry_eq.trans first.entry_eq
  isDriven_eq := second.isDriven_eq.trans first.isDriven_eq
  board_eq := second.board_eq.trans first.board_eq

theorem role_eq (unchanged : PinUnchanged pin pins after board boardAfter) :
    after.role pin = pins.role pin := by
  rw [PinRegistry.role, unchanged.entry_eq, PinRegistry.role]

theorem label?_eq (unchanged : PinUnchanged pin pins after board boardAfter) :
    after.label? pin = pins.label? pin := by
  rw [PinRegistry.label?, unchanged.entry_eq, PinRegistry.label?]

theorem isOutput_eq (unchanged : PinUnchanged pin pins after board boardAfter) :
    boardAfter.isOutput pin = board.isOutput pin := by
  rw [SimulatedBoard.isOutput, unchanged.board_eq, SimulatedBoard.isOutput]

theorem level_eq (unchanged : PinUnchanged pin pins after board boardAfter) :
    boardAfter.level pin = board.level pin := by
  rw [SimulatedBoard.level, unchanged.board_eq, SimulatedBoard.level]

end PinUnchanged

namespace Bench.PinEffect

variable {σ : Type} {entry : Instruction} {before after : Bench σ SimulatedBoard}

theorem unchanged (effect : PinEffect entry before after) {pin : Nat}
    (apart : entry.op.claimsPin = true → entry.pin ≠ pin) :
    PinUnchanged pin before.pins after.pins before.board after.board := by
  cases effect with
  | nothing pins_eq board_eq => exact .of_eq pin pins_eq board_eq
  | driven claims level pins_eq board_eq =>
    have other := apart claims
    refine ⟨?_, ?_, ?_⟩
    · rw [pins_eq, PinRegistry.pins_setDriven, PinRegistry.claim, Array.getElem?_modify,
        if_neg other]
    · rw [pins_eq, PinRegistry.isDriven_setDriven, if_neg (by omega), PinRegistry.isDriven_claim]
    · rw [board_eq, SimulatedBoard.setLevel, Array.getElem?_modify, if_neg other,
        SimulatedBoard.setDirection, Array.getElem?_modify, if_neg other]
  | sensed claims pins_eq board_eq =>
    have other := apart claims
    refine ⟨?_, ?_, ?_⟩
    · rw [pins_eq, PinRegistry.pins_setDriven, PinRegistry.release, Array.getElem?_modify,
        if_neg other]
    · rw [pins_eq, PinRegistry.isDriven_setDriven, if_neg (by omega), PinRegistry.isDriven_release]
    · rw [board_eq, SimulatedBoard.setDirection, Array.getElem?_modify, if_neg other]

end Bench.PinEffect

/-- A program that uses only pins that scripts can name, and claims only such as are free. -/
structure Program.Permitted (settings : Settings) (role : Nat → PinRole) (p : Program) : Prop where
  pin_lt : ∀ i ∈ p, i.op.usesPin = true → i.pin < settings.pins
  free : ∀ i ∈ p, i.op.claimsPin = true → role i.pin = .io

theorem Token.permitted_denote {settings : Settings} {role : Nat → PinRole} {t : Token}
    (fits : t.Fits settings) (free : t.PinFree role) :
    (t.denote settings).Permitted settings role := by
  cases t with
  | value l attributes =>
    constructor
    · intro i member uses
      obtain rfl := List.mem_singleton.mp member
      contradiction
    · intro i member claims
      obtain rfl := List.mem_singleton.mp member
      contradiction
  | command symbol op attributes =>
    have named : op.usesPin = true → ∃ pin, attributes.bits = some pin ∧ pin < settings.pins := by
      intro uses
      have fit := Attributes.Fit.bits_fit fits
      rwa [Attributes.BitsFit, if_pos uses] at fit
    constructor
    · intro i member (uses : i.op.usesPin = true)
      obtain rfl := List.mem_singleton.mp member
      obtain ⟨pin, bits_eq, pin_lt⟩ := named uses
      simpa [uses, bits_eq] using pin_lt
    · intro i member (claims : i.op.claimsPin = true)
      obtain rfl := List.mem_singleton.mp member
      have uses := Operation.usesPin_of_claimsPin claims
      obtain ⟨pin, bits_eq, -⟩ := named uses
      simpa [uses, bits_eq] using free claims pin bits_eq
  | text chars =>
    constructor
    · intro i member uses
      obtain ⟨byte, -, rfl⟩ := List.mem_map.mp member
      contradiction
    · intro i member claims
      obtain ⟨byte, -, rfl⟩ := List.mem_map.mp member
      contradiction

/-- What compiles is permitted. -/
theorem Cursor.permitted_of_compile {settings : Settings} {role : Nat → PinRole} {line : Cursor}
    {p : Program} (compiled : (line.compile settings role).1.result = .ok p) :
    p.Permitted settings role := by
  constructor
  · intro i member
    obtain ⟨t, fits, free, denoted⟩ := exists_token_of_mem compiled member
    exact (Token.permitted_denote fits free).pin_lt i denoted
  · intro i member
    obtain ⟨t, fits, free, denoted⟩ := exists_token_of_mem compiled member
    exact (Token.permitted_denote fits free).free i denoted

/-- Every pin has the owner it had, wherever the run of a permitted program stops. -/
theorem Program.Permitted.role_run {σ β : Type} [Driver σ] [Board β] {settings : Settings}
    {p : Program} {bench : Bench σ β} (permitted : p.Permitted settings bench.pins.role)
    (capacity : Nat) : (p.run capacity bench).bench.pins.role = bench.pins.role := by
  refine bench_run_of_dispatch (fun after => after.pins.role = bench.pins.role) capacity ?_ rfl
  intro i member next before roles
  funext pin
  rw [Bench.role_dispatch (fun claims => roles ▸ permitted.free i member claims), roles]

/-- What a program that is permitted leaves behind, wherever its run stops: every pin has the owner
it had, and pins that are owned or cannot be named are as they were. -/
theorem Program.Permitted.run {σ : Type} [Driver σ] {settings : Settings} {p : Program}
    (bench : Bench σ SimulatedBoard) (permitted : p.Permitted settings bench.pins.role)
    (capacity : Nat) :
    (∀ pin, (p.run capacity bench).bench.pins.role pin = bench.pins.role pin) ∧
      ∀ pin, bench.pins.role pin ≠ .io ∨ settings.pins ≤ pin →
        PinUnchanged pin bench.pins (p.run capacity bench).bench.pins bench.board
          (p.run capacity bench).bench.board := by
  refine bench_run_of_dispatch (fun after =>
    (∀ pin, after.pins.role pin = bench.pins.role pin) ∧
      ∀ pin, bench.pins.role pin ≠ .io ∨ settings.pins ≤ pin →
        PinUnchanged pin bench.pins after.pins bench.board after.board)
    capacity ?_ ⟨fun _ => rfl, fun pin _ => .of_eq pin rfl rfl⟩
  rintro i member next before ⟨roles, unchanged⟩
  have effect := before.pinEffect_dispatch next i
  constructor
  · intro pin
    rw [Bench.role_dispatch (fun claims => (roles i.pin).trans (permitted.free i member claims)),
      roles pin]
  · intro pin foreign
    refine (unchanged pin foreign).trans (effect.unchanged ?_)
    -- The entry claims a pin that is free and can be named, so it is another one.
    rintro claims rfl
    rcases foreign with owned | beyond
    · exact owned (permitted.free i member claims)
    · exact absurd (permitted.pin_lt i member (Operation.usesPin_of_claimsPin claims))
        beyond.not_gt

/-- A line changes nothing about a pin that is in use for something else, and nothing about a pin
that scripts cannot name; and every pin is in use for what it was. -/
theorem Session.run_respects_owners {σ : Type} [Driver σ] (s : Session) (line : Cursor) (driver : σ)
    (board : SimulatedBoard) :
    let handled := s.run line driver board
    (∀ pin, s.pins.role pin ≠ .io →
      handled.session.pins.role pin = s.pins.role pin ∧
        handled.session.pins.label? pin = s.pins.label? pin ∧
        handled.session.pins.isDriven pin = s.pins.isDriven pin ∧
        handled.board.isOutput pin = board.isOutput pin ∧
        handled.board.level pin = board.level pin) ∧
      (∀ pin, handled.session.pins.role pin = s.pins.role pin) ∧
      ∀ pin, s.settings.pins ≤ pin →
        PinUnchanged pin s.pins handled.session.pins board handled.board := by
  intro handled
  have kept : (∀ pin, handled.session.pins.role pin = s.pins.role pin) ∧
      ∀ pin, s.pins.role pin ≠ .io ∨ s.settings.pins ≤ pin →
        PinUnchanged pin s.pins handled.session.pins board handled.board := by
    rcases s.refused_or_ran line driver board with
      ⟨reason, -, refused⟩ | ⟨-, refused⟩ | ⟨p, -, compiled, ran⟩
    · rw [refused.session_eq, refused.board_eq]
      exact ⟨fun _ => rfl, fun pin _ => .of_eq pin rfl rfl⟩
    · rw [refused.session_eq, refused.board_eq]
      exact ⟨fun _ => rfl, fun pin _ => .of_eq pin rfl rfl⟩
    · rw [ran.session_eq, ran.board_eq]
      exact Program.Permitted.run (s.bench driver board) (Cursor.permitted_of_compile compiled)
        s.settings.capacity
  refine ⟨fun pin owned => ?_, kept.1, fun pin beyond => kept.2 pin (.inr beyond)⟩
  have unchanged := kept.2 pin (.inl owned)
  exact ⟨unchanged.role_eq, unchanged.label?_eq, unchanged.isDriven_eq, unchanged.isOutput_eq,
    unchanged.level_eq⟩

end BusScript
