import BusScript.Bus.Dummy
import BusScript.Proofs.Pin.Ownership
import BusScript.Proofs.Script.Refusal

/-!
# Records of driven pins

That a script drives a pin is recorded three times: in the register of driven pins, in the label of
the pin, and in its direction on the board. Where only scripts touch the pins, the records always
agree, the label tells the level, and no pin is ever in use for anything else.
-/

namespace BusScript

/-- The records of a pin agree: it is free for scripts, and it is an output and has a label, which
tells its level, where scripts drive it and only there. -/
structure PinAgrees (pin : Nat) (pins : PinRegistry) (board : SimulatedBoard) : Prop where
  role_eq : pins.role pin = .io
  isOutput_eq : board.isOutput pin = pins.isDriven pin
  label?_eq : pins.label? pin =
    if pins.isDriven pin then some (Bench.outputLabel (board.level pin)) else none

/-- The records of all pins agree, and scripts drive only pins that they can name. -/
structure PinsAgree (count : Nat) (pins : PinRegistry) (board : SimulatedBoard) : Prop where
  size_eq : pins.pins.size = count
  count_le : count ≤ board.pins.size
  agrees : ∀ pin, PinAgrees pin pins board
  not_driven : ∀ pin, count ≤ pin → pins.isDriven pin = false

theorem PinAgrees.of_unchanged {pin : Nat} {pins after : PinRegistry}
    {board boardAfter : SimulatedBoard} (agrees : PinAgrees pin pins board)
    (unchanged : PinUnchanged pin pins after board boardAfter) :
    PinAgrees pin after boardAfter where
  role_eq := by rw [unchanged.role_eq, agrees.role_eq]
  isOutput_eq := by rw [unchanged.isOutput_eq, unchanged.isDriven_eq, agrees.isOutput_eq]
  label?_eq := by
    rw [unchanged.label?_eq, unchanged.isDriven_eq, unchanged.level_eq, agrees.label?_eq]

namespace PinsAgree

theorem free {count pins : Nat} (roomy : pins ≤ count) :
    PinsAgree pins (.free pins) (.ofCount count) where
  size_eq := PinRegistry.size_free pins
  count_le := by simpa [SimulatedBoard.ofCount] using roomy
  agrees pin := by
    have not_driven : (PinRegistry.free pins).isDriven pin = false := by
      simp [PinRegistry.free, PinRegistry.isDriven]
    refine ⟨PinRegistry.role_free pins pin, ?_, ?_⟩
    · rw [not_driven, SimulatedBoard.isOutput, SimulatedBoard.ofCount, Array.getElem?_replicate]
      split <;> rfl
    · rw [not_driven, PinRegistry.label?_free]
      rfl
  not_driven pin _ := by simp [PinRegistry.free, PinRegistry.isDriven]

variable {σ : Type} {count : Nat} {entry : Instruction} {before after : Bench σ SimulatedBoard}

/-- The records of a pin agree behind an entry that claims it. -/
theorem agrees_of_claims (agree : PinsAgree count before.pins before.board)
    (effect : before.PinEffect entry after) (pins_le : count ≤ 32) (named : entry.pin < count) :
    PinAgrees entry.pin after.pins after.board := by
  have inside : entry.pin < before.pins.pins.size := agree.size_eq ▸ named
  have on_board : entry.pin < before.board.pins.size := Nat.lt_of_lt_of_le named agree.count_le
  have in_word : entry.pin < 32 := Nat.lt_of_lt_of_le named pins_le
  cases effect with
  | nothing pins_eq board_eq =>
    exact (agree.agrees entry.pin).of_unchanged (.of_eq _ pins_eq board_eq)
  | driven _ level pins_eq board_eq =>
    have driven : after.pins.isDriven entry.pin = true := by
      rw [pins_eq, PinRegistry.isDriven_setDriven, if_pos ⟨rfl, in_word⟩]
    have level_eq : after.board.level entry.pin = level := by
      rw [board_eq, SimulatedBoard.level_setLevel, SimulatedBoard.size_setDirection,
        if_pos ⟨rfl, on_board⟩]
    refine ⟨?_, ?_, ?_⟩
    · rw [pins_eq, PinRegistry.role_setDriven, PinRegistry.role_claim, if_pos ⟨rfl, inside⟩]
    · rw [driven, board_eq, SimulatedBoard.isOutput_setLevel, SimulatedBoard.isOutput_setDirection,
        if_pos ⟨rfl, on_board⟩]
    · rw [driven, level_eq, pins_eq, PinRegistry.label?_setDriven, PinRegistry.label?_claim,
        if_pos ⟨rfl, inside⟩, if_pos rfl]
  | sensed _ pins_eq board_eq =>
    have not_driven : after.pins.isDriven entry.pin = false := by
      rw [pins_eq, PinRegistry.isDriven_setDriven, if_pos ⟨rfl, in_word⟩]
    refine ⟨?_, ?_, ?_⟩
    · rw [pins_eq, PinRegistry.role_setDriven, PinRegistry.role_release, if_pos rfl]
    · rw [not_driven, board_eq, SimulatedBoard.isOutput_setDirection, if_pos ⟨rfl, on_board⟩]
    · rw [not_driven, pins_eq, PinRegistry.label?_setDriven, PinRegistry.label?_release, if_pos rfl]
      rfl

/-- The records agree behind every entry that claims a pin which scripts can name, or none. -/
theorem of_pinEffect (agree : PinsAgree count before.pins before.board)
    (effect : before.PinEffect entry after) (pins_le : count ≤ 32)
    (named : entry.op.claimsPin = true → entry.pin < count) :
    PinsAgree count after.pins after.board := by
  have unchanged {pin : Nat} (apart : entry.op.claimsPin = true → entry.pin ≠ pin) :=
    effect.unchanged apart
  refine ⟨?_, ?_, ?_, ?_⟩
  · rw [← agree.size_eq]
    cases effect with
    | nothing pins_eq _ => rw [pins_eq]
    | driven _ _ pins_eq _ => rw [pins_eq, PinRegistry.pins_setDriven, PinRegistry.size_claim]
    | sensed _ pins_eq _ => rw [pins_eq, PinRegistry.pins_setDriven, PinRegistry.size_release]
  · refine agree.count_le.trans_eq ?_
    cases effect with
    | nothing _ board_eq => rw [board_eq]
    | driven _ _ _ board_eq =>
      rw [board_eq, SimulatedBoard.size_setLevel, SimulatedBoard.size_setDirection]
    | sensed _ _ board_eq => rw [board_eq, SimulatedBoard.size_setDirection]
  · intro pin
    by_cases apart : entry.op.claimsPin = true → entry.pin ≠ pin
    · exact (agree.agrees pin).of_unchanged (unchanged apart)
    · obtain ⟨claims, rfl⟩ : entry.op.claimsPin = true ∧ entry.pin = pin := by
        simpa using apart
      exact agree.agrees_of_claims effect pins_le (named claims)
  · intro pin beyond
    have apart : entry.op.claimsPin = true → entry.pin ≠ pin := fun claims =>
      (Nat.lt_of_lt_of_le (named claims) beyond).ne
    rw [(unchanged apart).isDriven_eq, agree.not_driven pin beyond]

/-- The records agree behind a run of a permitted program, wherever it stops. -/
theorem run [Driver σ] {settings : Settings} {p : Program} (bench : Bench σ SimulatedBoard)
    (agree : PinsAgree settings.pins bench.pins bench.board) (valid : settings.Valid)
    (permitted : p.Permitted settings bench.pins.role) (capacity : Nat) :
    PinsAgree settings.pins (p.run capacity bench).bench.pins
      (p.run capacity bench).bench.board := by
  refine Program.bench_run_of_dispatch
    (fun after => PinsAgree settings.pins after.pins after.board) capacity ?_ agree
  intro i member next before agreed
  refine agreed.of_pinEffect (before.pinEffect_dispatch next i) valid.pins_le fun claims => ?_
  exact permitted.pin_lt i member (Operation.usesPin_of_claimsPin claims)

end PinsAgree

namespace Session

/-- What lines alone make of a session that was just opened and of a fresh board with so many pins.
Each line may be meant for another bus. -/
inductive Scripted (settings : Settings) (count : Nat) : Session → SimulatedBoard → Prop
  | opened {s : Session} (opened : ofSettings settings = .ok s) :
      Scripted settings count s (.ofCount count)
  | line {s : Session} {board : SimulatedBoard} {σ : Type} [Driver σ]
      (before : Scripted settings count s board) (line : Cursor) (driver : σ) :
      Scripted settings count (s.run line driver board).session (s.run line driver board).board

theorem of_ofSettings {settings : Settings} {s : Session} (opened : ofSettings settings = .ok s) :
    s.settings = settings ∧ s.pins = .free settings.pins := by
  rw [ofSettings] at opened
  split at opened
  next => contradiction
  next =>
    cases opened
    exact ⟨rfl, rfl⟩

/-- A line keeps the settings, and the records of the pins agree behind it if they do before. -/
theorem pinsAgree_run {σ : Type} [Driver σ] {s : Session} {board : SimulatedBoard}
    (agree : PinsAgree s.settings.pins s.pins board) (line : Cursor) (driver : σ) :
    (s.run line driver board).session.settings = s.settings ∧
      PinsAgree s.settings.pins (s.run line driver board).session.pins
        (s.run line driver board).board := by
  rcases s.refused_or_ran line driver board with
    ⟨reason, -, refused⟩ | ⟨-, refused⟩ | ⟨p, -, compiled, ran⟩
  · rw [refused.session_eq, refused.board_eq]
    exact ⟨rfl, agree⟩
  · rw [refused.session_eq, refused.board_eq]
    exact ⟨rfl, agree⟩
  · rw [ran.session_eq, ran.board_eq]
    exact ⟨rfl, PinsAgree.run (s.bench driver board) agree s.valid
      (Cursor.permitted_of_compile compiled) s.settings.capacity⟩

namespace Scripted

variable {settings : Settings} {count : Nat} {s : Session} {board : SimulatedBoard}

theorem pinsAgree (roomy : settings.pins ≤ count) (scripted : Scripted settings count s board) :
    s.settings = settings ∧ PinsAgree settings.pins s.pins board := by
  induction scripted with
  | opened opened =>
    obtain ⟨settings_eq, pins_eq⟩ := of_ofSettings opened
    rw [pins_eq]
    exact ⟨settings_eq, .free roomy⟩
  | line _ line driver induction =>
    obtain ⟨rfl, agree⟩ := induction
    exact pinsAgree_run agree line driver

/-- Where only lines touch the pins, a pin is recorded to be driven exactly if it is an output, and
exactly if it has a label, which tells its level. -/
theorem records_agree (roomy : settings.pins ≤ count) (scripted : Scripted settings count s board) :
    (∀ pin < settings.pins,
      (s.pins.isDriven pin = true ↔ board.isOutput pin = true) ∧
      (s.pins.isDriven pin = true ↔ (s.pins.label? pin).isSome = true) ∧
      (s.pins.isDriven pin = true →
        s.pins.label? pin = some (if board.level pin then "AUXH" else "AUXL"))) ∧
    (∀ pin, s.pins.role pin = .io) ∧
    (∀ (σ : Type) [Driver σ] (line : Cursor) (driver : σ) (pin position : Nat),
      (s.run line driver board).result ≠ .error (.rejected (.pinInUse pin position))) ∧
    ∀ pin, settings.pins ≤ pin → s.pins.isDriven pin = false := by
  obtain ⟨-, agree⟩ := scripted.pinsAgree roomy
  refine ⟨fun pin _ => ?_, fun pin => (agree.agrees pin).role_eq, ?_, agree.not_driven⟩
  · have agrees := agree.agrees pin
    rw [agrees.isOutput_eq, agrees.label?_eq]
    cases s.pins.isDriven pin with
    | true => exact ⟨Iff.rfl, by simp, fun _ => rfl⟩
    | false => simp
  · intro σ _ line driver pin position reported
    rcases s.refused_or_ran line driver board with
      ⟨reason, failed, refused⟩ | ⟨-, refused⟩ | ⟨p, -, -, ran⟩
    · rw [refused.result_eq] at reported
      obtain rfl := LineError.rejected.inj (Except.error.inj reported)
      exact Cursor.role_ne_io_of_compile failed (agree.agrees pin).role_eq
    · rw [refused.result_eq] at reported
      cases reported
    · rw [ran.result_eq] at reported
      cases reported

/-- Two pins are driven on a session that was just opened, one high and one low. -/
theorem records_agree_on_two_outputs :
    ∃ s board, Scripted {} 8 s board ∧ Settings.pins {} ≤ 8 ∧
      s.pins.isDriven 1 = true ∧ board.level 1 = true ∧ s.pins.label? 1 = some "AUXH" ∧
      s.pins.isDriven 2 = true ∧ board.level 2 = false ∧ s.pins.label? 2 = some "AUXL" := by
  let s : Session :=
    { settings := {}, valid := Settings.fault?_eq_none_iff.mp rfl, pins := .free 8, tally := ∅ }
  let board := SimulatedBoard.ofCount 8
  let line := Cursor.ofString "A.1 a.2"
  let p : Program := [{ op := .outputHigh, pin := 1, hasBits := true },
    { op := .outputLow, pin := 2, hasBits := true }]
  have compiled : (line.compile s.settings s.pins.role).1.result = .ok p := by
    cbv
  have ran := ran_of_compile (⟨0⟩ : Dummy) board compiled (by decide)
  have scripted : Scripted {} 8 s board := .opened rfl
  have agree := (scripted.line line (⟨0⟩ : Dummy)).records_agree (Nat.le_refl 8)
  have driven : (s.run line (⟨0⟩ : Dummy) board).session.pins.isDriven 1 = true ∧
      (s.run line (⟨0⟩ : Dummy) board).session.pins.isDriven 2 = true := by
    rw [ran.session_eq]
    decide +kernel
  have levels : (s.run line (⟨0⟩ : Dummy) board).board.level 1 = true ∧
      (s.run line (⟨0⟩ : Dummy) board).board.level 2 = false := by
    rw [ran.board_eq]
    decide +kernel
  have high := (agree.1 1 (by decide)).2.2 driven.1
  have low := (agree.1 2 (by decide)).2.2 driven.2
  rw [levels.1] at high
  rw [levels.2] at low
  exact ⟨_, _, scripted.line line (⟨0⟩ : Dummy), Nat.le_refl 8, driven.1, levels.1, high, driven.2,
    levels.2, low⟩

end Scripted

end Session

end BusScript
