import BusScript.Proofs.Bus.Outcomes
import BusScript.Proofs.Execution.Budget
import BusScript.Proofs.Execution.Invariant
import BusScript.Proofs.Session

/-!
# The form of instructions and entries

What every instruction of a compiled program and every entry of a trace have in common: widths are
those of a word, pins exist, notations and values belong to writes, a remark has a seriousness, and
what a pin gives is a level or a reading of twelve bits. The script decides one part, which nothing
changes afterwards, and the bus and the board fill in the other.
-/

namespace BusScript

namespace Instruction

/-- The form of what a script says about an instruction. -/
structure Scripted (settings : Settings) (i : Instruction) : Prop where
  bits_pos : 1 ≤ i.bits
  bits_le : i.bits ≤ 32
  repeats_pos : 1 ≤ i.repeats
  pin_given : i.op.usesPin = true →
    i.pin < settings.pins ∧ i.hasBits = true ∧ i.bits = settings.bits
  radix_of_write : i.radix ≠ .hex → i.op = .write
  byte_of_text : i.radix = .ascii → i.sent ≤ 0xff ∧ i.bits = settings.bits ∧ i.repeats = 1
  sent_eq : i.op ≠ .write → i.sent = 0

/-- The form of what becomes of an instruction. -/
structure Answered (i : Instruction) : Prop where
  severity_iff : i.severity = .none ↔ i.remark = none
  write_of_echoes : i.echoes = true → i.op = .write
  level_of_input : i.op = .input → i.received = 0 ∨ i.received = 1
  reading_of_sample : i.op = .sample → i.received ≤ 0xfff

/-- The form of an instruction, carried out or not. -/
structure WellFormed (settings : Settings) (i : Instruction) : Prop extends
  i.Scripted settings, i.Answered

theorem Scripted.of_keepsSource {settings : Settings} {source entry : Instruction}
    (scripted : source.Scripted settings) (kept : source.KeepsSource entry) :
    entry.Scripted settings where
  bits_pos := kept.bits_eq ▸ scripted.bits_pos
  bits_le := kept.bits_eq ▸ scripted.bits_le
  repeats_pos := kept.repeats_eq ▸ scripted.repeats_pos
  pin_given uses := by
    rw [kept.pin_eq, kept.hasBits_eq, kept.bits_eq]
    exact scripted.pin_given (kept.op_eq ▸ uses)
  radix_of_write noted := kept.op_eq ▸ scripted.radix_of_write (kept.radix_eq ▸ noted)
  byte_of_text text := by
    rw [kept.sent_eq, kept.bits_eq, kept.repeats_eq]
    exact scripted.byte_of_text (kept.radix_eq ▸ text)
  sent_eq other := kept.sent_eq ▸ scripted.sent_eq (kept.op_eq ▸ other)

namespace Answered

variable {i : Instruction}

/-- An instruction of which nothing has become yet. -/
theorem of_blank (no_severity : i.severity = .none) (no_remark : i.remark = none)
    (no_echo : i.echoes = false) (nothing : i.received = 0) : i.Answered where
  severity_iff := iff_of_true no_severity no_remark
  write_of_echoes echoes := by
    rw [no_echo] at echoes
    contradiction
  level_of_input _ := .inl nothing
  reading_of_sample _ := by
    rw [nothing]
    decide

theorem flag {severity : Severity} (answered : i.Answered) (serious : severity ≠ .none)
    (text : String) : (i.flag severity text).Answered :=
  { answered with severity_iff := iff_of_false serious (Option.some_ne_none _) }

theorem annotate (answered : i.Answered) (text : String) : (i.annotate text).Answered :=
  { answered with }

/-- What comes in is in form if what comes in on a pin is. -/
theorem receive {value : UInt32} (answered : i.Answered)
    (level : i.op = .input → value = 0 ∨ value = 1)
    (reading : i.op = .sample → value ≤ 0xfff) : (i.receive value).Answered :=
  { answered with
    level_of_input := level
    reading_of_sample := reading }

theorem receive_level (answered : i.Answered) (is_input : i.op = .input) (level : Bool) :
    (i.receive (if level then 1 else 0)).Answered := by
  refine answered.receive (fun _ => ?_) fun is_sample => ?_
  · cases level with
    | true => exact .inr rfl
    | false => exact .inl rfl
  · rw [is_input] at is_sample
    contradiction

theorem receive_reading {reading : UInt32} (answered : i.Answered) (is_sample : i.op = .sample)
    (reading_le : reading ≤ 0xfff) : (i.receive reading).Answered := by
  refine answered.receive (fun is_input => ?_) fun _ => reading_le
  rw [is_sample] at is_input
  contradiction

theorem receive_of_bus (answered : i.Answered) (no_pin : i.op.usesPin = false) (value : UInt32) :
    (i.receive value).Answered := by
  refine answered.receive (fun is_input => ?_) fun is_sample => ?_
  · rw [is_input] at no_pin
    contradiction
  · rw [is_sample] at no_pin
    contradiction

end Answered

end Instruction

/-! ### Programs -/

theorem Literal.Spelled.radix_ne_ascii {l : Literal} {text : List Char} (spelled : l.Spelled text) :
    l.radix ≠ .ascii := by
  obtain ⟨marked, -⟩ := spelled
  intro is_ascii
  rw [is_ascii] at marked
  cases marked

/-- What a valid token stands for is in form, and nothing has become of it. -/
theorem Token.wellFormed_of_mem {settings : Settings} (valid : settings.Valid) {t : Token}
    {word : List Char} (spelled : t.Spelled word) (fits : t.Fits settings) {i : Instruction}
    (member : i ∈ t.denote settings) : i.WellFormed settings := by
  have bits_of {a : Attributes} (fit : ∀ n ∈ a.bits, 1 ≤ n ∧ n ≤ 32) :
      1 ≤ a.bits.getD settings.bits ∧ a.bits.getD settings.bits ≤ 32 := by
    cases given : a.bits with
    | none => exact ⟨valid.bits_pos, valid.bits_le⟩
    | some n => exact fit n given
  cases spelled with
  | @value l a text more literal behind =>
    obtain rfl := List.mem_singleton.mp member
    obtain ⟨bits_pos, bits_le⟩ := bits_of (Attributes.Fit.bits_fit fits)
    exact
      { Instruction.Answered.of_blank rfl rfl rfl rfl with
        bits_pos := bits_pos
        bits_le := bits_le
        repeats_pos := Nat.le_max_right _ _
        pin_given := fun uses => absurd uses Bool.false_ne_true
        radix_of_write := fun _ => rfl
        byte_of_text := fun is_ascii => absurd is_ascii literal.radix_ne_ascii
        sent_eq := fun other => absurd rfl other }
  | @command symbol op a more symbol_eq behind =>
    obtain rfl := List.mem_singleton.mp member
    have fit : a.BitsFit settings op := Attributes.Fit.bits_fit fits
    rw [Attributes.BitsFit] at fit
    have bits : 1 ≤ (if op.usesPin then settings.bits else a.bits.getD settings.bits) ∧
        (if op.usesPin then settings.bits else a.bits.getD settings.bits) ≤ 32 := by
      split
      next => exact ⟨valid.bits_pos, valid.bits_le⟩
      next no_pin => exact bits_of (by rwa [if_neg no_pin] at fit)
    exact
      { Instruction.Answered.of_blank rfl rfl rfl rfl with
        bits_pos := bits.1
        bits_le := bits.2
        repeats_pos := Nat.le_max_right _ _
        pin_given := fun (uses : op.usesPin = true) => by
          rw [if_pos uses] at fit
          obtain ⟨pin, given, named⟩ := fit
          simp [uses, given, named]
        radix_of_write := fun noted => absurd rfl noted
        byte_of_text := fun (is_ascii : Radix.hex = .ascii) => by contradiction
        sent_eq := fun _ => rfl }
  | text =>
    obtain ⟨byte, -, rfl⟩ := List.mem_map.mp member
    have byte_le : byte.toUInt32 ≤ 0xff := by
      rw [UInt32.le_iff_toNat_le, UInt8.toNat_toUInt32]
      exact Nat.le_of_lt_succ byte.toNat_lt
    exact
      { Instruction.Answered.of_blank rfl rfl rfl rfl with
        bits_pos := valid.bits_pos
        bits_le := valid.bits_le
        repeats_pos := Nat.le_refl _
        pin_given := fun uses => absurd uses Bool.false_ne_true
        radix_of_write := fun _ => rfl
        byte_of_text := fun _ => ⟨byte_le, rfl, rfl⟩
        sent_eq := fun other => absurd rfl other }

theorem Cursor.wellFormed_of_compile {settings : Settings} {role : Nat → PinRole} {line : Cursor}
    {p : Program} (valid : settings.Valid)
    (compiled : (line.compile settings role).1.result = .ok p) :
    ∀ i ∈ p, i.WellFormed settings := by
  intro i member
  obtain ⟨t, ⟨word, spelled⟩, fits, -, denoted⟩ := exists_spelled_of_mem compiled member
  exact Token.wellFormed_of_mem valid spelled fits denoted

/-! ### Buses -/

/-- A bus that keeps the form of what becomes of an entry. -/
def Driver.KeepsForm (σ : Type) [Driver σ] : Prop :=
  ∀ (capability : Capability) (next : Option Instruction) (entry : Instruction) (bus : σ),
    entry.op = capability.operation → entry.Answered →
      (Driver.perform capability next entry bus).1.Answered

theorem HighZ.keepsForm : Driver.KeepsForm HighZ := fun _ _ _ _ _ answered =>
  answered.flag (by decide) _

theorem Dummy.keepsForm : Driver.KeepsForm Dummy := by
  intro capability next entry bus op_eq answered
  show (bus.respond capability entry).Answered
  cases capability with
  | write =>
    rw [respond]
    split
    · exact answered.flag (by decide) _
    · exact answered.annotate _
  | read | readBit => exact (answered.receive_of_bus (by rw [op_eq]; rfl) _).annotate _
  | _ => exact answered.annotate _

theorem I2c.keepsForm : Driver.KeepsForm I2c := by
  intro capability next entry bus op_eq answered
  have timed_out {noted : Instruction} (answered : noted.Answered) :
      (bus.timeout noted).Answered := by
    rw [timeout]
    split
    · exact answered.flag (by decide) _
    · exact answered
  have started : (bus.start entry).1.Answered := by
    apply timed_out
    split
    · exact answered.annotate _
    · split
      · exact answered.annotate _
      · exact (answered.flag (by decide) _).annotate _
  cases capability with
  | write => exact answered.annotate _
  | read => exact (answered.receive_of_bus (by rw [op_eq]; rfl) _).annotate _
  | start | startAlt => exact started
  | stop | stopAlt => exact timed_out (answered.annotate _)
  | tickClock | clockHigh | clockLow | dataHigh | dataLow | readBit =>
    exact answered.flag (by decide) _

theorem Spi.keepsForm : Driver.KeepsForm Spi := by
  intro capability next entry bus op_eq answered
  cases capability with
  | write =>
    have received := answered.receive_of_bus (by rw [op_eq]; rfl)
      ((bus.transfer entry.sent).1 &&& entry.mask)
    exact { received with write_of_echoes := fun _ => op_eq }
  | read => exact answered.receive_of_bus (by rw [op_eq]; rfl) _
  | start | startAlt | stop | stopAlt => exact answered.annotate _
  | tickClock | clockHigh | clockLow | dataHigh | dataLow | readBit =>
    exact answered.flag (by decide) _

theorem SimulatedBus.keepsForm : Driver.KeepsForm SimulatedBus := by
  intro capability next entry bus op_eq answered
  cases bus with
  | highZ bus => exact HighZ.keepsForm capability next entry bus op_eq answered
  | dummy bus => exact Dummy.keepsForm capability next entry bus op_eq answered
  | i2c bus => exact I2c.keepsForm capability next entry bus op_eq answered
  | spi bus => exact Spi.keepsForm capability next entry bus op_eq answered

/-! ### Boards -/

namespace SimulatedBoard

/-- The boards that there are: what is made of a new one. -/
inductive Made : SimulatedBoard → Prop
  | ofCount (count : Nat) : Made (.ofCount count)
  | setLevel {b : SimulatedBoard} (made : Made b) (pin : Nat) (level : Bool) :
      Made (b.setLevel pin level)
  | setReading {b : SimulatedBoard} (made : Made b) (pin : Nat) (raw : UInt32) :
      Made (b.setReading pin raw)
  | setDirection {b : SimulatedBoard} (made : Made b) (pin : Nat) (isOutput : Bool) :
      Made (b.setDirection pin isOutput)
  | wait {b : SimulatedBoard} (made : Made b) (us : Nat) : Made (b.wait us)

@[simp] theorem reading_setLevel (pin other : Nat) (on : Bool) (b : SimulatedBoard) :
    (b.setLevel pin on).reading other = b.reading other := by
  simp only [setLevel, reading, Array.getElem?_modify]
  split <;> simp [Function.comp_def]

@[simp] theorem reading_setDirection (pin other : Nat) (on : Bool) (b : SimulatedBoard) :
    (b.setDirection pin on).reading other = b.reading other := by
  simp only [setDirection, reading, Array.getElem?_modify]
  split <;> simp [Function.comp_def]

theorem reading_setReading (pin other : Nat) (raw : UInt32) (b : SimulatedBoard) :
    (b.setReading pin raw).reading other =
      if other = pin ∧ pin < b.pins.size then raw &&& lowBits 12 else b.reading other := by
  simp only [setReading, reading, Array.getElem?_modify, eq_comm (a := pin)]
  by_cases same : other = pin
  · subst same
    by_cases inside : other < b.pins.size <;> simp [inside]
  · simp [same]

/-- A reading has twelve bits. -/
theorem Made.reading_le {b : SimulatedBoard} (made : b.Made) (pin : Nat) :
    b.reading pin ≤ 0xfff := by
  induction made with
  | ofCount count =>
    rw [reading, SimulatedBoard.ofCount, Array.getElem?_replicate]
    split <;> exact UInt32.zero_le
  | setLevel _ _ _ induction => rwa [reading_setLevel]
  | setReading _ changed raw induction =>
    rw [reading_setReading]
    split
    · exact UInt32.and_le_right
    · exact induction
  | setDirection _ _ _ induction => rwa [reading_setDirection]
  | wait _ _ induction => exact induction

end SimulatedBoard

namespace Bench

variable {σ : Type} [Driver σ]

theorem made_dispatch (next : Option Instruction) (entry : Instruction)
    {bench : Bench σ SimulatedBoard} (made : bench.board.Made) :
    (bench.dispatch next entry).bench.board.Made := by
  rw [dispatch, execute]
  cases entry.op with
  | delayUs | delayMs => exact made.wait _
  | outputHigh | outputLow => exact (made.setDirection _ _).setLevel _ _
  | input => exact made.setDirection _ _
  | _ => exact made

/-- The pulses of the clock keep the form of an entry. -/
theorem answered_pulses (fills : Driver.FillsOutcomes σ) (forms : Driver.KeepsForm σ)
    {entry : Instruction} (ticks : entry.op = .tickClock) (answered : entry.Answered) (n : Nat)
    (bus : σ) : entry.KeepsSource (pulses n entry bus).1 ∧ (pulses n entry bus).1.Answered := by
  induction n with
  | zero => exact ⟨.refl entry, answered⟩
  | succ n induction =>
    obtain ⟨kept, answered⟩ := induction
    exact ⟨kept.trans (fills _ _ _ _), forms _ _ _ _ (kept.op_eq.trans ticks) answered⟩

/-- Carrying an entry out keeps the form of what becomes of it. -/
theorem answered_dispatch (fills : Driver.FillsOutcomes σ) (forms : Driver.KeepsForm σ)
    (next : Option Instruction) {entry : Instruction} (answered : entry.Answered)
    {bench : Bench σ SimulatedBoard} (made : bench.board.Made) :
    (bench.dispatch next entry).entry.Answered := by
  rw [dispatch, execute]
  cases op_eq : entry.op with
  | tickClock => exact (answered_pulses fills forms op_eq answered _ _).2
  | delayUs | delayMs | outputHigh | outputLow => exact answered
  | input => exact answered.receive_level op_eq _
  | sample => exact answered.receive_reading op_eq (made.reading_le _)
  | _ => exact forms _ _ _ _ op_eq answered

end Bench

/-! ### Lines -/

namespace Session

/-- Whatever a session makes of a line is well formed: the instructions that it accepts and the
entries of the trace, on every board and each of the simulated buses. -/
theorem wellFormed_of_run {s : Session} {line : Cursor} {bus : SimulatedBus} {board : SimulatedBoard}
    {out : Output} (made : board.Made) (accepted : (s.run line bus board).result = .ok out) :
    (∀ i, i ∈ out.program ∨ i ∈ out.trace.entries →
      i.WellFormed s.settings ∧ Report.shownWidth i.bits = i.bits) ∧
    (s.run line bus board).board.Made := by
  obtain ⟨compiled, nonempty, trace_eq⟩ := compile_of_run accepted
  have program := Cursor.wellFormed_of_compile s.valid compiled
  have made_kept (next : Option Instruction) (i : Instruction)
      (bench : Bench SimulatedBus SimulatedBoard) (made : bench.board.Made) :
      (bench.dispatch next i).bench.board.Made := Bench.made_dispatch next i made
  have entries : ∀ entry ∈ out.trace.entries, entry.WellFormed s.settings := by
    intro entry member
    rw [trace_eq, ← Array.mem_toList_iff, ((Cursor.budgeted_of_compile s.valid
      compiled).run_records_history (s.bench bus board)).1] at member
    obtain ⟨done, inside, rfl⟩ := List.mem_map.mp member
    obtain ⟨slot, slot_mem, before, made, rfl⟩ :=
      Bench.exists_dispatch_of_mem_history (fun bench => bench.board.Made)
        (fun slot _ => made_kept slot.next slot.source) made inside
    have source := program slot.source (Program.source_mem_of_mem_unroll slot_mem)
    have kept := Bench.keepsSource_dispatch SimulatedBus.fillsOutcomes slot.next slot.source before
    have answered := Bench.answered_dispatch SimulatedBus.fillsOutcomes SimulatedBus.keepsForm
      slot.next source.toAnswered made
    exact { source.toScripted.of_keepsSource kept, answered with }
  refine ⟨fun i member => ?_, ?_⟩
  · have formed := member.elim (program i) (entries i)
    refine ⟨formed, ?_⟩
    rw [Report.shownWidth, Nat.min_eq_left formed.bits_le, Nat.max_eq_right formed.bits_pos]
  · rw [(ran_of_compile bus board compiled nonempty).board_eq]
    exact Program.bench_run_of_dispatch
      (fun bench : Bench SimulatedBus SimulatedBoard => bench.board.Made) _
      (fun i _ next => made_kept next i) made

/-- A reading of thirteen bits on a pin and a character on a bus that answers. -/
theorem wellFormed_of_reading_and_text :
    let board := (SimulatedBoard.ofCount 8).setReading 1 0x1abc
    let bus : SimulatedBus := .spi { responses := [7] }
    ∃ (s : Session) (out : Output), board.Made ∧
      (s.run (.ofString "v.1 \"A\"") bus board).result = .ok out ∧
      (out.trace.entries.map fun entry => (entry.op, entry.received)) =
        #[(.sample, 0xabc), (.write, 7)] ∧
      ∀ entry ∈ out.trace.entries, entry.WellFormed s.settings := by
  intro board bus
  let s : Session :=
    { settings := {}, valid := Settings.fault?_eq_none_iff.mp rfl, pins := .free 8, tally := ∅ }
  let p : Program := [{ op := .sample, pin := 1, hasBits := true },
    { op := .write, radix := .ascii, sent := 65 }]
  have made : board.Made := (SimulatedBoard.Made.ofCount 8).setReading 1 0x1abc
  have compiled :
      ((Cursor.ofString "v.1 \"A\"").compile s.settings s.pins.role).1.result = .ok p := by
    cbv
  obtain ⟨out, accepted, -, trace_eq⟩ := run_of_compile bus board compiled (by decide)
  refine ⟨s, out, made, accepted, ?_, fun entry member => ?_⟩
  · rw [trace_eq]
    decide +kernel
  · exact ((wellFormed_of_run made accepted).1 entry (.inr member)).1

end Session

end BusScript
