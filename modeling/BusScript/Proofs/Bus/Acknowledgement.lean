import BusScript.Bus.I2c
import BusScript.Bus.Simulated
import BusScript.Proofs.Execution.Budget
import BusScript.Proofs.Session

/-!
# Acknowledgement of reads

The last byte that is read before a start or a stop must not be acknowledged. An I2C bus looks at
the very next instruction only, so a byte is acknowledged in error where something that is no matter
of the bus stands between the last read and the start or the stop.
-/

namespace BusScript

namespace Program

/-- The first instruction behind the one with the index that is a matter of the bus. -/
def nextOnBus? (p : Program) (index : Nat) : Option Instruction :=
  (p.drop (index + 1)).find? fun i => i.op.capability?.isSome

/-- Whether the next thing that is done on the bus behind a slot is a start or a stop. -/
def closesAfter (p : Program) (slot : Slot) : Bool :=
  slot.repetition + 1 = slot.source.expansion ∧
    (p.nextOnBus? slot.index).any fun i => i.op.isFraming

/-- Whether the instruction behind that of a slot is no matter of the bus. -/
def pausesAfter (p : Program) (slot : Slot) : Bool :=
  p[slot.index + 1]?.any fun i => i.op.capability?.isNone

theorem not_isFraming_of_capability? {op : Operation} (idle : op.capability? = none) :
    op.isFraming = false := by
  cases op <;> first | rfl | contradiction

/-- A slot knows of a start or a stop where one comes next on the bus and nothing is between. -/
theorem Describes.next_isFraming {p : Program} {slot : Slot} (described : p.Describes slot) :
    (slot.next.any fun i => i.op.isFraming) = (p.closesAfter slot && !p.pausesAfter slot) := by
  rw [described.next_eq, closesAfter, pausesAfter, nextOnBus?]
  by_cases final : slot.repetition + 1 = slot.source.expansion
  · rw [if_pos final, ← List.head?_drop]
    cases p.drop (slot.index + 1) with
    | nil => simp
    | cons next later =>
      cases capability : next.op.capability? with
      | none => simp [capability, not_isFraming_of_capability? capability]
      | some c => simp [capability, final]
  · rw [if_neg final]
    simp [final]

end Program

namespace I2c

theorem op_perform (capability : Capability) (next : Option Instruction) (entry : Instruction)
    (bus : I2c) : (Driver.perform capability next entry bus).1.op = entry.op := by
  have op_start : (bus.start entry).1.op = entry.op := by
    unfold start timeout
    split <;> split <;> (try split) <;> rfl
  have op_stop : (bus.stop entry).1.op = entry.op := by
    unfold stop timeout
    split <;> rfl
  cases capability with
  | write => rfl
  | read => rfl
  | start | startAlt => exact op_start
  | stop | stopAlt => exact op_stop
  | tickClock | clockHigh | clockLow | dataHigh | dataLow | readBit => rfl

variable {β : Type}

theorem op_entry_perform (capability : Capability) (next : Option Instruction)
    (entry : Instruction) (bench : Bench I2c β) :
    (bench.perform capability next entry).entry.op = entry.op :=
  op_perform capability next entry bench.driver

theorem op_tick (entry : Instruction) (bench : Bench I2c β) :
    (bench.tick entry).entry.op = entry.op := by
  have op_repeat (n : Nat) (state : Instruction × I2c) :
      (Nat.repeat (fun state : Instruction × I2c =>
        Driver.perform .tickClock none state.1 state.2) n state).1.op = state.1.op := by
    induction n with
    | zero => rfl
    | succ n induction => rw [Nat.repeat, op_perform, induction]
  exact op_repeat entry.repeats (entry, bench.driver)

variable [Board β]

theorem op_dispatch (next : Option Instruction) (entry : Instruction) (bench : Bench I2c β) :
    (bench.dispatch next entry).entry.op = entry.op := by
  have op_execute : (bench.execute next entry).entry.op = entry.op := by
    rw [Bench.execute]
    split <;> first
      | exact op_entry_perform _ _ entry bench
      | exact op_tick entry bench
      | rfl
  exact op_execute

theorem note_dispatch_read (next : Option Instruction) {entry : Instruction}
    (bench : Bench I2c β) (is_read : entry.op = .read) :
    (bench.dispatch next entry).entry.note =
      some (if next.any fun i => i.op.isFraming then "NACK" else "ACK") := by
  rw [Bench.dispatch, Bench.execute, is_read]
  show some (if !next.any fun i => i.op.isFraming then "ACK" else "NACK") = _
  cases next.any fun i => i.op.isFraming <;> rfl

end I2c

namespace Session

variable {β : Type} [Board β]

/-- What a bus notes on a read. It is what the protocol asks for unless the bus is started or
stopped after the read and something that is no matter of the bus comes first. -/
theorem note_of_read {s : Session} {line : Cursor} {bus : I2c} {board : β} {out : Output}
    (ran : (s.run line bus board).result = .ok out) {k : Nat} {entry : Instruction}
    (entry_eq : out.trace.entries[k]? = some entry) (is_read : entry.op = .read) :
    ∃ slot, out.program.unroll[k]? = some slot ∧ slot.source.op = .read ∧
      entry.note = some (if out.program.closesAfter slot && !out.program.pausesAfter slot
        then "NACK" else "ACK") ∧
      (entry.note = some (if out.program.closesAfter slot then "NACK" else "ACK") ↔
        ¬ (out.program.closesAfter slot = true ∧ out.program.pausesAfter slot = true)) := by
  obtain ⟨compiled, -, trace_eq⟩ := compile_of_run ran
  have budgeted := Cursor.budgeted_of_compile s.valid compiled
  obtain ⟨entries_eq, -⟩ := budgeted.entries_eq_history (s.bench bus board)
  rw [trace_eq, ← Array.getElem?_toList, entries_eq, List.getElem?_map,
    Option.map_eq_some_iff] at entry_eq
  obtain ⟨done, done_eq, rfl⟩ := entry_eq
  obtain ⟨slot, before, slot_eq, rfl⟩ := Bench.exists_dispatch_of_history done_eq
  have source_read : slot.source.op = .read := (I2c.op_dispatch _ _ before).symm.trans is_read
  have described := Program.describes_of_mem_unroll (List.mem_of_getElem? slot_eq)
  have note_eq := I2c.note_dispatch_read slot.next before source_read
  rw [described.next_isFraming] at note_eq
  refine ⟨slot, slot_eq, source_read, note_eq, ?_⟩
  rw [note_eq]
  cases out.program.closesAfter slot <;> cases out.program.pausesAfter slot <;> simp

/-- A session as it is opened without settings of its own. -/
def plain : Session where
  settings := {}
  valid := Settings.fault?_eq_none_iff.mp rfl
  pins := .free 8
  tally := ∅

theorem exists_entry_of_compile {line : Cursor} {p : Program} {bus : I2c} {board : β} {k : Nat}
    {op : Operation} {note : String} (nonempty : p ≠ [])
    (compiled : (line.compile plain.settings plain.pins.role).1.result = .ok p)
    (recorded : ((p.run plain.settings.capacity (plain.bench bus board)).trace.entries[k]?.map
      fun entry => (entry.op, entry.note)) = some (op, some note)) :
    ∃ out entry, (plain.run line bus board).result = .ok out ∧ out.program = p ∧
      out.trace.entries[k]? = some entry ∧ entry.op = op ∧ entry.note = some note := by
  obtain ⟨out, ran, program_eq, trace_eq⟩ := run_of_compile (s := plain) bus board compiled nonempty
  rw [← trace_eq] at recorded
  obtain ⟨entry, entry_eq, fields⟩ := Option.map_eq_some_iff.mp recorded
  obtain ⟨op_eq, note_eq⟩ := Prod.mk.inj fields
  exact ⟨out, entry, ran, program_eq, entry_eq, op_eq, note_eq⟩

/-- Two bytes are read from a device and the stop follows. The second is not acknowledged. -/
theorem note_of_read_before_stop :
    let bus : I2c := { targets := #[.ofList 0x50 [7, 9]] }
    let board := SimulatedBoard.ofCount 8
    ∃ out entry, (plain.run (.ofString "[0xa1 r:2]") bus board).result = .ok out ∧
      out.trace.entries[3]? = some entry ∧ entry.op = .read ∧ entry.note = some "NACK" ∧
      ∃ slot, out.program.unroll[3]? = some slot ∧
        ¬ (out.program.closesAfter slot = true ∧ out.program.pausesAfter slot = true) := by
  intro bus board
  let p : Program := [{ op := .start }, { op := .write, sent := 0xa1 },
    { op := .read, repeats := 2, hasRepeats := true }, { op := .stop }]
  have compiled :
      ((Cursor.ofString "[0xa1 r:2]").compile plain.settings plain.pins.role).1.result = .ok p := by
    cbv
  have recorded : ((p.run plain.settings.capacity (plain.bench bus board)).trace.entries[3]?.map
      fun entry => (entry.op, entry.note)) = some (.read, some "NACK") := by
    decide +kernel
  obtain ⟨out, entry, ran, -, entry_eq, is_read, note_eq⟩ :=
    exists_entry_of_compile (by decide) compiled recorded
  obtain ⟨slot, slot_eq, -, noted, -⟩ := note_of_read ran entry_eq is_read
  refine ⟨out, entry, ran, entry_eq, is_read, note_eq, slot, slot_eq, ?_⟩
  rintro ⟨closes, pauses⟩
  rw [note_eq, closes, pauses] at noted
  simp at noted

/-- Where a delay stands between the last read and the stop, the byte is acknowledged after all. -/
theorem last_read_acknowledged_before_delay :
    ¬ ∀ (s : Session) (line : Cursor) (bus : I2c) (board : SimulatedBoard) (out : Output),
      (s.run line bus board).result = .ok out →
      ∀ (k : Nat) (entry : Instruction) (slot : Slot), out.trace.entries[k]? = some entry →
        entry.op = .read → out.program.unroll[k]? = some slot →
        entry.note = some (if out.program.closesAfter slot then "NACK" else "ACK") := by
  intro documented
  let bus : I2c := { targets := #[.ofList 0x50 [7, 9]] }
  let board := SimulatedBoard.ofCount 8
  let reads : Instruction := { op := .read, repeats := 2, hasRepeats := true }
  let waits : Instruction := { op := .delayUs, repeats := 5, hasRepeats := true }
  let p : Program :=
    [{ op := .start }, { op := .write, sent := 0xa1 }, reads, waits, { op := .stop }]
  have compiled : ((Cursor.ofString "[0xa1 r:2 d:5]").compile plain.settings
      plain.pins.role).1.result = .ok p := by
    cbv
  have recorded : ((p.run plain.settings.capacity (plain.bench bus board)).trace.entries[3]?.map
      fun entry => (entry.op, entry.note)) = some (.read, some "ACK") := by
    decide +kernel
  obtain ⟨out, entry, ran, program_eq, entry_eq, is_read, note_eq⟩ :=
    exists_entry_of_compile (by decide) compiled recorded
  let slot : Slot := { index := 2, repetition := 1, source := reads, next := some waits }
  have slot_eq : out.program.unroll[3]? = some slot := by
    rw [program_eq]
    rfl
  have closes : out.program.closesAfter slot = true := by
    rw [program_eq]
    rfl
  have promised := documented plain _ bus board out ran 3 entry slot entry_eq is_read slot_eq
  rw [note_eq, closes] at promised
  simp at promised

end Session

end BusScript
