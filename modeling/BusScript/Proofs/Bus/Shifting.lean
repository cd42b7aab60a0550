import BusScript.Bus.Spi
import BusScript.Proofs.Execution.Budget
import BusScript.Proofs.Execution.Calls
import BusScript.Proofs.Execution.Invariant
import BusScript.Proofs.Report.Echo
import BusScript.Proofs.Session.Station

/-!
# Shifting over SPI

What an SPI controller records over the lines of a session can be read off the entries themselves.
The writes and reads use up the responses one by one, in the order of all traces together. Whether
writes show what came in, and whether the chip is selected, depends on the latest start or stop
alone, be it in the same line or in one before it.
-/

namespace BusScript

open Report (hasValue)

/-- The latest opening or closing of a transfer among entries. -/
def latestFraming? (entries : List Instruction) : Option Operation :=
  ((entries.map Instruction.op).filter Operation.isFraming).getLast?

theorem latestFraming?_concat (before : List Instruction) (entry : Instruction) :
    latestFraming? (before ++ [entry]) =
      if entry.op.isFraming then some entry.op else latestFraming? before := by
  rw [latestFraming?, List.map_append, List.filter_append, List.map_singleton, List.filter_cons]
  split
  · exact List.getLast?_concat
  · rw [List.filter_nil, List.append_nil]
    rfl

theorem latestFraming?_of_not_isFraming (before : List Instruction) {entry : Instruction}
    (unframed : entry.op.isFraming = false) :
    latestFraming? (before ++ [entry]) = latestFraming? before := by
  rw [latestFraming?_concat, unframed, if_neg (by simp)]

theorem not_hasValue_of_isFraming {entry : Instruction} (framing : entry.op.isFraming = true) :
    hasValue entry = false := by
  rw [hasValue]
  cases op_eq : entry.op <;> simp_all [Operation.isFraming]

theorem not_isFraming_of_hasValue {entry : Instruction} (value : hasValue entry = true) :
    entry.op.isFraming = false := by
  rw [← Bool.not_eq_true]
  intro framing
  rw [not_hasValue_of_isFraming framing] at value
  contradiction

namespace Spi

/-- What an entry says about a transfer behind other entries, given the responses before all of
them. A response is used up by each write and each read, and its low bits come in. -/
structure Transferred (responses : List UInt32) (before : List Instruction) (entry : Instruction) :
    Prop where
  received_of_write : entry.op = .write →
    entry.received.toNat =
      (responses[before.countP hasValue]?.getD entry.sent).toNat % 2 ^ min entry.bits 32
  received_of_read : entry.op = .read →
    entry.received.toNat =
      (responses[before.countP hasValue]?.getD 0xffffffff).toNat % 2 ^ min entry.bits 32
  echoes_iff : entry.echoes = true ↔ entry.op = .write ∧ latestFraming? before = some .startAlt

/-- Whether a controller is where entries have left it. -/
structure Tracks (responses : List UInt32) (before : List Instruction) (bus : Spi) : Prop where
  responses_eq : bus.responses = responses.drop (before.countP hasValue)
  echoes_iff : bus.echoes = true ↔ latestFraming? before = some .startAlt
  selected_iff : bus.selected = true ↔
    latestFraming? before = some .start ∨ latestFraming? before = some .startAlt

variable {responses : List UInt32} {before : List Instruction} {bus : Spi}

theorem tracks_nil (responses : List UInt32) : Tracks responses [] { responses := responses } where
  responses_eq := rfl
  echoes_iff := by simp [latestFraming?]
  selected_iff := by simp [latestFraming?]

theorem transfer_of_drop {n : Nat} (responses_eq : bus.responses = responses.drop n)
    (out : UInt32) :
    bus.transfer out =
      (responses[n]?.getD out, { bus with responses := responses.drop (n + 1) }) := by
  obtain ⟨queue, selected, echoes⟩ := bus
  obtain rfl : queue = responses.drop n := responses_eq
  rw [transfer, ← List.head?_drop, ← List.tail_drop]
  cases responses.drop n <;> rfl

theorem transferred_of_not_hasValue {entry : Instruction} (no_value : hasValue entry = false)
    (plain : entry.echoes = false) : Transferred responses before entry := by
  rw [hasValue, Bool.or_eq_false_iff, beq_eq_false_iff_ne, beq_eq_false_iff_ne] at no_value
  exact ⟨fun op_eq => absurd op_eq no_value.1, fun op_eq => absurd op_eq no_value.2,
    by simp [plain, no_value.1]⟩

namespace Tracks

theorem idle (tracks : bus.Tracks responses before) {entry : Instruction}
    (no_value : hasValue entry = false) (unframed : entry.op.isFraming = false) :
    bus.Tracks responses (before ++ [entry]) := by
  have latest_eq := latestFraming?_of_not_isFraming before unframed
  constructor
  · rw [tracks.responses_eq, List.countP_append, List.countP_singleton, no_value]
    rfl
  · rw [latest_eq, tracks.echoes_iff]
  · rw [latest_eq, tracks.selected_iff]

theorem framed (tracks : bus.Tracks responses before) {entry : Instruction} {after : Spi}
    (framing : entry.op.isFraming = true) (responses_eq : after.responses = bus.responses)
    (echoes_iff : after.echoes = true ↔ entry.op = .startAlt)
    (selected_iff : after.selected = true ↔ entry.op = .start ∨ entry.op = .startAlt) :
    after.Tracks responses (before ++ [entry]) := by
  have latest_eq : latestFraming? (before ++ [entry]) = some entry.op := by
    rw [latestFraming?_concat, if_pos framing]
  constructor
  · rw [responses_eq, tracks.responses_eq, List.countP_append, List.countP_singleton,
      not_hasValue_of_isFraming framing]
    rfl
  · rw [latest_eq, Option.some_inj, echoes_iff]
  · rw [latest_eq, Option.some_inj, Option.some_inj, selected_iff]

theorem shifted (tracks : bus.Tracks responses before) {entry : Instruction}
    (value : hasValue entry = true) :
    Tracks responses (before ++ [entry])
      { bus with responses := responses.drop (before.countP hasValue + 1) } := by
  have latest_eq := latestFraming?_of_not_isFraming before (not_isFraming_of_hasValue value)
  constructor
  · rw [List.countP_append, List.countP_singleton, value]
    rfl
  · rw [latest_eq, ← tracks.echoes_iff]
  · rw [latest_eq, ← tracks.selected_iff]

theorem write (tracks : bus.Tracks responses before) {entry : Instruction}
    (is_write : entry.op = .write) :
    Transferred responses before (bus.write entry).1 ∧
      (bus.write entry).2.Tracks responses (before ++ [(bus.write entry).1]) := by
  rw [Spi.write, transfer_of_drop tracks.responses_eq]
  refine ⟨⟨fun _ => toNat_and_lowBits _ entry.bits, fun is_read => ?_, ?_⟩, tracks.shifted ?_⟩
  · exact absurd (is_write.symm.trans is_read) (by decide)
  · simp [is_write, tracks.echoes_iff]
  · simp [hasValue, is_write]

theorem read (tracks : bus.Tracks responses before) {entry : Instruction}
    (is_read : entry.op = .read) (plain : entry.echoes = false) :
    Transferred responses before (bus.read entry).1 ∧
      (bus.read entry).2.Tracks responses (before ++ [(bus.read entry).1]) := by
  rw [Spi.read, transfer_of_drop tracks.responses_eq]
  refine ⟨⟨fun is_write => ?_, fun _ => toNat_and_lowBits _ entry.bits, ?_⟩, tracks.shifted ?_⟩
  · exact absurd (is_read.symm.trans is_write) (by decide)
  · simp [Instruction.receive, plain, is_read]
  · simp [hasValue, is_read]

/-- One step: an entry that is given to the controller. -/
theorem perform (tracks : bus.Tracks responses before) {capability : Capability}
    (next : Option Instruction) {entry : Instruction} (op_eq : entry.op = capability.operation)
    (plain : entry.echoes = false) :
    Transferred responses before (Driver.perform capability next entry bus).1 ∧
      (Driver.perform capability next entry bus).2.Tracks responses
        (before ++ [(Driver.perform capability next entry bus).1]) := by
  cases capability with
  | write => exact tracks.write op_eq
  | read => exact tracks.read op_eq plain
  | start | startAlt | stop | stopAlt =>
    have framing (text : String) : (entry.annotate text).op.isFraming = true := by
      rw [Instruction.op_annotate, op_eq]
      rfl
    refine ⟨transferred_of_not_hasValue (not_hasValue_of_isFraming (framing _)) plain,
      tracks.framed (framing _) rfl ?_ ?_⟩
    · simp [Driver.perform, select, deselect, op_eq, Capability.operation]
    · simp [Driver.perform, select, deselect, op_eq, Capability.operation]
  | tickClock | clockHigh | clockLow | dataHigh | dataLow | readBit =>
    have no_value : hasValue entry.noEffect = false := by
      simp [hasValue, Instruction.noEffect, op_eq, Capability.operation]
    refine ⟨transferred_of_not_hasValue no_value plain, tracks.idle no_value ?_⟩
    show entry.op.isFraming = false
    rw [op_eq]
    rfl

end Tracks

theorem pulses_eq (n : Nat) (entry : Instruction) (bus : Spi) :
    (Bench.pulses n entry bus).1.op = entry.op ∧
      (Bench.pulses n entry bus).1.echoes = entry.echoes ∧ (Bench.pulses n entry bus).2 = bus := by
  induction n with
  | zero => exact ⟨rfl, rfl, rfl⟩
  | succ n induction =>
    rw [Bench.pulses_succ]
    exact induction

section Run

variable {β : Type}

/-- An entry that was carried out behind others says what it should, and the controller is where it
has left it. -/
def Carried (responses : List UInt32) (before : List Instruction) (done : Dispatched Spi β) :
    Prop :=
  Transferred responses before done.entry ∧
    done.bench.driver.Tracks responses (before ++ [done.entry])

/-- One step: an entry that leaves the controller alone. -/
theorem Tracks.carried_of_idle {bench : Bench Spi β} (tracks : bench.driver.Tracks responses before)
    {done : Dispatched Spi β} (driver_eq : done.bench.driver = bench.driver)
    (no_value : hasValue done.entry = false) (unframed : done.entry.op.isFraming = false)
    (plain : done.entry.echoes = false) : Carried responses before done := by
  rw [Carried, driver_eq]
  exact ⟨transferred_of_not_hasValue no_value plain, tracks.idle no_value unframed⟩

variable [Board β]

/-- One step: an entry that is carried out, whatever it is. -/
theorem Tracks.dispatch {bench : Bench Spi β} (tracks : bench.driver.Tracks responses before)
    (next : Option Instruction) {entry : Instruction} (plain : entry.echoes = false) :
    Carried responses before (bench.dispatch next entry) := by
  have performed {capability : Capability} {told : Option Instruction}
      (op_eq : entry.op = capability.operation) :
      Carried responses before (bench.perform capability told entry) :=
    tracks.perform told op_eq plain
  show Carried responses before (bench.execute next entry)
  rw [Bench.execute]
  cases op_eq : entry.op with
  | tickClock =>
    obtain ⟨pulsed_op_eq, echoes_eq, bus_eq⟩ := pulses_eq entry.repeats entry bench.driver
    rw [op_eq] at pulsed_op_eq
    refine tracks.carried_of_idle bus_eq ?_ ?_ (echoes_eq.trans plain)
    · simp [Bench.tick_eq_pulses, hasValue, pulsed_op_eq]
    · simp [Bench.tick_eq_pulses, Operation.isFraming, pulsed_op_eq]
  | delayUs | delayMs | outputHigh | outputLow | input | sample =>
    refine tracks.carried_of_idle rfl ?_ ?_ plain
    · show hasValue entry = false
      rw [hasValue, op_eq]
      rfl
    · show entry.op.isFraming = false
      rw [op_eq]
      rfl
  | write | read | start | startAlt | stop | stopAlt | clockHigh | clockLow | dataHigh | dataLow
  | readBit =>
    refine performed ?_
    exact op_eq

/-- Whether each of some entries behind others says what it should. -/
def Records (responses : List UInt32) (before entries : List Instruction) : Prop :=
  ∀ front entry back, entries = front ++ entry :: back →
    Transferred responses (before ++ front) entry

theorem records_nil (responses : List UInt32) (before : List Instruction) :
    Records responses before [] := by
  intro front entry back split
  simp at split

theorem Transferred.records_cons {entry : Instruction} {later : List Instruction}
    (first : Transferred responses before entry)
    (records : Records responses (before ++ [entry]) later) :
    Records responses before (entry :: later) := by
  intro front other back split
  cases front with
  | nil =>
    obtain ⟨rfl, -⟩ := List.cons.inj split
    rwa [List.append_nil]
  | cons head front =>
    obtain ⟨rfl, later_eq⟩ := List.cons.inj split
    rw [List.append_cons]
    exact records front other back later_eq

/-- Entries that are carried out one after the other. -/
theorem Tracks.history {bench : Bench Spi β} {slots : List Slot}
    (tracks : bench.driver.Tracks responses before)
    (plain : ∀ slot ∈ slots, slot.source.echoes = false) :
    Records responses before ((bench.history slots).map Dispatched.entry) ∧
      (bench.after (bench.history slots)).driver.Tracks responses
        (before ++ (bench.history slots).map Dispatched.entry) := by
  induction slots generalizing bench before with
  | nil =>
    refine ⟨records_nil responses before, ?_⟩
    simpa [Bench.history, Bench.after] using tracks
  | cons slot slots induction =>
    obtain ⟨first_plain, plain⟩ := List.forall_mem_cons.mp plain
    obtain ⟨first, tracks⟩ := tracks.dispatch slot.next first_plain
    cases fatal : (bench.dispatch slot.next slot.source).entry.isFatal with
    | true =>
      rw [Bench.history_cons_of_isFatal slots fatal]
      exact ⟨first.records_cons (records_nil _ _), tracks⟩
    | false =>
      obtain ⟨records, tracks⟩ := induction tracks plain
      rw [Bench.history_cons_of_not_isFatal slots fatal, List.map_cons, List.append_cons]
      exact ⟨first.records_cons records, tracks⟩

end Run

end Spi

theorem Token.echoes_of_mem_denote {settings : Settings} {t : Token} {i : Instruction}
    (member : i ∈ t.denote settings) : i.echoes = false := by
  cases t with
  | value l attributes =>
    obtain rfl := List.mem_singleton.mp member
    rfl
  | command symbol op attributes =>
    obtain rfl := List.mem_singleton.mp member
    rfl
  | text chars =>
    obtain ⟨byte, -, rfl⟩ := List.mem_map.mp member
    rfl

theorem Cursor.echoes_of_compile {settings : Settings} {role : Nat → PinRole} {line : Cursor}
    {p : Program} (compiled : (line.compile settings role).1.result = .ok p) :
    ∀ i ∈ p, i.echoes = false := by
  intro i member
  obtain ⟨t, -, -, denoted⟩ := exists_token_of_mem compiled member
  exact Token.echoes_of_mem_denote denoted

namespace Spi

variable {β : Type} [Board β] {responses : List UInt32} {before : List Instruction}

/-- One line: its entries say what they should, and the controller is where they have left it. -/
theorem Tracks.submit {st : Station Spi β} (tracks : st.driver.Tracks responses before)
    (line : Cursor) :
    Records responses before (st.submit line).entries ∧
      (st.submit line).driver.Tracks responses (before ++ (st.submit line).entries) := by
  rcases Station.refused_or_ran line st with ⟨error, -, refused⟩ | ⟨p, -, compiled, ran⟩
  · rw [Handled.entries, refused.result_eq, refused.driver_eq, List.append_nil]
    exact ⟨records_nil responses before, tracks⟩
  · have budgeted := Cursor.budgeted_of_compile st.session.valid compiled
    obtain ⟨entries_eq, bench_eq⟩ :=
      budgeted.run_records_history (st.session.bench st.driver st.board)
    have tracks_bench : (st.session.bench st.driver st.board).driver.Tracks responses before :=
      tracks
    rw [Handled.entries, ran.result_eq, ran.driver_eq]
    show Records responses before (Array.toList _) ∧ Tracks responses (before ++ Array.toList _) _
    rw [entries_eq, bench_eq]
    refine tracks_bench.history fun slot member => ?_
    exact Cursor.echoes_of_compile compiled _ (Program.source_mem_of_mem_unroll member)

/-- The writes and reads of all lines of a session share the responses of an SPI bus in order, and
what came in with a write is shown exactly while the alternative start is the latest. -/
theorem transferred_of_submitAll (s : Session) (board : β) {lines : List Cursor}
    {earlier later : List (Handled Spi β)} {handled : Handled Spi β}
    (handled_eq : Station.submitAll lines
      { session := s, driver := { responses := responses }, board := board } =
        earlier ++ handled :: later) :
    let before := earlier.flatMap Handled.entries
    (∀ front entry back, handled.entries = front ++ entry :: back →
      Transferred responses (before ++ front) entry ∧
        (hasValue entry = true → ∃ out, handled.result = .ok out ∧
          Report.ShowsBeside s.settings front entry
            (if entry.op = .write ∧ latestFraming? (before ++ front) = some .startAlt then
              Report.echoText s.settings (.ofColor s.settings.color) entry
            else []) out.text)) ∧
      (handled.driver.selected = true ↔
        latestFraming? (before ++ handled.entries) = some .start ∨
          latestFraming? (before ++ handled.entries) = some .startAlt) := by
  intro before
  let Holds (before : List Instruction) (st : Station Spi β) : Prop :=
    st.driver.Tracks responses before ∧ st.session.settings = s.settings
  have kept (before : List Instruction) (st : Station Spi β) (line : Cursor)
      (holds : Holds before st) :
      Holds (before ++ (st.submit line).entries) (st.submit line).station :=
    ⟨(holds.1.submit line).2, (Station.settings_submit line st).trans holds.2⟩
  -- The line is handled at a station that the entries of the earlier lines have left.
  obtain ⟨line, found, rfl, tracks, settings_eq⟩ :=
    Station.exists_submit_of_invariant kept ⟨tracks_nil responses, rfl⟩ handled_eq
  rw [List.nil_append] at tracks
  obtain ⟨records, tracks_after⟩ := tracks.submit line
  refine ⟨fun front entry back split => ?_, tracks_after.selected_iff⟩
  have transferred := records front entry back split
  refine ⟨transferred, fun value => ?_⟩
  have member : entry ∈ (found.submit line).entries := by
    rw [split]
    simp
  obtain ⟨out, result_eq, -⟩ := Handled.exists_output_of_mem_entries member
  have text_eq : out.text = Report.render s.settings (front ++ entry :: back) := by
    rw [Station.text_submit result_eq, split, settings_eq]
  have shown := Report.render_showsBeside s.settings front back value
  rw [if_congr transferred.echoes_iff rfl rfl, ← text_eq] at shown
  exact ⟨out, result_eq, shown⟩

/-- One response is queued, which a write of four bits in the first line uses up. In the next line
twelve bits still show what came in, which they sent, and twenty behind a stop get ones. -/
theorem transferred_over_two_lines :
    let s : Session :=
      { settings := {}, valid := Settings.fault?_eq_none_iff.mp rfl, pins := .free 8, tally := ∅ }
    let st : Station Spi SimulatedBoard :=
      { session := s, driver := { responses := [0x11] }, board := .ofCount 8 }
    let opening : Instruction := { op := .startAlt, note := some "CS Enabled" }
    let first : Instruction :=
      { op := .write, sent := 0x5a, bits := 4, hasBits := true, received := 0x1, echoes := true }
    let written : Instruction :=
      { op := .write, sent := 0x1234, bits := 12, hasBits := true, received := 0x234
        echoes := true }
    let closing : Instruction := { op := .stop, note := some "CS Disabled" }
    let fetched : Instruction := { op := .read, bits := 20, hasBits := true, received := 0xfffff }
    ∃ opened closed,
      st.submitAll [.ofString "\x7b 0x5a.4", .ofString "0x1234.12 ] r.20"] = [opened, closed] ∧
      opened.entries = [opening, first] ∧ closed.entries = [written, closing, fetched] ∧
      Transferred [0x11] [opening, first] written ∧
      Transferred [0x11] [opening, first, written, closing] fetched ∧
      closed.driver.selected = false ∧
      ∃ out, closed.result = .ok out ∧
        Report.ShowsBeside {} [] written "(0x0234.12)".toList out.text := by
  intro s st opening first written closing fetched
  let p : Program :=
    [{ op := .startAlt }, { op := .write, sent := 0x5a, bits := 4, hasBits := true }]
  let q : Program :=
    [{ op := .write, sent := 0x1234, bits := 12, hasBits := true }, { op := .stop },
      { op := .read, bits := 20, hasBits := true }]
  let opened := st.submit (.ofString "\x7b 0x5a.4")
  let closed := opened.station.submit (.ofString "0x1234.12 ] r.20")
  have opened_compiled (role : Nat → PinRole) :
      ((Cursor.ofString "\x7b 0x5a.4").compile {} role).1.result = .ok p := by
    cbv
  have closed_compiled (role : Nat → PinRole) :
      ((Cursor.ofString "0x1234.12 ] r.20").compile {} role).1.result = .ok q := by
    cbv
  have opened_ran : s.Ran p st.driver st.board opened :=
    Session.ran_of_compile st.driver st.board (opened_compiled _) (by decide)
  have closed_ran : opened.session.Ran q opened.driver opened.board closed := by
    refine Session.ran_of_compile opened.driver opened.board ?_ (by decide)
    rw [opened_ran.session_eq]
    exact closed_compiled _
  have opened_eq : opened.entries = [opening, first] := by
    rw [Handled.entries, opened_ran.result_eq]
    decide +kernel
  have closed_eq : closed.entries = [written, closing, fetched] := by
    rw [Handled.entries, closed_ran.result_eq, opened_ran.session_eq, opened_ran.driver_eq,
      opened_ran.board_eq]
    decide +kernel
  have before_eq : [opened].flatMap Handled.entries = [opening, first] := by
    rw [List.flatMap_singleton, opened_eq]
  have split : st.submitAll [.ofString "\x7b 0x5a.4", .ofString "0x1234.12 ] r.20"] =
    [opened] ++ closed :: [] := rfl
  obtain ⟨each, selected_iff⟩ := transferred_of_submitAll s (SimulatedBoard.ofCount 8) split
  rw [before_eq, closed_eq] at selected_iff
  rw [before_eq] at each
  obtain ⟨written_eq, shown⟩ := each [] written [closing, fetched] closed_eq
  obtain ⟨fetched_eq, -⟩ := each [written, closing] fetched [] closed_eq
  refine ⟨opened, closed, split, opened_eq, closed_eq, written_eq, fetched_eq, ?_, ?_⟩
  · rw [← Bool.not_eq_true, selected_iff]
    decide
  · obtain ⟨out, result_eq, shown⟩ := shown rfl
    have echo_eq : Report.echoText s.settings (.ofColor s.settings.color) written =
        "(0x0234.12)".toList := by
      decide
    rw [if_pos (by decide), echo_eq] at shown
    exact ⟨out, result_eq, shown⟩

end Spi

end BusScript
