import BusScript.Bus.Dummy
import BusScript.Proofs.Execution.Unbounded
import BusScript.Proofs.Execution.Unroll
import Mathlib.Data.List.Basic

/-!
# The calls of a run

What a program asks of the bus can be read off the program: instruction by instruction, so many
requests of one kind, and with the last read of an instruction what comes behind it. A recorder in
front of a bus notes what it is asked for. A run makes the requests of its program in their order,
up to and with those for the first entry that is fatal.
-/

namespace BusScript

/-- What a bus is asked for, and the instruction it is told comes next. -/
structure Request where
  capability : Capability
  next : Option Instruction := none
deriving DecidableEq, Repr

/-- What an instruction asks of the bus, given the instruction behind it. -/
def Instruction.requests (next : Option Instruction) (i : Instruction) : List Request :=
  match i.op with
  | .write => List.replicate (max i.repeats 1) { capability := .write }
  | .read =>
    List.replicate (max i.repeats 1 - 1) { capability := .read } ++
      [{ capability := .read, next := next }]
  | .readBit => List.replicate (max i.repeats 1) { capability := .readBit }
  | .tickClock => List.replicate i.repeats { capability := .tickClock }
  | .start => [{ capability := .start }]
  | .stop => [{ capability := .stop }]
  | .startAlt => [{ capability := .startAlt }]
  | .stopAlt => [{ capability := .stopAlt }]
  | .clockHigh => [{ capability := .clockHigh }]
  | .clockLow => [{ capability := .clockLow }]
  | .dataHigh => [{ capability := .dataHigh }]
  | .dataLow => [{ capability := .dataLow }]
  | .delayUs | .delayMs | .outputHigh | .outputLow | .input | .sample => []

/-- What a program asks of the bus. -/
def Program.requests : Program → List Request
  | [] => []
  | i :: rest => i.requests rest.head? ++ requests rest

/-- What one slot of a program asks of the bus. -/
def Slot.requests (slot : Slot) : List Request :=
  match slot.source.op.capability? with
  | none => []
  | some .tickClock => List.replicate slot.source.repeats { capability := .tickClock }
  | some .read => [{ capability := .read, next := slot.next }]
  | some capability => [{ capability := capability }]

/-- An entry has what the script said about an instruction: everything but the outcome. -/
structure Instruction.KeepsSource (source entry : Instruction) : Prop where
  op_eq : entry.op = source.op
  radix_eq : entry.radix = source.radix
  bits_eq : entry.bits = source.bits
  repeats_eq : entry.repeats = source.repeats
  pin_eq : entry.pin = source.pin
  hasBits_eq : entry.hasBits = source.hasBits
  hasRepeats_eq : entry.hasRepeats = source.hasRepeats
  sent_eq : entry.sent = source.sent

/-- A bus that fills in outcomes: the value that came in, whether it is shown beside a write, the
remark and the note. It leaves alone what the script said. -/
def Driver.FillsOutcomes (σ : Type) [Driver σ] : Prop :=
  ∀ (capability : Capability) (next : Option Instruction) (entry : Instruction) (bus : σ),
    entry.KeepsSource (Driver.perform capability next entry bus).1

namespace Instruction.KeepsSource

theorem refl (i : Instruction) : i.KeepsSource i := ⟨rfl, rfl, rfl, rfl, rfl, rfl, rfl, rfl⟩

theorem trans {a b c : Instruction} (first : a.KeepsSource b) (second : b.KeepsSource c) :
    a.KeepsSource c where
  op_eq := second.op_eq.trans first.op_eq
  radix_eq := second.radix_eq.trans first.radix_eq
  bits_eq := second.bits_eq.trans first.bits_eq
  repeats_eq := second.repeats_eq.trans first.repeats_eq
  pin_eq := second.pin_eq.trans first.pin_eq
  hasBits_eq := second.hasBits_eq.trans first.hasBits_eq
  hasRepeats_eq := second.hasRepeats_eq.trans first.hasRepeats_eq
  sent_eq := second.sent_eq.trans first.sent_eq

theorem flag (severity : Severity) (text : String) (i : Instruction) :
    i.KeepsSource (i.flag severity text) := ⟨rfl, rfl, rfl, rfl, rfl, rfl, rfl, rfl⟩

theorem annotate (text : String) (i : Instruction) : i.KeepsSource (i.annotate text) :=
  ⟨rfl, rfl, rfl, rfl, rfl, rfl, rfl, rfl⟩

theorem receive (value : UInt32) (i : Instruction) : i.KeepsSource (i.receive value) :=
  ⟨rfl, rfl, rfl, rfl, rfl, rfl, rfl, rfl⟩

end Instruction.KeepsSource

theorem Dummy.fillsOutcomes : Driver.FillsOutcomes Dummy := by
  intro capability next entry bus
  show entry.KeepsSource (bus.respond capability entry)
  cases capability with
  | write =>
    rw [respond]
    split
    · exact .flag _ _ _
    · exact .annotate _ _
  | read | readBit => exact (Instruction.KeepsSource.receive _ _).trans (.annotate _ _)
  | _ => exact .annotate _ _

/-! ### The requests of a program, slot by slot -/

/-- Slots of one kind, one for each repeat, make so many requests of one kind. -/
theorem Instruction.flatMap_range_eq_replicate {n : Nat} {request : Request}
    {requests : Nat → List Request} (single : ∀ k < n, requests k = [request]) :
    (List.range n).flatMap requests = List.replicate n request := by
  rw [List.flatMap_congr fun k member => single k (List.mem_range.mp member),
    ← List.map_eq_flatMap, List.map_const', List.length_range]

theorem Instruction.flatMap_requests_slots (index : Nat) (next : Option Instruction)
    (i : Instruction) : (i.slots index next).flatMap Slot.requests = i.requests next := by
  rw [Instruction.slots, List.flatMap_map]
  unfold Instruction.requests
  cases op_eq : i.op with
  | write | readBit =>
    have expansion_eq : i.expansion = max i.repeats 1 := by
      rw [expansion, op_eq]
      rfl
    rw [expansion_eq]
    refine flatMap_range_eq_replicate fun k _ => ?_
    simp only [Slot.requests, op_eq, Operation.capability?]
  | read =>
    obtain ⟨n, count_eq⟩ : ∃ n, max i.repeats 1 = n + 1 := ⟨max i.repeats 1 - 1, by omega⟩
    have expansion_eq : i.expansion = n + 1 := by
      rw [← count_eq, expansion, op_eq]
      rfl
    rw [expansion_eq, count_eq, List.range_succ, List.flatMap_append, List.flatMap_singleton,
      Nat.add_sub_cancel]
    congr 1
    · refine flatMap_range_eq_replicate fun k small => ?_
      simp only [Slot.requests, op_eq, Operation.capability?, if_neg (show k + 1 ≠ n + 1 by omega)]
    · simp only [Slot.requests, op_eq, Operation.capability?, if_true]
  | _ =>
    have expansion_eq : i.expansion = 1 := by
      rw [expansion, op_eq]
      rfl
    rw [expansion_eq, List.range_one, List.flatMap_singleton]
    simp only [Slot.requests, op_eq, Operation.capability?]

theorem Program.flatMap_requests_unrollFrom (index : Nat) (p : Program) :
    (p.unrollFrom index).flatMap Slot.requests = p.requests := by
  induction p generalizing index with
  | nil => rfl
  | cons i rest induction =>
    rw [unrollFrom, List.flatMap_append, Instruction.flatMap_requests_slots, induction (index + 1)]
    rfl

/-! ### Recorders -/

/-- One use of a bus, with the entry that it was given and the entry that it gave back. -/
structure Call where
  request : Request
  given : Instruction
  returned : Instruction
deriving DecidableEq, Repr

/-- A bus and what it was used for so far. -/
structure Recorder (σ : Type) where
  bus : σ
  calls : List Call := []

/-- A recorder does what its bus does, and notes it. -/
instance {σ : Type} [Driver σ] : Driver (Recorder σ) where
  name r := Driver.name r.bus
  preflight r :=
    let (bus, events) := Driver.preflight r.bus
    ({ r with bus := bus }, events)
  waitDone r := { r with bus := Driver.waitDone r.bus }
  perform capability next entry r :=
    let (returned, bus) := Driver.perform capability next entry r.bus
    let call : Call :=
      { request := { capability := capability, next := next }
        given := entry
        returned := returned }
    (returned, { bus := bus, calls := r.calls ++ [call] })

/-- An entry goes through calls one after the other: each is given what the one before it gave
back. -/
inductive Call.Passes (source : Instruction) : List Call → Instruction → Prop
  | start : Passes source [] source
  | call {calls : List Call} {entry : Instruction} (before : Passes source calls entry) (c : Call)
      (given_eq : c.given = entry) : Passes source (calls ++ [c]) c.returned

/-- An entry of a trace, and the calls that were made for it. -/
structure Service where
  entry : Instruction
  calls : List Call

/-- A slot is carried out by a service: the calls are those that the slot asks for, the entry goes
through all of them, and it has what the script says. -/
structure Slot.ServedBy (slot : Slot) (service : Service) : Prop where
  requests_eq : service.calls.map Call.request = slot.requests
  passes : slot.requests ≠ [] → Call.Passes slot.source service.calls service.entry
  keepsSource : slot.source.KeepsSource service.entry

namespace Bench

variable {σ β : Type}

/-- The bench with a recorder in front of the bus. -/
def recorded (bench : Bench σ β) (calls : List Call) : Bench (Recorder σ) β where
  driver := { bus := bench.driver, calls := calls }
  board := bench.board
  pins := bench.pins
  tally := bench.tally

variable [Driver σ]

/-- An entry and a bus behind so many pulses of the clock. -/
def pulses (n : Nat) (entry : Instruction) (bus : σ) : Instruction × σ :=
  Nat.repeat (fun state => Driver.perform .tickClock none state.1 state.2) n (entry, bus)

theorem pulses_succ (n : Nat) (entry : Instruction) (bus : σ) :
    pulses (n + 1) entry bus =
      Driver.perform .tickClock none (pulses n entry bus).1 (pulses n entry bus).2 := rfl

theorem tick_eq_pulses (entry : Instruction) (bench : Bench σ β) :
    bench.tick entry =
      { entry := (pulses entry.repeats entry bench.driver).1
        bench := { bench with driver := (pulses entry.repeats entry bench.driver).2 } } := rfl

/-- A recorder notes every pulse of the clock, and that all of them are given the same entry. -/
theorem exists_calls_of_pulses (fills : Driver.FillsOutcomes σ) (entry : Instruction) (bus : σ)
    (log : List Call) (n : Nat) :
    ∃ calls,
      pulses n entry ({ bus := bus, calls := log } : Recorder σ) =
        ((pulses n entry bus).1, { bus := (pulses n entry bus).2, calls := log ++ calls }) ∧
      calls.map Call.request = List.replicate n { capability := .tickClock } ∧
      Call.Passes entry calls (pulses n entry bus).1 ∧
      entry.KeepsSource (pulses n entry bus).1 := by
  induction n with
  | zero => exact ⟨[], by simp [pulses, Nat.repeat], rfl, .start, .refl entry⟩
  | succ n induction =>
    obtain ⟨calls, state_eq, requests_eq, passes, kept⟩ := induction
    let last : Call :=
      { request := { capability := .tickClock }
        given := (pulses n entry bus).1
        returned := (pulses (n + 1) entry bus).1 }
    refine ⟨calls ++ [last], ?_, ?_, passes.call last rfl, kept.trans (fills _ _ _ _)⟩
    · rw [pulses_succ, state_eq, ← List.append_assoc]
      rfl
    · rw [List.map_append, requests_eq, List.replicate_succ']
      rfl

theorem servedBy_of_perform (fills : Driver.FillsOutcomes σ) {slot : Slot} (request : Request)
    (requests_eq : slot.requests = [request]) (bus : σ) :
    let returned := (Driver.perform request.capability request.next slot.source bus).1
    slot.ServedBy
      { entry := returned
        calls := [{ request := request, given := slot.source, returned := returned }] } where
  requests_eq := requests_eq.symm
  passes _ := Call.Passes.start.call ⟨request, slot.source, _⟩ rfl
  keepsSource := fills _ _ _ _

/-- An entry that is no matter of the bus is served without a call. -/
theorem servedBy_nil {slot : Slot} (idle : slot.source.op.capability? = none) {entry : Instruction}
    (kept : slot.source.KeepsSource entry) : slot.ServedBy { entry := entry, calls := [] } where
  requests_eq := by rw [Slot.requests, idle]; rfl
  passes asked := by
    rw [Slot.requests, idle] at asked
    contradiction
  keepsSource := kept

variable [Board β]

theorem exists_service_of_execute (fills : Driver.FillsOutcomes σ) (slot : Slot)
    (bench : Bench σ β) (log : List Call) :
    ∃ service, slot.ServedBy service ∧
      service.entry = (bench.execute slot.next slot.source).entry ∧
      ((bench.recorded log).execute slot.next slot.source).entry = service.entry ∧
      ((bench.recorded log).execute slot.next slot.source).bench =
        (bench.execute slot.next slot.source).bench.recorded (log ++ service.calls) := by
  rw [execute, execute]
  cases op_eq : slot.source.op with
  | tickClock =>
    obtain ⟨calls, state_eq, requests_eq, passes, kept⟩ :=
      exists_calls_of_pulses fills slot.source bench.driver log slot.source.repeats
    have served : slot.ServedBy
        { entry := (pulses slot.source.repeats slot.source bench.driver).1, calls := calls } := by
      refine ⟨?_, fun _ => passes, kept⟩
      simp only [requests_eq, Slot.requests, op_eq, Operation.capability?]
    refine ⟨_, served, rfl, ?_, ?_⟩
    · simp only [tick_eq_pulses, recorded, state_eq]
    · simp only [tick_eq_pulses, recorded, state_eq]
  | write | read | start | stop | startAlt | stopAlt | clockHigh | clockLow | dataHigh | dataLow
  | readBit =>
    refine ⟨_, servedBy_of_perform fills ⟨_, _⟩ ?_ bench.driver, rfl, rfl, rfl⟩
    rw [Slot.requests, op_eq]
    rfl
  | delayUs | delayMs | outputHigh | outputLow | input | sample =>
    refine ⟨_, servedBy_nil (by rw [op_eq]; rfl) ?_, rfl, rfl, ?_⟩
    · exact ⟨rfl, rfl, rfl, rfl, rfl, rfl, rfl, rfl⟩
    · rw [List.append_nil]
      rfl

/-- A recorder changes nothing about how a slot is carried out, and notes its calls. -/
theorem exists_service_of_dispatch (fills : Driver.FillsOutcomes σ) (slot : Slot)
    (bench : Bench σ β) (log : List Call) :
    ∃ service, slot.ServedBy service ∧
      service.entry = (bench.dispatch slot.next slot.source).entry ∧
      ((bench.recorded log).dispatch slot.next slot.source).entry = service.entry ∧
      ((bench.recorded log).dispatch slot.next slot.source).bench =
        (bench.dispatch slot.next slot.source).bench.recorded (log ++ service.calls) := by
  obtain ⟨service, served, entry_eq, recorded_entry, recorded_bench⟩ :=
    exists_service_of_execute fills slot bench log
  refine ⟨service, served, entry_eq, recorded_entry, ?_⟩
  rw [dispatch]
  simp only [recorded_bench]
  rfl

/-- A recorder changes nothing about a history, and notes the calls of its slots. -/
theorem exists_services_of_history (fills : Driver.FillsOutcomes σ) (slots : List Slot)
    (bench : Bench σ β) (log : List Call) :
    ∃ services : List Service,
      services.map Service.entry = (bench.history slots).map Dispatched.entry ∧
      ((bench.recorded log).history slots).map Dispatched.entry = services.map Service.entry ∧
      (bench.recorded log).after ((bench.recorded log).history slots) =
        (bench.after (bench.history slots)).recorded (log ++ services.flatMap Service.calls) ∧
      List.Forall₂ Slot.ServedBy (slots.take services.length) services := by
  induction slots generalizing bench log with
  | nil => exact ⟨[], rfl, rfl, by simp [history, after], .nil⟩
  | cons slot slots induction =>
    obtain ⟨service, served, entry_eq, recorded_entry, recorded_bench⟩ :=
      exists_service_of_dispatch fills slot bench log
    cases fatal : (bench.dispatch slot.next slot.source).entry.isFatal with
    | true =>
      have recorded_fatal :
          ((bench.recorded log).dispatch slot.next slot.source).entry.isFatal = true := by
        rw [recorded_entry, entry_eq, fatal]
      rw [history_cons_of_isFatal slots fatal, history_cons_of_isFatal slots recorded_fatal]
      refine ⟨[service], ?_, ?_, ?_, .cons served .nil⟩
      · rw [List.map_singleton, List.map_singleton, entry_eq]
      · rw [List.map_singleton, List.map_singleton, recorded_entry]
      · rw [after, after, recorded_bench, after, after, List.flatMap_singleton]
    | false =>
      have recorded_mild :
          ((bench.recorded log).dispatch slot.next slot.source).entry.isFatal = false := by
        rw [recorded_entry, entry_eq, fatal]
      rw [history_cons_of_not_isFatal slots fatal, history_cons_of_not_isFatal slots recorded_mild]
      obtain ⟨services, entries_eq, recorded_entries, recorded_after, all_served⟩ :=
        induction (bench.dispatch slot.next slot.source).bench (log ++ service.calls)
      refine ⟨service :: services, ?_, ?_, ?_, .cons served all_served⟩
      · rw [List.map_cons, List.map_cons, entries_eq, entry_eq]
      · rw [List.map_cons, List.map_cons, recorded_bench, recorded_entries, recorded_entry]
      · rw [after, after, recorded_bench, recorded_after, List.flatMap_cons, List.append_assoc]

end Bench

namespace Program

variable {σ β : Type} [Driver σ] [Board β]

/-- A run that does not reach the last place of its trace records the history of its program. -/
theorem length_history_lt_of_size_lt {p : Program} {bench : Bench σ β} {capacity : Nat}
    (room : (p.run capacity bench).trace.entries.size < capacity) :
    (bench.history p.unroll).length < capacity := by
  by_contra long
  obtain ⟨places, rfl⟩ : ∃ places, capacity = places + 1 := ⟨capacity - 1, by omega⟩
  have longer : places < (bench.history p.unroll).length := by omega
  obtain ⟨slot, -, entries_eq, -⟩ := run_of_lt_length_history longer
  rw [← Array.length_toList, entries_eq, List.length_append, List.length_map, List.length_take,
    List.length_singleton] at room
  omega

theorem map_request_of_servedBy {slots : List Slot} {services : List Service}
    (served : List.Forall₂ Slot.ServedBy slots services) :
    (services.flatMap Service.calls).map Call.request = slots.flatMap Slot.requests := by
  induction served with
  | nil => rfl
  | cons first _ induction =>
    rw [List.flatMap_cons, List.map_append, first.requests_eq, induction, List.flatMap_cons]

/-- The requests that are made for the first slots of a program are its first requests. -/
theorem map_request_eq_take {p : Program} {services : List Service}
    (served : List.Forall₂ Slot.ServedBy (p.unroll.take services.length) services) :
    (services.flatMap Service.calls).map Call.request =
      p.requests.take (services.flatMap Service.calls).length := by
  have split_eq : p.requests = (p.unroll.take services.length).flatMap Slot.requests ++
      (p.unroll.drop services.length).flatMap Slot.requests := by
    rw [← List.flatMap_append, List.take_append_drop, unroll, flatMap_requests_unrollFrom]
  have length_eq : (services.flatMap Service.calls).length =
      ((services.flatMap Service.calls).map Call.request).length := (List.length_map _).symm
  rw [length_eq, map_request_of_servedBy served, split_eq, List.take_left]

/-- A recorder in front of a bus that fills in outcomes shows that a run asks for what its program
asks for, in that order, up to and with the calls for the first fatal entry. -/
theorem calls_of_run (fills : Driver.FillsOutcomes σ) (p : Program) (bench : Bench σ β)
    {capacity : Nat} (room : (p.run capacity bench).trace.entries.size < capacity) :
    ∃ services : List Service,
      (p.run capacity bench).trace.entries.toList = services.map Service.entry ∧
      (p.run capacity (bench.recorded [])).trace.entries.toList = services.map Service.entry ∧
      (p.run capacity (bench.recorded [])).bench =
        (p.run capacity bench).bench.recorded (services.flatMap Service.calls) ∧
      (services.flatMap Service.calls).map Call.request =
        p.requests.take (services.flatMap Service.calls).length ∧
      ((∀ service ∈ services, service.entry.severity ≠ .error) →
        (services.flatMap Service.calls).map Call.request = p.requests) ∧
      (∀ service ∈ services.dropLast, service.entry.severity ≠ .error) ∧
      List.Forall₂ Slot.ServedBy (p.unroll.take services.length) services := by
  obtain ⟨services, entries_eq, recorded_entries, recorded_after, served⟩ :=
    Bench.exists_services_of_history fills p.unroll bench []
  have short := length_history_lt_of_size_lt room
  have length_eq : services.length = (bench.history p.unroll).length := by
    simpa using congrArg List.length entries_eq
  have recorded_short : ((bench.recorded []).history p.unroll).length < capacity := by
    have recorded_length := congrArg List.length recorded_entries
    rw [List.length_map, List.length_map, length_eq] at recorded_length
    rwa [recorded_length]
  obtain ⟨trace_eq, bench_eq⟩ := run_of_length_history_lt short
  obtain ⟨recorded_trace_eq, recorded_bench_eq⟩ := run_of_length_history_lt recorded_short
  refine ⟨services, ?_, ?_, ?_, map_request_eq_take served, ?_, ?_, served⟩
  · rw [trace_eq, entries_eq]
  · rw [recorded_trace_eq, recorded_entries]
  · rw [recorded_bench_eq, bench_eq, recorded_after, List.nil_append]
  · intro mild
    have all_mild : ∀ done ∈ bench.history p.unroll, done.entry.isFatal = false := by
      intro done member
      have inside : done.entry ∈ services.map Service.entry :=
        entries_eq ▸ List.mem_map_of_mem member
      obtain ⟨service, served, entry_eq⟩ := List.mem_map.mp inside
      rw [← Bool.not_eq_true, Instruction.isFatal, Severity.isFatal_iff, ← entry_eq]
      exact mild service served
    rw [Bench.length_history_of_forall_not_isFatal all_mild] at length_eq
    rw [length_eq, List.take_length] at served
    rw [map_request_of_servedBy served, unroll, flatMap_requests_unrollFrom]
  · intro service early
    have inside : service.entry ∈ (bench.history p.unroll).dropLast.map Dispatched.entry := by
      rw [List.map_dropLast, ← entries_eq, ← List.map_dropLast]
      exact List.mem_map_of_mem early
    obtain ⟨done, done_early, entry_eq⟩ := List.mem_map.mp inside
    rw [← entry_eq, Ne, ← Severity.isFatal_iff, Bool.not_eq_true]
    exact Bench.not_isFatal_of_mem_dropLast_history done_early

/-- Two reads, three pulses of the clock and a stop: only the second read is told of the pulses, and
these share an entry. -/
theorem calls_of_reads_pulses_and_stop :
    let pulses : Instruction := { op := .tickClock, repeats := 3 }
    let p : Program := [{ op := .read, repeats := 2 }, pulses, { op := .stop }]
    let bench : Bench Dummy SimulatedBoard :=
      { driver := {}, board := .ofCount 8, pins := .free 8, tally := ∅ }
    Driver.FillsOutcomes Dummy ∧ (p.run 16 bench).trace.entries.size < 16 ∧
      (p.run 16 bench).trace.entries.size = 4 ∧
      (p.run 16 (bench.recorded [])).bench.driver.calls.map Call.request =
        [⟨.read, none⟩, ⟨.read, some pulses⟩, ⟨.tickClock, none⟩, ⟨.tickClock, none⟩,
          ⟨.tickClock, none⟩, ⟨.stop, none⟩] := by
  intro pulses p bench
  have size_eq : (p.run 16 bench).trace.entries.size = 4 := by decide +kernel
  have room : (p.run 16 bench).trace.entries.size < 16 := by omega
  obtain ⟨services, entries_eq, -, recorded_eq, -, all_made, -, -⟩ :=
    calls_of_run Dummy.fillsOutcomes p bench room
  have entries_mild : ∀ entry ∈ (p.run 16 bench).trace.entries.toList, entry.severity ≠ .error := by
    decide +kernel
  have mild : ∀ service ∈ services, service.entry.severity ≠ .error := fun service member =>
    entries_mild service.entry (entries_eq ▸ List.mem_map_of_mem member)
  refine ⟨Dummy.fillsOutcomes, room, size_eq, ?_⟩
  rw [recorded_eq]
  exact all_made mild

end Program

end BusScript
