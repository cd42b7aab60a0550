import BusScript.Bus.I2c
import BusScript.Proofs.Bus.Uses
import Mathlib.Data.List.Induction

/-!
# Transfers on an I2C bus

What an I2C bus does next depends on the bytes that were written since the latest start. The first
of them is an address, and from then on only the device that answers to it is written or read. On a
stuck bus nothing is ever started.
-/

namespace BusScript

/-- Whether a capability opens a transfer. -/
def Capability.opens : Capability → Bool
  | start | startAlt => true
  | _ => false

/-- Whether a capability closes a transfer. -/
def Capability.closes : Capability → Bool
  | stop | stopAlt => true
  | _ => false

namespace Use

/-- The byte that a use sends. -/
def byte (use : Use) : UInt8 :=
  use.entry.sent.toUInt8

/-- The byte that a use sends, if it is a write. -/
def byte? (use : Use) : Option UInt8 :=
  if use.capability = .write then some use.byte else none

/-- Whether a bus was started and not stopped since. -/
def StartedSinceStop (uses : List Use) : Prop :=
  ∃ before opening after, uses = before ++ opening :: after ∧ opening.capability.opens = true ∧
    ∀ use ∈ after, use.capability.closes = false

/-- Whether a byte is the first that was written since the latest start, with no stop behind that
start. -/
def IsFirstByte (uses : List Use) (first : UInt8) : Prop :=
  ∃ before opening after, uses = before ++ opening :: after ∧ opening.capability.opens = true ∧
    (∀ use ∈ after, use.capability.opens = false ∧ use.capability.closes = false) ∧
    (after.filterMap byte?).head? = some first

/-- What a use does to the bytes that were written since the latest start. -/
def extend (bytes : Option (List UInt8)) (use : Use) : Option (List UInt8) :=
  match use.capability with
  | .start | .startAlt => some []
  | .stop | .stopAlt => none
  | .write => bytes.map (· ++ [use.byte])
  | _ => bytes

/-- The bytes that were written since the latest start, unless a stop came behind it. -/
def transfer? (uses : List Use) : Option (List UInt8) :=
  uses.foldl extend none

theorem transfer?_concat (uses : List Use) (use : Use) :
    transfer? (uses ++ [use]) = extend (transfer? uses) use := by
  rw [transfer?, List.foldl_concat]
  rfl

theorem extend_of_opens {use : Use} (opens : use.capability.opens = true)
    (bytes : Option (List UInt8)) : extend bytes use = some [] := by
  obtain ⟨⟨capability, next⟩, entry⟩ := use
  cases capability <;> first
    | rfl
    | contradiction

theorem extend_of_closes {use : Use} (closes : use.capability.closes = true)
    (bytes : Option (List UInt8)) : extend bytes use = none := by
  obtain ⟨⟨capability, next⟩, entry⟩ := use
  cases capability <;> first
    | rfl
    | contradiction

theorem extend_of_not_frames {use : Use} (not_opens : use.capability.opens = false)
    (not_closes : use.capability.closes = false) (bytes : Option (List UInt8)) :
    extend bytes use = bytes.map (· ++ use.byte?.toList) := by
  obtain ⟨⟨capability, next⟩, entry⟩ := use
  cases capability with
  | start | startAlt | stop | stopAlt => contradiction
  | _ => cases bytes <;> simp [extend, byte?]

theorem exists_of_transfer?_eq_some {uses : List Use} {bytes : List UInt8}
    (open_eq : transfer? uses = some bytes) :
    ∃ before opening after, uses = before ++ opening :: after ∧ opening.capability.opens = true ∧
      (∀ use ∈ after, use.capability.opens = false ∧ use.capability.closes = false) ∧
      bytes = after.filterMap byte? := by
  induction uses using List.reverseRecOn generalizing bytes with
  | nil => contradiction
  | append_singleton uses use induction =>
    rw [transfer?_concat] at open_eq
    -- The latest start is the last use, or else the latest start before it.
    cases opens : use.capability.opens with
    | true =>
      obtain rfl := Option.some.inj ((extend_of_opens opens _).symm.trans open_eq)
      exact ⟨uses, use, [], rfl, opens, by simp, rfl⟩
    | false =>
      have not_closes : use.capability.closes = false := by
        refine Bool.eq_false_iff.mpr fun closes => ?_
        rw [extend_of_closes closes] at open_eq
        contradiction
      rw [extend_of_not_frames opens not_closes, Option.map_eq_some_iff] at open_eq
      obtain ⟨earlier, earlier_eq, rfl⟩ := open_eq
      obtain ⟨before, opening, after, rfl, is_start, inside, rfl⟩ := induction earlier_eq
      refine ⟨before, opening, after ++ [use], by simp, is_start, ?_, ?_⟩
      · simp only [List.mem_append, List.mem_singleton]
        rintro other (early | rfl)
        · exact inside other early
        · exact ⟨opens, not_closes⟩
      · cases written_eq : use.byte? <;> simp [written_eq]

theorem isSome_transfer?_iff (uses : List Use) :
    (transfer? uses).isSome = true ↔ StartedSinceStop uses := by
  constructor
  · intro started
    obtain ⟨bytes, open_eq⟩ := Option.isSome_iff_exists.mp started
    obtain ⟨before, opening, after, uses_eq, opens, inside, -⟩ :=
      exists_of_transfer?_eq_some open_eq
    exact ⟨before, opening, after, uses_eq, opens, fun use member => (inside use member).2⟩
  · rintro ⟨before, opening, after, rfl, opens, unclosed⟩
    -- What is behind the start may start again, but nothing there closes what is open.
    have stays (bytes : Option (List UInt8)) (started : bytes.isSome = true) :
        (after.foldl extend bytes).isSome = true := by
      induction after generalizing bytes with
      | nil => exact started
      | cons use after induction =>
        obtain ⟨first, unclosed⟩ := List.forall_mem_cons.mp unclosed
        refine induction unclosed _ ?_
        cases opens : use.capability.opens with
        | true => rw [extend_of_opens opens, Option.isSome_some]
        | false => rwa [extend_of_not_frames opens first, Option.isSome_map]
    rw [transfer?, List.foldl_append, List.foldl_cons, extend_of_opens opens]
    exact stays _ rfl

end Use

namespace I2c

/-- The index of the first device with exactly this address. -/
def device? (bus : I2c) (address : UInt8) : Option Nat :=
  bus.targets.findIdx? fun t => t.address == address

/-- The phase of a bus, given the bytes that were written since the latest start. The upper seven
bits of the first are the address of the device that answers. -/
def phaseOf (bus : I2c) : Option (List UInt8) → Phase
  | none => .idle
  | some [] => .address
  | some (first :: later) =>
    match bus.device? (first >>> 1) with
    | some target => .addressed target !later.isEmpty
    | none => .unanswered

/-! ### One use -/

theorem bus_perform (use : Use) (bus : I2c) :
    (use.perform bus).2 =
      match use.capability with
      | .write => (bus.writeByte use.byte).2
      | .read => bus.readByte.2
      | .start | .startAlt => (bus.start use.entry).2
      | .stop | .stopAlt => (bus.stop use.entry).2
      | .tickClock | .clockHigh | .clockLow | .dataHigh | .dataLow | .readBit => bus := by
  obtain ⟨⟨capability, next⟩, entry⟩ := use
  cases capability <;> rfl

theorem perform_of_opens {use : Use} (opens : use.capability.opens = true) (bus : I2c) :
    use.perform bus = bus.start use.entry := by
  obtain ⟨⟨capability, next⟩, entry⟩ := use
  cases capability <;> first
    | rfl
    | contradiction

theorem perform_of_closes {use : Use} (closes : use.capability.closes = true) (bus : I2c) :
    use.perform bus = bus.stop use.entry := by
  obtain ⟨⟨capability, next⟩, entry⟩ := use
  cases capability <;> first
    | rfl
    | contradiction

theorem start_of_free {bus : I2c} (free : bus.stuck = false) (entry : Instruction) :
    (bus.start entry).2 = { bus with startSent := true, phase := .address } := by
  rw [start]
  exact if_neg (by simp [free])

theorem start_of_stuck {bus : I2c} (stuck : bus.stuck = true) (entry : Instruction) :
    (bus.start entry).2 = bus := by
  rw [start]
  exact if_pos stuck

theorem frame_start (entry : Instruction) (bus : I2c) :
    (bus.start entry).2.targets = bus.targets ∧ (bus.start entry).2.stuck = bus.stuck := by
  cases stuck_eq : bus.stuck with
  | true => rw [start_of_stuck stuck_eq, stuck_eq]; exact ⟨rfl, rfl⟩
  | false => rw [start_of_free stuck_eq, stuck_eq]; exact ⟨rfl, rfl⟩

/-- A byte that is written changes at most a device, the pointer and the phase. -/
theorem frame_writeByte (byte : UInt8) (bus : I2c) :
    (bus.writeByte byte).2.stuck = bus.stuck ∧
      (bus.writeByte byte).2.startSent = bus.startSent := by
  rw [writeByte]
  split
  · split <;> exact ⟨rfl, rfl⟩
  all_goals exact ⟨rfl, rfl⟩

/-- Reading moves the pointer and nothing else. -/
theorem frame_readByte (bus : I2c) :
    bus.readByte.2.targets = bus.targets ∧ bus.readByte.2.stuck = bus.stuck ∧
      bus.readByte.2.startSent = bus.startSent ∧ bus.readByte.2.phase = bus.phase := by
  rw [readByte]
  split <;> exact ⟨rfl, rfl, rfl, rfl⟩

/-- A byte that is written changes no register but of a device whose pointer was given. -/
theorem targets_writeByte (byte : UInt8) (bus : I2c) :
    (bus.writeByte byte).2.targets = bus.targets ∨
      ∃ k, bus.phase = .addressed k true ∧
        (bus.writeByte byte).2.targets =
          bus.targets.modify k fun t => t.setRegister bus.pointer byte := by
  rw [writeByte]
  cases phase_eq : bus.phase with
  | address =>
    left
    dsimp only
    split <;> rfl
  | addressed k given =>
    cases given with
    | false => exact .inl rfl
    | true => exact .inr ⟨k, rfl, rfl⟩
  | idle | unanswered => exact .inl rfl

theorem stuck_perform (use : Use) (bus : I2c) : (use.perform bus).2.stuck = bus.stuck := by
  rw [bus_perform]
  cases use.capability with
  | write => exact (frame_writeByte _ bus).1
  | read => exact (frame_readByte bus).2.1
  | start | startAlt => exact (frame_start use.entry bus).2
  | _ => rfl

/-- A use changes no register unless it writes to a device whose pointer was given. -/
theorem targets_perform (use : Use) (bus : I2c) :
    (use.perform bus).2.targets = bus.targets ∨
      use.capability = .write ∧ ∃ k, bus.phase = .addressed k true ∧
        (use.perform bus).2.targets =
          bus.targets.modify k fun t => t.setRegister bus.pointer use.byte := by
  rw [bus_perform]
  cases use.capability with
  | write => exact (targets_writeByte use.byte bus).imp_right fun changed => ⟨rfl, changed⟩
  | read => exact .inl (frame_readByte bus).1
  | start | startAlt => exact .inl (frame_start use.entry bus).1
  | _ => exact .inl rfl

/-- A device whose registers a use changes is the one that the transfer is with. -/
theorem write_of_changes {use : Use} {bus : I2c} {k : Nat}
    (changes : (use.perform bus).2.targets[k]? ≠ bus.targets[k]?) :
    use.capability = .write ∧ bus.phase = .addressed k true := by
  rcases targets_perform use bus with same | ⟨is_write, j, phase_eq, changed⟩
  · rw [same] at changes
    contradiction
  · have same_device : j = k := by
      by_contra apart
      rw [changed, Array.getElem?_modify, if_neg apart] at changes
      contradiction
    obtain rfl := same_device
    exact ⟨is_write, phase_eq⟩

/-- A read gets the register that a device was asked for, or what an idle bus is at. -/
theorem received_of_read {use : Use} (is_read : use.capability = .read) (bus : I2c) :
    ((use.perform bus).1.received = 0xff ∧ (use.perform bus).2 = bus) ∨
      ∃ k given, bus.phase = .addressed k given ∧ ∀ t, bus.targets[k]? = some t →
        (use.perform bus).1.received = (t.register bus.pointer).toUInt32 := by
  have perform_eq : use.perform bus = bus.read use.next use.entry := by
    rw [Use.perform, is_read]
    rfl
  rw [perform_eq, read, readByte]
  cases phase_eq : bus.phase with
  | idle | address | unanswered => exact .inl ⟨rfl, rfl⟩
  | addressed k given =>
    refine .inr ⟨k, given, rfl, fun t target_eq => ?_⟩
    simp only [target_eq]
    rfl

theorem note_of_opens {use : Use} (opens : use.capability.opens = true) (bus : I2c) :
    (use.perform bus).1.note =
      some (if bus.startSent then "I2C REPEATED START" else "I2C START") := by
  rw [perform_of_opens opens, start, timeout]
  split <;> split <;> rfl

theorem severity_of_stuck {bus : I2c} (stuck : bus.stuck = true) {use : Use}
    (frames : use.capability.opens = true ∨ use.capability.closes = true) :
    (use.perform bus).1.severity = .error := by
  rcases frames with opens | closes
  · simp [perform_of_opens opens, start, timeout, stuck, Instruction.flag]
  · simp [perform_of_closes closes, stop, timeout, stuck, Instruction.flag]

theorem addresses_perform (use : Use) (bus : I2c) :
    (use.perform bus).2.targets.map Target.address = bus.targets.map Target.address := by
  rcases targets_perform use bus with same | ⟨-, k, -, changed⟩
  · rw [same]
  · rw [changed]
    refine Array.ext (by simp) fun i _ _ => ?_
    rw [Array.getElem_map, Array.getElem_map, Array.getElem_modify]
    split <;> rfl

/-- On a bus that is not stuck nothing goes so wrong that a run would stop. -/
theorem not_isFatal_perform {use : Use} (mild : use.entry.isFatal = false) {bus : I2c}
    (free : bus.stuck = false) : (use.perform bus).1.isFatal = false := by
  have in_time (entry : Instruction) : bus.timeout entry = entry := if_neg (by simp [free])
  have start_mild : (bus.start use.entry).1.isFatal = false := by
    rw [start, in_time]
    cases bus.startSent with
    | true => exact mild
    | false =>
      cases bus.pullUps with
      | true => exact mild
      | false => rfl
  have stop_mild : (bus.stop use.entry).1.isFatal = false := by
    rw [stop, in_time]
    exact mild
  rw [Use.perform]
  cases use.capability with
  | write | read => exact mild
  | start | startAlt => exact start_mild
  | stop | stopAlt => exact stop_mild
  | _ => rfl

theorem not_isFatal_of_mem_outcomes {uses : List Use}
    (mild : ∀ use ∈ uses, use.entry.isFatal = false) {bus : I2c} (free : bus.stuck = false) :
    ∀ entry ∈ Driver.outcomes uses bus, entry.isFatal = false := by
  induction uses generalizing bus with
  | nil => simp [Driver.outcomes]
  | cons use uses induction =>
    obtain ⟨first, mild⟩ := List.forall_mem_cons.mp mild
    rw [Driver.outcomes_cons]
    exact List.forall_mem_cons.mpr
      ⟨not_isFatal_perform first free, induction mild ((stuck_perform use bus).trans free)⟩

/-! ### The device that answers -/

theorem exists_of_device?_eq_some {bus : I2c} {address : UInt8} {k : Nat}
    (found : bus.device? address = some k) :
    ∃ t, bus.targets[k]? = some t ∧ t.address = address := by
  obtain ⟨k_lt, matched, -⟩ := Array.findIdx?_eq_some_iff_getElem.mp found
  exact ⟨bus.targets[k], Array.getElem?_eq_getElem k_lt, beq_iff_eq.mp matched⟩

theorem register?_of_device? {bus : I2c} {address : UInt8} {k : Nat}
    (found : bus.device? address = some k) {t : Target} (target_eq : bus.targets[k]? = some t)
    (i : UInt8) : bus.register? address i = some (t.register i) := by
  obtain ⟨k_lt, matched, earlier⟩ := Array.findIdx?_eq_some_iff_getElem.mp found
  have find_eq : bus.targets.find? (fun t => t.address == address) = some t := by
    rw [Array.getElem?_eq_getElem k_lt] at target_eq
    obtain rfl := Option.some.inj target_eq
    exact Array.find?_eq_some_iff_getElem.mpr
      ⟨matched, k, k_lt, rfl, fun j j_lt => by simpa using earlier j j_lt⟩
  rw [register?, find_eq, Option.map_some]

/-- Which device is found is a matter of the addresses alone. -/
theorem device?_eq_findIdx? (bus : I2c) (address : UInt8) :
    bus.device? address = (bus.targets.map Target.address).findIdx? (· == address) := by
  rw [Array.findIdx?_map]
  rfl

theorem device?_perform (use : Use) (bus : I2c) (address : UInt8) :
    (use.perform bus).2.device? address = bus.device? address := by
  rw [device?_eq_findIdx?, device?_eq_findIdx?, addresses_perform]

theorem device?_after (uses : List Use) (bus : I2c) (address : UInt8) :
    (Driver.after uses bus).device? address = bus.device? address := by
  induction uses generalizing bus with
  | nil => rfl
  | cons use uses induction => rw [Driver.after_cons, induction, device?_perform]

theorem stuck_after (uses : List Use) (bus : I2c) : (Driver.after uses bus).stuck = bus.stuck := by
  induction uses generalizing bus with
  | nil => rfl
  | cons use uses induction => rw [Driver.after_cons, induction, stuck_perform]

theorem phaseOf_perform (use : Use) (bus : I2c) (bytes : Option (List UInt8)) :
    (use.perform bus).2.phaseOf bytes = bus.phaseOf bytes := by
  match bytes with
  | none | some [] => rfl
  | some (first :: later) => rw [phaseOf, phaseOf, device?_perform]

theorem phaseOf_eq_idle_iff (bus : I2c) (bytes : Option (List UInt8)) :
    bus.phaseOf bytes = .idle ↔ bytes = none := by
  match bytes with
  | none => simp [phaseOf]
  | some [] => simp [phaseOf]
  | some (first :: later) =>
    rw [phaseOf]
    split <;> simp

theorem exists_of_phaseOf_eq_addressed {bus : I2c} {bytes : Option (List UInt8)} {k : Nat}
    {given : Bool} (phase_eq : bus.phaseOf bytes = .addressed k given) :
    ∃ first later, bytes = some (first :: later) ∧ bus.device? (first >>> 1) = some k := by
  match bytes with
  | none | some [] => contradiction
  | some (first :: later) =>
    rw [phaseOf] at phase_eq
    split at phase_eq
    next answers =>
      cases phase_eq
      exact ⟨first, later, rfl, answers⟩
    next => contradiction

/-- The phase behind a byte follows the bytes that were written. -/
theorem phase_writeByte {bus : I2c} {bytes : Option (List UInt8)}
    (phase_eq : bus.phase = bus.phaseOf bytes) (byte : UInt8) :
    (bus.writeByte byte).2.phase = bus.phaseOf (bytes.map (· ++ [byte])) := by
  match bytes with
  | none =>
    simp only [phaseOf] at phase_eq
    simp [writeByte, phase_eq, phaseOf]
  | some [] =>
    -- The first byte is the address: the phase says whether a device answers.
    simp only [phaseOf] at phase_eq
    simp only [writeByte, phase_eq, Option.map_some, List.nil_append, phaseOf, device?]
    cases bus.targets.findIdx? fun t => t.address == byte >>> 1 <;> rfl
  | some (first :: later) =>
    rw [phaseOf] at phase_eq
    rw [Option.map_some, List.cons_append, phaseOf]
    cases answers : bus.device? (first >>> 1) with
    | none =>
      simp only [answers] at phase_eq
      simp [writeByte, phase_eq]
    | some k =>
      simp only [answers] at phase_eq
      cases later <;> simp_all [writeByte]

/-! ### Sequences of uses -/

/-- The state of a bus that is not stuck follows the bytes that were written since the latest
start. -/
structure Tracks (bytes : Option (List UInt8)) (bus : I2c) : Prop where
  free : bus.stuck = false
  startSent_eq : bus.startSent = bytes.isSome
  phase_eq : bus.phase = bus.phaseOf bytes

/-- Nothing was ever started on a stuck bus, and its devices are as they were. -/
structure Blocked (targets : Array Target) (bus : I2c) : Prop where
  stuck : bus.stuck = true
  not_started : bus.startSent = false
  idle : bus.phase = .idle
  targets_eq : bus.targets = targets

theorem Tracks.perform {bytes : Option (List UInt8)} {bus : I2c} (tracks : bus.Tracks bytes)
    (use : Use) : (use.perform bus).2.Tracks (Use.extend bytes use) := by
  obtain ⟨free, startSent_eq, phase_eq⟩ := tracks
  refine ⟨(stuck_perform use bus).trans free, ?_, ?_⟩
  · rw [bus_perform, Use.extend]
    cases use.capability with
    | write => exact (frame_writeByte _ bus).2.trans (startSent_eq.trans Option.isSome_map.symm)
    | read => exact (frame_readByte bus).2.2.1.trans startSent_eq
    | start | startAlt => exact congrArg startSent (start_of_free free use.entry)
    | stop | stopAlt => rfl
    | _ => exact startSent_eq
  · rw [phaseOf_perform, bus_perform, Use.extend]
    cases use.capability with
    | write => exact phase_writeByte phase_eq use.byte
    | read => exact (frame_readByte bus).2.2.2.trans phase_eq
    | start | startAlt => exact congrArg phase (start_of_free free use.entry)
    | stop | stopAlt => rfl
    | _ => exact phase_eq

theorem Blocked.perform {targets : Array Target} {bus : I2c} (blocked : bus.Blocked targets)
    (use : Use) : (use.perform bus).2.Blocked targets := by
  have write_eq : (bus.writeByte use.byte).2 = bus := by simp [writeByte, blocked.idle]
  have read_eq : bus.readByte.2 = bus := by simp [readByte, blocked.idle]
  rw [bus_perform]
  cases use.capability with
  | write => exact write_eq.symm ▸ blocked
  | read => exact read_eq.symm ▸ blocked
  | start | startAlt => exact (start_of_stuck blocked.stuck use.entry).symm ▸ blocked
  | stop | stopAlt => exact ⟨blocked.stuck, rfl, rfl, blocked.targets_eq⟩
  | _ => exact blocked

/-- A bus that was not used yet. -/
def fresh (targets : Array Target) (pullUps stuck : Bool) : I2c where
  targets := targets
  pullUps := pullUps
  stuck := stuck

theorem tracks_after (targets : Array Target) (pullUps : Bool) (uses : List Use) :
    (Driver.after uses (fresh targets pullUps false)).Tracks (Use.transfer? uses) := by
  induction uses using List.reverseRecOn with
  | nil => exact ⟨rfl, rfl, rfl⟩
  | append_singleton uses use induction =>
    rw [Driver.after_append, Use.transfer?_concat]
    exact induction.perform use

theorem blocked_after (targets : Array Target) (pullUps : Bool) (uses : List Use) :
    (Driver.after uses (fresh targets pullUps true)).Blocked targets := by
  induction uses using List.reverseRecOn with
  | nil => exact ⟨rfl, rfl, rfl, rfl⟩
  | append_singleton uses use induction =>
    rw [Driver.after_append]
    exact induction.perform use

section After

variable (targets : Array Target) (pullUps stuck : Bool) (uses : List Use)

/-- On a bus that is not stuck a transfer is open exactly between a start and the next stop. -/
theorem startSent_after :
    ((Driver.after uses (fresh targets pullUps stuck)).startSent = true ↔
        (Driver.after uses (fresh targets pullUps stuck)).phase ≠ .idle) ∧
      ((Driver.after uses (fresh targets pullUps stuck)).startSent = true ↔
        stuck = false ∧ Use.StartedSinceStop uses) := by
  cases stuck with
  | true =>
    obtain ⟨-, not_started, idle, -⟩ := blocked_after targets pullUps uses
    simp [not_started, idle]
  | false =>
    obtain ⟨-, startSent_eq, phase_eq⟩ := tracks_after targets pullUps uses
    rw [startSent_eq, phase_eq, Ne, phaseOf_eq_idle_iff, ← Use.isSome_transfer?_iff]
    exact ⟨Option.isSome_iff_ne_none, by simp⟩

/-- The device of a transfer has the address asked for behind the latest start. -/
theorem exists_first_of_addressed {k : Nat} {given : Bool}
    (phase_eq : (Driver.after uses (fresh targets pullUps stuck)).phase = .addressed k given) :
    ∃ first t, Use.IsFirstByte uses first ∧
      (Driver.after uses (fresh targets pullUps stuck)).targets[k]? = some t ∧
      t.address = first >>> 1 := by
  cases stuck with
  | true =>
    rw [(blocked_after targets pullUps uses).idle] at phase_eq
    contradiction
  | false =>
    rw [(tracks_after targets pullUps uses).phase_eq] at phase_eq
    obtain ⟨first, later, open_eq, answers⟩ := exists_of_phaseOf_eq_addressed phase_eq
    obtain ⟨before, opening, after, uses_eq, opens, inside, bytes_eq⟩ :=
      Use.exists_of_transfer?_eq_some open_eq
    obtain ⟨t, target_eq, address_eq⟩ := exists_of_device?_eq_some answers
    exact ⟨first, t, ⟨before, opening, after, uses_eq, opens, inside, by rw [← bytes_eq]; rfl⟩,
      target_eq, address_eq⟩

end After

/-- What holds of a bus after whatever it was used for. -/
theorem invariants_of_uses (targets : Array Target) (pullUps stuck : Bool) (uses : List Use) :
    let bus := Driver.after uses (fresh targets pullUps stuck)
    (bus.startSent = true ↔ bus.phase ≠ .idle) ∧
      (∀ k given, bus.phase = .addressed k given → k < bus.targets.size) ∧
      (∀ use : Use, use.capability.opens = true →
        (stuck = false ∧ Use.StartedSinceStop uses →
          (use.perform bus).1.note = some "I2C REPEATED START") ∧
        (¬ (stuck = false ∧ Use.StartedSinceStop uses) →
          (use.perform bus).1.note = some "I2C START")) ∧
      (stuck = true → bus.phase = .idle ∧ bus.targets = targets ∧
        ∀ use : Use, use.capability.opens = true ∨ use.capability.closes = true →
          (use.perform bus).1.severity = .error) ∧
      (∀ (use : Use) (k : Nat), (use.perform bus).2.targets[k]? ≠ bus.targets[k]? →
        use.capability = .write ∧ ∃ (first : UInt8) (t : Target), Use.IsFirstByte uses first ∧
          bus.targets[k]? = some t ∧ t.address = first >>> 1) ∧
      ∀ use : Use, use.capability = .read →
        ((use.perform bus).1.received = 0xff ∧ (use.perform bus).2 = bus) ∨
          ∃ (k : Nat) (first : UInt8) (t : Target), Use.IsFirstByte uses first ∧
            bus.targets[k]? = some t ∧ t.address = first >>> 1 ∧
            (use.perform bus).1.received = (t.register bus.pointer).toUInt32 := by
  intro bus
  obtain ⟨startSent_iff, started_iff⟩ := startSent_after targets pullUps stuck uses
  have addressed {k : Nat} {given : Bool} (phase_eq : bus.phase = .addressed k given) :
      ∃ first t, Use.IsFirstByte uses first ∧ bus.targets[k]? = some t ∧ t.address = first >>> 1 :=
    exists_first_of_addressed targets pullUps stuck uses phase_eq
  refine ⟨startSent_iff, fun k given phase_eq => ?_, fun use opens => ?_, ?_, ?_, ?_⟩
  · obtain ⟨-, t, -, target_eq, -⟩ := addressed phase_eq
    exact (Array.getElem?_eq_some_iff.mp target_eq).1
  · rw [note_of_opens opens, ← started_iff]
    constructor
    · intro started
      rw [if_pos started]
    · intro not_started
      rw [if_neg not_started]
  · rintro rfl
    obtain ⟨is_stuck, -, idle, targets_eq⟩ := blocked_after targets pullUps uses
    exact ⟨idle, targets_eq, fun use frames => severity_of_stuck is_stuck frames⟩
  · intro use k changes
    obtain ⟨is_write, phase_eq⟩ := write_of_changes changes
    exact ⟨is_write, addressed phase_eq⟩
  · intro use is_read
    rcases received_of_read is_read bus with silent | ⟨k, given, phase_eq, received_eq⟩
    · exact .inl silent
    · obtain ⟨first, t, is_first, target_eq, address_eq⟩ := addressed phase_eq
      exact .inr ⟨k, first, t, is_first, target_eq, address_eq, received_eq t target_eq⟩

end I2c

end BusScript
