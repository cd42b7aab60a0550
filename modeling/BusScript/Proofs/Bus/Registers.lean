import BusScript.Proofs.Bus.Acknowledgement
import BusScript.Proofs.Bus.Transfer

/-!
# Registers of a device on an I2C bus

Bytes that are written behind an address and a register go to the registers from that one on, and
are what is read from there afterwards. There are as many registers as the pointer has values:
behind the last comes the first, so that no more than 256 bytes can be stored without overwriting
some of them.
-/

namespace BusScript

namespace I2c

namespace Target

/-- Stores values in the registers from one on. -/
def store : List UInt8 → UInt8 → Target → Target
  | [], _, t => t
  | value :: later, pointer, t => store later (pointer + 1) (t.setRegister pointer value)

/-- The values of so many registers from one on. -/
def fetch (n : Nat) (pointer : UInt8) (t : Target) : List UInt8 :=
  (List.range n).map fun i => t.register (pointer + UInt8.ofNat i)

theorem add_ofNat_succ (pointer : UInt8) (i : Nat) :
    pointer + UInt8.ofNat (i + 1) = pointer + 1 + UInt8.ofNat i := by
  rw [UInt8.ofNat_add, UInt8.add_comm (UInt8.ofNat i), ← UInt8.add_assoc]
  rfl

theorem fetch_succ (n : Nat) (pointer : UInt8) (t : Target) :
    t.fetch (n + 1) pointer = t.register pointer :: t.fetch n (pointer + 1) := by
  have first_eq : pointer + UInt8.ofNat 0 = pointer := by simp
  rw [fetch, List.range_succ_eq_map, List.map_cons, List.map_map, first_eq]
  refine congrArg (t.register pointer :: ·) (List.map_congr_left fun i _ => ?_)
  rw [← add_ofNat_succ]
  rfl

theorem fetch_succ' (n : Nat) (pointer : UInt8) (t : Target) :
    t.fetch (n + 1) pointer = t.fetch n pointer ++ [t.register (pointer + UInt8.ofNat n)] := by
  rw [fetch, List.range_succ, List.map_append]
  rfl

/-- A register holds the value stored at its distance from the first, or what it held before. -/
theorem register_store {values : List UInt8} (values_le : values.length ≤ 256) (pointer i : UInt8)
    (t : Target) : (t.store values pointer).register i =
      values[(i - pointer).toNat]?.getD (t.register i) := by
  induction values generalizing pointer t with
  | nil => rfl
  | cons value later induction =>
    rw [List.length_cons] at values_le
    rw [store, induction (by omega), register_setRegister]
    by_cases first : i = pointer
    · subst first
      -- Seen from the next register, this one is the last of all, too far for the later values.
      have distance : (i - (i + 1)).toNat = 255 := by
        rw [show i - (i + 1) = 255 by grind]
        rfl
      rw [distance, List.getElem?_eq_none (by omega), if_pos rfl, UInt8.sub_self]
      rfl
    · have apart : i.toNat ≠ pointer.toNat := fun same => first (UInt8.toNat_inj.mp same)
      have distance : (i - pointer).toNat = (i - (pointer + 1)).toNat + 1 := by
        have i_lt := i.toNat_lt
        have pointer_lt := pointer.toNat_lt
        rw [UInt8.toNat_sub, UInt8.toNat_sub, UInt8.toNat_add, show (1 : UInt8).toNat = 1 from rfl]
        omega
      rw [distance, if_neg first, List.getElem?_cons_succ]

theorem register_store_inside {values : List UInt8} (values_le : values.length ≤ 256) {i : Nat}
    {value : UInt8} (value_eq : values[i]? = some value) (pointer : UInt8) (t : Target) :
    (t.store values pointer).register (pointer + UInt8.ofNat i) = value := by
  obtain ⟨inside, -⟩ := List.getElem?_eq_some_iff.mp value_eq
  have distance : (pointer + UInt8.ofNat i - pointer).toNat = i := by
    rw [show pointer + UInt8.ofNat i - pointer = UInt8.ofNat i by grind]
    exact UInt8.toNat_ofNat_of_lt' (Nat.lt_of_lt_of_le inside values_le)
  rw [register_store values_le, distance, value_eq, Option.getD_some]

theorem register_store_outside {values : List UInt8} (values_le : values.length ≤ 256)
    {pointer r : UInt8} (outside : ∀ i < values.length, r ≠ pointer + UInt8.ofNat i) (t : Target) :
    (t.store values pointer).register r = t.register r := by
  have beyond : values.length ≤ (r - pointer).toNat := by
    by_contra inside
    apply outside (r - pointer).toNat (Nat.lt_of_not_le inside)
    rw [UInt8.ofNat_toNat]
    grind
  rw [register_store values_le, List.getElem?_eq_none beyond, Option.getD_none]

/-- What was stored is what is fetched. -/
theorem fetch_store {values : List UInt8} (values_le : values.length ≤ 256) (pointer : UInt8)
    (t : Target) : (t.store values pointer).fetch values.length pointer = values := by
  refine List.ext_getElem (by simp [fetch]) fun i _ inside => ?_
  simp only [fetch, List.getElem_map, List.getElem_range]
  exact register_store_inside values_le (List.getElem?_eq_getElem inside) pointer t

end Target

/-! ### Uses that store and fetch -/

/-- What is seen of an entry that is a write: the value, and what the bus noted. -/
def sent? (entry : Instruction) : Option (UInt32 × Option String) :=
  if entry.op = .write then some (entry.sent, entry.note) else none

/-- What is seen of an entry that is a read: the value, and what the bus noted. -/
def received? (entry : Instruction) : Option (UInt32 × Option String) :=
  if entry.op = .read then some (entry.received, entry.note) else none

/-- A use that writes a byte. -/
structure Writes (byte : UInt8) (use : Use) : Prop where
  capability_eq : use.capability = .write
  op_eq : use.entry.op = .write
  sent_eq : use.entry.sent = byte.toUInt32

/-- A use that reads a byte. -/
structure Reads (use : Use) : Prop where
  capability_eq : use.capability = .read
  op_eq : use.entry.op = .read

theorem Writes.perform_eq {byte : UInt8} {use : Use} (writes : Writes byte use) (bus : I2c) :
    use.perform bus = (acknowledge (bus.writeByte byte).1 use.entry, (bus.writeByte byte).2) := by
  have byte_eq : use.entry.sent.toUInt8 = byte := by
    rw [writes.sent_eq, UInt8.toUInt8_toUInt32]
  rw [Use.perform, writes.capability_eq, ← byte_eq]
  rfl

theorem Reads.perform_eq {use : Use} (reads : Reads use) (bus : I2c) :
    use.perform bus =
      (acknowledge (!use.next.any fun i => i.op.isFraming)
        (use.entry.receive bus.readByte.1.toUInt32), bus.readByte.2) := by
  rw [Use.perform, reads.capability_eq]
  rfl

/-- Both address bytes of a device name it: the lowest bit is no part of the address. -/
theorem shiftRight_address {address : UInt8} (seven_bits : address < 128) :
    (2 * address) >>> 1 = address ∧ (2 * address + 1) >>> 1 = address := by
  have bound : address.toNat < 128 := seven_bits
  constructor <;> apply UInt8.toNat_inj.mp
  · rw [UInt8.toNat_shiftRight, UInt8.toNat_mul]
    simp [Nat.shiftRight_one]
    omega
  · rw [UInt8.toNat_shiftRight, UInt8.toNat_add, UInt8.toNat_mul]
    simp [Nat.shiftRight_one]
    omega

theorem modify_modify {α : Type} (xs : Array α) (k : Nat) (f g : α → α) :
    (xs.modify k f).modify k g = xs.modify k (g ∘ f) := by
  refine Array.ext_getElem? fun i => ?_
  rw [Array.getElem?_modify, Array.getElem?_modify, Array.getElem?_modify]
  split
  · rw [Option.map_map]
  · rfl

theorem modify_id {α : Type} (xs : Array α) (k : Nat) : xs.modify k id = xs := by
  refine Array.ext_getElem? fun i => ?_
  rw [Array.getElem?_modify, Option.map_id, id, ite_self]

/-- Bytes that are written to a device whose pointer was given go to its registers. -/
theorem store_of_writes {bytes : List UInt8} {uses : List Use}
    (writes : List.Forall₂ Writes bytes uses) (bus : I2c) {k : Nat}
    (given : bus.phase = .addressed k true) :
    Driver.outcomes uses bus = uses.map (fun use => acknowledge true use.entry) ∧
      Driver.after uses bus =
        { bus with
          targets := bus.targets.modify k (Target.store bytes bus.pointer)
          pointer := bus.pointer + UInt8.ofNat bytes.length } := by
  induction writes generalizing bus with
  | nil =>
    have targets_eq : bus.targets.modify k (Target.store [] bus.pointer) = bus.targets :=
      modify_id bus.targets k
    refine ⟨rfl, ?_⟩
    rw [targets_eq]
    simp [Driver.after]
  | @cons byte use bytes uses first writes induction =>
    have write_eq : bus.writeByte byte =
        (true, { bus with
          targets := bus.targets.modify k fun t => t.setRegister bus.pointer byte
          pointer := bus.pointer + 1 }) := by
      simp only [writeByte, given]
    obtain ⟨outcomes_eq, after_eq⟩ := induction (bus.writeByte byte).2
      (by rw [write_eq]; exact given)
    rw [Driver.outcomes_cons, Driver.after_cons, first.perform_eq, outcomes_eq, after_eq, write_eq,
      List.length_cons, Target.add_ofNat_succ]
    simp only [modify_modify]
    exact ⟨rfl, rfl⟩

/-- An address that is written selects the device that answers to it. -/
theorem select_of_writes {first : UInt8} {use : Use} (writes : Writes first use) {bus : I2c}
    {k : Nat} (addressing : bus.phase = .address) (found : bus.device? (first >>> 1) = some k) :
    use.perform bus = (acknowledge true use.entry, { bus with phase := .addressed k false }) := by
  have write_eq : bus.writeByte first = (true, { bus with phase := .addressed k false }) := by
    rw [device?] at found
    simp only [writeByte, addressing, found]
  rw [writes.perform_eq, write_eq]

/-- A device that is selected takes the first byte for its pointer and stores the others. -/
theorem store_of_address {first pointer : UInt8} {bytes : List UInt8} {uses : List Use}
    (writes : List.Forall₂ Writes (first :: pointer :: bytes) uses) (bus : I2c) {k : Nat}
    (addressing : bus.phase = .address) (found : bus.device? (first >>> 1) = some k) :
    Driver.outcomes uses bus = uses.map (fun use => acknowledge true use.entry) ∧
      Driver.after uses bus =
        { bus with
          targets := bus.targets.modify k (Target.store bytes pointer)
          phase := .addressed k true
          pointer := pointer + UInt8.ofNat bytes.length } := by
  obtain ⟨select, behind, selects, later, rfl⟩ := List.forall₂_cons_left_iff.mp writes
  obtain ⟨point, data, points, stores, rfl⟩ := List.forall₂_cons_left_iff.mp later
  have point_eq : point.perform { bus with phase := .addressed k false } =
      (acknowledge true point.entry,
        { bus with phase := .addressed k true, pointer := pointer }) := points.perform_eq _
  obtain ⟨outcomes_eq, after_eq⟩ := store_of_writes stores
    { bus with phase := .addressed k true, pointer := pointer } rfl
  rw [Driver.outcomes_cons, Driver.outcomes_cons, Driver.after_cons, Driver.after_cons,
    select_of_writes selects addressing found, point_eq, outcomes_eq, after_eq]
  exact ⟨rfl, rfl⟩

theorem readByte_of_addressed (bus : I2c) {k : Nat} {given : Bool} {t : Target}
    (selected : bus.phase = .addressed k given) (target_eq : bus.targets[k]? = some t) :
    bus.readByte = (t.register bus.pointer, { bus with pointer := bus.pointer + 1 }) := by
  simp only [readByte, selected, target_eq]
  rfl

/-- Bytes that are read from a device come from its registers, one after the other. -/
theorem fetch_of_reads {use : Use} (reads : Reads use) (n : Nat) (bus : I2c) {k : Nat}
    {given : Bool} {t : Target} (selected : bus.phase = .addressed k given)
    (target_eq : bus.targets[k]? = some t) :
    Driver.outcomes (List.replicate n use) bus =
        (t.fetch n bus.pointer).map (fun value =>
          acknowledge (!use.next.any fun i => i.op.isFraming)
            (use.entry.receive value.toUInt32)) ∧
      Driver.after (List.replicate n use) bus =
        { bus with pointer := bus.pointer + UInt8.ofNat n } := by
  induction n generalizing bus with
  | zero => simp [Driver.outcomes, Driver.after, Target.fetch]
  | succ n induction =>
    obtain ⟨outcomes_eq, after_eq⟩ := induction { bus with pointer := bus.pointer + 1 }
      selected target_eq
    rw [List.replicate_succ, Driver.outcomes_cons, Driver.after_cons, reads.perform_eq,
      readByte_of_addressed bus selected target_eq, outcomes_eq, after_eq, Target.fetch_succ,
      Target.add_ofNat_succ]
    exact ⟨rfl, rfl⟩

/-! ### Writing registers and reading them back -/

/-- What is seen of the writes and of the reads of some entries. -/
structure Seen (sent received : List (UInt32 × Option String)) (entries : List Instruction) :
    Prop where
  sent_eq : entries.filterMap sent? = sent
  received_eq : entries.filterMap received? = received

theorem Seen.append {sent sent' received received' : List (UInt32 × Option String)}
    {entries entries' : List Instruction} (first : Seen sent received entries)
    (second : Seen sent' received' entries') :
    Seen (sent ++ sent') (received ++ received') (entries ++ entries') where
  sent_eq := by rw [List.filterMap_append, first.sent_eq, second.sent_eq]
  received_eq := by rw [List.filterMap_append, first.received_eq, second.received_eq]

theorem seen_of_framing {entry : Instruction} (framing : entry.op.isFraming = true) :
    Seen [] [] [entry] := by
  cases op_eq : entry.op <;> simp [op_eq, Operation.isFraming] at framing <;>
    exact ⟨by simp [sent?, op_eq], by simp [received?, op_eq]⟩

theorem seen_of_writes {bytes : List UInt8} {uses : List Use}
    (writes : List.Forall₂ Writes bytes uses) :
    Seen (bytes.map fun byte => (byte.toUInt32, some "ACK")) []
      (uses.map fun use => acknowledge true use.entry) := by
  induction writes with
  | nil => exact ⟨rfl, rfl⟩
  | @cons byte use bytes uses first writes induction =>
    have one : Seen [(byte.toUInt32, some "ACK")] [] [acknowledge true use.entry] := by
      constructor <;>
        simp [sent?, received?, acknowledge, Instruction.annotate, first.op_eq, first.sent_eq]
    exact one.append induction

theorem seen_of_reads (taken : Bool) {entry : Instruction} (is_read : entry.op = .read)
    (values : List UInt8) :
    Seen [] (values.map fun value => (value.toUInt32, some (if taken then "ACK" else "NACK")))
      (values.map fun value => acknowledge taken (entry.receive value.toUInt32)) := by
  induction values with
  | nil => exact ⟨rfl, rfl⟩
  | cons value values induction =>
    have one : Seen [] [(value.toUInt32, some (if taken then "ACK" else "NACK"))]
        [acknowledge taken (entry.receive value.toUInt32)] := by
      constructor <;>
        simp [sent?, received?, acknowledge, Instruction.annotate, Instruction.receive, is_read]
    exact one.append induction

/-- A use that opens or closes a transfer. -/
structure Frames (closes : Bool) (use : Use) : Prop where
  opens_eq : use.capability.opens = !closes
  closes_eq : use.capability.closes = closes
  framing : use.entry.op.isFraming = true

theorem Frames.seen {closes : Bool} {use : Use} (frames : Frames closes use) (bus : I2c) :
    Seen [] [] [(use.perform bus).1] :=
  seen_of_framing (by rw [Use.perform, op_perform]; exact frames.framing)

/-- One transfer to a device: it is opened, and the device takes a pointer and values to store. -/
theorem seen_of_storing {opening : Use} (opens : Frames false opening) {first pointer : UInt8}
    {bytes : List UInt8} {uses : List Use}
    (writes : List.Forall₂ Writes (first :: pointer :: bytes) uses) {bus : I2c}
    (free : bus.stuck = false) {k : Nat} (found : bus.device? (first >>> 1) = some k) :
    Seen ((first :: pointer :: bytes).map fun byte => (byte.toUInt32, some "ACK")) []
        (Driver.outcomes (opening :: uses) bus) ∧
      Driver.after (opening :: uses) bus =
        { bus with
          startSent := true
          targets := bus.targets.modify k (Target.store bytes pointer)
          phase := .addressed k true
          pointer := pointer + UInt8.ofNat bytes.length } := by
  have opened : (opening.perform bus).2 = { bus with startSent := true, phase := .address } := by
    rw [perform_of_opens opens.opens_eq, start_of_free free]
  obtain ⟨outcomes_eq, after_eq⟩ := store_of_address writes
    { bus with startSent := true, phase := .address } rfl found
  rw [Driver.outcomes_cons, Driver.after_cons, opened, outcomes_eq, after_eq]
  exact ⟨(opens.seen bus).append (seen_of_writes writes), rfl⟩

/-- One transfer from a device: its registers are read, the last without acknowledgement. -/
theorem seen_of_fetching {opening closing : Use} (opens : Frames false opening)
    (closes : Frames true closing) {first : UInt8} {select read last : Use}
    (selects : Writes first select) (reads : Reads read) (reads_last : Reads last)
    (goes_on : (read.next.any fun i => i.op.isFraming) = false)
    (ends : (last.next.any fun i => i.op.isFraming) = true) (n : Nat) {bus : I2c}
    (free : bus.stuck = false) {k : Nat} (found : bus.device? (first >>> 1) = some k) {t : Target}
    (target_eq : bus.targets[k]? = some t) :
    let uses := opening :: select :: (List.replicate n read ++ [last, closing])
    Seen [(first.toUInt32, some "ACK")]
        (((t.fetch n bus.pointer).map fun value => (value.toUInt32, some "ACK")) ++
          [((t.register (bus.pointer + UInt8.ofNat n)).toUInt32, some "NACK")])
        (Driver.outcomes uses bus) ∧
      (Driver.after uses bus).targets = bus.targets := by
  intro uses
  let selected : I2c := { bus with startSent := true, phase := .addressed k false }
  let fetched : I2c := { selected with pointer := bus.pointer + UInt8.ofNat n }
  have opened : (opening.perform bus).2 = { bus with startSent := true, phase := .address } := by
    rw [perform_of_opens opens.opens_eq, start_of_free free]
  have select_eq : select.perform (opening.perform bus).2 =
      (acknowledge true select.entry, selected) := by
    rw [opened]
    exact select_of_writes selects rfl found
  obtain ⟨outcomes_eq, after_eq⟩ := fetch_of_reads reads n selected rfl target_eq
  -- The last read has the end of the transfer behind it, so that nothing acknowledges its value.
  have last_eq : last.perform fetched =
      (acknowledge false (last.entry.receive (t.register fetched.pointer).toUInt32),
        { fetched with pointer := fetched.pointer + 1 }) := by
    rw [reads_last.perform_eq, ends, readByte_of_addressed fetched rfl target_eq]
    rfl
  have outcomes_uses : Driver.outcomes uses bus =
      [(opening.perform bus).1] ++ ([acknowledge true select.entry] ++
        (Driver.outcomes (List.replicate n read) selected ++
          ([(last.perform fetched).1] ++ [(closing.perform (last.perform fetched).2).1]))) := by
    rw [Driver.outcomes_cons, Driver.outcomes_cons, select_eq, Driver.outcomes_append, after_eq]
    rfl
  have after_uses : Driver.after uses bus = (closing.perform (last.perform fetched).2).2 := by
    rw [Driver.after_cons, Driver.after_cons, select_eq, Driver.after_append, after_eq]
    rfl
  constructor
  · rw [outcomes_uses, outcomes_eq, goes_on, last_eq]
    have seen_last := seen_of_reads false reads_last.op_eq [t.register fetched.pointer]
    exact (opens.seen bus).append ((seen_of_writes (.cons selects .nil)).append
      ((seen_of_reads true reads.op_eq _).append (seen_last.append (closes.seen _))))
  · rw [after_uses, perform_of_closes closes.closes_eq, last_eq]
    rfl

theorem getElem?_modify_store {xs : Array Target} {k : Nat} {t : Target}
    (target_eq : xs[k]? = some t) (values : List UInt8) (pointer : UInt8) :
    (xs.modify k (Target.store values pointer))[k]? = some (t.store values pointer) := by
  rw [Array.getElem?_modify, if_pos rfl, target_eq]
  rfl

/-- Uses that store values in a device from a register on, select the same register again, and fetch
as many values: three transfers, of which only the last is closed. -/
inductive StoresAndFetches (store fetch pointer : UInt8) (front : List UInt8) (final : UInt8) :
    List Use → Prop
  | intro {opening reopening turning closing select read last : Use} {stores seeks : List Use}
      (opens : Frames false opening)
      (writes : List.Forall₂ Writes (store :: pointer :: (front ++ [final])) stores)
      (reopens : Frames false reopening) (points : List.Forall₂ Writes [store, pointer] seeks)
      (turns : Frames false turning) (selects : Writes fetch select)
      (reads : Reads read) (goes_on : (read.next.any fun i => i.op.isFraming) = false)
      (reads_last : Reads last) (ends : (last.next.any fun i => i.op.isFraming) = true)
      (closes : Frames true closing) :
      StoresAndFetches store fetch pointer front final
        ((opening :: stores) ++ ((reopening :: seeks) ++
          turning :: select :: (List.replicate front.length read ++ [last, closing])))

/-- Values that are stored in a device are read back, acknowledged except for the last. -/
theorem seen_of_storesAndFetches {store fetch pointer : UInt8} {front : List UInt8} {final : UInt8}
    {uses : List Use} (transaction : StoresAndFetches store fetch pointer front final uses)
    (values_le : (front ++ [final]).length ≤ 256) {bus : I2c} (free : bus.stuck = false) {k : Nat}
    (store_found : bus.device? (store >>> 1) = some k)
    (fetch_found : bus.device? (fetch >>> 1) = some k) :
    Seen ((store :: pointer :: (front ++ [final]) ++ [store, pointer, fetch]).map
          fun byte => (byte.toUInt32, some "ACK"))
        (front.map (fun value => (value.toUInt32, some "ACK")) ++ [(final.toUInt32, some "NACK")])
        (Driver.outcomes uses bus) ∧
      (Driver.after uses bus).targets =
        bus.targets.modify k (Target.store (front ++ [final]) pointer) := by
  obtain ⟨opens, writes, reopens, points, turns, selects, reads, goes_on, reads_last, ends,
    closes⟩ := transaction
  rename_i opening reopening turning closing select read last stores seeks
  obtain ⟨t, target_eq, -⟩ := exists_of_device?_eq_some store_found
  let stored : I2c := Driver.after (opening :: stores) bus
  let sought : I2c := Driver.after (reopening :: seeks) stored
  have stored_free : stored.stuck = false := (stuck_after _ bus).trans free
  have sought_free : sought.stuck = false := (stuck_after _ stored).trans stored_free
  have stored_found : stored.device? (store >>> 1) = some k :=
    (device?_after _ bus _).trans store_found
  have sought_found : sought.device? (fetch >>> 1) = some k := by
    rw [device?_after, device?_after, fetch_found]
  obtain ⟨seen_stores, stored_eq⟩ := seen_of_storing opens writes free store_found
  obtain ⟨seen_seeks, sought_eq⟩ := seen_of_storing reopens points stored_free stored_found
  have sought_targets : sought.targets =
      bus.targets.modify k (Target.store (front ++ [final]) pointer) := by
    have unchanged : sought.targets = stored.targets.modify k (Target.store [] pointer) :=
      congrArg targets sought_eq
    rw [unchanged]
    exact (modify_id _ k).trans (congrArg targets stored_eq)
  have sought_pointer : sought.pointer = pointer := by
    have pointer_eq : sought.pointer = pointer + UInt8.ofNat 0 := congrArg I2c.pointer sought_eq
    rw [pointer_eq]
    simp
  have target_stored : sought.targets[k]? = some (t.store (front ++ [final]) pointer) := by
    rw [sought_targets]
    exact getElem?_modify_store target_eq _ _
  obtain ⟨seen_reads, fetched_targets⟩ := seen_of_fetching turns closes selects reads reads_last
    goes_on ends front.length sought_free sought_found target_stored
  -- What is fetched are the values that were stored, of which the last is read on its own.
  have fetched := Target.fetch_store values_le pointer t
  rw [List.length_append, List.length_singleton, Target.fetch_succ'] at fetched
  obtain ⟨front_eq, final_eq⟩ := List.append_inj' fetched rfl
  rw [sought_pointer, front_eq, (List.cons.inj final_eq).1] at seen_reads
  constructor
  · rw [Driver.outcomes_append, Driver.outcomes_append, List.map_append]
    exact seen_stores.append (seen_seeks.append seen_reads)
  · rw [Driver.after_append, Driver.after_append]
    exact fetched_targets.trans sought_targets

end I2c

end BusScript
