import BusScript.Proofs.Bus.Registers

/-!
# Lines that write registers and read them back

A line of three transfers: the first stores values in a device from a register on, the second
selects the same register again, and the third fetches as many values. From its text to the
registers, such a line does what it says.
-/

namespace BusScript

namespace Token

/-- A number for a byte, in any notation and without attributes. -/
def IsByte (byte : UInt8) (t : Token) : Prop :=
  ∃ radix, t = .value ⟨byte.toUInt32, radix⟩ {}

/-- The token that opens a transfer. -/
def opening : Token :=
  .command '[' .start {}

/-- The token that reads so many bytes. -/
def reading (n : Nat) : Token :=
  .command 'r' .read { repeats := some n }

/-- The token that closes a transfer. -/
def closing : Token :=
  .command ']' .stop {}

/-- The tokens of a line that stores values in a device, from a register on, and reads them back.
The address of the device is the upper seven bits of the first byte of each transfer, and the lowest
tells a transfer from the device from one to it. -/
inductive WritesAndReadsBack (address pointer : UInt8) (values : List UInt8) : List Token → Prop
  | intro {stores seeks : List Token} {select : Token}
      (writes : List.Forall₂ IsByte (2 * address :: pointer :: values) stores)
      (points : List.Forall₂ IsByte [2 * address, pointer] seeks)
      (selects : IsByte (2 * address + 1) select) :
      WritesAndReadsBack address pointer values
        ((opening :: stores) ++ ((opening :: seeks) ++
          [opening, select, reading values.length, closing]))

/-- A token that is always accepted, and stands for a single kind of use of the bus. -/
structure Plain (t : Token) : Prop where
  fits : ∀ settings, t.Fits settings
  free : ∀ role, t.PinFree role
  single : ∀ settings, ∀ i ∈ t.denote settings,
    i.op.isSingleUse = true ∧ i.severity = .none

theorem plain_of_isByte {byte : UInt8} {t : Token} (is_byte : t.IsByte byte) : t.Plain := by
  obtain ⟨radix, rfl⟩ := is_byte
  refine ⟨fun settings => ⟨by simp, by simp [Attributes.BitsFit, Operation.usesPin]⟩,
    fun role => trivial, fun settings i member => ?_⟩
  obtain rfl := List.mem_singleton.mp member
  exact ⟨rfl, rfl⟩

theorem plain_of_forall₂ {bytes : List UInt8} {tokens : List Token}
    (numbers : List.Forall₂ IsByte bytes tokens) : ∀ t ∈ tokens, t.Plain := by
  induction numbers with
  | nil => simp
  | cons first _ induction => exact List.forall_mem_cons.mpr ⟨plain_of_isByte first, induction⟩

theorem plain_command {symbol : Char} {op : Operation} {attributes : Attributes}
    (single : op.isSingleUse = true) (no_bits : attributes.bits = none)
    (repeats_le : ∀ n ∈ attributes.repeats, n ≤ 65535) :
    (Token.command symbol op attributes).Plain := by
  have uses_no_pin : op.usesPin = false := by
    cases op <;> first
      | rfl
      | contradiction
  have claims_no_pin : op.claimsPin ≠ true := fun claims => by
    rw [Operation.usesPin_of_claimsPin claims] at uses_no_pin
    contradiction
  refine ⟨fun settings => ⟨repeats_le, by simp [Attributes.BitsFit, uses_no_pin, no_bits]⟩,
    fun role claims => absurd claims claims_no_pin, fun settings i member => ?_⟩
  obtain rfl := List.mem_singleton.mp member
  exact ⟨single, rfl⟩

theorem WritesAndReadsBack.plain {address pointer : UInt8} {values : List UInt8}
    {tokens : List Token} (transaction : WritesAndReadsBack address pointer values tokens)
    (values_le : values.length ≤ 256) : ∀ t ∈ tokens, t.Plain := by
  obtain ⟨writes, points, selects⟩ := transaction
  have stores_plain := plain_of_forall₂ writes
  have seeks_plain := plain_of_forall₂ points
  have opening_plain : opening.Plain := plain_command rfl rfl (by simp)
  have reading_plain : (reading values.length).Plain :=
    plain_command rfl rfl (by rintro _ ⟨⟩; omega)
  have closing_plain : closing.Plain := plain_command rfl rfl (by simp)
  simp only [List.cons_append, List.mem_cons, List.mem_append, List.not_mem_nil, or_false]
  rintro t (rfl | stores | rfl | seeks | rfl | rfl | rfl | rfl)
  · exact opening_plain
  · exact stores_plain t stores
  · exact opening_plain
  · exact seeks_plain t seeks
  · exact opening_plain
  · exact plain_of_isByte selects
  · exact reading_plain
  · exact closing_plain

theorem slots_of_forall₂ {bytes : List UInt8} {tokens : List Token}
    (numbers : List.Forall₂ IsByte bytes tokens) (settings : Settings) :
    Program.slots (tokens.flatMap (denote settings)) = bytes.length := by
  induction numbers with
  | nil => rfl
  | cons first _ induction =>
    obtain ⟨radix, rfl⟩ := first
    rw [List.flatMap_cons, Program.slots_append, induction, List.length_cons, Nat.add_comm]
    rfl

theorem WritesAndReadsBack.slots_eq {address pointer : UInt8} {values : List UInt8}
    {tokens : List Token} (transaction : WritesAndReadsBack address pointer values tokens)
    (some_value : values ≠ []) (settings : Settings) :
    Program.slots (tokens.flatMap (denote settings)) = 2 * values.length + 9 := by
  obtain ⟨writes, points, selects⟩ := transaction
  have length_pos := List.length_pos_of_ne_nil some_value
  have stores_eq := slots_of_forall₂ writes settings
  have seeks_eq := slots_of_forall₂ points settings
  have select_eq := slots_of_forall₂ (.cons selects .nil) settings
  have opening_eq : Program.slots (opening.denote settings) = 1 := rfl
  have reading_eq : Program.slots ((reading values.length).denote settings) = values.length :=
    Nat.max_eq_left length_pos
  have closing_eq : Program.slots (closing.denote settings) = 1 := rfl
  simp only [List.flatMap_cons, List.flatMap_append, List.flatMap_nil, Program.slots_append,
    List.length_cons, List.length_nil, Program.slots_nil] at stores_eq seeks_eq select_eq ⊢
  omega

theorem exists_uses_of_forall₂ {bytes : List UInt8} {tokens : List Token}
    (numbers : List.Forall₂ IsByte bytes tokens) (settings : Settings) (rest : Program) :
    ∃ uses, List.Forall₂ I2c.Writes bytes uses ∧
      Program.uses (tokens.flatMap (denote settings) ++ rest) = uses ++ rest.uses := by
  induction numbers with
  | nil => exact ⟨[], .nil, rfl⟩
  | @cons byte _ bytes tokens first _ induction =>
    obtain ⟨radix, rfl⟩ := first
    obtain ⟨uses, writes, uses_eq⟩ := induction
    let entry : Instruction := .write byte.toUInt32 radix settings.bits
    refine ⟨⟨⟨.write, none⟩, entry⟩ :: uses, .cons ⟨rfl, rfl, rfl⟩ writes, ?_⟩
    rw [List.flatMap_cons, List.append_assoc]
    exact congrArg (⟨⟨.write, none⟩, entry⟩ :: ·) uses_eq

/-! ### Entries and uses of the tokens -/

/-- The instruction that opens a transfer. -/
def openingEntry (settings : Settings) : Instruction :=
  { op := .start, bits := settings.bits }

/-- The instruction that closes a transfer. -/
def closingEntry (settings : Settings) : Instruction :=
  { op := .stop, bits := settings.bits }

/-- The instruction that reads so many bytes. -/
def readingEntry (settings : Settings) (n : Nat) : Instruction :=
  { op := .read, bits := settings.bits, repeats := n, hasRepeats := true }

theorem denote_opening (settings : Settings) :
    opening.denote settings = [openingEntry settings] := rfl

theorem denote_closing (settings : Settings) :
    closing.denote settings = [closingEntry settings] := rfl

theorem denote_reading (settings : Settings) (n : Nat) :
    (reading (n + 1)).denote settings = [readingEntry settings (n + 1)] := by
  simp [reading, denote, readingEntry, Operation.usesPin]

theorem uses_openingEntry (settings : Settings) (rest : Program) :
    Program.uses (openingEntry settings :: rest) =
      ⟨⟨.start, none⟩, openingEntry settings⟩ :: rest.uses := rfl

/-- Only the last of the reads has the end of the transfer behind it. -/
theorem uses_readingEntry (settings : Settings) (n : Nat) :
    Program.uses [readingEntry settings (n + 1), closingEntry settings] =
      List.replicate n ⟨⟨.read, none⟩, readingEntry settings (n + 1)⟩ ++
        [⟨⟨.read, some (closingEntry settings)⟩, readingEntry settings (n + 1)⟩,
          ⟨⟨.stop, none⟩, closingEntry settings⟩] := by
  simp [Program.uses, Instruction.uses, Instruction.requests, readingEntry, closingEntry]

theorem WritesAndReadsBack.uses {address pointer : UInt8} {front : List UInt8} {final : UInt8}
    {tokens : List Token}
    (transaction : WritesAndReadsBack address pointer (front ++ [final]) tokens)
    (settings : Settings) :
    I2c.StoresAndFetches (2 * address) (2 * address + 1) pointer front final
      (Program.uses (tokens.flatMap (denote settings))) := by
  obtain ⟨writes, points, selects⟩ := transaction
  rename_i stores seeks select
  have length_eq : (front ++ [final]).length = front.length + 1 := List.length_append
  -- The three parts of the program, each with what follows it.
  let reads : Program := [readingEntry settings (front.length + 1), closingEntry settings]
  let fetch : Program := openingEntry settings :: ([select].flatMap (denote settings) ++ reads)
  let seek : Program := openingEntry settings :: (seeks.flatMap (denote settings) ++ fetch)
  have program_eq : ((opening :: stores) ++ ((opening :: seeks) ++
      [opening, select, reading (front ++ [final]).length, closing])).flatMap (denote settings) =
        openingEntry settings :: (stores.flatMap (denote settings) ++ seek) := by
    simp [length_eq, denote_opening, denote_closing, denote_reading, seek, fetch, reads]
  obtain ⟨stores_uses, stores_write, stores_eq⟩ := exists_uses_of_forall₂ writes settings seek
  obtain ⟨seeks_uses, seeks_write, seeks_eq⟩ := exists_uses_of_forall₂ points settings fetch
  obtain ⟨fetch_uses, fetch_writes, fetch_eq⟩ :=
    exists_uses_of_forall₂ (.cons selects .nil) settings reads
  obtain ⟨select_use, _, select_writes, behind, rfl⟩ := List.forall₂_cons_left_iff.mp fetch_writes
  obtain rfl := List.forall₂_nil_left_iff.mp behind
  rw [program_eq, uses_openingEntry, stores_eq, uses_openingEntry, seeks_eq, uses_openingEntry,
    fetch_eq, uses_readingEntry]
  exact .intro ⟨rfl, rfl, rfl⟩ stores_write ⟨rfl, rfl, rfl⟩ seeks_write ⟨rfl, rfl, rfl⟩
    select_writes ⟨rfl, rfl⟩ rfl ⟨rfl, rfl⟩ rfl ⟨rfl, rfl, rfl⟩

end Token

/-- The instructions that make some uses are among those of the program. -/
theorem Program.entry_mem_of_mem_uses {p : Program} {use : Use} (member : use ∈ p.uses) :
    use.entry ∈ p := by
  induction p with
  | nil => exact absurd member List.not_mem_nil
  | cons i rest induction =>
    rw [uses, List.mem_append] at member
    rcases member with here | later
    · obtain ⟨request, -, rfl⟩ := List.mem_map.mp here
      exact List.mem_cons_self
    · exact List.mem_cons_of_mem i (induction later)

theorem I2c.targets_of_read {β : Type} [Board β] {bench : Bench I2c β} {slots : List Slot} {k : Nat}
    {done : Dispatched I2c β} (done_eq : (bench.history slots)[k]? = some done)
    (is_read : done.entry.op = .read) :
    done.bench.driver.targets =
      (bench.after ((bench.history slots).take k)).driver.targets := by
  obtain ⟨slot, -, rfl⟩ := Bench.dispatch_of_history done_eq
  rw [op_dispatch] at is_read
  rw [Bench.dispatch, Bench.execute, is_read]
  exact (frame_readByte _).1

namespace Session

variable {β : Type} [Board β]

/-- On a bus that is not stuck, a line of plain tokens records the outcomes of its uses. -/
theorem exists_of_plain {s : Session} {line : Cursor} {bus : I2c} (board : β) {tokens : List Token}
    (plain : ∀ t ∈ tokens, t.Plain) (free : bus.stuck = false)
    (script : IsScript IsScript.Read tokens line.rest)
    (nonempty : 0 < Program.slots (tokens.flatMap (Token.denote s.settings)))
    (room : Program.slots (tokens.flatMap (Token.denote s.settings)) < s.settings.capacity) :
    ∃ out, (s.run line bus board).result = .ok out ∧
      out.trace.entries.toList =
        Driver.outcomes (Program.uses (tokens.flatMap (Token.denote s.settings))) bus ∧
      (s.run line bus board).driver =
        Driver.after (Program.uses (tokens.flatMap (Token.denote s.settings))) bus := by
  have compiled : (line.compile s.settings s.pins.role).1.result =
      .ok (tokens.flatMap (Token.denote s.settings)) :=
    compileFrom_of_reads (d := {}) (i := line.input) script rfl
      (fun t member => ⟨(plain t member).fits _, (plain t member).free _⟩)
      (.inr (by rw [Nat.zero_add]; exact room))
  have some_entry : tokens.flatMap (Token.denote s.settings) ≠ [] := by
    intro nothing
    rw [nothing, Program.slots_nil] at nonempty
    contradiction
  have entry_plain : ∀ i ∈ tokens.flatMap (Token.denote s.settings),
      i.op.isSingleUse = true ∧ i.severity = .none := by
    intro i member
    obtain ⟨t, inside, denoted⟩ := List.mem_flatMap.mp member
    exact (plain t inside).single s.settings i denoted
  have mild : ∀ entry ∈ Driver.outcomes
      (Program.uses (tokens.flatMap (Token.denote s.settings))) bus, entry.isFatal = false := by
    refine I2c.not_isFatal_of_mem_outcomes (fun use member => ?_) free
    rw [Instruction.isFatal, (entry_plain _ (Program.entry_mem_of_mem_uses member)).2]
    rfl
  have ran := ran_of_compile bus board compiled some_entry
  obtain ⟨entries_eq, driver_eq⟩ :=
    (Cursor.budgeted_of_compile s.valid compiled).run_of_isSingleUse
      (fun i member => (entry_plain i member).1) (s.bench bus board) mild
  exact ⟨_, ran.result_eq, entries_eq, ran.driver_eq.trans driver_eq⟩

/-- A line that stores values in a device and reads them back is acknowledged, gives the values
back, and changes no other register. -/
theorem run_of_writesAndReadsBack {s : Session} {line : Cursor} {bus : I2c} {board : β}
    {address pointer : UInt8} {values : List UInt8} {tokens : List Token}
    (free : bus.stuck = false) (seven_bits : address < 128)
    (device : ∃ t ∈ bus.targets, t.address = address) (some_value : values ≠ [])
    (values_le : values.length ≤ 256)
    (transaction : Token.WritesAndReadsBack address pointer values tokens)
    (script : IsScript IsScript.Read tokens line.rest)
    (room : 2 * values.length + 9 < s.settings.capacity) :
    let handled := s.run line bus board
    ∃ out k, handled.result = .ok out ∧ bus.device? address = some k ∧
      out.trace.entries.toList.filterMap I2c.sent? =
        ([2 * address, pointer] ++ values ++ [2 * address, pointer, 2 * address + 1]).map
          (fun byte => (byte.toUInt32, some "ACK")) ∧
      (out.trace.entries.toList.filterMap I2c.received?).map Prod.fst =
        values.map UInt8.toUInt32 ∧
      (out.trace.entries.toList.filterMap I2c.received?).map Prod.snd =
        List.replicate (values.length - 1) (some "ACK") ++ [some "NACK"] ∧
      (∀ i value, values[i]? = some value →
        handled.driver.register? address (pointer + UInt8.ofNat i) = some value) ∧
      (∀ r, (∀ i < values.length, r ≠ pointer + UInt8.ofNat i) →
        handled.driver.register? address r = bus.register? address r) ∧
      (∀ j ≠ k, handled.driver.targets[j]? = bus.targets[j]?) ∧
      ∀ j done, ((s.bench bus board).history out.program.unroll)[j]? = some done →
        done.entry.op = .read → done.bench.driver.targets =
          ((s.bench bus board).after
            (((s.bench bus board).history out.program.unroll).take j)).driver.targets := by
  intro handled
  obtain ⟨front, final, rfl⟩ : ∃ front final, values = front ++ [final] :=
    ⟨_, _, (List.dropLast_append_getLast some_value).symm⟩
  have slots_eq := transaction.slots_eq some_value s.settings
  obtain ⟨out, result_eq, entries_eq, driver_eq⟩ :=
    exists_of_plain board (transaction.plain values_le) free script
      (by rw [slots_eq]; exact Nat.succ_pos _) (by rw [slots_eq]; exact room)
  obtain ⟨k, found⟩ : ∃ k, bus.device? address = some k := by
    obtain ⟨t, member, address_eq⟩ := device
    have some_device : (bus.device? address).isSome = true := by
      rw [I2c.device?, Array.findIdx?_isSome, Array.any_eq_true']
      exact ⟨t, member, beq_iff_eq.mpr address_eq⟩
    exact Option.isSome_iff_exists.mp some_device
  obtain ⟨store_shift, fetch_shift⟩ := I2c.shiftRight_address seven_bits
  obtain ⟨seen, targets_after⟩ := I2c.seen_of_storesAndFetches (transaction.uses s.settings)
    values_le free (store_shift.symm ▸ found) (fetch_shift.symm ▸ found)
  rw [← entries_eq] at seen
  have targets_eq : handled.driver.targets =
      bus.targets.modify k (I2c.Target.store (front ++ [final]) pointer) :=
    (congrArg I2c.targets driver_eq).trans targets_after
  obtain ⟨t, target_eq, -⟩ := I2c.exists_of_device?_eq_some found
  have found_after : handled.driver.device? address = some k := by
    rw [show handled.driver = _ from driver_eq, I2c.device?_after, found]
  have target_after : handled.driver.targets[k]? = some (t.store (front ++ [final]) pointer) := by
    rw [targets_eq]
    exact I2c.getElem?_modify_store target_eq _ _
  have register_after := I2c.register?_of_device? found_after target_after
  refine ⟨out, k, result_eq, found, seen.sent_eq, ?_, ?_, fun i value value_eq => ?_,
    fun r outside => ?_, fun j other => ?_, fun j done => I2c.targets_of_read⟩
  · simp [seen.received_eq]
  · rw [seen.received_eq, List.map_append, List.map_map, List.length_append, List.length_singleton,
      Nat.add_sub_cancel, ← List.map_const']
    rfl
  · rw [register_after, I2c.Target.register_store_inside values_le value_eq]
  · rw [register_after, I2c.Target.register_store_outside values_le outside,
      I2c.register?_of_device? found target_eq]
  · rw [targets_eq, Array.getElem?_modify, if_neg other.symm]

/-- Three values are stored in a device from the last register but one on, behind another device. -/
theorem run_of_three_registers :
    let bus : I2c := { targets := #[.ofList 0x20 [1], .ofList 0x50 []] }
    let handled := plain.run (.ofString "[ 160 254 7 8 9 [ 160 254 [ 161 r:3 ]") bus
      (SimulatedBoard.ofCount 8)
    ∃ out, handled.result = .ok out ∧
      (out.trace.entries.toList.filterMap I2c.received?).map Prod.fst = [7, 8, 9] ∧
      handled.driver.register? 0x50 254 = some 7 ∧ handled.driver.register? 0x50 0 = some 9 ∧
      handled.driver.register? 0x50 1 = bus.register? 0x50 1 ∧
      handled.driver.targets[0]? = bus.targets[0]? := by
  intro bus handled
  let number (byte : UInt8) : Token := .value ⟨byte.toUInt32, .dec⟩ {}
  let digits (byte : UInt8) : List Char := Nat.toDigits 10 byte.toUInt32.toNat
  have is_byte (byte : UInt8) : (number byte).IsByte byte := ⟨.dec, rfl⟩
  have spelled (byte : UInt8) : (number byte).Spelled (digits byte) := by
    have value : (number byte).Spelled (digits byte ++ []) :=
      .value (Literal.spelled_toDigits byte.toUInt32) .done
    rwa [List.append_nil] at value
  have opening_spelled : Token.opening.Spelled ['['] := .command rfl .done
  have closing_spelled : Token.closing.Spelled [']'] := .command rfl .done
  have reading_spelled : (Token.reading 3).Spelled ['r', ':', '3'] :=
    .command rfl (.repeats rfl (Attributes.isNumber_toDigits (by decide)) .done)
  have transaction : Token.WritesAndReadsBack 0x50 254 [7, 8, 9]
      ((Token.opening :: [number 160, number 254, number 7, number 8, number 9]) ++
        ((Token.opening :: [number 160, number 254]) ++
          [Token.opening, number 161, Token.reading 3, Token.closing])) :=
    .intro (.cons (is_byte 160) (.cons (is_byte 254) (.cons (is_byte 7) (.cons (is_byte 8)
      (.cons (is_byte 9) .nil))))) (.cons (is_byte 160) (.cons (is_byte 254) .nil)) (is_byte 161)
  have script := (setApart_intercalate (List.cons_ne_nil ' ' []) (by simp [isSeparator]) _).isScript
    (.cons opening_spelled (.cons (spelled 160) (.cons (spelled 254) (.cons (spelled 7)
      (.cons (spelled 8) (.cons (spelled 9) (.cons opening_spelled (.cons (spelled 160)
        (.cons (spelled 254) (.cons opening_spelled (.cons (spelled 161) (.cons reading_spelled
          (.cons closing_spelled .nil)))))))))))))
  obtain ⟨out, k, result_eq, found, -, received_eq, -, stored, kept, others, -⟩ :=
    @run_of_writesAndReadsBack SimulatedBoard _ plain
      (.ofString "[ 160 254 7 8 9 [ 160 254 [ 161 r:3 ]") bus (.ofCount 8) 0x50 254 [7, 8, 9] _ rfl
      (by decide) ⟨.ofList 0x50 [], by simp [bus], rfl⟩ (List.cons_ne_nil _ _) (by decide)
      transaction script.reads_of_apart (by decide)
  have second : bus.device? 0x50 = some 1 := by decide +kernel
  obtain rfl : 1 = k := Option.some.inj (second.symm.trans found)
  exact ⟨out, result_eq, received_eq, stored 0 7 rfl, stored 2 9 rfl, kept 1 (by decide),
    others 0 (by decide)⟩

end Session

end BusScript
