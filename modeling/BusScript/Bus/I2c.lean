import BusScript.Bus.Driver

/-!
# I2C bus

An I2C controller and targets that are register files. After a start the first byte written is an
address; the target that answers takes the next byte as its register pointer, and every further byte
moves the pointer on, from the last register to the first.

A bus that is stuck can neither start nor stop. A bus without pull-ups works and warns.
-/

namespace BusScript

namespace I2c

/-- A device on the bus. -/
structure Target where
  /-- The seven bits it answers to. -/
  address : UInt8
  registers : Vector UInt8 256
deriving DecidableEq, Repr

namespace Target

/-- A device at an address, of which seven bits count. Registers that are not listed are zero, and
what is listed beyond the last register is dropped. -/
def ofList (address : UInt8) (registers : List UInt8) : Target where
  address := address &&& 0x7f
  registers := Vector.ofFn fun i => registers[i.val]?.getD 0

/-- The value of a register. -/
def register (t : Target) (i : UInt8) : UInt8 :=
  have := i.toNat_lt
  t.registers[i.toNat]

/-- Changes the value of a register. -/
def setRegister (i value : UInt8) (t : Target) : Target :=
  { t with registers := t.registers.set i.toNat value i.toNat_lt }

@[simp] theorem address_setRegister (i value : UInt8) (t : Target) :
    (t.setRegister i value).address = t.address := rfl

theorem register_setRegister (i j value : UInt8) (t : Target) :
    (t.setRegister i value).register j = if j = i then value else t.register j := by
  simp only [setRegister, register, Vector.getElem_set]
  by_cases same : j = i
  · simp [same]
  · have apart : i.toNat ≠ j.toNat := fun h => same (UInt8.toNat_inj.mp h.symm)
    simp [same, apart]

end Target

/-- Where a transfer stands. -/
inductive Phase where
  | idle
  /-- The next byte written is an address. -/
  | address
  /-- The target with this index answered, and its pointer may have been given. -/
  | addressed (target : Nat) (pointerSet : Bool)
  | unanswered
deriving DecidableEq, Repr, Inhabited

/-- The remark on a bus without pull-ups. -/
def noPullUps : String :=
  "no pull-up detected. Use P to enable onboard pull-up resistors"

end I2c

/-- The controller and the devices on its bus. -/
structure I2c where
  /-- The devices, those that are found first in front. -/
  targets : Array I2c.Target := #[]
  pullUps : Bool := true
  /-- Whether the data line is held low. -/
  stuck : Bool := false
  /-- Whether a transfer was opened and not closed. -/
  startSent : Bool := false
  phase : I2c.Phase := .idle
  /-- The register that the next data byte is about. -/
  pointer : UInt8 := 0
deriving DecidableEq, Repr

namespace I2c

/-- The value of a register of the first device with exactly this address. -/
def register? (bus : I2c) (address i : UInt8) : Option UInt8 :=
  (bus.targets.find? fun t => t.address == address).map fun t => t.register i

/-- Whether a byte was taken, as the bus notes it. -/
def acknowledge (taken : Bool) (entry : Instruction) : Instruction :=
  entry.annotate (if taken then "ACK" else "NACK")

/-- The remark on an entry that asks a stuck bus for a start or a stop. -/
def timeout (bus : I2c) (entry : Instruction) : Instruction :=
  if bus.stuck then entry.flag .error "I2C timeout" else entry

/-- Opens a transfer, or opens another one without closing the first. -/
def start (entry : Instruction) (bus : I2c) : Instruction × I2c :=
  let noted :=
    if bus.startSent then entry.annotate "I2C REPEATED START"
    else (if bus.pullUps then entry else entry.flag .warn noPullUps).annotate "I2C START"
  (bus.timeout noted, if bus.stuck then bus else { bus with startSent := true, phase := .address })

/-- Closes a transfer. -/
def stop (entry : Instruction) (bus : I2c) : Instruction × I2c :=
  (bus.timeout (entry.annotate "I2C STOP"), { bus with startSent := false, phase := .idle })

/-- Passes a byte to the bus, and says whether it was taken. -/
def writeByte (byte : UInt8) (bus : I2c) : Bool × I2c :=
  match bus.phase with
  | .address =>
    match bus.targets.findIdx? fun t => t.address == byte >>> 1 with
    | some target => (true, { bus with phase := .addressed target false })
    | none => (false, { bus with phase := .unanswered })
  | .addressed target false =>
    (true, { bus with pointer := byte, phase := .addressed target true })
  | .addressed target true =>
    (true, { bus with
      targets := bus.targets.modify target fun t => t.setRegister bus.pointer byte
      pointer := bus.pointer + 1 })
  | .idle | .unanswered => (false, bus)

/-- Fetches a byte from the bus. Where no device drives it, the bus is high. -/
def readByte (bus : I2c) : UInt8 × I2c :=
  match bus.phase with
  | .addressed target _ =>
    ((bus.targets[target]?.map fun t => t.register bus.pointer).getD 0xff,
      { bus with pointer := bus.pointer + 1 })
  | .idle | .address | .unanswered => (0xff, bus)

/-- Writes the low byte of the value. -/
def write (entry : Instruction) (bus : I2c) : Instruction × I2c :=
  let (taken, bus) := bus.writeByte entry.sent.toUInt8
  (acknowledge taken entry, bus)

/-- Reads a byte. It is not acknowledged if the very next instruction is a start or a stop. -/
def read (next : Option Instruction) (entry : Instruction) (bus : I2c) : Instruction × I2c :=
  let goesOn := !next.any fun i => i.op.isFraming
  let (byte, bus) := bus.readByte
  (acknowledge goesOn (entry.receive byte.toUInt32), bus)

end I2c

instance : Driver I2c where
  name _ := "I2C"
  preflight bus := (bus, if bus.pullUps then [] else [.busWarning I2c.noPullUps])
  perform
    | .write, _, entry, bus => bus.write entry
    | .read, next, entry, bus => bus.read next entry
    | .start, _, entry, bus | .startAlt, _, entry, bus => bus.start entry
    | .stop, _, entry, bus | .stopAlt, _, entry, bus => bus.stop entry
    | .tickClock, _, entry, bus | .clockHigh, _, entry, bus | .clockLow, _, entry, bus
    | .dataHigh, _, entry, bus | .dataLow, _, entry, bus | .readBit, _, entry, bus =>
      (entry.noEffect, bus)

end BusScript
