import BusScript.Operation

/-!
# Instructions

An `Instruction` is one scripted operation together with what became of it. A compiled script holds
instructions whose outcome is still blank; the record of a run holds copies that the bus has filled
in.
-/

namespace BusScript

/-- The notation a value was written in. -/
inductive Radix where
  | hex
  | dec
  | bin
  /-- A character of a quoted text. -/
  | ascii
deriving DecidableEq, Repr, Inhabited

/-- How serious a remark on an instruction is. -/
inductive Severity where
  | none
  /-- Of interest to developers. -/
  | debug
  /-- Of interest to users. -/
  | info
  /-- Something looks wrong, and the run goes on. -/
  | warn
  /-- The run stops here. -/
  | error
deriving DecidableEq, Repr, Inhabited

namespace Severity

/-- Every severity, the least serious first. -/
def all : List Severity :=
  [none, debug, info, warn, error]

/-- The rank of a severity, `0` for the least serious. -/
def rank : Severity → Nat
  | none => 0
  | debug => 1
  | info => 2
  | warn => 3
  | error => 4

/-- The severity of the given rank. -/
def ofRank? (n : Nat) : Option Severity :=
  all[n]?

instance : LT Severity where
  lt a b := a.rank < b.rank

instance (a b : Severity) : Decidable (a < b) :=
  inferInstanceAs (Decidable (a.rank < b.rank))

/-- Whether a run stops after an instruction with this remark. -/
def isFatal : Severity → Bool
  | error => true
  | _ => false

theorem isFatal_iff {s : Severity} : s.isFatal = true ↔ s = error := by
  cases s <;> simp [isFatal]

end Severity

/-- The word whose `n` low bits are set, all of them from `32` on. -/
def lowBits (n : Nat) : UInt32 :=
  if 32 ≤ n then 0xffffffff else (1 <<< UInt32.ofNat n) - 1

/-- One operation of a script, and what became of it. -/
structure Instruction where
  op : Operation
  /-- The notation of the value. -/
  radix : Radix := .hex
  /-- The number of significant bits of the values. -/
  bits : Nat := 8
  /-- How often the operation is to be done, or for how long. -/
  repeats : Nat := 1
  /-- The pin of an operation that uses one. -/
  pin : Nat := 0
  /-- Whether the script gave a width or a pin. -/
  hasBits : Bool := false
  hasRepeats : Bool := false
  /-- Whether the received value came in during a write and is to be shown beside it. -/
  echoes : Bool := false
  sent : UInt32 := 0
  received : UInt32 := 0
  /-- The seriousness of the remark. -/
  severity : Severity := .none
  remark : Option String := none
  /-- What the bus has to say about the value. -/
  note : Option String := none
deriving DecidableEq, Repr, Inhabited

namespace Instruction

/-- A write of a value in the notation the script used. -/
def write (value : UInt32) (radix : Radix) (bits : Nat) : Instruction where
  op := .write
  radix := radix
  bits := bits
  sent := value

/-- Puts a remark on an instruction. -/
def flag (severity : Severity) (text : String) (i : Instruction) : Instruction :=
  { i with severity := severity, remark := some text }

/-- Puts a note on an instruction. -/
def annotate (text : String) (i : Instruction) : Instruction :=
  { i with note := some text }

/-- Stores the value that came in. -/
def receive (value : UInt32) (i : Instruction) : Instruction :=
  { i with received := value }

/-- Whether a run stops after this instruction. -/
def isFatal (i : Instruction) : Bool :=
  i.severity.isFatal

/-- The word that selects the significant bits. -/
def mask (i : Instruction) : UInt32 :=
  lowBits i.bits

/-- The number of slots the instruction is charged for. -/
def slotCost (i : Instruction) : Nat :=
  i.op.slotCost i.repeats

/-- The number of times the instruction is carried out and recorded. -/
def expansion (i : Instruction) : Nat :=
  i.op.expansion i.repeats

@[simp] theorem op_flag (severity : Severity) (text : String) (i : Instruction) :
    (i.flag severity text).op = i.op := rfl

@[simp] theorem op_annotate (text : String) (i : Instruction) : (i.annotate text).op = i.op := rfl

@[simp] theorem op_receive (value : UInt32) (i : Instruction) : (i.receive value).op = i.op := rfl

@[simp] theorem isFatal_flag (severity : Severity) (text : String) (i : Instruction) :
    (i.flag severity text).isFatal = severity.isFatal := rfl

@[simp] theorem isFatal_annotate (text : String) (i : Instruction) :
    (i.annotate text).isFatal = i.isFatal := rfl

@[simp] theorem isFatal_receive (value : UInt32) (i : Instruction) :
    (i.receive value).isFatal = i.isFatal := rfl

end Instruction

/-- Instructions in the order in which they are carried out. -/
abbrev Program := List Instruction

namespace Program

/-- The default number of slots of a run. -/
def defaultCapacity : Nat := 1024

/-- The largest repeat count a script can ask for. -/
def maxRepeats : Nat := 65535

/-- The number of slots the program is charged for. -/
def slots : Program → Nat
  | [] => 0
  | i :: rest => i.slotCost + slots rest

@[simp] theorem slots_nil : slots [] = 0 := rfl

@[simp] theorem slots_cons (i : Instruction) (p : Program) :
    slots (i :: p) = i.slotCost + slots p := rfl

@[simp] theorem slots_append (p q : Program) : slots (p ++ q) = slots p + slots q := by
  induction p with
  | nil => simp
  | cons i rest induction => simp [induction, Nat.add_assoc]

end Program

end BusScript
