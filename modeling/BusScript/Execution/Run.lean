import BusScript.Execution.Bench
import BusScript.Execution.Trace

/-!
# Runs

A program is unrolled into slots, one for each thing to be done, and the slots are carried out in
order. A run stops behind the first entry that is fatal. It also stops when only the final slot of
the trace is left: that slot then holds the instruction that could not be carried out, with a
remark.
-/

namespace BusScript

/-- One thing to be done. -/
structure Slot where
  /-- The index of its instruction in the program. -/
  index : Nat
  /-- Which repeat of the instruction it is, counted from `0`. -/
  repetition : Nat
  source : Instruction
  /-- The instruction that comes next, if this is the last repeat. -/
  next : Option Instruction
deriving DecidableEq, Repr

/-- The slots of an instruction with the given index and successor. -/
def Instruction.slots (index : Nat) (next : Option Instruction) (i : Instruction) : List Slot :=
  (List.range i.expansion).map fun repetition =>
    { index := index
      repetition := repetition
      source := i
      next := if repetition + 1 = i.expansion then next else none }

namespace Program

/-- The slots of a program whose first instruction has the given index. -/
def unrollFrom (index : Nat) : Program → List Slot
  | [] => []
  | i :: rest => i.slots index rest.head? ++ unrollFrom (index + 1) rest

/-- The slots of a program. -/
def unroll (p : Program) : List Slot :=
  p.unrollFrom 0

end Program

/-- A run in progress. -/
structure Run (σ β : Type) where
  trace : Trace
  bench : Bench σ β
  events : Array Event := #[]
  /-- Whether the run is over before the program is. -/
  stopped : Bool := false

namespace Run

variable {σ β : Type}

/-- A run that has not begun. -/
def ofBench (capacity : Nat) (bench : Bench σ β) : Run σ β where
  trace := { capacity := capacity }
  bench := bench

/-- Stops because there is no slot left for an instruction. -/
def overflow (slot : Slot) (r : Run σ β) : Run σ β :=
  { r with
    trace := r.trace.push (slot.source.flag .error (Trace.overflowRemark r.trace.capacity))
    events := r.events.push (.traceFull slot.index r.trace.capacity)
    stopped := true }

/-- Adds what was carried out in a slot, and stops if it is fatal. -/
def record (slot : Slot) (done : Dispatched σ β) (r : Run σ β) : Run σ β where
  trace := r.trace.push done.entry
  bench := done.bench
  events :=
    if done.entry.isFatal then
      (r.events.appendList done.events).push (.halted slot.index slot.repetition)
    else r.events.appendList done.events
  stopped := done.entry.isFatal

variable [Driver σ] [Board β]

/-- Carries a slot out, if the trace has room. -/
def step (slot : Slot) (r : Run σ β) : Run σ β :=
  if r.trace.isFull then r.overflow slot
  else r.record slot (r.bench.dispatch slot.next slot.source)

/-- Carries slots out until the run stops. -/
def steps : List Slot → Run σ β → Run σ β
  | [], r => r
  | slot :: slots, r => if r.stopped then r else (r.step slot).steps slots

/-- Carries out what a program asks for, instruction by instruction, until the run stops. The first
instruction has the given index. -/
def instructions (index : Nat) : Program → Run σ β → Run σ β
  | [], r => r
  | i :: rest, r =>
    if r.stopped then r
    else (r.steps (i.slots index rest.head?)).instructions (index + 1) rest

theorem steps_of_stopped {r : Run σ β} (h : r.stopped = true) (slots : List Slot) :
    r.steps slots = r := by
  cases slots with
  | nil => rfl
  | cons slot slots => simp [steps, h]

theorem instructions_of_stopped {r : Run σ β} (h : r.stopped = true) (index : Nat) (p : Program) :
    r.instructions index p = r := by
  cases p with
  | nil => rfl
  | cons i rest => simp [instructions, h]

theorem steps_append (front back : List Slot) (r : Run σ β) :
    r.steps (front ++ back) = (r.steps front).steps back := by
  induction front generalizing r with
  | nil => rfl
  | cons slot front induction =>
    by_cases stopped : r.stopped = true
    · rw [steps_of_stopped stopped, steps_of_stopped stopped, steps_of_stopped stopped]
    · simp only [List.cons_append, steps, if_neg stopped]
      exact induction (r.step slot)

/-- A program does what its slots do one after the other. -/
theorem instructions_eq_steps (index : Nat) (p : Program) (r : Run σ β) :
    r.instructions index p = r.steps (p.unrollFrom index) := by
  induction p generalizing index r with
  | nil => rfl
  | cons i rest induction =>
    by_cases stopped : r.stopped = true
    · rw [instructions_of_stopped stopped, steps_of_stopped stopped]
    · simp only [instructions, if_neg stopped, Program.unrollFrom, steps_append]
      exact induction (index + 1) _

end Run

/-- Runs a program on a bench, with a trace of the given capacity. -/
def Program.run {σ β : Type} [Driver σ] [Board β] (capacity : Nat) (p : Program)
    (bench : Bench σ β) : Run σ β :=
  let finished := (Run.ofBench capacity bench).instructions 0 p
  { finished with
    events := #[.runBegins (Driver.name bench.driver) p.length] ++ finished.events }

end BusScript
