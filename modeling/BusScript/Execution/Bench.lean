import BusScript.Board
import BusScript.Bus.Driver
import BusScript.Execution.Tally
import BusScript.Pin.Registry

/-!
# Benches

A bench is what a program runs on: a bus, a board, the pin registry and the tally. `Bench.dispatch`
carries one entry out: on the bus if it is a matter of the bus, otherwise on the board.
-/

namespace BusScript

/-- What a program runs on. -/
structure Bench (σ β : Type) where
  driver : σ
  board : β
  pins : PinRegistry
  /-- What was carried out so far. -/
  tally : Tally

/-- An entry that was carried out. -/
structure Dispatched (σ β : Type) where
  /-- The entry, filled in. -/
  entry : Instruction
  bench : Bench σ β
  events : List Event := []

namespace Bench

variable {σ β : Type}

/-- The label of a pin that a script drives to a level. -/
def outputLabel (level : Bool) : String :=
  if level then "AUXH" else "AUXL"

section Bus

variable [Driver σ]

/-- Uses a capability of the bus. -/
def perform (capability : Capability) (next : Option Instruction) (entry : Instruction)
    (bench : Bench σ β) : Dispatched σ β :=
  let (entry, driver) := Driver.perform capability next entry bench.driver
  { entry := entry, bench := { bench with driver := driver } }

/-- Pulses the clock as often as the entry says. All pulses share the entry. -/
def tick (entry : Instruction) (bench : Bench σ β) : Dispatched σ β :=
  let pulse (state : Instruction × σ) : Instruction × σ :=
    Driver.perform .tickClock none state.1 state.2
  let (filled, driver) := Nat.repeat pulse entry.repeats (entry, bench.driver)
  { entry := filled, bench := { bench with driver := driver } }

end Bus

section Board

variable [Board β]

/-- Drives a pin to a level and notes that a script does so. -/
def drive (level : Bool) (entry : Instruction) (bench : Bench σ β) : Dispatched σ β :=
  let (board, events) := Board.put entry.pin level (Board.setOutput entry.pin bench.board)
  { entry := entry
    bench := { bench with
      board := board
      pins := (bench.pins.claim entry.pin .io (outputLabel level)).setDriven entry.pin true }
    events := events }

/-- Turns a pin back into an input and keeps its level. -/
def sense (entry : Instruction) (bench : Bench σ β) : Dispatched σ β :=
  let board := Board.setInput entry.pin bench.board
  { entry := entry.receive (if Board.level entry.pin board then 1 else 0)
    bench := { bench with
      board := board
      pins := (bench.pins.release entry.pin).setDriven entry.pin false } }

/-- Takes a reading of a pin. -/
def measure (entry : Instruction) (bench : Bench σ β) : Dispatched σ β :=
  let (reading, board) := Board.sample entry.pin bench.board
  { entry := entry.receive reading, bench := { bench with board := board } }

/-- Lets time pass on the board. -/
def delay (pass : β → β) (entry : Instruction) (bench : Bench σ β) : Dispatched σ β :=
  { entry := entry, bench := { bench with board := pass bench.board } }

end Board

variable [Driver σ] [Board β]

/-- Carries an entry out, whatever it is. Only reads are told what comes next. -/
def execute (next : Option Instruction) (entry : Instruction) (bench : Bench σ β) :
    Dispatched σ β :=
  match entry.op with
  | .write => bench.perform .write none entry
  | .read => bench.perform .read next entry
  | .start => bench.perform .start none entry
  | .stop => bench.perform .stop none entry
  | .startAlt => bench.perform .startAlt none entry
  | .stopAlt => bench.perform .stopAlt none entry
  | .tickClock => bench.tick entry
  | .clockHigh => bench.perform .clockHigh none entry
  | .clockLow => bench.perform .clockLow none entry
  | .dataHigh => bench.perform .dataHigh none entry
  | .dataLow => bench.perform .dataLow none entry
  | .readBit => bench.perform .readBit none entry
  | .delayUs => bench.delay (Board.delayUs entry.repeats) entry
  | .delayMs => bench.delay (Board.delayMs entry.repeats) entry
  | .outputHigh => bench.drive true entry
  | .outputLow => bench.drive false entry
  | .input => bench.sense entry
  | .sample => bench.measure entry

/-- Carries an entry out and counts its operation. -/
def dispatch (next : Option Instruction) (entry : Instruction) (bench : Bench σ β) :
    Dispatched σ β :=
  let done := bench.execute next entry
  { entry := done.entry
    bench := { done.bench with tally := done.bench.tally.record entry.op }
    events := .dispatchBegins entry :: done.events }

end Bench

end BusScript
