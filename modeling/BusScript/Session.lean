import BusScript.Execution.Run
import BusScript.Report.Layout
import BusScript.Script.Compile

/-!
# Sessions

A session takes lines one after the other: each is compiled, run and reported. The settings stay the
same, and the pins that a line claims stay claimed for the next.

A line that is turned down runs nothing. A run that stops early is no error: its report ends with
the entry that stopped it.
-/

namespace BusScript

/-- A session between two lines. -/
structure Session where
  settings : Settings
  valid : settings.Valid
  pins : PinRegistry
  /-- What was carried out so far. -/
  tally : Tally

/-- Why a line has no output. -/
inductive LineError where
  | rejected (reason : Rejection)
  /-- The line asks for nothing: it holds separators and empty quotes alone, or not even those. -/
  | nothingToDo
deriving DecidableEq, Repr

/-- The text shown to the user. -/
def LineError.message : LineError → String
  | rejected reason => s!"syntax compile error: {reason.message}"
  | nothingToDo => "nothing to execute"

/-- What a line produced. -/
structure Output where
  /-- The program it was compiled to. -/
  program : Program
  trace : Trace
  text : String

/-- What is left when a line has been handled. -/
structure Handled (σ β : Type) where
  /-- The output of the line, or why there is none. -/
  result : Except LineError Output
  session : Session
  driver : σ
  board : β
  /-- The line, with the mark where reading stopped. -/
  cursor : Cursor
  events : List Event

namespace Session

/-- Opens a session with free pins. -/
def ofSettings (settings : Settings) : Except SettingsError Session :=
  match h : settings.fault? with
  | some fault => .error fault
  | none =>
    .ok
      { settings := settings
        valid := Settings.fault?_eq_none_iff.mp h
        pins := .free settings.pins
        tally := ∅ }

/-- Changes the owners of the pins. -/
def modifyPins (change : PinRegistry → PinRegistry) (s : Session) : Session :=
  { s with pins := change s.pins }

variable {σ β : Type} [Driver σ] [Board β]

/-- Runs a program that was compiled in this session, and reports on it. -/
def execute (program : Program) (cursor : Cursor) (driver : σ) (board : β) (events : List Event)
    (s : Session) : Handled σ β :=
  let bench : Bench σ β := { driver := driver, board := board, pins := s.pins, tally := s.tally }
  let run := program.run s.settings.capacity bench
  let entries := run.trace.entries.toList
  { result := .ok
      { program := program
        trace := run.trace
        text := Report.render s.settings entries }
    session := { s with pins := run.bench.pins, tally := run.bench.tally }
    driver := Driver.waitDone run.bench.driver
    board := run.bench.board
    cursor := cursor
    events := events ++ run.events.toList ++
      [.executed entries.length run.trace.halted, .reportBegins entries.length] }

/-- Handles what is unread of a line. The bus is prepared before the line is compiled. -/
def run (cursor : Cursor) (driver : σ) (board : β) (s : Session) : Handled σ β :=
  let name := Driver.name driver
  let (driver, warnings) := Driver.preflight driver
  let (compilation, cursor) := cursor.compile s.settings s.pins.role
  let events := .lineBegins name :: warnings ++ compilation.events
  let refuse (error : LineError) : Handled σ β :=
    { result := .error error
      session := s
      driver := driver
      board := board
      cursor := cursor
      events := events }
  match compilation.result with
  | .error reason => refuse (.rejected reason)
  | .ok [] => refuse .nothingToDo
  | .ok program => s.execute program cursor driver board events

/-- Handles a whole line. -/
def runLine (line : String) (driver : σ) (board : β) (s : Session) : Handled σ β :=
  s.run (.ofString line) driver board

end Session

end BusScript
