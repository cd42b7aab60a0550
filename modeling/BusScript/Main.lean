import BusScript.CommandLine.Console

/-! The command line: fetches standard input if it is needed, and writes what the console says. -/

namespace BusScript.CommandLine

/-- Whether the program reads its standard input. -/
def readsInput (arguments : List String) : Bool :=
  match Request.parse? arguments with
  | some (.run options) => options.scripts.isEmpty
  | _ => false

/-- Whether the program waits for its delays. -/
def waits (arguments : List String) : Bool :=
  match Request.parse? arguments with
  | some (.run options) => options.realtime
  | _ => false

end BusScript.CommandLine

open BusScript.CommandLine in
/-- Runs the scripts given as arguments, or else the lines of the standard input. -/
def main (arguments : List String) : IO UInt32 := do
  let input ← if readsInput arguments then (← IO.getStdin).readBinToEnd else pure ByteArray.empty
  let outcome := run arguments input.toList
  if waits arguments then IO.sleep (outcome.delayedUs / 1000).toUInt32
  IO.print outcome.reply.out
  IO.eprint outcome.reply.err
  return outcome.code
