import BusScript.Script.Literal
import BusScript.Settings

/-!
# Options of the command line

What the arguments of the program ask for. Options and scripts may stand in any order; after `--`
there are only scripts. A value stands behind its option, after an equals sign or as the next
argument, which then must not begin with a hyphen. A lone hyphen is a script.
-/

namespace BusScript.CommandLine

/-- The bus that lines run on. -/
inductive Mode where
  | hiz
  | dummy
  | i2c
  | spi
deriving DecidableEq, Repr, Inhabited

/-- What the arguments ask for. -/
structure Options where
  mode : Mode := .hiz
  settings : Settings := {}
  /-- The addresses of the I2C targets. -/
  targets : List UInt8 := []
  noPullUps : Bool := false
  /-- Whether delays are really waited for. -/
  realtime : Bool := false
  /-- Whether an observer is told the tally at the end. -/
  stats : Bool := false
  /-- The lines to run. If there are none, they come from standard input. -/
  scripts : List String := []
deriving DecidableEq, Repr

/-- An option, without its value. -/
inductive OptionName where
  | mode
  | bits
  | display
  | pins
  | capacity
  | target
  | noPullUps
  | realtime
  | color
  | stats
deriving DecidableEq, Repr

namespace OptionName

/-- Every option with its spelling. -/
def table : List (String × OptionName) :=
  [("mode", mode), ("bits", bits), ("display", display), ("pins", pins), ("capacity", capacity),
    ("target", target), ("no-pull-ups", noPullUps), ("realtime", realtime), ("color", color),
    ("stats", stats)]

/-- The option with the given spelling. There are no abbreviations. -/
def ofSpelling? (spelling : List Char) : Option OptionName :=
  (table.find? fun entry => entry.1.toList == spelling).map Prod.snd

/-- Whether an option has a value. -/
def takesValue : OptionName → Bool
  | mode | bits | display | pins | capacity | target => true
  | noPullUps | realtime | color | stats => false

/-- Whether an option may be given more than once. -/
def mayRepeat : OptionName → Bool
  | target => true
  | _ => false

end OptionName

/-! ### Values -/

/-- A number in the given base, leading zeros allowed. -/
def digits? (base : Nat) (text : List Char) : Option Nat :=
  if text.isEmpty then none
  else text.foldlM (fun n c => (digit? base c).map fun d => n * base + d) 0

/-- A number in the given base that may have a plus sign. -/
def unsigned? (base : Nat) : List Char → Option Nat
  | '+' :: text => digits? base text
  | text => digits? base text

/-- A number that fits a byte and may have a sign. With a minus sign only zero fits. -/
def byte? : List Char → Option Nat
  | '-' :: text => (digits? 10 text).filter (· = 0)
  | text => (unsigned? 10 text).filter (· < 256)

/-- A number of slots. -/
def slots? (text : List Char) : Option Nat :=
  (unsigned? 10 text).filter (· < UInt64.size)

/-- The address of an I2C target, seven bits in decimal or after a hexadecimal mark. -/
def address? (text : List Char) : Option UInt8 :=
  let value? :=
    match text with
    | '0' :: 'x' :: body | '0' :: 'X' :: body => unsigned? 16 body
    | body => unsigned? 10 body
  (value?.filter (· < 128)).map UInt8.ofNat

/-- The bus of the given name. -/
def mode? (text : List Char) : Option Mode :=
  [("hiz", Mode.hiz), ("dummy", .dummy), ("i2c", .i2c), ("spi", .spi)].findSome? fun entry =>
    if entry.1.toList = text then some entry.2 else none

/-- The display of the given name. -/
def display? (text : List Char) : Option Display :=
  [("auto", Display.auto), ("hex", .hex), ("dec", .dec), ("bin", .bin), ("ascii", .ascii)].findSome?
    fun entry => if entry.1.toList = text then some entry.2 else none

/-! ### Arguments -/

/-- One thing that the arguments say. -/
inductive Argument where
  /-- An option, with its value if it has one. -/
  | option (name : OptionName) (value : List Char)
  | script (text : String)
  /-- The wish to be told how the program is used. What follows does not count. -/
  | help
deriving DecidableEq, Repr

namespace Argument

/-- What an argument that begins with two hyphens says, if it says it alone: the option, and the
value after the equals sign. -/
def longOption? (body : List Char) : Option (OptionName × Option (List Char)) :=
  let spelling := body.takeWhile (· != '=')
  let value? :=
    match body.dropWhile (· != '=') with
    | [] => none
    | _ :: value => some value
  (OptionName.ofSpelling? spelling).map fun name => (name, value?)

/-- What the arguments say, or `none` if they make no sense. The one option with a short name asks
for help, whatever is run together with it. -/
def readAll? : List String → Option (List Argument)
  | [] => some []
  | argument :: rest =>
    match argument.toList with
    | ['-', '-'] => some (rest.map .script)
    | '-' :: '-' :: body =>
      if argument = "--help" then some [.help]
      else
        match longOption? body with
        | none => none
        | some (name, some value) =>
          if name.takesValue then (readAll? rest).map (.option name value :: ·) else none
        | some (name, none) =>
          if name.takesValue then
            match rest with
            | [] => none
            | value :: rest =>
              if value.toList.head? = some '-' then none
              else (readAll? rest).map (.option name value.toList :: ·)
          else (readAll? rest).map (.option name [] :: ·)
    | ['-'] => (readAll? rest).map (.script argument :: ·)
    | '-' :: 'h' :: _ => some [.help]
    | '-' :: _ => none
    | _ => (readAll? rest).map (.script argument :: ·)

/-- Adds what an option says. -/
def applyOption? (name : OptionName) (value : List Char) (o : Options) : Option Options :=
  match name with
  | .mode => (mode? value).map fun mode => { o with mode := mode }
  | .bits => (byte? value).map fun n => { o with settings := { o.settings with bits := n } }
  | .display => (display? value).map fun d => { o with settings := { o.settings with display := d } }
  | .pins => (byte? value).map fun n => { o with settings := { o.settings with pins := n } }
  | .capacity => (slots? value).map fun n => { o with settings := { o.settings with capacity := n } }
  | .target => (address? value).map fun a => { o with targets := o.targets ++ [a] }
  | .noPullUps => some { o with noPullUps := true }
  | .realtime => some { o with realtime := true }
  | .color => some { o with settings := { o.settings with color := true } }
  | .stats => some { o with stats := true }

end Argument

/-- What the program is to do. -/
inductive Request where
  | help
  | run (options : Options)

namespace Request

/-- Adds up what the arguments say, given the options that were met before. Options do not repeat,
apart from targets. -/
def ofArguments? (met : List OptionName) (o : Options) : List Argument → Option Request
  | [] => some (.run o)
  | .help :: _ => some .help
  | .script text :: rest => ofArguments? met { o with scripts := o.scripts ++ [text] } rest
  | .option name value :: rest =>
    if name ∈ met ∧ !name.mayRepeat then none
    else
      match Argument.applyOption? name value o with
      | none => none
      | some o => ofArguments? (name :: met) o rest

/-- What the arguments ask for, or `none` if they make no sense. -/
def parse? (arguments : List String) : Option Request :=
  (Argument.readAll? arguments).bind (ofArguments? [] {})

end Request

end BusScript.CommandLine
