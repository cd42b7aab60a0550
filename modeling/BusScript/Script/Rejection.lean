/-!
# Rejections

Why a line is turned down before anything runs. Positions count characters of the line from `1` and
name the first character of the offending token.
-/

namespace BusScript

/-- A reason to turn a line down. -/
inductive Rejection where
  /-- A literal has no digits, or its value does not fit a word. -/
  | badNumber (position : Nat)
  /-- A quoted text does not end. -/
  | unterminatedText (position : Nat)
  /-- No token starts with this character. -/
  | unknownSymbol (symbol : Char) (position : Nat)
  /-- An operation on a pin names none. -/
  | missingPin (symbol : Char) (position : Nat)
  | invalidPin (pin : Nat) (position : Nat)
  /-- The pin belongs to something else. -/
  | pinInUse (pin : Nat) (position : Nat)
  /-- A width is no width of a word. -/
  | invalidWidth (bits : Nat) (position : Nat)
  | tooManyRepeats (repeats : Nat) (position : Nat)
  /-- The line asks for more slots than there are. -/
  | exceedsCapacity (capacity : Nat)
deriving DecidableEq, Repr, Inhabited

namespace Rejection

/-- The text shown to the user. -/
def message : Rejection → String
  | badNumber position => s!"integer parse failed at position {position}"
  | unterminatedText position => s!"string missing terminating '\"' at position {position}"
  | unknownSymbol symbol position => s!"unknown syntax '{symbol}' at position {position}"
  | missingPin symbol position =>
    s!"missing IO number for command {symbol} at position {position}, try {symbol}.0"
  | invalidPin pin _ => s!"pin IO{pin} is invalid"
  | pinInUse pin position => s!"at position {position} IO{pin} is already in use"
  | invalidWidth bits position => s!"invalid bit width {bits} at position {position}, try 1-32"
  | tooManyRepeats repeats position =>
    s!"repeat count {repeats} at position {position} exceeds 65535"
  | exceedsCapacity capacity => s!"syntax exceeds available space ({capacity} slots)"

/-- The position a rejection points at. Running out of slots is a matter of the whole line. -/
def position? : Rejection → Option Nat
  | badNumber position | unterminatedText position | unknownSymbol _ position
  | missingPin _ position | invalidPin _ position | pinInUse _ position
  | invalidWidth _ position | tooManyRepeats _ position => some position
  | exceedsCapacity _ => none

/-- The same rejection of a line with `n` more characters in front. -/
def shift (n : Nat) : Rejection → Rejection
  | badNumber position => badNumber (position + n)
  | unterminatedText position => unterminatedText (position + n)
  | unknownSymbol symbol position => unknownSymbol symbol (position + n)
  | missingPin symbol position => missingPin symbol (position + n)
  | invalidPin pin position => invalidPin pin (position + n)
  | pinInUse pin position => pinInUse pin (position + n)
  | invalidWidth bits position => invalidWidth bits (position + n)
  | tooManyRepeats repeats position => tooManyRepeats repeats (position + n)
  | exceedsCapacity capacity => exceedsCapacity capacity

end Rejection

end BusScript
