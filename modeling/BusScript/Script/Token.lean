import BusScript.Settings
import BusScript.Pin.Registry
import BusScript.Script.Attribute
import BusScript.Script.Rejection

/-!
# Tokens

A script is a sequence of tokens between separators: a literal or a command, either with attributes,
or a quoted text. `Token.read` finds where the next token ends and `Token.instruction` says what it
means.
-/

namespace BusScript

/-- Whether a character stands between tokens and means nothing: blanks and control characters,
everything beyond the printable ASCII characters, the comma and the greater-than sign. -/
def isSeparator (c : Char) : Bool :=
  c ≤ ' ' || '~' < c || c == '>' || c == ','

/-- Why reading a line stopped, and where. -/
structure Failure where
  reason : Rejection
  /-- What was not consumed. -/
  input : Input
deriving DecidableEq, Repr

/-- A unit of a script. -/
inductive Token where
  | value (literal : Literal) (attributes : Attributes)
  /-- An operation, with the character that stands for it. -/
  | command (symbol : Char) (op : Operation) (attributes : Attributes)
  /-- A quoted text, without the quotes. -/
  | text (chars : List Char)
deriving DecidableEq, Repr

namespace Token

/-- Reads attributes for the token that starts at the given position. -/
def readAttributes (position : Nat) (i : Input) : Except Failure (Attributes × Input) :=
  match Attributes.read i with
  | .ok found => .ok found
  | .error stuck => .error { reason := .badNumber position, input := stuck }

/-- Reads a literal with its attributes. -/
def readValue (i : Input) : Except Failure (Token × Input) :=
  match i.literal with
  | (none, stuck) => .error { reason := .badNumber i.tokenPosition, input := stuck }
  | (some literal, behind) =>
    match readAttributes i.tokenPosition behind with
    | .error failure => .error failure
    | .ok (attributes, rest) => .ok (.value literal attributes, rest)

/-- Reads a command with its attributes. -/
def readCommand (symbol : Char) (i : Input) : Except Failure (Token × Input) :=
  match Operation.ofSymbol? symbol with
  | none => .error { reason := .unknownSymbol symbol i.tokenPosition, input := i }
  | some op =>
    match readAttributes i.tokenPosition (i.advance 1) with
    | .error failure => .error failure
    | .ok (attributes, rest) => .ok (.command symbol op attributes, rest)

/-- Reads a quoted text. There is no way to write a quote inside it. -/
def readText (i : Input) : Except Failure (Token × Input) :=
  let body := i.advance 1
  let chars := body.rest.takeWhile (· != '"')
  if chars.length < body.rest.length then .ok (.text chars, body.advance (chars.length + 1))
  else .error { reason := .unterminatedText i.tokenPosition, input := body }

/-- Reads the token that starts with the character `c`, the first of the input. -/
def read (c : Char) (i : Input) : Except Failure (Token × Input) :=
  if c.isDigit then readValue i
  else if c = '"' then readText i
  else readCommand c i

/-- Applies the repeat count of a token to its instruction. A count of zero counts as one. -/
def applyRepeats (position : Nat) (attributes : Attributes) (i : Instruction) :
    Except Rejection Instruction :=
  match attributes.repeats with
  | none => .ok i
  | some n =>
    if Program.maxRepeats < n then .error (.tooManyRepeats n position)
    else .ok { i with repeats := max n 1, hasRepeats := true }

/-- Applies the number behind the dot to the instruction of a token: the pin of an operation that
uses one, the width of any other. -/
def applyBits (settings : Settings) (role : Nat → PinRole) (symbol : Char) (position : Nat)
    (attributes : Attributes) (i : Instruction) : Except Rejection Instruction :=
  if i.op.usesPin then
    match attributes.bits with
    | none => .error (.missingPin symbol position)
    | some pin =>
      if settings.pins ≤ pin then .error (.invalidPin pin position)
      else if i.op.claimsPin ∧ role pin ≠ .io then .error (.pinInUse pin position)
      else .ok { i with pin := pin, hasBits := true }
  else
    match attributes.bits with
    | none => .ok i
    | some bits =>
      if bits < 1 ∨ 32 < bits then .error (.invalidWidth bits position)
      else .ok { i with bits := bits, hasBits := true }

/-- Applies the attributes of a token to its instruction. -/
def applyAttributes (settings : Settings) (role : Nat → PinRole) (symbol : Char) (position : Nat)
    (attributes : Attributes) (i : Instruction) : Except Rejection Instruction :=
  (applyRepeats position attributes i).bind
    (applyBits settings role symbol position attributes)

/-- The writes that a character of a quoted text stands for, one for each byte of its encoding. -/
def charWrites (settings : Settings) (c : Char) : List Instruction :=
  (String.utf8EncodeChar c).map fun byte => .write byte.toUInt32 .ascii settings.bits

theorem readValue_eq (i : Input) :
    readValue i =
      match Literal.read? i.rest with
      | none => .error { reason := .badNumber i.tokenPosition, input := i }
      | some (literal, length) =>
        match readAttributes i.tokenPosition (i.advance length) with
        | .error failure => .error failure
        | .ok (attributes, rest) => .ok (.value literal attributes, rest) := by
  rw [readValue, Input.literal]
  cases Literal.read? i.rest <;> rfl

end Token

/-- A token ends after it starts. -/
theorem Token.rest_length_lt_of_read {c : Char} {text : List Char} {i rest : Input} {token : Token}
    (start : i.rest = c :: text) (h : Token.read c i = .ok (token, rest)) :
    rest.rest.length < i.rest.length := by
  have advanced : ∀ {n : Nat}, 0 < n → (i.advance n).rest.length < i.rest.length := by
    intro n pos
    simp only [Input.rest_advance, List.length_drop, start, List.length_cons]
    omega
  have attributes : ∀ {n : Nat} {found : Attributes × Input}, 0 < n →
      Token.readAttributes i.tokenPosition (i.advance n) = .ok found →
      found.2.rest.length < i.rest.length := by
    intro n found pos read
    unfold Token.readAttributes at read
    split at read
    · next found' ok =>
      cases read
      exact Nat.lt_of_le_of_lt (Attributes.rest_length_le_of_read ok) (advanced pos)
    · contradiction
  unfold Token.read at h
  split at h
  · rw [Token.readValue_eq] at h
    split at h
    · contradiction
    · next literal =>
      split at h
      · contradiction
      · next ok =>
        cases h
        exact attributes (Literal.length_pos_of_read? literal) ok
  · split at h
    · unfold Token.readText at h
      dsimp only at h
      split at h
      · cases h
        simp only [Input.advance_advance]
        exact advanced (by omega)
      · contradiction
    · unfold Token.readCommand at h
      split at h
      · contradiction
      · split at h
        · contradiction
        · next ok =>
          cases h
          exact attributes (by omega) ok

end BusScript
