import BusScript.Instruction

/-!
# Literals

Unsigned numbers of at most 32 bits: a radix mark `0x` or `0b` in either case and digits of that
radix, or decimal digits alone. A literal ends before the first character that is no digit of its
radix, and takes nothing from the text unless its value fits.

`Input` is the unread part of a line together with the number of characters before it.
-/

namespace BusScript

/-- The unread part of a line. -/
structure Input where
  /-- The number of characters of the line before the unread part. -/
  position : Nat
  rest : List Char
deriving DecidableEq, Repr, Inhabited

namespace Input

/-- Passes over `n` characters. -/
def advance (n : Nat) (i : Input) : Input where
  position := i.position + n
  rest := i.rest.drop n

/-- The position that a rejection of the token at hand names. -/
def tokenPosition (i : Input) : Nat :=
  i.position + 1

@[simp] theorem position_advance (n : Nat) (i : Input) :
    (i.advance n).position = i.position + n := rfl

@[simp] theorem rest_advance (n : Nat) (i : Input) : (i.advance n).rest = i.rest.drop n := rfl

@[simp] theorem advance_zero (i : Input) : i.advance 0 = i := by
  simp [advance]

theorem advance_advance (m n : Nat) (i : Input) : (i.advance m).advance n = i.advance (m + n) := by
  simp [advance, Nat.add_assoc]

end Input

/-- The value of a digit of the given base. Letters stand for ten to fifteen, in either case. -/
def digit? (base : Nat) (c : Char) : Option Nat :=
  let value? :=
    if c.isDigit then some (c.toNat - '0'.toNat)
    else if 'a' ≤ c ∧ c ≤ 'f' then some (c.toNat - 'a'.toNat + 10)
    else if 'A' ≤ c ∧ c ≤ 'F' then some (c.toNat - 'A'.toNat + 10)
    else none
  value?.filter (· < base)

/-- A number in a script, as it was written. -/
structure Literal where
  value : UInt32
  radix : Radix
deriving DecidableEq, Repr, Inhabited

namespace Literal

/-- The number of values of a word. -/
def wordSize : Nat := UInt32.size

/-- Appends a digit to a number, if the result fits a word. -/
def appendDigit? (base value digit : Nat) : Option Nat :=
  if value * base + digit < wordSize then some (value * base + digit) else none

/-- Reads digits as far as they go: the value they add up to after `value`, and how many there are
after `count`. Gives up as soon as the value does not fit a word. -/
def readDigits? (base : Nat) (value count : Nat) : List Char → Option (Nat × Nat)
  | [] => some (value, count)
  | c :: rest =>
    match digit? base c with
    | none => some (value, count)
    | some digit =>
      match appendDigit? base value digit with
      | none => none
      | some larger => readDigits? base larger (count + 1) rest

/-- How a literal begins. -/
structure Mark where
  /-- The notation it announces. -/
  radix : Radix
  /-- The base of that notation. -/
  base : Nat
  /-- The number of characters it takes itself. -/
  length : Nat
deriving DecidableEq, Repr

/-- The mark of the literal at the beginning of a text, if there is a literal. A leading digit that
announces no other notation is itself the first decimal digit. -/
def mark? : List Char → Option Mark
  | [] => none
  | c :: rest =>
    if c = '0' ∧ (rest.head? = some 'x' ∨ rest.head? = some 'X') then
      some { radix := .hex, base := 16, length := 2 }
    else if c = '0' ∧ (rest.head? = some 'b' ∨ rest.head? = some 'B') then
      some { radix := .bin, base := 2, length := 2 }
    else if c.isDigit then
      some { radix := .dec, base := 10, length := 0 }
    else none

/-- Reads the literal at the beginning of a text, and says how many characters it takes. -/
def read? (text : List Char) : Option (Literal × Nat) := do
  let mark ← mark? text
  let (value, count) ← readDigits? mark.base 0 0 (text.drop mark.length)
  if count = 0 then none
  else some ({ value := UInt32.ofNat value, radix := mark.radix }, mark.length + count)

theorem count_le_of_readDigits? {base value count value' count' : Nat} {text : List Char}
    (h : readDigits? base value count text = some (value', count')) : count ≤ count' := by
  induction text generalizing value count with
  | nil =>
    simp only [readDigits?, Option.some.injEq, Prod.mk.injEq] at h
    omega
  | cons c rest induction =>
    simp only [readDigits?] at h
    split at h
    · simp only [Option.some.injEq, Prod.mk.injEq] at h
      omega
    · split at h
      · contradiction
      · have := induction h
        omega

/-- A literal takes at least one character. -/
theorem length_pos_of_read? {text : List Char} {literal : Literal} {length : Nat}
    (h : read? text = some (literal, length)) : 0 < length := by
  simp only [read?, Option.bind_eq_bind, Option.bind_eq_some_iff] at h
  obtain ⟨mark, _, ⟨value, count⟩, _, taken⟩ := h
  split at taken
  · contradiction
  · simp only [Option.some.injEq, Prod.mk.injEq] at taken
    omega

end Literal

/-- The literal at the beginning of what is unread, and what is unread behind it. Nothing is
consumed where there is none. -/
def Input.literal (i : Input) : Option Literal × Input :=
  match Literal.read? i.rest with
  | none => (none, i)
  | some (literal, length) => (some literal, i.advance length)

end BusScript
