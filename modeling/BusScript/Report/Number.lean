import BusScript.Report.Palette
import BusScript.Settings

/-!
# Numbers in reports

A value is shown with the digits that its width calls for: two for every byte in hexadecimal, one
for every bit in binary, as few as possible in decimal. Bytes and nibbles are coloured in turn. A
width other than eight is appended after a dot.
-/

namespace BusScript

namespace Digits

/-- A digit, letters in upper case. -/
def char (digit : Nat) : Char :=
  digit.digitChar.toUpper

/-- The `count` low digits of a number, the most significant first. -/
def fixed (base : Nat) : Nat → Nat → List Char
  | 0, _ => []
  | count + 1, value => fixed base count (value / base) ++ [char (value % base)]

/-- A quotient, rounded up. -/
def ceilDiv (n d : Nat) : Nat :=
  if n % d = 0 then n / d else n / d + 1

/-- The least multiple of `d` that is not below `n`. -/
def nextMultiple (n d : Nat) : Nat :=
  if n % d = 0 then n else n + (d - n % d)

@[simp] theorem length_fixed (base count value : Nat) : (fixed base count value).length = count := by
  induction count generalizing value with
  | zero => rfl
  | succ count induction => simp [fixed, induction]

end Digits

namespace Report

/-- The width that a number is shown with: at least one bit and at most a word. -/
def shownWidth (bits : Nat) : Nat :=
  max 1 (min bits 32)

/-- The part of a value that a width selects. -/
def shownValue (bits : Nat) (value : UInt32) : UInt32 :=
  value &&& lowBits (shownWidth bits)

/-- The `count` low bytes of a word, the most significant first, with a sequence in front of each.
The sequences take turns. -/
def hexBytes (p : Palette) (word : UInt32) : Bool → Nat → List Char
  | _, 0 => []
  | isOn, byte + 1 =>
    p.highlight isOn ++
      Digits.fixed 16 2 ((word >>> UInt32.ofNat (byte * 8)) &&& 0xff).toNat ++
      hexBytes p word (!isOn) byte

/-- A number in hexadecimal: digits for all bits, and one more if that makes a byte. -/
def hexNumber (p : Palette) (bits : Nat) (word : UInt32) : List Char :=
  let nibbles := Digits.nextMultiple (Digits.ceilDiv bits 4) 2
  ['0', 'x'] ++ hexBytes p word true (nibbles / 2) ++ p.reset

/-- The digit of a bit. -/
def bitChar (word : UInt32) (i : Nat) : Char :=
  if (word >>> UInt32.ofNat i) &&& 1 = 1 then '1' else '0'

/-- The `count` low bits of a word, the most significant first. So many of them are left until a
nibble is over, and the sequence of the other kind stands in front of the next. -/
def binDigits (p : Palette) (word : UInt32) : Bool → Nat → Nat → List Char
  | _, _, 0 => []
  | isOn, 0, i + 1 => p.highlight (!isOn) ++ bitChar word i :: binDigits p word (!isOn) 3 i
  | isOn, left + 1, i + 1 => bitChar word i :: binDigits p word isOn left i

/-- A number in binary, a digit for every bit. Bits that make no whole nibble come first. -/
def binNumber (p : Palette) (bits : Nat) (word : UInt32) : List Char :=
  let left := if bits % 4 = 0 then 4 else bits % 4
  ['0', 'b'] ++ p.highlight true ++ binDigits p word true left bits ++ p.reset

/-- The character whose code is the low byte, in quotes. What cannot be shown leaves the quotes
empty, and blanks fill its place. -/
def quotedByte (word : UInt32) : List Char :=
  let code := (word &&& 0xff).toNat
  if 0x20 ≤ code ∧ code ≤ 0x7e then ['\'', Char.ofNat code, '\'', ' '] else ['\'', '\'', ' ', ' ']

/-- The width of a number behind it, unless it is a byte. -/
def widthMark (bits : Nat) : List Char :=
  if bits = 8 then [] else '.' :: Nat.toDigits 10 bits

/-- A value of the given width. -/
def number (p : Palette) (display : Display) (bits : Nat) (value : UInt32) : List Char :=
  let width := shownWidth bits
  let shown := shownValue bits value
  let digits :=
    match display with
    | .auto | .hex => hexNumber p width shown
    | .dec => Nat.toDigits 10 shown.toNat
    | .bin => binNumber p width shown
    | .ascii => quotedByte shown ++ hexNumber p width shown
  digits ++ widthMark width

/-- The millivolts that a raw reading stands for: twelve bits cover 6.6 volts. -/
def millivolts (raw : UInt32) : Nat :=
  6600 * raw.toNat / 4096

end Report

/-- The display of a value of an instruction. Values that were written keep their notation unless
the session demands another, and characters keep it always. Values that were read follow the
session. -/
def Instruction.display (session : Display) (isRead : Bool) (i : Instruction) : Display :=
  if !isRead ∧ (session = .auto ∨ session = .ascii ∨ i.radix = .ascii) then i.radix.display
  else session

end BusScript
