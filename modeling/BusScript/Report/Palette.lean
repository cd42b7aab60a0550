/-!
# Palettes

The escape sequences that a report puts around its parts. All are empty when there is no colour.
-/

namespace BusScript

/-- The escape sequences of a report. -/
structure Palette where
  /-- Starts a heading. -/
  info : List Char := []
  /-- Starts a label. -/
  notice : List Char := []
  /-- Starts a number. -/
  number : List Char := []
  /-- Returns to plain text. -/
  reset : List Char := []
deriving DecidableEq, Repr

namespace Palette

/-- No colours. -/
def plain : Palette := {}

/-- The colours of a terminal. -/
def terminal : Palette where
  info := "\x1b[38;5;178m".toList
  notice := "\x1b[38;5;109m".toList
  number := "\x1b[38;5;103m".toList
  reset := "\x1b[0m".toList

/-- The palette with or without colours. -/
def ofColor (color : Bool) : Palette :=
  if color then terminal else plain

/-- The sequence in front of a highlighted group of digits, and of one that is not. -/
def highlight (p : Palette) (isOn : Bool) : List Char :=
  if isOn then p.number else p.reset

end Palette

end BusScript
