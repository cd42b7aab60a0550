import BusScript.Text.Segments

/-!
# Blanks and lines

The characters with the Unicode property `White_Space`, and what a report does with them: it is cut
into lines, blanks at the end of a line are dropped, and so are lines that are empty then.
-/

namespace BusScript.Text

/-- Whether a character is a blank: it has the Unicode property `White_Space`. -/
def isBlank (c : Char) : Bool :=
  let n := c.toNat
  (0x9 ≤ n && n ≤ 0xd) || n == 0x20 || n == 0x85 || n == 0xa0 || n == 0x1680 ||
    (0x2000 ≤ n && n ≤ 0x200a) || n == 0x2028 || n == 0x2029 || n == 0x202f || n == 0x205f ||
    n == 0x3000

/-- The text without the blanks at its end. -/
def trimEnd (text : List Char) : List Char :=
  (text.reverse.dropWhile isBlank).reverse

/-- The lines of a text. Line feeds stand between them. -/
def lines (text : List Char) : List (List Char) :=
  segments '\n' text

/-- The lines of a text, without the blanks at their ends and without those that are then empty. -/
def tidyLines (text : List Char) : List (List Char) :=
  ((lines text).map trimEnd).filter fun line => !line.isEmpty

/-- Joins lines by line feeds. -/
def unlines (lines : List (List Char)) : List Char :=
  ['\n'].intercalate lines

end BusScript.Text
