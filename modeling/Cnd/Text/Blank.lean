import Cnd.Text.Ranges

/-!
Blank characters: what separates tokens, is trimmed from the ends of a text, and a pattern's blank
class matches. The set is the separators of Unicode 14 and the control characters that act as such.
-/

namespace Cnd.Text

/-- The runs of blank characters. -/
def blankRanges : Ranges :=
  [(9, 13), (28, 32), (133, 133), (160, 160), (5760, 5760), (8192, 8202), (8232, 8233), (8239, 8239),
   (8287, 8287), (12288, 12288)]

/-- A space, a line break or another separator of any script. -/
def isBlank (c : Char) : Bool := blankRanges.contains c.toNat

/-- A text without the blank characters at its start. -/
def trimStart (s : List Char) : List Char := s.dropWhile isBlank

/-- A text without the blank characters at its ends. -/
def trim (s : List Char) : List Char := (trimStart (trimStart s).reverse).reverse

end Cnd.Text
