import Cnd.Text.Digit
import Cnd.Text.Printable

/-!
Quoted text: how messages show a text or a run of bytes so that every character can be told.

The quotes are single, or double where the text holds a single quote and no double one. A
backslash, the quote in use and the three usual control characters have a short escape; any other
character that is not printable is written by its code point in two, four or eight digits.
-/

namespace Cnd.Text

/-- The quote that surrounds a text. -/
def quoteFor (s : List Char) : Char :=
  if s.contains '\'' && !s.contains '"' then '"' else '\''

/-- One character inside quotes. -/
def escapeChar (quote c : Char) : List Char :=
  if c == quote || c == '\\' then ['\\', c]
  else if c == '\n' then ['\\', 'n']
  else if c == '\t' then ['\\', 't']
  else if c == '\r' then ['\\', 'r']
  else if isPrintable c then [c]
  else if c.toNat < 0x100 then '\\' :: 'x' :: paddedHex 2 c.toNat
  else if c.toNat < 0x10000 then '\\' :: 'u' :: paddedHex 4 c.toNat
  else '\\' :: 'U' :: paddedHex 8 c.toNat

/-- A text in quotes. -/
def quoted (s : String) : String :=
  let cs := s.toList
  let q := quoteFor cs
  String.ofList (q :: (cs.flatMap (escapeChar q) ++ [q]))

/-- One byte inside quotes. -/
def escapeByte (quote : Char) (b : UInt8) : List Char :=
  let c := Char.ofNat b.toNat
  if c == quote || c == '\\' then ['\\', c]
  else if c == '\n' then ['\\', 'n']
  else if c == '\t' then ['\\', 't']
  else if c == '\r' then ['\\', 'r']
  else if 0x20 ≤ b && b < 0x7F then [c]
  else '\\' :: 'x' :: paddedHex 2 b.toNat

/-- Bytes in quotes, marked by a letter in front. -/
def quotedBytes (bytes : ByteArray) : String :=
  let q := quoteFor (bytes.toList.map fun b => Char.ofNat b.toNat)
  String.ofList ('b' :: q :: (bytes.toList.flatMap (escapeByte q) ++ [q]))

end Cnd.Text
