import Cnd.Data

/-!
Writing JSON documents: one item or member a line, two blanks deeper than what holds it, and only
ASCII characters.
-/

namespace Cnd.Json

/-- The two halves by which a code point past the first plane is written. -/
def halves (n : Nat) : Nat × Nat :=
  (0xD800 + (n - 0x10000) / 1024, 0xDC00 + (n - 0x10000) % 1024)

/-- One character between quotes. -/
def escapeChar (c : Char) : List Char :=
  let unit (n : Nat) := '\\' :: 'u' :: Text.paddedHex 4 n
  if c == '"' || c == '\\' then ['\\', c]
  else if c == '\n' then ['\\', 'n']
  else if c == '\r' then ['\\', 'r']
  else if c == '\t' then ['\\', 't']
  else if c == '\x08' then ['\\', 'b']
  else if c == '\x0c' then ['\\', 'f']
  else if ' ' ≤ c && c ≤ '~' then [c]
  else if c.toNat < 0x10000 then unit c.toNat
  else unit (halves c.toNat).1 ++ unit (halves c.toNat).2

/-- A text in double quotes. -/
def quote (s : String) : String := String.ofList ('"' :: (s.toList.flatMap escapeChar ++ ['"']))

/-- A number, or the name of a value that no decimal denotes. -/
def floatText : Binary64 → String
  | .nan => "NaN"
  | .infinite negative => if negative then "-Infinity" else "Infinity"
  | x => x.text

/-- A value that holds no other; what JSON has no form for is written as a text. -/
def scalar : Data → String
  | .null => "null"
  | .bool b => if b then "true" else "false"
  | .int n => Text.decimalInt n
  | .float x => floatText x
  | d => quote d.bare

/-- The name of a member. -/
def memberName : Data → String
  | .text s => quote s
  | d => "\"" ++ scalar d ++ "\""

/-- A line break and the blanks before a value at a depth. -/
def lineStart (depth : Nat) : String := "\n" ++ String.ofList (List.replicate (2 * depth) ' ')

/-- Lines between brackets; nothing between them if there are none. -/
def bracketed (opening closing : String) (depth : Nat) (lines : List String) : String :=
  if lines.isEmpty then opening ++ closing
  else
    opening ++ lineStart (depth + 1) ++ ("," ++ lineStart (depth + 1)).intercalate lines ++
      lineStart depth ++ closing

mutual
/-- A value at a depth. -/
def writeAt (depth : Nat) : Data → String
  | .list items | .tuple items | .set items => bracketed "[" "]" depth (writeItems (depth + 1) items)
  | .map entries => bracketed "\x7b" "\x7d" depth (writeMembers (depth + 1) entries)
  | d => scalar d

def writeItems (depth : Nat) : List Data → List String
  | [] => []
  | d :: rest => writeAt depth d :: writeItems depth rest

def writeMembers (depth : Nat) : List (Data × Data) → List String
  | [] => []
  | (k, v) :: rest => (memberName k ++ ": " ++ writeAt depth v) :: writeMembers depth rest
end

/-- The text of a value. -/
def write (d : Data) : String := writeAt 0 d

end Cnd.Json
