import Cnd.Numeral

/-!
A place in a YAML text, with the characters ahead of it.

The end of the text reads as the null character, which no YAML text holds. A line ends with any of
five characters, or with a carriage return and a line feed.
-/

namespace Cnd.Yaml

/-- A line and a column, both counted from zero. -/
structure Mark where
  line : Nat
  column : Nat
  deriving DecidableEq, Repr, Inhabited

/-- Why a text cannot be read. -/
inductive SyntaxFault where
  /-- The text is not well formed. -/
  | malformed
  /-- An escape for a code point that does not exist; past a further limit it is no number that
  could be one. -/
  | codePoint (n : Nat)
  /-- A version number with too many digits. -/
  | tooLong (digits : Nat)
  deriving DecidableEq, Repr

structure Cursor where
  rest : List Char
  index : Nat
  mark : Mark
  deriving Repr, Inhabited

/-- The character at the end of a text. -/
def endChar : Char := '\x00'

def isBreak (c : Char) : Bool :=
  c == '\n' || c == '\r' || c == '\x85' || c == '\u2028' || c == '\u2029'

def isBreakOrEnd (c : Char) : Bool := c == endChar || isBreak c

/-- A blank, a tab, a line break or the end. -/
def isGap (c : Char) : Bool := c == ' ' || c == '\t' || isBreakOrEnd c

/-- A blank, a line break or the end. -/
def isSpaceOrEnd (c : Char) : Bool := c == ' ' || isBreakOrEnd c

namespace Cursor

def start (text : List Char) : Cursor := ⟨text, 0, ⟨0, 0⟩⟩

def column (c : Cursor) : Nat := c.mark.column

def line (c : Cursor) : Nat := c.mark.line

/-- The next character. -/
def peek (c : Cursor) : Char := c.rest.headD endChar

/-- The character after `n` others. -/
def peekAt (c : Cursor) (n : Nat) : Char := (c.rest.drop n).headD endChar

/-- Whether the text goes on with the given characters. -/
def startsWith (c : Cursor) (s : String) : Bool := s.toList.isPrefixOf c.rest

/-- The mark behind a character, given what follows it. A byte order mark has no width. -/
def markAfter (m : Mark) (ch : Char) (rest : List Char) : Mark :=
  if ch == '\r' then
    if rest.headD endChar == '\n' then ⟨m.line, m.column + 1⟩ else ⟨m.line + 1, 0⟩
  else if isBreak ch then ⟨m.line + 1, 0⟩
  else if ch == '\ufeff' then m
  else ⟨m.line, m.column + 1⟩

/-- The place behind the next character. -/
def next (c : Cursor) : Cursor :=
  match c.rest with
  | [] => c
  | ch :: rest => ⟨rest, c.index + 1, markAfter c.mark ch rest⟩

/-- The place behind the next `n` characters. -/
def advance (c : Cursor) : Nat → Cursor
  | 0 => c
  | n + 1 => c.next.advance n

/-- The characters up to the first one that fails a test. -/
def run (c : Cursor) (test : Char → Bool) : List Char := c.rest.takeWhile test

/-- The place of the first character that fails a test. -/
def skip (c : Cursor) (test : Char → Bool) : Cursor := c.advance (c.run test).length

def skipSpaces (c : Cursor) : Cursor := c.skip (· == ' ')

/-- The end of the line of a comment that begins here, if one does. -/
def skipComment (c : Cursor) : Cursor :=
  if c.peek == '#' then c.skip fun ch => !isBreakOrEnd ch else c

/-- The line break that stands here, as the character that it is read as, and the place behind
it. -/
def lineBreak? (c : Cursor) : Option (Char × Cursor) :=
  if c.startsWith "\r\n" then some ('\n', c.advance 2)
  else if c.peek == '\n' || c.peek == '\r' || c.peek == '\x85' then some ('\n', c.next)
  else if c.peek == '\u2028' || c.peek == '\u2029' then some (c.peek, c.next)
  else none

/-- The place behind a line break, if one stands here. -/
def skipLineBreak (c : Cursor) : Cursor :=
  match c.lineBreak? with
  | some (_, c) => c
  | none => c

/-- Three characters of a document boundary and a gap. -/
def atBoundary (c : Cursor) (boundary : String) : Bool :=
  c.startsWith boundary && isGap (c.peekAt 3)

/-- Whether the text goes on with either document boundary. -/
def atAnyBoundary (c : Cursor) : Bool := c.atBoundary "---" || c.atBoundary "..."

/-- The end of a line that holds no more than blanks and a comment. -/
def restOfLine (c : Cursor) : Except SyntaxFault Cursor :=
  let c := c.skipSpaces.skipComment
  if isBreakOrEnd c.peek then .ok c.skipLineBreak else .error .malformed

end Cursor

/-- A letter or digit of ASCII, a hyphen or an underscore. -/
def isWordChar (c : Char) : Bool :=
  Text.isAsciiDigit c || ('A' ≤ c && c ≤ 'Z') || ('a' ≤ c && c ≤ 'z') || c == '-' || c == '_'

end Cnd.Yaml
