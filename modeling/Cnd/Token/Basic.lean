import Cnd.Text.Digit

/-!
Tokens of definition texts and their positions.
-/

namespace Cnd

/-- A line and a column, both counted from one. -/
structure Position where
  line : Nat
  column : Nat
  deriving DecidableEq, Repr, Inhabited

namespace Position

/-- Where a text begins. -/
def start : Position := ⟨1, 1⟩

/-- The position behind a character. Only a line feed begins a line. -/
def after (p : Position) (c : Char) : Position :=
  if c == '\n' then ⟨p.line + 1, 1⟩ else ⟨p.line, p.column + 1⟩

/-- The position behind a run of characters. -/
def afterAll (p : Position) (cs : List Char) : Position := cs.foldl after p

end Position

/-- What a token is: one of the signs, a text with or without quotes, or the end of the source. -/
inductive Lexeme where
  | symbol (c : Char)
  | text (s : String) (quoted : Bool)
  | ending
  deriving DecidableEq, Repr

/-- A lexeme and where it begins. -/
structure Token where
  lexeme : Lexeme
  position : Position
  deriving DecidableEq, Repr

namespace Token

def isSymbol (t : Token) (c : Char) : Bool := t.lexeme == .symbol c

def isEnding (t : Token) : Bool := t.lexeme == .ending

/-- The content of a token that is a text. -/
def text? (t : Token) : Option String :=
  match t.lexeme with
  | .text s _ => some s
  | _ => none

/-- How messages name a token. -/
def describe (t : Token) : String :=
  match t.lexeme with
  | .symbol c => "'" ++ String.singleton c ++ "'"
  | .text s _ => "'" ++ s ++ "'"
  | .ending => "end of input"

end Token

end Cnd
