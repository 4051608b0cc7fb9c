import Cnd.Data
import Cnd.Yaml.Tag

/-!
Writing YAML documents.

Collections are written as blocks, each level two blanks deeper than what holds it; only the items
of a list below a key stand at the column of the key. A text is written without quotes where it
reads back as the same text, else in single quotes, and in double quotes where it holds characters
that are written as escapes or blanks beside a line break. Past the width of a line a text goes on
at its next single blank in a new line.
-/

namespace Cnd.Yaml.Write

/-- The column past which a text goes on in a new line. -/
def width : Nat := 80

def blanks (n : Nat) : List Char := List.replicate n ' '

/-- A line break and the blanks before a column. -/
def newLine (indent : Nat) : List Char := '\n' :: blanks indent

/-! ## Choosing a form -/

def isBreak (c : Char) : Bool := c == '\n' || c == '\x85' || c == '\u2028' || c == '\u2029'

/-- A character between which and its neighbours words end. -/
def isGap (c : Char) : Bool := c == '\x00' || c == ' ' || c == '\t' || c == '\r' || isBreak c

/-- Whether a character can be written as it is. -/
def isPrintable (c : Char) : Bool :=
  let n := c.toNat
  c == '\n' || (0x20 ≤ n && n ≤ 0x7E) ||
    ((n == 0x85 || (0xA0 ≤ n && n ≤ 0xFFFD) || (0x10000 ≤ n && n < 0x10FFFF)) && n != 0xFEFF)

/-- Whether a gap or the end follows. -/
def gapAhead (rest : List Char) : Bool :=
  match rest with
  | [] => true
  | c :: _ => isGap c

/-- Whether the first character of a text has a meaning of its own there. -/
def opensOther (s : List Char) : Bool :=
  match s with
  | [] => false
  | c :: rest =>
    ['-', '-', '-'].isPrefixOf s || ['.', '.', '.'].isPrefixOf s ||
      "#,[]\x7b\x7d&*!|>'\"%@\x60".toList.contains c ||
      ((c == '?' || c == ':' || c == '-') && gapAhead rest)

/-- Whether a colon before a gap or a hash behind one stands in the rest of a text. -/
def holdsMark (previous : Char) : List Char → Bool
  | [] => false
  | c :: rest =>
    (c == ':' && gapAhead rest) || (c == '#' && isGap previous) || holdsMark c rest

/-- Whether one character follows another one somewhere, given the tests for the two. -/
def anyPair (first second : Char → Bool) : List Char → Bool
  | a :: b :: rest => (first a && second b) || anyPair first second (b :: rest)
  | _ => false

/-- The forms of a text. -/
inductive Form where
  | plain
  | single
  | double
  deriving DecidableEq, Repr

def isBlank (c : Char) : Bool := c == ' '

/-- Whether a text keeps its characters in single quotes: none is written as an escape, and no
blank stands beside a line break. -/
def fitsSingle (s : List Char) : Bool :=
  s.all isPrintable && !anyPair isBreak isBlank s && !anyPair isBlank isBreak s

/-- Whether a text reads back as itself without quotes. -/
def fitsPlain (s : List Char) : Bool :=
  match s with
  | [] => false
  | c :: rest =>
    fitsSingle s && !s.any isBreak && c != ' ' && s.getLast? != some ' ' &&
      !opensOther s && !holdsMark c rest && Tag.ofPlain (String.ofList s) == .str

def formOf (s : List Char) : Form :=
  if fitsPlain s then .plain else if fitsSingle s then .single else .double

/-! ## Texts -/

/-- A text without quotes or in single ones from a column on. A line break is written as an empty
line, a quote in quotes twice. -/
def folded (indent : Nat) (split : Bool) : Nat → Option Char → List Char → List Char
  | _, _, [] => []
  | column, previous, c :: rest =>
    if c == ' ' then
      let isAlone := (previous.map (· != ' ')).getD false && (rest.head?.map (· != ' ')).getD false
      if isAlone && split && width < column then
        newLine indent ++ folded indent split indent (some c) rest
      else c :: folded indent split (column + 1) (some c) rest
    else if isBreak c then
      let extra := if c == '\n' && !(previous.map isBreak).getD false then ['\n'] else []
      if (rest.head?.map isBreak).getD false then
        extra ++ c :: folded indent split 0 (some c) rest
      else extra ++ c :: blanks indent ++ folded indent split indent (some c) rest
    else if c == '\'' then '\'' :: '\'' :: folded indent split (column + 2) (some c) rest
    else c :: folded indent split (column + 1) (some c) rest

/-- A text without quotes from a column on. -/
def plain (indent : Nat) (split : Bool) : Nat → Option Char → List Char → List Char
  | _, _, [] => []
  | column, previous, c :: rest =>
    let isAlone := (previous.map (· != ' ')).getD false && (rest.head?.map (· != ' ')).getD false
    if c == ' ' && isAlone && split && width < column then
      newLine indent ++ plain indent split indent (some c) rest
    else c :: plain indent split (column + 1) (some c) rest

/-- The letters that stand for characters behind a backslash. -/
def escapeLetters : List (Char × Char) :=
  [('\x00', '0'), ('\x07', 'a'), ('\x08', 'b'), ('\t', 't'), ('\n', 'n'), ('\x0b', 'v'),
   ('\x0c', 'f'), ('\r', 'r'), ('\x1b', 'e'), ('"', '"'), ('\\', '\\'), ('\x85', 'N'),
   ('\u2028', 'L'), ('\u2029', 'P')]

/-- Whether a character is written as itself in double quotes. -/
def isBare (c : Char) : Bool :=
  let n := c.toNat
  c != '"' && c != '\\' && c != '\u2028' && c != '\u2029' && c != '\ufeff' &&
    ((0x20 ≤ n && n ≤ 0x7E) || (0xA0 ≤ n && n ≤ 0xFFFD))

def escape (c : Char) : List Char :=
  let hex (width : Nat) := (Text.paddedHex width c.toNat).map Char.toUpper
  match escapeLetters.lookup c with
  | some letter => ['\\', letter]
  | none =>
    if c.toNat ≤ 0xFF then '\\' :: 'x' :: hex 2
    else if c.toNat ≤ 0xFFFF then '\\' :: 'u' :: hex 4
    else '\\' :: 'U' :: hex 8

/-- The end of a line inside double quotes, and the sign before a blank that the next one begins
with; with the column behind it. -/
def continued (indent : Nat) (next : Option Char) : List Char × Nat :=
  if next == some ' ' then ('\\' :: newLine indent ++ ['\\'], indent + 1)
  else ('\\' :: newLine indent, indent)

/-- A text in double quotes from a column on. A line may end before a blank and beside an escape,
but not beside the quotes. -/
def double (indent : Nat) (split : Bool) : Nat → Bool → Bool → List Char → List Char
  | _, _, _, [] => []
  | column, isFirst, afterEscape, c :: rest =>
    let mayEnd := split && !isFirst && !rest.isEmpty
    if isBare c then
      if mayEnd && (c == ' ' || afterEscape) && width < column then
        let (line, column) := continued indent (some c)
        line ++ c :: double indent split (column + 1) false false rest
      else c :: double indent split (column + 1) false false rest
    else
      let written := escape c
      let behind := column + written.length
      if mayEnd && width < behind - 1 then
        let (line, column) := continued indent rest.head?
        written ++ line ++ double indent split column false true rest
      else written ++ double indent split behind false true rest

/-- A text from a column on. Lines behind the first begin at `indent`; a key has one line only. -/
def text (indent column : Nat) (split : Bool) (s : List Char) : List Char :=
  match formOf s with
  | .plain => plain indent split column none s
  | .single => '\'' :: folded indent split (column + 1) none s ++ ['\'']
  | .double => '"' :: double indent split (column + 1) true false s ++ ['"']

/-! ## Values -/

/-- A value that holds no other. -/
def scalar (indent column : Nat) : Data → List Char
  | .null => "null".toList
  | .bool b => (if b then "true" else "false").toList
  | .text s => text indent column true s.toList
  | d => d.bare.toList

/-- The length that the key of an entry must stay below if it stands on the line of its value. -/
def keyLimit : Nat := 123

/-- Whether a key stands on the line of its value. -/
def isSimpleKey (s : List Char) : Bool := !s.isEmpty && !s.any isBreak && s.length < keyLimit

/-- The text of a key. -/
def keyText (d : Data) : List Char :=
  match d with
  | .text s => s.toList
  | d => d.bare.toList

/-- The blocks of a collection: the first goes on in a line or begins a new one. -/
def blocks (start : List Char) (indent : Nat) : List (List Char) → List Char
  | [] => []
  | b :: rest => start ++ b ++ rest.flatMap (newLine indent ++ ·)

mutual
/-- What stands behind a sign that ends at a column: a value on the same line or on lines of its
own. Below a key a collection begins on a new line. -/
def value (indent column : Nat) (belowKey : Bool) : Data → List Char
  | .list [] | .tuple [] | .set [] => " []".toList
  | .map [] => " \x7b\x7d".toList
  | .list xs | .tuple xs | .set xs =>
    if belowKey then blocks (newLine indent) indent (items indent xs)
    else blocks (blanks (indent + 2 - column)) (indent + 2) (items (indent + 2) xs)
  | .map es =>
    let start := if belowKey then newLine (indent + 2) else blanks (indent + 2 - column)
    blocks start (indent + 2) (entries (indent + 2) es)
  | d => ' ' :: scalar (indent + 2) (column + 1) d

/-- The items of a list, with their dashes. -/
def items (indent : Nat) : List Data → List (List Char)
  | [] => []
  | d :: rest => ('-' :: value indent (indent + 1) false d) :: items indent rest

/-- The entries of a mapping. A key that does not fit its line is set apart from its value. -/
def entries (indent : Nat) : List (Data × Data) → List (List Char)
  | [] => []
  | (k, d) :: rest =>
    let key := keyText k
    (if isSimpleKey key then
      let written := text (indent + 2) indent false key
      written ++ ':' :: value indent (indent + written.length + 1) true d
    else
      '?' :: ' ' :: text (indent + 2) (indent + 2) true key ++
        newLine indent ++ ':' :: value indent (indent + 1) false d) :: entries indent rest
end

/-- The lines of a document. -/
def document : Data → List Char
  | .list xs => if xs.isEmpty then "[]".toList else blocks [] 0 (items 0 xs)
  | .map es => if es.isEmpty then "\x7b\x7d".toList else blocks [] 0 (entries 0 es)
  | d => scalar 2 0 d

end Cnd.Yaml.Write

/-- The YAML text of a value. -/
def Cnd.Yaml.write (d : Cnd.Data) : String :=
  String.ofList (Cnd.Yaml.Write.document d ++ ['\n'])
