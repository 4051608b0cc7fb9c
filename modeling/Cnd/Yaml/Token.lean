import Cnd.Text.Utf8
import Cnd.Yaml.Scalar

/-!
Tokens of YAML texts.

Indentation becomes tokens: a block collection opens where a line is indented deeper than what
holds it, and closes where a line is not. A key of a mapping is known only from the colon behind
it, so the place of each token that may be a key is kept, and a mark for the key is put in front
of it when the colon comes. Such a key lies on one line and is at most 1024 characters long.
-/

namespace Cnd.Yaml

inductive Lexeme where
  | version (major : Nat)
  | tagPrefix (handle uri : String)
  /-- A directive of another name. -/
  | directive
  | documentStart
  | documentEnd
  | textEnd
  /-- The start of a block sequence. -/
  | sequenceStart
  /-- The start of a block mapping. -/
  | mappingStart
  | blockEnd
  | openList
  | closeList
  | openMap
  | closeMap
  | comma
  /-- The dash before an item. -/
  | entry
  | key
  | value
  | alias (name : String)
  | anchor (name : String)
  /-- A tag: the handle of a prefix, if it has one, and the rest. -/
  | tag (handle : Option String) (suffix : String)
  | scalar (text : String) (isPlain : Bool)
  deriving DecidableEq, Repr

/-- A lexeme with the marks of its ends. -/
structure Token where
  lexeme : Lexeme
  start : Mark
  stop : Mark
  deriving DecidableEq, Repr

/-! ## Parts of single tokens -/

namespace Cursor

/-- The characters of a run that is not empty, and the place behind it. -/
def word (c : Cursor) (test : Char → Bool) : Except SyntaxFault (String × Cursor) :=
  let chars := c.run test
  if chars.isEmpty then .error .malformed else .ok (String.ofList chars, c.skip test)

/-- The place behind a character that has to be here. -/
def expect (c : Cursor) (test : Char → Bool) : Except SyntaxFault Cursor :=
  if test c.peek then .ok c.next else .error .malformed

/-- This place, if its character passes a test. -/
def require (c : Cursor) (test : Char → Bool) : Except SyntaxFault Cursor :=
  if test c.peek then .ok c else .error .malformed

/-- The bytes that percent signs with two digits spell, and the place behind them. -/
def percentBytes : Nat → Cursor → List UInt8 → Except SyntaxFault (List UInt8 × Cursor)
  | 0, c, bytes => .ok (bytes.reverse, c)
  | fuel + 1, c, bytes =>
    if c.peek == '%' then
      match Scalar.hexNumber? 2 c.next.rest with
      | none => .error .malformed
      | some n => percentBytes fuel (c.advance 3) (n.toUInt8 :: bytes)
    else .ok (bytes.reverse, c)

def isUriChar (c : Char) : Bool := isWordChar c || "-;/?:@&=+$,_.!~*'()[]".toList.contains c

/-- The text of a URI, in which bytes of UTF-8 may be spelled, from the given text on. -/
def uriFrom : Nat → Cursor → List Char → Except SyntaxFault (List Char × Cursor)
  | 0, c, acc => .ok (acc, c)
  | fuel + 1, c, acc =>
    if c.peek == '%' then do
      let (bytes, c) ← percentBytes (c.rest.length + 1) c []
      match Text.Utf8.decode ⟨bytes.toArray⟩ with
      | .error _ => .error .malformed
      | .ok chars => uriFrom fuel c (acc ++ chars)
    else if isUriChar c.peek then uriFrom fuel (c.skip isUriChar) (acc ++ c.run isUriChar)
    else .ok (acc, c)

/-- A URI, which is not empty. -/
def uri (c : Cursor) : Except SyntaxFault (String × Cursor) := do
  let start := c.peek == '%' || isUriChar c.peek
  let (chars, c) ← uriFrom (c.rest.length + 1) c []
  if start then return (String.ofList chars, c) else .error .malformed

/-- The handle of a tag prefix: a mark, or a word between two marks. -/
def tagHandle (c : Cursor) : Except SyntaxFault (String × Cursor) := do
  let c₁ ← c.expect (· == '!')
  if c₁.peek == ' ' then return ("!", c₁)
  else
    let c₂ ← (c₁.skip isWordChar).expect (· == '!')
    return ("!" ++ String.ofList (c₁.run isWordChar) ++ "!", c₂)

/-- A number of a version. -/
def versionNumber (c : Cursor) : Except SyntaxFault (Nat × Cursor) := do
  let (digits, c) ← c.word Text.isAsciiDigit
  match Numeral.ofDigits digits.toList with
  | .ok n => return (n, c)
  | .error count => .error (.tooLong count)

end Cursor

/-- A directive, from its percent sign on, with the whole of its line. -/
def directive (c : Cursor) : Except SyntaxFault (Lexeme × Cursor) := do
  let (name, c) ← c.next.word isWordChar
  let c ← c.require isSpaceOrEnd
  let (lexeme, c) ←
    if name == "YAML" then do
      let (major, c) ← c.skipSpaces.versionNumber
      let c ← c.expect (· == '.')
      let (_, c) ← c.versionNumber
      let c ← c.require isSpaceOrEnd
      pure (Lexeme.version major, c)
    else if name == "TAG" then do
      let (handle, c) ← c.skipSpaces.tagHandle
      let c ← c.require (· == ' ')
      let (uri, c) ← c.skipSpaces.uri
      let c ← c.require isSpaceOrEnd
      pure (Lexeme.tagPrefix handle uri, c)
    else pure (Lexeme.directive, c.skip fun ch => !isBreakOrEnd ch)
  let c ← c.restOfLine
  return (lexeme, c)

/-- The name of an anchor or alias, from its sign on. -/
def anchorName (c : Cursor) : Except SyntaxFault (String × Cursor) := do
  let (name, c) ← c.next.word isWordChar
  let c ← c.require fun ch => isGap ch || "?:,]\x7d%@\x60".toList.contains ch
  return (name, c)

/-- A tag, from its mark on: in angle brackets, alone, or with a handle. -/
def tag (c : Cursor) : Except SyntaxFault (Lexeme × Cursor) := do
  let after := c.next
  let (lexeme, c) ←
    if after.peek == '<' then do
      let (uri, c) ← after.next.uri
      let c ← c.expect (· == '>')
      pure (Lexeme.tag none uri, c)
    else if isGap after.peek then pure (Lexeme.tag none "!", after)
    else if (after.run fun ch => !isSpaceOrEnd ch).contains '!' then do
      let (handle, c) ← c.tagHandle
      let (suffix, c) ← c.uri
      pure (Lexeme.tag (some handle) suffix, c)
    else do
      let (suffix, c) ← after.uri
      pure (Lexeme.tag (some "!") suffix, c)
  let c ← c.require isSpaceOrEnd
  return (lexeme, c)

/-! ## Reading tokens -/

/-- A token that may turn out to be a key: how many tokens come before it, where it begins, and
whether it must be one. -/
structure PossibleKey where
  before : Nat
  place : Cursor
  required : Bool

/-- A mark for a key, and perhaps the start of its mapping, to be put behind a count of tokens. -/
structure KeyMark where
  before : Nat
  opensMapping : Bool
  mark : Mark

/-- How far a text has been read. Tokens and marks are kept in reverse. -/
structure Reading where
  cursor : Cursor
  /-- How many brackets are open. -/
  depth : Nat
  indent : Int
  outer : List Int
  keyAllowed : Bool
  possible : List (Nat × PossibleKey)
  tokens : List Token
  count : Nat
  keys : List KeyMark

namespace Reading

def start (text : List Char) : Reading := ⟨.start text, 0, -1, [], true, [], [], 0, []⟩

def inFlow (r : Reading) : Bool := 0 < r.depth

def push (r : Reading) (t : Token) : Reading := { r with tokens := t :: r.tokens, count := r.count + 1 }

/-- A token of no width at the present place. -/
def pushHere (r : Reading) (l : Lexeme) : Reading := r.push ⟨l, r.cursor.mark, r.cursor.mark⟩

/-- A token from the present place to another one, where reading goes on. -/
def pushTo (r : Reading) (l : Lexeme) (c : Cursor) : Reading :=
  { r.push ⟨l, r.cursor.mark, c.mark⟩ with cursor := c }

/-- A token of the next `n` characters. -/
def pushChars (r : Reading) (l : Lexeme) (n : Nat) : Reading := r.pushTo l (r.cursor.advance n)

def allowKey (r : Reading) (allowed : Bool) : Reading := { r with keyAllowed := allowed }

/-! ### Possible keys -/

/-- Whether a possible key cannot be one any more. -/
def isStale (r : Reading) (k : PossibleKey) : Bool :=
  k.place.line != r.cursor.line || 1024 < r.cursor.index - k.place.index

/-- Forget the possible keys that are stale. -/
def dropStale (r : Reading) : Except SyntaxFault Reading :=
  if r.possible.any fun k => r.isStale k.2 && k.2.required then .error .malformed
  else .ok { r with possible := r.possible.filter fun k => !r.isStale k.2 }

/-- Forget the possible key at the present depth. -/
def dropKey (r : Reading) : Except SyntaxFault Reading :=
  match r.possible.lookup r.depth with
  | none => .ok r
  | some k =>
    if k.required then .error .malformed
    else .ok { r with possible := r.possible.filter (·.1 != r.depth) }

/-- Note that the next token may be a key. -/
def saveKey (r : Reading) : Except SyntaxFault Reading := do
  let required := !r.inFlow && r.indent == (r.cursor.column : Int)
  if r.keyAllowed then
    let r ← r.dropKey
    return { r with possible := (r.depth, ⟨r.count, r.cursor, required⟩) :: r.possible }
  else return r

/-! ### Indentation -/

/-- Close the block collections that are indented deeper than a column. -/
def unwindTo (column : Int) (r : Reading) : List Int → Reading
  | [] => r
  | i :: outer =>
    if column < r.indent then
      unwindTo column { r.pushHere .blockEnd with indent := i, outer := outer } outer
    else r

/-- Brackets take no notice of indentation. -/
def unwind (r : Reading) (column : Int) : Reading :=
  if r.inFlow then r else unwindTo column r r.outer

/-- Enter a collection at a column, if it is deeper than the present one. -/
def indentTo (r : Reading) (column : Nat) : Option Reading :=
  if r.indent < column then some { r with indent := column, outer := r.indent :: r.outer } else none

/-- Open a block collection at the present column, if that is deeper. -/
def openBlock (r : Reading) (l : Lexeme) : Reading :=
  match r.indentTo r.cursor.column with
  | some r => r.pushHere l
  | none => r

/-! ### Single steps -/

def endText (r : Reading) : Except SyntaxFault Reading := do
  let r ← (r.unwind (-1)).dropKey
  return r.pushHere .textEnd

def takeDirective (r : Reading) : Except SyntaxFault Reading := do
  let r ← (r.unwind (-1)).dropKey
  let (lexeme, c) ← directive r.cursor
  return (r.allowKey false).pushTo lexeme c

def takeBoundary (r : Reading) (l : Lexeme) : Except SyntaxFault Reading := do
  let r ← (r.unwind (-1)).dropKey
  return (r.allowKey false).pushChars l 3

def takeOpening (r : Reading) (l : Lexeme) : Except SyntaxFault Reading := do
  let r ← r.saveKey
  return ({ r with depth := r.depth + 1 }.allowKey true).pushChars l 1

/-- A closing bracket, which needs an open one. -/
def takeClosing (r : Reading) (l : Lexeme) : Except SyntaxFault Reading := do
  let r ← r.dropKey
  if r.inFlow then return ({ r with depth := r.depth - 1 }.allowKey false).pushChars l 1
  else .error .malformed

def takeComma (r : Reading) : Except SyntaxFault Reading := do
  let r ← (r.allowKey true).dropKey
  return r.pushChars .comma 1

/-- The dash before an item. -/
def takeEntry (r : Reading) : Except SyntaxFault Reading := do
  if !r.inFlow && !r.keyAllowed then .error .malformed
  else
    let r := if r.inFlow then r else r.openBlock .sequenceStart
    let r ← (r.allowKey true).dropKey
    return r.pushChars .entry 1

/-- The question mark before a key. -/
def takeKey (r : Reading) : Except SyntaxFault Reading := do
  if !r.inFlow && !r.keyAllowed then .error .malformed
  else
    let r := if r.inFlow then r else r.openBlock .mappingStart
    let r ← (r.allowKey !r.inFlow).dropKey
    return r.pushChars .key 1

/-- The colon before a value. The possible key at this depth, if there is one, is a key. -/
def takeValue (r : Reading) : Except SyntaxFault Reading := do
  match r.possible.lookup r.depth with
  | some k =>
    let r := { r with possible := r.possible.filter (·.1 != r.depth) }
    let (r, opens) := match (if r.inFlow then none else r.indentTo k.place.column) with
      | some r => (r, true)
      | none => (r, false)
    let r := { r with keys := ⟨k.before, opens, k.place.mark⟩ :: r.keys }
    return (r.allowKey false).pushChars .value 1
  | none =>
    if !r.inFlow && !r.keyAllowed then .error .malformed
    else
      let r := if r.inFlow then r else r.openBlock .mappingStart
      let r ← (r.allowKey !r.inFlow).dropKey
      return r.pushChars .value 1

/-- An alias, an anchor or a tag, read by the given reader. -/
def takeProperty (r : Reading) (read : Cursor → Except SyntaxFault (Lexeme × Cursor)) :
    Except SyntaxFault Reading := do
  let r ← r.saveKey
  let (lexeme, c) ← read r.cursor
  return (r.allowKey false).pushTo lexeme c

def takeBlock (r : Reading) : Except SyntaxFault Reading := do
  let r ← (r.allowKey true).dropKey
  let (text, c) ← Scalar.block r.indent r.cursor
  return r.pushTo (.scalar (String.ofList text) false) c

def takeQuoted (r : Reading) : Except SyntaxFault Reading := do
  let r ← r.saveKey
  let (text, c) ← Scalar.quoted r.cursor
  return (r.allowKey false).pushTo (.scalar (String.ofList text) false) c

/-- A plain scalar. A key may follow on a new line. -/
def takePlain (r : Reading) : Except SyntaxFault Reading := do
  let r ← r.saveKey
  let (text, crossed, c) := Scalar.plain r.inFlow (r.indent + 1) r.cursor
  return (r.allowKey crossed).pushTo (.scalar (String.ofList text) true) c

/-! ### The next token -/

/-- The place of the next token, and whether a line break stands before it. -/
def skipGap : Nat → Cursor → Bool → Cursor × Bool
  | 0, c, crossed => (c, crossed)
  | fuel + 1, c, crossed =>
    let c := c.skipSpaces.skipComment
    match c.lineBreak? with
    | some (_, c) => skipGap fuel c true
    | none => (c, crossed)

/-- Past blanks, comments and line breaks; a line break outside of brackets allows a key. -/
def skipToToken (r : Reading) : Reading :=
  let c := if r.cursor.index == 0 && r.cursor.peek == '\ufeff' then r.cursor.next else r.cursor
  let (c, crossed) := skipGap (c.rest.length + 1) c false
  { r with cursor := c, keyAllowed := r.keyAllowed || (crossed && !r.inFlow) }

/-- Whether a plain scalar may begin at a place. -/
def startsPlain (r : Reading) : Bool :=
  let ch := r.cursor.peek
  !(isGap ch || "-?:,[]\x7b\x7d#&*!|>'\"%@\x60".toList.contains ch) ||
    (!isGap (r.cursor.peekAt 1) && (ch == '-' || (!r.inFlow && (ch == '?' || ch == ':'))))

/-- Read the token at the present place. -/
def take (r : Reading) : Except SyntaxFault Reading :=
  let c := r.cursor
  let ch := c.peek
  let apart := isGap (c.peekAt 1)
  if ch == '%' && c.column == 0 then r.takeDirective
  else if c.column == 0 && c.atBoundary "---" then r.takeBoundary .documentStart
  else if c.column == 0 && c.atBoundary "..." then r.takeBoundary .documentEnd
  else if ch == '[' then r.takeOpening .openList
  else if ch == '\x7b' then r.takeOpening .openMap
  else if ch == ']' then r.takeClosing .closeList
  else if ch == '\x7d' then r.takeClosing .closeMap
  else if ch == ',' then r.takeComma
  else if ch == '-' && apart then r.takeEntry
  else if ch == '?' && (r.inFlow || apart) then r.takeKey
  else if ch == ':' && (r.inFlow || apart) then r.takeValue
  else if ch == '*' then r.takeProperty fun c => (anchorName c).map fun (n, c) => (.alias n, c)
  else if ch == '&' then r.takeProperty fun c => (anchorName c).map fun (n, c) => (.anchor n, c)
  else if ch == '!' then r.takeProperty tag
  else if (ch == '|' || ch == '>') && !r.inFlow then r.takeBlock
  else if ch == '\'' || ch == '"' then r.takeQuoted
  else if r.startsPlain then r.takePlain
  else .error .malformed

/-- Read all tokens; what could be read before a fault stays with it. -/
def all : Nat → Reading → Reading × Option SyntaxFault
  | 0, r => (r, some .malformed)
  | fuel + 1, r =>
    match r.skipToToken.dropStale with
    | .error e => (r, some e)
    | .ok r =>
      let r := r.unwind r.cursor.column
      if r.cursor.rest.isEmpty then
        match r.endText with
        | .ok r => (r, none)
        | .error e => (r, some e)
      else match r.take with
        | .ok r => all fuel r
        | .error e => (r, some e)

end Reading

/-- Tokens with the marks of keys put in front of the tokens that they belong to. The marks are in
the order of their places. -/
def withKeys : Nat → List Token → List KeyMark → List Token
  | _, [], _ => []
  | n, t :: rest, keys =>
    let here := keys.takeWhile (·.before == n)
    let marks := here.flatMap fun k =>
      (if k.opensMapping then [⟨Lexeme.mappingStart, k.mark, k.mark⟩] else []) ++
        [⟨Lexeme.key, k.mark, k.mark⟩]
    marks ++ t :: withKeys (n + 1) rest (keys.dropWhile (·.before == n))

/-- The tokens of a text, up to its end or to a fault. -/
structure Tokens where
  tokens : List Token
  fault : Option SyntaxFault

/-- The characters that a YAML text may hold. -/
def isTextChar (c : Char) : Bool :=
  let n := c.toNat
  n == 0x09 || n == 0x0A || n == 0x0D || (0x20 ≤ n && n ≤ 0x7E) || n == 0x85 ||
    (0xA0 ≤ n && n ≤ 0xD7FF) || (0xE000 ≤ n && n ≤ 0xFFFD) || 0x10000 ≤ n

/-- How many tokens are certain: where a fault ends the text, a possible key and what follows it
are not. -/
def Reading.certain (r : Reading) : Nat := (r.possible.map (·.2.before)).foldl min r.count

/-- The tokens of a text. -/
def Tokens.ofText (text : List Char) : Tokens :=
  if text.all isTextChar then
    let (r, fault) := Reading.all (text.length + 2) (.start text)
    let count := if fault.isSome then r.certain else r.count
    let keys := (r.keys.filter (·.before < count)).mergeSort fun a b => a.before ≤ b.before
    ⟨withKeys 0 (r.tokens.reverse.take count) keys, fault⟩
  else ⟨[], some .malformed⟩

end Cnd.Yaml
