import Cnd.Yaml.Cursor

/-!
The four forms of YAML scalars: plain, in single or double quotes, and in a block.

A line break inside a plain or quoted scalar is folded: alone it is read as a blank, and of several
the first is dropped. Each reader starts at the first character of the scalar and gives its text
and the place behind it.
-/

namespace Cnd.Yaml.Scalar

/-- The text that a line break and the breaks of the blank lines behind it stand for. -/
def fold (first : Char) (more : List Char) : List Char :=
  if first != '\n' then first :: more
  else if more.isEmpty then [' ']
  else more

/-! ## Plain scalars -/

/-- Whether a plain scalar ends before a character. Inside brackets more characters end it. -/
def endsPlain (flow : Bool) (c : Char) (rest : List Char) : Bool :=
  let after := rest.headD endChar
  isGap c ||
    (c == ':' && (isGap after || (flow && [',', '[', ']', '\x7b', '\x7d'].contains after))) ||
    (flow && [',', '?', '[', ']', '\x7b', '\x7d'].contains c)

/-- The count of characters of a plain scalar up to a gap or its end. -/
def plainRun (flow : Bool) : List Char → Nat
  | [] => 0
  | c :: rest => if endsPlain flow c rest then 0 else plainRun flow rest + 1

/-- What stands between two pieces of a plain scalar: what it is read as, whether it holds a line
break, and the place behind it. Nothing goes on behind a document boundary. -/
structure PlainGap where
  text : List Char
  crossed : Bool
  behind : Cursor

/-- The breaks of blank lines, unless a document boundary stops them. -/
def blankLines : Nat → Cursor → List Char → Option (List Char × Cursor)
  | 0, c, breaks => some (breaks.reverse, c)
  | fuel + 1, c, breaks =>
    if c.peek == ' ' then blankLines fuel c.next breaks
    else match c.lineBreak? with
      | none => some (breaks.reverse, c)
      | some (b, c') => if c'.atAnyBoundary then none else blankLines fuel c' (b :: breaks)

/-- The place where blank lines stop at a document boundary. -/
def blankLinesEnd : Nat → Cursor → Cursor
  | 0, c => c
  | fuel + 1, c =>
    if c.peek == ' ' then blankLinesEnd fuel c.next
    else match c.lineBreak? with
      | none => c
      | some (_, c') => if c'.atAnyBoundary then c' else blankLinesEnd fuel c'

/-- The gap at a place inside a plain scalar. -/
def plainGap (c : Cursor) : PlainGap :=
  let blanks := c.run (· == ' ')
  let c := c.skipSpaces
  match c.lineBreak? with
  | none => ⟨blanks, false, c⟩
  | some (first, c) =>
    if c.atAnyBoundary then ⟨[], true, c⟩
    else match blankLines c.rest.length c [] with
      | none => ⟨[], true, blankLinesEnd c.rest.length c⟩
      | some (more, c) => ⟨fold first more, true, c⟩

/-- A plain scalar, whether a line break follows it, and the place behind that. -/
def plainFrom (flow : Bool) (indent : Int) :
    Nat → Cursor → Bool → List Char → List Char × Bool × Cursor
  | 0, c, crossed, acc => (acc, crossed, c)
  | fuel + 1, c, crossed, acc =>
    let length := plainRun flow c.rest
    if c.peek == '#' || length == 0 then (acc, crossed, c)
    else
      let piece := c.rest.take length
      let gap := plainGap (c.advance length)
      if gap.text.isEmpty || gap.behind.peek == '#' || (!flow && gap.behind.column < indent) then
        (acc ++ piece, gap.crossed, gap.behind)
      else
        -- The gap counts only if another piece follows it.
        let next := plainRun flow gap.behind.rest
        if next == 0 then (acc ++ piece, gap.crossed, gap.behind)
        else plainFrom flow indent fuel gap.behind gap.crossed (acc ++ piece ++ gap.text)

/-- A plain scalar whose lines are indented by at least `indent`. -/
def plain (flow : Bool) (indent : Int) (c : Cursor) : List Char × Bool × Cursor :=
  plainFrom flow indent c.rest.length c false []

/-! ## Quoted scalars -/

/-- The character that a letter stands for behind a backslash. -/
def unescape? : Char → Option Char
  | '0' => some '\x00'
  | 'a' => some '\x07'
  | 'b' => some '\x08'
  | 't' | '\t' => some '\t'
  | 'n' => some '\n'
  | 'v' => some '\x0b'
  | 'f' => some '\x0c'
  | 'r' => some '\r'
  | 'e' => some '\x1b'
  | ' ' => some ' '
  | '"' => some '"'
  | '\\' => some '\\'
  | '/' => some '/'
  | 'N' => some '\x85'
  | '_' => some '\u00a0'
  | 'L' => some '\u2028'
  | 'P' => some '\u2029'
  | _ => none

/-- How many hexadecimal digits follow a letter behind a backslash. -/
def escapeWidth? : Char → Option Nat
  | 'x' => some 2
  | 'u' => some 4
  | 'U' => some 8
  | _ => none

/-- The number of `width` hexadecimal digits in front of a text. -/
def hexNumber? (width : Nat) (s : List Char) : Option Nat :=
  let digits := s.take width
  if digits.length == width then
    digits.foldl (fun n c => do return (← n) * 16 + (← Text.hexValue? c)) (some 0)
  else none

/-- The breaks of the blank lines inside a quoted scalar. -/
def quotedBreaks : Nat → Cursor → List Char → Except SyntaxFault (List Char × Cursor)
  | 0, c, breaks => .ok (breaks.reverse, c)
  | fuel + 1, c, breaks =>
    if c.atAnyBoundary then .error .malformed
    else
      let c := c.skip fun ch => ch == ' ' || ch == '\t'
      match c.lineBreak? with
      | none => .ok (breaks.reverse, c)
      | some (b, c) => quotedBreaks fuel c (b :: breaks)

/-- The text that a gap inside a quoted scalar stands for. -/
def quotedGap (c : Cursor) : Except SyntaxFault (List Char × Cursor) :=
  let blank := fun ch => ch == ' ' || ch == '\t'
  let blanks := c.run blank
  let c := c.skip blank
  if c.peek == endChar then .error .malformed
  else match c.lineBreak? with
    | none => .ok (blanks, c)
    | some (first, c) => do
      let (more, c) ← quotedBreaks (c.rest.length + 1) c []
      return (fold first more, c)

/-- What an escape stands for, from behind its backslash. -/
def escape (c : Cursor) : Except SyntaxFault (List Char × Cursor) :=
  match unescape? c.peek, escapeWidth? c.peek with
  | some d, _ => .ok ([d], c.next)
  | none, some width =>
    match hexNumber? width c.next.rest with
    | none => .error .malformed
    | some n =>
      if 0x10FFFF < n then .error (.codePoint n)
      else .ok ([Char.ofNat n], c.next.advance width)
  | none, none =>
    match c.lineBreak? with
    | none => .error .malformed
    | some (_, c) => quotedBreaks (c.rest.length + 1) c []

/-- A character of a quoted scalar that stands for itself whatever the quotes are. -/
def isOrdinary (c : Char) : Bool := !isGap c && c != '\'' && c != '"' && c != '\\'

/-- The content of a quoted scalar behind its opening quote, and the place behind the closing
one. -/
def quotedBody (double : Bool) : Nat → Cursor → List Char → Except SyntaxFault (List Char × Cursor)
  | 0, _, _ => .error .malformed
  | fuel + 1, c, acc =>
    let ch := c.peek
    if isOrdinary ch then
      quotedBody double fuel (c.skip isOrdinary) (acc ++ c.run isOrdinary)
    else if isGap ch then do
      let (text, c) ← quotedGap c
      quotedBody double fuel c (acc ++ text)
    else if double then
      if ch == '"' then .ok (acc, c.next)
      else if ch == '\\' then do
        let (text, c) ← escape c.next
        quotedBody double fuel c (acc ++ text)
      else quotedBody double fuel c.next (acc ++ [ch])
    else if ch == '\'' then
      if c.peekAt 1 == '\'' then quotedBody double fuel (c.advance 2) (acc ++ ['\''])
      else .ok (acc, c.next)
    else quotedBody double fuel c.next (acc ++ [ch])

/-- A quoted scalar, from its opening quote on. -/
def quoted (c : Cursor) : Except SyntaxFault (List Char × Cursor) :=
  quotedBody (c.peek == '"') (c.rest.length + 1) c.next []

/-! ## Block scalars -/

/-- What happens to the line breaks at the end of a block: all but one go, or all go, or all
stay. -/
inductive Chomping where
  | clip
  | strip
  | keep
  deriving DecidableEq, Repr

/-- The signs behind the opening of a block, in either order, and the place behind them. -/
def blockHeader (c : Cursor) : Except SyntaxFault (Chomping × Option Nat × Cursor) :=
  let chomping (c : Cursor) : Chomping × Cursor :=
    if c.peek == '+' then (.keep, c.next) else if c.peek == '-' then (.strip, c.next) else (.clip, c)
  let increment (c : Cursor) : Option Nat × Cursor :=
    if Text.isAsciiDigit c.peek then (some (c.peek.toNat - 48), c.next) else (none, c)
  let (chomp, indent, c) :=
    match chomping c with
    | (.clip, c) =>
      let (indent, c) := increment c
      let (chomp, c) := if indent.isSome then chomping c else (.clip, c)
      (chomp, indent, c)
    | (chomp, c) =>
      let (indent, c) := increment c
      (chomp, indent, c)
  if indent == some 0 || !isSpaceOrEnd c.peek then .error .malformed else .ok (chomp, indent, c)

/-- The breaks before the first line of a block that is not blank, and the greatest column that
blanks reach among them. -/
def blockIndent : Nat → Cursor → List Char → Nat → List Char × Nat × Cursor
  | 0, c, breaks, deepest => (breaks.reverse, deepest, c)
  | fuel + 1, c, breaks, deepest =>
    if c.peek == ' ' then blockIndent fuel c.next breaks (max deepest c.next.column)
    else match c.lineBreak? with
      | none => (breaks.reverse, deepest, c)
      | some (b, c) => blockIndent fuel c (b :: breaks) deepest

/-- The place behind the blanks before a column. -/
def skipTo (indent : Nat) (c : Cursor) : Cursor :=
  c.advance (min (indent - c.column) (c.run (· == ' ')).length)

/-- The breaks of blank lines in a block whose lines begin at a column. -/
def blockBreaks (indent : Nat) : Nat → Cursor → List Char → List Char × Cursor
  | 0, c, breaks => (breaks.reverse, c)
  | fuel + 1, c, breaks =>
    let c := skipTo indent c
    match c.lineBreak? with
    | none => (breaks.reverse, c)
    | some (b, c) => blockBreaks indent fuel c (b :: breaks)

/-- The lines of a block: the text so far, the break of its last line, and the breaks behind. -/
def blockLines (folded : Bool) (indent : Nat) :
    Nat → Cursor → List Char → List Char → List Char × List Char × List Char × Cursor
  | 0, c, breaks, acc => (acc, [], breaks, c)
  | fuel + 1, c, breaks, acc =>
    let content := fun ch => !isBreakOrEnd ch
    let blank := fun ch : Char => ch == ' ' || ch == '\t'
    let line := c.run content
    let text := acc ++ breaks ++ line
    let after := c.skip content
    let (lineBreak, after) := match after.lineBreak? with
      | some (b, c) => ([b], c)
      | none => ([], after)
    let (breaks, after) := blockBreaks indent (after.rest.length + 1) after []
    if after.column == indent && after.peek != endChar then
      let joined :=
        if folded && lineBreak == ['\n'] && !blank c.peek && !blank after.peek then
          if breaks.isEmpty then [' '] else []
        else lineBreak
      blockLines folded indent fuel after breaks (text ++ joined)
    else (text, lineBreak, breaks, after)

/-- A block scalar inside a collection of the given indentation, from its opening sign on. -/
def block (parent : Int) (c : Cursor) : Except SyntaxFault (List Char × Cursor) := do
  let folded := c.peek == '>'
  let (chomp, increment, c) ← blockHeader c.next
  let c ← c.restOfLine
  let least := (max (parent + 1) 1).toNat
  let (breaks, indent, c) := match increment with
    | some n =>
      let (breaks, c) := blockBreaks (least + n - 1) (c.rest.length + 1) c []
      (breaks, least + n - 1, c)
    | none =>
      let (breaks, deepest, c) := blockIndent (c.rest.length + 1) c [] 0
      (breaks, max least deepest, c)
  let (text, lineBreak, breaks, c) :=
    if c.column == indent && c.peek != endChar then
      blockLines folded indent (c.rest.length + 1) c breaks []
    else ([], [], breaks, c)
  let ending := match chomp with
    | .strip => []
    | .clip => lineBreak
    | .keep => lineBreak ++ breaks
  return (text ++ ending, c)

end Cnd.Yaml.Scalar
