import Cnd.Yaml.Tag
import Cnd.Yaml.Token

/-!
The tree of a YAML document: scalars, sequences and mappings with their tags and with the marks
where they start.

An alias is read as a copy of what its anchor names. Where a key, a value or an item is left out,
it is null, and stands where it would have begun. A text holds one document at most.
-/

namespace Cnd.Yaml

inductive Node where
  | scalar (tag : Tag) (text : String) (mark : Mark)
  | sequence (tag : Tag) (items : List Node) (mark : Mark)
  | mapping (tag : Tag) (entries : List (Node × Node)) (mark : Mark)
  deriving Inhabited

namespace Node

def mark : Node → Mark
  | .scalar _ _ m | .sequence _ _ m | .mapping _ _ m => m

def tag : Node → Tag
  | .scalar t _ _ | .sequence t _ _ | .mapping t _ _ => t

/-- What is left out at a place. -/
def absent (m : Mark) : Node := .scalar .null "" m

/-! ## Reading tokens -/

/-- The tokens ahead and what stands behind them, the prefixes of tags by their handles, and the
anchors so far; one whose node is not complete names nothing yet. -/
structure Ahead where
  tokens : List Token
  fault : SyntaxFault
  handles : List (String × String)
  anchors : List (String × Option Node)

abbrev Read (α : Type) := StateT Ahead (Except SyntaxFault) α

namespace Read

def malformed {α : Type} : Read α := throw .malformed

/-- The next token. -/
def peek : Read Token := fun s =>
  match s.tokens with
  | [] => .error s.fault
  | t :: _ => .ok (t, s)

def skip : Read Unit := modify fun s => { s with tokens := s.tokens.tail }

def next : Read Token := do
  let t ← peek
  skip
  return t

/-- Whether one of some lexemes is next. -/
def isNext (ls : List Lexeme) : Read Bool := do
  return ls.contains (← peek).lexeme

/-- The next token, if it has the given lexeme. -/
def next? (l : Lexeme) : Read (Option Token) := do
  let t ← peek
  if t.lexeme == l then
    skip
    return some t
  else return none

def expect (l : Lexeme) : Read Unit := do
  if (← next? l).isNone then malformed

/-! ## Tags and anchors -/

/-- The URI of a tag with a handle. -/
def uriOf (handle : Option String) (suffix : String) : Read String := do
  match handle with
  | none => return suffix
  | some h =>
    match (← get).handles.lookup h with
    | some uri => return uri ++ suffix
    | none => malformed

/-- What stands before a node: an anchor and a tag in either order, and where the first begins. -/
structure Properties where
  anchor : Option String
  uri : Option String
  start : Option Mark

def anchor? : Read (Option Token × Option String) := do
  let t ← peek
  match t.lexeme with
  | .anchor name => skip; return (some t, some name)
  | _ => return (none, none)

def tag? : Read (Option Token × Option (Option String × String)) := do
  let t ← peek
  match t.lexeme with
  | .tag handle suffix => skip; return (some t, some (handle, suffix))
  | _ => return (none, none)

def properties : Read Properties := do
  let (t₁, a₁) ← anchor?
  let (t₂, tag) ← tag?
  let (_, a₂) ← if a₁.isNone && tag.isSome then anchor? else pure (none, none)
  let uri ← tag.mapM fun (handle, suffix) => uriOf handle suffix
  return ⟨a₁.or a₂, uri, (t₁.or t₂).map (·.start)⟩

/-- The tag that a URI means, if there is one and it is not the mark that stands for none. -/
def Properties.tag? (p : Properties) : Option Tag :=
  match p.uri with
  | none | some "!" => none
  | some uri => some (.ofUri uri)

/-- Names an anchor; a name may be used once. -/
def Properties.claim (p : Properties) : Read Unit := do
  match p.anchor with
  | none => pure ()
  | some name =>
    let s ← get
    if (s.anchors.lookup name).isSome then malformed
    else set { s with anchors := (name, none) :: s.anchors }

/-- Gives the node to its anchor. -/
def Properties.bind (p : Properties) (n : Node) : Read Node := do
  match p.anchor with
  | none => return n
  | some name =>
    modify fun s => { s with anchors := (name, some n) :: s.anchors }
    return n

def aliased (name : String) : Read Node := do
  match (← get).anchors.lookup name with
  | some (some n) => return n
  | _ => malformed

/-! ## Nodes -/

/-- What is read, unless a token follows before which something is left out. -/
def presentOr (stops : List Lexeme) (m : Mark) (read : Read Node) : Read Node := do
  if ← isNext stops then return absent m else read

/-- The value of an entry. -/
def entryValue (stops : List Lexeme) (read : Read Node) : Read Node := do
  match ← next? .value with
  | some t => presentOr stops t.stop read
  | none => return absent (← peek).start

/-- The tag of a scalar that is not collected from others. -/
def Properties.scalarTag (p : Properties) (isPlain : Bool) (text : String) : Tag :=
  match p.tag? with
  | some t => t
  | none => if isPlain || p.uri.isSome then .ofPlain text else .str

def blockStops : List Lexeme := [.key, .value, .blockEnd]

/-- The opening of a node that holds others. -/
inductive Opening where
  | loose
  | list
  | map
  | blockList
  | blockMap

/-- The opening that a lexeme is; inside brackets there are no blocks, and items without a
sequence of their own are read only where they may stand. -/
def openingOf (inBlock looseItems : Bool) : Lexeme → Option Opening
  | .entry => if looseItems then some .loose else none
  | .openList => some .list
  | .openMap => some .map
  | .sequenceStart => if inBlock then some .blockList else none
  | .mappingStart => if inBlock then some .blockMap else none
  | _ => none

mutual
/-- A node. The first argument bounds the depth of reading, by the count of tokens. -/
def node : Nat → Bool → Bool → Read Node
  | 0, _, _ => malformed
  | fuel + 1, inBlock, looseItems => do
    let t ← peek
    match t.lexeme with
    | .alias name => skip; aliased name
    | _ =>
      let p ← properties
      let t ← peek
      let start := p.start.getD t.start
      match t.lexeme, openingOf inBlock looseItems t.lexeme with
      | .scalar text isPlain, _ =>
        skip
        p.claim
        p.bind (.scalar (p.scalarTag isPlain text) text start)
      | _, some opening =>
        p.claim
        p.bind (← collection fuel (p.tag?) start opening)
      | _, none =>
        if p.anchor.isSome || p.uri.isSome then
          p.claim
          p.bind (.scalar (p.scalarTag true "") "" start)
        else malformed

/-- A node that holds others. -/
def collection : Nat → Option Tag → Mark → Opening → Read Node
  | 0, _, _, _ => malformed
  | fuel + 1, tag, start, opening => do
    match opening with
    | .loose => return .sequence (tag.getD .seq) (← looseItems fuel) start
    | .list => skip; return .sequence (tag.getD .seq) (← listItems fuel true) start
    | .map => skip; return .mapping (tag.getD .map) (← mapEntries fuel true) start
    | .blockList => skip; return .sequence (tag.getD .seq) (← blockItems fuel) start
    | .blockMap => skip; return .mapping (tag.getD .map) (← blockEntries fuel) start

/-- The items of a block sequence. -/
def blockItems : Nat → Read (List Node)
  | 0 => malformed
  | fuel + 1 => do
    match ← next? .entry with
    | some t =>
      let item ← presentOr [.entry, .blockEnd] t.stop (node fuel true false)
      return item :: (← blockItems fuel)
    | none =>
      expect .blockEnd
      return []

/-- Items that are not indented deeper than the key before them. -/
def looseItems : Nat → Read (List Node)
  | 0 => malformed
  | fuel + 1 => do
    match ← next? .entry with
    | some t =>
      let item ← presentOr (.entry :: blockStops) t.stop (node fuel true false)
      return item :: (← looseItems fuel)
    | none => return []

/-- The entries of a block mapping. -/
def blockEntries : Nat → Read (List (Node × Node))
  | 0 => malformed
  | fuel + 1 => do
    match ← next? .key with
    | some t =>
      let key ← presentOr blockStops t.stop (node fuel true true)
      let value ← entryValue blockStops (node fuel true true)
      return (key, value) :: (← blockEntries fuel)
    | none =>
      expect .blockEnd
      return []

/-- The items between brackets. A key among them begins a mapping of one entry. -/
def listItems : Nat → Bool → Read (List Node)
  | 0, _ => malformed
  | fuel + 1, isFirst => do
    if (← next? .closeList).isSome then return []
    else
      if !isFirst then expect .comma
      let t ← peek
      match t.lexeme with
      | .closeList => skip; return []
      | .key =>
        skip
        let key ← presentOr [.value, .comma, .closeList] t.stop (node fuel false false)
        let value ← entryValue [.comma, .closeList] (node fuel false false)
        return .mapping .map [(key, value)] t.start :: (← listItems fuel false)
      | _ =>
        let item ← node fuel false false
        return item :: (← listItems fuel false)

/-- The entries between braces. One without a mark for its key has no value. -/
def mapEntries : Nat → Bool → Read (List (Node × Node))
  | 0, _ => malformed
  | fuel + 1, isFirst => do
    if (← next? .closeMap).isSome then return []
    else
      if !isFirst then expect .comma
      let t ← peek
      match t.lexeme with
      | .closeMap => skip; return []
      | .key =>
        skip
        let key ← presentOr [.value, .comma, .closeMap] t.stop (node fuel false false)
        let value ← entryValue [.comma, .closeMap] (node fuel false false)
        return (key, value) :: (← mapEntries fuel false)
      | _ =>
        let key ← node fuel false false
        let value := absent (← peek).start
        return (key, value) :: (← mapEntries fuel false)
end

/-! ## Documents -/

/-- Skips the marks of the ends of documents. -/
def skipEnds : Read Unit := modify fun s =>
  { s with tokens := s.tokens.dropWhile (·.lexeme == .documentEnd) }

/-- The prefixes that are there in every document. -/
def usualHandles : List (String × String) := [("!", "!"), ("!!", Tag.base)]

/-- The prefixes of tags that directives give. There is one version at most, and it is of the
first generation. -/
def directives : Nat → Bool → List (String × String) → Read (List (String × String))
  | 0, _, _ => malformed
  | fuel + 1, hasVersion, handles => do
    let t ← peek
    match t.lexeme with
    | .version major =>
      skip
      if hasVersion || major != 1 then malformed else directives fuel true handles
    | .tagPrefix handle uri =>
      skip
      if (handles.lookup handle).isSome then malformed
      else directives fuel hasVersion ((handle, uri) :: handles)
    | .directive => skip; directives fuel hasVersion handles
    | _ => return handles ++ usualHandles

def isDirective : Lexeme → Bool
  | .version _ | .tagPrefix .. | .directive => true
  | _ => false

/-- The root of the document behind its directives and its mark. -/
def explicitRoot (fuel : Nat) : Read Node := do
  let handles ← directives fuel false []
  modify fun s => { s with handles := handles }
  expect .documentStart
  let t ← peek
  if isDirective t.lexeme || [.documentStart, .documentEnd, .textEnd].contains t.lexeme then
    return absent t.start
  else node fuel true false

/-- The root of the only document; nothing if there is none. -/
def document (fuel : Nat) : Read (Option Node) := do
  let t ← peek
  if t.lexeme == .textEnd then return none
  else
    let root ←
      if isDirective t.lexeme || t.lexeme == .documentStart then explicitRoot fuel
      else node fuel true false
    skipEnds
    if ← isNext [.textEnd] then return some root
    else
      let _ ← directives fuel false []
      malformed

end Read

/-- The tree of a text; nothing if the text holds no document. -/
def ofText (text : List Char) : Except SyntaxFault (Option Node) :=
  let found := Tokens.ofText text
  let fuel := 3 * found.tokens.length + 3
  (Read.document fuel
    ⟨found.tokens, found.fault.getD .malformed, Read.usualHandles, []⟩).map (·.1)

end Node

end Cnd.Yaml
