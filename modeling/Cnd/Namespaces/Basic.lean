import Cnd.Name
import Cnd.NameError
import Cnd.Text.Alphanumeric
import Cnd.Text.Blank

/-!
The table of namespace prefixes.

A table binds prefixes to URIs, in the order of declaration, and keeps an index from each bound
URI to its canonical prefix: the first prefix of the table that is bound to it. Declaring is the
only way to change a table; what happens to a prefix that is bound to another URI is a policy.
-/

namespace Cnd

/-- What a declaration does to a prefix that is bound to another URI. -/
inductive ConflictPolicy where
  | error
  | ignore
  | override
  deriving DecidableEq, Repr, Inhabited

def ConflictPolicy.text : ConflictPolicy → String
  | .error => "error"
  | .ignore => "ignore"
  | .override => "override"

/-- Prefixes with their URIs, and URIs with their canonical prefixes. -/
structure Namespaces where
  bindings : List (String × String)
  canonical : List (String × String)
  deriving Repr, Inhabited

namespace Namespaces

/-- The table without bindings. -/
def empty : Namespaces := ⟨[], []⟩

/-- The URI that a prefix is bound to. -/
def uri? (ns : Namespaces) (pfx : String) : Option String := ns.bindings.lookup pfx

/-- The canonical prefix of a URI. -/
def canonical? (ns : Namespaces) (uri : String) : Option String := ns.canonical.lookup uri

def contains (ns : Namespaces) (pfx : String) : Bool := (ns.uri? pfx).isSome

/-! ## Declaring -/

/-- A letter of any script, or a number that is no decimal digit, or an underscore. -/
def isPrefixStart (c : Char) : Bool :=
  (Text.isAlphanumeric c || c == '_') && !Text.isDigit c

/-- A letter or number of any script, an underscore, a point or a hyphen. -/
def isPrefixPart (c : Char) : Bool :=
  Text.isAlphanumeric c || c == '_' || c == '.' || c == '-'

/-- The texts that a non-empty prefix may be. -/
def isPrefixText : List Char → Bool
  | [] => false
  | c :: rest => isPrefixStart c && rest.all isPrefixPart

/-- Whether the index is right to name `pfx` for a URI whose binding is about to go: then the next
prefix of the table bound to it takes its place. -/
def unindex (bindings canonical : List (String × String)) (pfx uri : String) :
    List (String × String) :=
  if canonical.lookup uri == some pfx then
    let rest := canonical.filter (·.1 != uri)
    match bindings.find? (·.2 == uri) with
    | some (other, _) => rest ++ [(uri, other)]
    | none => rest
  else canonical

/-- The table without the binding of a prefix to a URI. -/
def unbind (ns : Namespaces) (pfx uri : String) : Namespaces :=
  let bindings := ns.bindings.filter (·.1 != pfx)
  ⟨bindings, unindex bindings ns.canonical pfx uri⟩

/-- The table with a new prefix at its end. -/
def bind (ns : Namespaces) (pfx uri : String) : Namespaces :=
  ⟨ns.bindings ++ [(pfx, uri)],
   if (ns.canonical.lookup uri).isSome then ns.canonical else ns.canonical ++ [(uri, pfx)]⟩

/-- What a declaration did. -/
inductive Change where
  /-- The prefix was bound to this URI already. -/
  | none
  /-- The prefix keeps another URI. -/
  | kept (current : String)
  /-- The prefix is new. -/
  | added
  /-- The prefix was bound to another URI. -/
  | moved (former : String)
  deriving DecidableEq, Repr

/-- Whether the table is another one after it. -/
def Change.isChange : Change → Bool
  | .none | .kept _ => false
  | .added | .moved _ => true

/-- A prefix is empty or a prefix text; a prefix that is not empty needs a URI that is not. -/
def checkDeclaration (pfx uri : String) : Except NameError Unit :=
  if !pfx.isEmpty && !isPrefixText pfx.toList then .error (.invalidPrefix pfx)
  else if !pfx.isEmpty && uri.isEmpty then .error (.emptyUri pfx)
  else .ok ()

/-- The table after binding a prefix to a URI. -/
def declare (ns : Namespaces) (policy : ConflictPolicy) (pfx uri : String) :
    Except NameError (Namespaces × Change) :=
  match checkDeclaration pfx uri with
  | .error e => .error e
  | .ok () =>
    match ns.uri? pfx with
    | none => .ok (ns.bind pfx uri, .added)
    | some current =>
      if current == uri then .ok (ns, .none)
      else match policy with
        | .error => .error (.conflict pfx current uri)
        | .ignore => .ok (ns, .kept current)
        | .override => .ok ((ns.unbind pfx current).bind pfx uri, .moved current)

/-- A declaration of plain values, which have to be texts. -/
def declareData (ns : Namespaces) (policy : ConflictPolicy) (pfx uri : Data) :
    Except NameError (Namespaces × Change) :=
  match pfx, uri with
  | .text p, .text u => ns.declare policy p u
  | _, _ => .error (.notText pfx uri)

/-- The prefixes that every table starts with unless told otherwise. -/
def builtinBindings : List (String × String) :=
  [("", ""),
   ("jcr", "http://www.jcp.org/jcr/1.0"),
   ("nt", Name.nodeTypeUri),
   ("mix", "http://www.jcp.org/jcr/mix/1.0"),
   ("sv", "http://www.jcp.org/jcr/sv/1.0"),
   ("xml", "http://www.w3.org/XML/1998/namespace")]

/-- The table of the built-in prefixes. -/
def builtin : Namespaces := builtinBindings.foldl (fun ns b => ns.bind b.1 b.2) empty

/-! ## Names -/

/-- A character that no local name holds. -/
def isIllegalInLocal (c : Char) : Bool :=
  ['/', ':', '[', ']', '*', '|', '\'', '"'].contains c || Text.isBlank c

/-- A local name is not empty, not one or two points, and holds no illegal character. -/
def checkLocal (localName : List Char) (text : String) : Except NameError Unit :=
  if localName.isEmpty then .error (.emptyLocal text)
  else if localName == ['.'] || localName == ['.', '.'] then
    .error (.dotLocal (String.ofList localName) text)
  else match localName.find? isIllegalInLocal with
    | some c => .error (.illegalChar c text)
    | none => .ok ()

/-- The prefix and the local part of a text: split at its first colon, the prefix being empty
where there is none. -/
def splitName (text : String) : Except NameError (String × List Char) :=
  let cs := text.toList
  if cs.contains ':' then
    let pfx := String.ofList (cs.takeWhile (· != ':'))
    if pfx.isEmpty then .error (.emptyPrefix text)
    else if !isPrefixText pfx.toList then .error (.invalidPrefixIn pfx text)
    else .ok (pfx, (cs.dropWhile (· != ':')).drop 1)
  else .ok ("", cs)

/-- The name that a text stands for: `prefix:local`, or `local` in the namespace of the empty
prefix. -/
def resolve (ns : Namespaces) (text : String) : Except NameError Name :=
  if text.isEmpty then .error .emptyName
  else if Text.trim text.toList != text.toList then .error (.blankAround text)
  else match splitName text with
    | .error e => .error e
    | .ok (pfx, localName) =>
      match checkLocal localName text with
      | .error e => .error e
      | .ok () =>
        match ns.uri? pfx with
        | none => .error (.unknownPrefixIn pfx text)
        | some uri => .ok ⟨uri, String.ofList localName⟩

/-- The name that a plain value stands for; only a text stands for one. -/
def resolveData (ns : Namespaces) : Data → Except NameError Name
  | .text s => ns.resolve s
  | _ => .error .emptyName

/-- The URI of a prefix, or the error that it has none. -/
def getUri (ns : Namespaces) (pfx : String) : Except NameError String :=
  match ns.uri? pfx with
  | some uri => .ok uri
  | none => .error (.unknownPrefix pfx)

/-- The canonical prefix of a URI, or the error that it has none. -/
def getCanonical (ns : Namespaces) (uri : String) : Except NameError String :=
  match ns.canonical? uri with
  | some pfx => .ok pfx
  | none => .error (.unboundUri uri)

/-- A name behind the canonical prefix of its namespace; an asterisk for the wildcard. -/
def toPrefixed (ns : Namespaces) (name : Name) : Except NameError String :=
  if name.isWildcard then .ok "*"
  else match ns.getCanonical name.uri with
    | .error e => .error e
    | .ok pfx => .ok (if pfx.isEmpty then name.localName else pfx ++ ":" ++ name.localName)

/-- A name as it is shown: with its prefix, or with its URI in braces if that has none. -/
def render (ns : Namespaces) (name : Name) : String :=
  match ns.toPrefixed name with
  | .ok text => text
  | .error _ => name.expanded

/-! ## Comparing and showing -/

/-- Whether two lists of pairs with distinct keys hold the same pairs. -/
def sameEntries (a b : List (String × String)) : Bool :=
  a.length == b.length && a.all fun e => b.lookup e.1 == some e.2

/-- Two tables are the same when they bind the same prefixes to the same URIs and have the same
canonical prefixes, whatever the order of declaration. -/
def same (a b : Namespaces) : Bool :=
  sameEntries a.bindings b.bindings && sameEntries a.canonical b.canonical

/-- The bindings as a plain mapping. -/
def toData (ns : Namespaces) : Data := .map (ns.bindings.map fun b => (.text b.1, .text b.2))

/-- The form in which a table is shown. -/
def shown (ns : Namespaces) : String := "NamespaceMapping(" ++ ns.toData.quoted ++ ")"

end Namespaces

end Cnd
