import Cnd.Elaboration
import Cnd.Proofs.Pull.Lexer

/-!
A parser that pulls its tokens from a lexer.

The parser holds the token looked at and asks the lexer for the next one when it takes it. Names and
literals are resolved as they come, and the first failure ends the parse, so that nothing is asked
for after it. A loop is given a number of rounds, and a parser in need of more is `exhausted`. What
the lexer answers and what is reported is recorded. A parser puts no token back (`Pull.forward`).
-/

namespace Cnd

/-- What a lexer says: a token or a fault. -/
abbrev Answer := Except ScanError Token

/-- Why a parser stops before it is done. -/
inductive Stop where
  | failed (f : Failure)
  /-- A loop has had all rounds that it was given. -/
  | exhausted

/-- What a parser holds: the token looked at, the lexer behind it, and the prefixes. -/
structure Session where
  token : Token
  lexer : Lexer
  namespaces : Namespaces

/-- How much there is to take: the characters left, and the token looked at unless that is the
ending. -/
def Session.remainder (s : Session) : Nat :=
  s.lexer.rest.length + if s.token.isEnding then 0 else 1

/-- How a parser ends, with what the lexer has answered meanwhile and what has been reported. -/
structure Course (α : Type) where
  result : Except Stop α
  session : Session
  answers : List Answer
  events : List Event

/-- A parser with a result, which puts nothing back. -/
structure Pull (α : Type) where
  run : Session → Course α
  forward : ∀ s, (run s).session.remainder ≤ s.remainder

namespace Pull

instance {α : Type} : CoeFun (Pull α) fun _ => Session → Course α := ⟨Pull.run⟩

instance : Monad Pull where
  pure a := ⟨fun s => ⟨.ok a, s, [], []⟩, fun _ => Nat.le_refl _⟩
  bind m k :=
    { run := fun s =>
        match (m s).result with
        | .error stop => ⟨.error stop, (m s).session, (m s).answers, (m s).events⟩
        | .ok a =>
          let after := k a (m s).session
          ⟨after.result, after.session, (m s).answers ++ after.answers,
            (m s).events ++ after.events⟩
      forward := fun s => by
        split
        · exact m.forward s
        · exact Nat.le_trans ((k _).forward _) (m.forward s) }

section

variable {α β : Type} {m : Pull α} {k : α → Pull β} {s : Session}

theorem bind_of_error {e : Stop} (h : (m s).result = .error e) :
    (m >>= k) s = ⟨.error e, (m s).session, (m s).answers, (m s).events⟩ := by
  change (match (m s).result with | .error _ => _ | .ok _ => _) = _
  rw [h]

theorem bind_of_ok {a : α} (h : (m s).result = .ok a) :
    (m >>= k) s =
      ⟨(k a (m s).session).result, (k a (m s).session).session,
        (m s).answers ++ (k a (m s).session).answers,
        (m s).events ++ (k a (m s).session).events⟩ := by
  change (match (m s).result with | .error _ => _ | .ok _ => _) = _
  rw [h]

theorem bind_pure_of_ok {a : α} {b : β} (h : (m s).result = .ok a) :
    (m >>= fun _ => pure b) s = ⟨.ok b, (m s).session, (m s).answers, (m s).events⟩ := by
  rw [bind_of_ok h]
  change (⟨_, _, (m s).answers ++ [], (m s).events ++ []⟩ : Course β) = _
  rw [List.append_nil, List.append_nil]
  rfl

end

/-! ## Single steps -/

def current : Pull Token := ⟨fun s => ⟨.ok s.token, s, [], []⟩, fun _ => Nat.le_refl _⟩

def namespaces : Pull Namespaces := ⟨fun s => ⟨.ok s.namespaces, s, [], []⟩, fun _ => Nat.le_refl _⟩

def stop {α : Type} (e : Stop) : Pull α := ⟨fun s => ⟨.error e, s, [], []⟩, fun _ => Nat.le_refl _⟩

section

variable {α : Type}

theorem current_bind (k : Token → Pull α) (s : Session) : (current >>= k) s = k s.token s := rfl

theorem namespaces_bind (k : Namespaces → Pull α) (s : Session) :
    (namespaces >>= k) s = k s.namespaces s := rfl

end

/-- Goes on with what has a value. -/
def check {α : Type} : Except Failure α → Pull α
  | .ok a => pure a
  | .error f => stop (.failed f)

def setNamespaces (ns : Namespaces) : Pull Unit :=
  ⟨fun s => ⟨.ok (), { s with namespaces := ns }, [], []⟩, fun _ => Nat.le_refl _⟩

def report (events : List Event) : Pull Unit :=
  ⟨fun s => ⟨.ok (), s, [], events⟩, fun _ => Nat.le_refl _⟩

/-- The rounds of a loop, until one has the result. -/
def rounds {σ α : Type} (round : σ → Pull (σ ⊕ α)) : Nat → σ → Pull α
  | 0, _ => stop .exhausted
  | n + 1, x => do
    match ← round x with
    | .inl y => rounds round n y
    | .inr a => return a

section

variable (source : Option String)

/-- Take the token looked at, and look at the next one. -/
def advance : Pull Unit where
  run s := match s.lexer.next with
    | .error e =>
      ⟨.error (.failed (Elaboration.breakFailure source (some e) .scan)), s, [.error e], []⟩
    | .ok (t, l) => ⟨.ok (), ⟨t, l, s.namespaces⟩, [.ok t], []⟩
  forward s := by
    split
    · exact Nat.le_refl _
    · rename_i h
      exact Nat.le_trans (Lexer.length_of_next h) (Nat.le_add_right _ _)

theorem advance_of_error {s : Session} {e : ScanError} (h : s.lexer.next = .error e) :
    advance source s =
      ⟨.error (.failed (Elaboration.breakFailure source (some e) .scan)), s, [.error e], []⟩ := by
  change (match s.lexer.next with | .error _ => _ | .ok (_, _) => _) = _
  rw [h]

theorem advance_of_ok {s : Session} {t : Token} {l : Lexer} (h : s.lexer.next = .ok (t, l)) :
    advance source s = ⟨.ok (), ⟨t, l, s.namespaces⟩, [.ok t], []⟩ := by
  change (match s.lexer.next with | .error _ => _ | .ok (_, _) => _) = _
  rw [h]

/-- The token looked at cannot stand here. -/
def refuse {α : Type} (f : GrammarFault) : Pull α := do
  let t ← current
  stop (.failed (Elaboration.fault source t (.grammar f t)))

def expectSymbol (d : Delimiter) : Pull Unit := do
  let t ← current
  if t.isSymbol d.symbol then advance source else refuse source (.delimiter d)

/-- The text looked at, which is not taken yet. -/
def expectText (e : Expected) : Pull Token := do
  let t ← current
  match t.text? with
  | some _ => return t
  | none => refuse source (.text e)

def resolve (t : Token) : Pull Name := do
  check (Elaboration.name source (← namespaces) t)

/-- The name looked at. -/
def name (e : Expected) : Pull Name := do
  let t ← expectText source e
  let n ← resolve source t
  advance source
  return n

/-! ## Lists -/

def nameRound (e : Expected) (names : List Name) : Pull (List Name ⊕ List Name) := do
  let t ← current
  if t.isSymbol ',' then
    advance source
    let n ← name source e
    return .inl (names ++ [n])
  else return .inr names

def nameList (e : Expected) (n : Nat) : Pull (List Name) := do
  let first ← name source e
  rounds (nameRound source e) n [first]

/-- A literal behind a sign or a comma. -/
def literalRound (e : Expected) (literals : List Token) : Pull (List Token ⊕ List Token) := do
  advance source
  let literal ← expectText source e
  advance source
  let t ← current
  return if t.isSymbol ',' then .inl (literals ++ [literal]) else .inr (literals ++ [literal])

/-- Literals behind a sign, if that sign is looked at. -/
def literalsAfter (c : Char) (e : Expected) (n : Nat) : Pull (List Token) := do
  let t ← current
  if t.isSymbol c then rounds (literalRound source e) n [] else return []

/-- A keyword behind an item, with what it changes. -/
def attributeRound (typeName : String) (item : Name) (x : ItemAttributes × Option Name) :
    Pull ((ItemAttributes × Option Name) ⊕ (ItemAttributes × Option Name)) := do
  let t ← current
  match Outline.mark? t with
  | none => return .inr x
  | some m =>
    let next ← check (Elaboration.marks source typeName item [(t, m)] x.1 x.2)
    advance source
    return .inl next

/-! ## Members -/

def itemName (e : Expected) : Pull Name := do
  let t ← current
  if t.isSymbol '*' then
    advance source
    return .wildcard
  else name source e

def propertyType : Pull PropertyType := do
  let t ← current
  if t.isSymbol '(' then
    advance source
    let t ← current
    match Outline.keyword? Keyword.propertyTypes t with
    | none => refuse source .propertyType
    | some type =>
      advance source
      expectSymbol source .propertyTypeClose
      return type
  else return .string

def property (n : Nat) (owner : Name) (primary : Option Name) :
    Pull (PropertyDefinition × Option Name) := do
  let ns ← namespaces
  let item ← itemName source .propertyName
  let type ← propertyType source
  let defaults ← literalsAfter source '=' .defaultValue n
  let values ← check (defaults.mapM (Elaboration.defaultValue source ns type))
  let (attributes, primary) ←
    rounds (attributeRound source (ns.render owner) item) n ({}, primary)
  let texts ← literalsAfter source '<' .constraint n
  let constraints ← check (texts.mapM (Elaboration.constraint source ns type))
  return (⟨item, owner, type, values, constraints, attributes⟩, primary)

def requiredTypes (n : Nat) : Pull (List Name) := do
  let t ← current
  if t.isSymbol '(' then
    advance source
    let types ← nameList source .requiredType n
    expectSymbol source .requiredTypesClose
    return types
  else return [Name.base]

def defaultType : Pull (Option Name) := do
  let t ← current
  if t.isSymbol '=' then
    advance source
    let n ← name source .defaultType
    return some n
  else return none

def child (n : Nat) (owner : Name) (primary : Option Name) :
    Pull (ChildDefinition × Option Name) := do
  let ns ← namespaces
  let item ← itemName source .childName
  let required ← requiredTypes source n
  let type ← defaultType source
  let (attributes, primary) ←
    rounds (attributeRound source (ns.render owner) item) n ({}, primary)
  return (⟨item, owner, required, type, attributes⟩, primary)

def memberRound (n : Nat) (owner : Name) (m : Elaboration.Members) :
    Pull (Elaboration.Members ⊕ Elaboration.Members) := do
  let t ← current
  if t.isSymbol '-' then
    advance source
    let (p, primary) ← property source n owner m.primary
    return .inl ⟨m.properties ++ [p], m.children, primary⟩
  else if t.isSymbol '+' then
    advance source
    let (c, primary) ← child source n owner m.primary
    return .inl ⟨m.properties, m.children ++ [c], primary⟩
  else return .inr m

/-! ## Clauses -/

def supertypes (n : Nat) : Pull (List Name) := do
  let t ← current
  if t.isSymbol '>' then
    advance source
    nameList source .supertypeName n
  else return []

/-- The options: whether the child nodes have an order, and whether the type is a mixin. -/
def options : Pull (Bool × Bool) := do
  let t ← current
  match Outline.keyword? Keyword.options t with
  | none => return (false, false)
  | some first =>
    advance source
    let t ← current
    match Outline.keyword? Keyword.options t with
    | none => return (first == .orderable, !(first == .orderable))
    | some second =>
      if second == first then return (first == .orderable, !(first == .orderable))
      else
        advance source
        return (true, true)

def nodeType (n : Nat) : Pull NodeType := do
  expectSymbol source .typeOpen
  let typeName ← name source .typeName
  expectSymbol source .typeClose
  let supers ← supertypes source n
  let (orderable, mixin) ← options source
  let m ← rounds (memberRound source n typeName) n ⟨[], [], none⟩
  return ⟨typeName, supers, orderable, mixin, m.primary, m.properties, m.children⟩

def binding : Pull NamespaceClause := do
  let opening ← current
  advance source
  let pfx ← expectText source .bindingPrefix
  advance source
  expectSymbol source .bindingEquals
  let uri ← expectText source .bindingUri
  advance source
  expectSymbol source .bindingClose
  return ⟨opening, Elaboration.textOf pfx, Elaboration.textOf uri⟩

variable (policy : ConflictPolicy)

def declare (c : NamespaceClause) : Pull Unit := do
  match (← namespaces).declare policy c.pfx c.uri with
  | .error e => stop (.failed (Elaboration.fault source c.opening (.declaration e)))
  | .ok (ns, change) =>
    setNamespaces ns
    report (change.events c.pfx c.uri)

def clauseRound (n : Nat) (types : List NodeType) : Pull (List NodeType ⊕ List NodeType) := do
  let t ← current
  if t.isEnding then return .inr types
  else if t.isSymbol '<' then
    let c ← binding source
    declare source policy c
    return .inl types
  else
    let type ← nodeType source n
    report [Elaboration.typeEvent (← namespaces) type]
    return .inl (types ++ [type])

/-- The node types of a text, from its first token on. -/
def document (n : Nat) : Pull (List NodeType) := rounds (clauseRound source policy n) n []

end

/-- How a text is parsed: the outcome, what the lexer has answered, and what has been reported. The
lexer is asked for the first token before anything else. -/
structure Parsed where
  outcome : Except Stop Definitions
  answers : List Answer
  events : List Event

def parse (n : Nat) (source : String) (policy : ConflictPolicy) (ns : Namespaces) (text : String) :
    Parsed :=
  match (Lexer.start text.toList).next with
  | .error e =>
    ⟨.error (.failed (Elaboration.breakFailure (some source) (some e) .scan)), [.error e], []⟩
  | .ok (t, l) =>
    let course := document (some source) policy n ⟨t, l, ns⟩
    match course.result with
    | .error e => ⟨.error e, .ok t :: course.answers, course.events⟩
    | .ok types =>
      ⟨.ok ⟨types, course.session.namespaces⟩, .ok t :: course.answers,
        course.events ++ [.readText types.length (Definitions.sourceName source)]⟩

end Pull

end Cnd
