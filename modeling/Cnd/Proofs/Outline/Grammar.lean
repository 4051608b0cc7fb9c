import Cnd.Outline.Read

/-!
The grammar of definition texts, as relations between runs of tokens and clauses:

    text      ::= { binding | type }
    binding   ::= "<" prefix "=" uri ">"
    type      ::= "[" name "]" [ ">" name { "," name } ] [ options ] { "-" property | "+" child }
    options   ::= orderable [ mixin ] | mixin [ orderable ]
    property  ::= (name | "*") [ "(" type ")" ] [ "=" text { "," text } ] { mark }
                  [ "<" text { "," text } ]
    child     ::= (name | "*") [ "(" name { "," name } ")" ] [ "=" name ] { mark }

Phrases are put together by appending their tokens; nothing is said of how they are read. The one
rule beyond that is in `Document.nodeType`: an opening angle bracket behind the marks of a property
begins the constraints of the property, never a binding.
-/

namespace Cnd

/-- Whether a member is a property without constraints, whose marks could go on with some. -/
def MemberClause.isOpen : MemberClause → Bool
  | .property c => c.constraints.isEmpty
  | .child _ => false

/-- Whether a node type ends with a property without constraints. -/
def TypeClause.endsOpen (c : TypeClause) : Bool := c.members.getLast?.any (·.isOpen)

namespace Grammar

open Outline (keyword? looksAt)

/-! ## Phrases -/

/-- `text { "," text }` -/
inductive Texts : List Token → List Token → Prop where
  | one {t : Token} (h : t.text?.isSome) : Texts [t] [t]
  | more {t comma : Token} {s ts : List Token} (h : t.text?.isSome) (hc : comma.isSymbol ',')
      (hs : Texts s ts) : Texts (t :: comma :: s) (t :: ts)

/-- Texts behind a sign, if the sign is there. -/
inductive TextsAfter (c : Char) : List Token → List Token → Prop where
  | none : TextsAfter c [] []
  | some {sign : Token} {s ts : List Token} (h : sign.isSymbol c) (hs : Texts s ts) :
      TextsAfter c (sign :: s) ts

/-- At most one option of each kind, in either order: what they say of the order of child nodes,
and of mixins. -/
inductive Options : List Token → Bool → Bool → Prop where
  | none : Options [] false false
  | one {t : Token} {o : TypeOption} (h : keyword? Keyword.options t = some o) :
      Options [t] (o == .orderable) (o == .mixin)
  | both {t u : Token} {o p : TypeOption} (ht : keyword? Keyword.options t = some o)
      (hu : keyword? Keyword.options u = some p) (hne : o ≠ p) : Options [t, u] true true

inductive Named : List Token → ItemName → Prop where
  | wildcard {t : Token} (h : t.isSymbol '*') : Named [t] .wildcard
  | named {t : Token} (h : t.text?.isSome) : Named [t] (.named t)

/-- The type of a property in parentheses; texts if it is left out. -/
inductive Typed : List Token → PropertyType → Prop where
  | none : Typed [] .string
  | some {l t r : Token} {type : PropertyType} (hl : l.isSymbol '(')
      (ht : keyword? Keyword.propertyTypes t = some type) (hr : r.isSymbol ')') :
      Typed [l, t, r] type

/-- A spelling of an attribute, or of an action on versions. -/
def Spells (t : Token) : Mark → Prop
  | .attribute a => keyword? Keyword.attributes t = some a
  | .action v => keyword? Keyword.versionActions t = some v

inductive Marked : List Token → List (Token × Mark) → Prop where
  | none : Marked [] []
  | more {t : Token} {m : Mark} {s : List Token} {ms : List (Token × Mark)} (h : Spells t m)
      (hs : Marked s ms) : Marked (t :: s) ((t, m) :: ms)

inductive Required : List Token → Option (List Token) → Prop where
  | none : Required [] none
  | some {l r : Token} {s ts : List Token} (hl : l.isSymbol '(') (hs : Texts s ts)
      (hr : r.isSymbol ')') : Required (l :: s ++ [r]) (some ts)

inductive DefaultType : List Token → Option Token → Prop where
  | none : DefaultType [] none
  | some {sign t : Token} (h : sign.isSymbol '=') (ht : t.text?.isSome) :
      DefaultType [sign, t] (some t)

/-! ## Members and clauses -/

inductive Property : List Token → PropertyClause → Prop where
  | mk {n y d m k : List Token} {name : ItemName} {type : PropertyType}
      {defaults constraints : List Token} {marks : List (Token × Mark)} (hn : Named n name)
      (hy : Typed y type) (hd : TextsAfter '=' d defaults) (hm : Marked m marks)
      (hk : TextsAfter '<' k constraints) :
      Property (n ++ (y ++ (d ++ (m ++ k)))) ⟨name, type, defaults, marks, constraints⟩

inductive Child : List Token → ChildClause → Prop where
  | mk {n r d m : List Token} {name : ItemName} {required : Option (List Token)}
      {type : Option Token} {marks : List (Token × Mark)} (hn : Named n name)
      (hr : Required r required) (hd : DefaultType d type) (hm : Marked m marks) :
      Child (n ++ (r ++ (d ++ m))) ⟨name, required, type, marks⟩

inductive Member : List Token → MemberClause → Prop where
  | property {sign : Token} {s : List Token} {c : PropertyClause} (h : sign.isSymbol '-')
      (hs : Property s c) : Member (sign :: s) (.property c)
  | child {sign : Token} {s : List Token} {c : ChildClause} (h : sign.isSymbol '+')
      (hs : Child s c) : Member (sign :: s) (.child c)

inductive Members : List Token → List MemberClause → Prop where
  | none : Members [] []
  | more {s r : List Token} {m : MemberClause} {ms : List MemberClause} (h : Member s m)
      (hs : Members r ms) : Members (s ++ r) (m :: ms)

inductive NodeType : List Token → TypeClause → Prop where
  | mk {l name r : Token} {s o m : List Token} {supertypes : List Token} {orderable mixin : Bool}
      {members : List MemberClause} (hl : l.isSymbol '[') (ht : name.text?.isSome)
      (hr : r.isSymbol ']') (hs : TextsAfter '>' s supertypes) (ho : Options o orderable mixin)
      (hm : Members m members) :
      NodeType (l :: name :: r :: (s ++ (o ++ m))) ⟨name, supertypes, orderable, mixin, members⟩

inductive Binding : List Token → NamespaceClause → Prop where
  | mk {opening p e u closing : Token} {pfx uri : String} (ho : opening.isSymbol '<')
      (hp : p.text? = some pfx) (he : e.isSymbol '=') (hu : u.text? = some uri)
      (hc : closing.isSymbol '>') : Binding [opening, p, e, u, closing] ⟨opening, pfx, uri⟩

/-- The clauses of a whole text. An angle bracket behind a property belongs to that property. -/
inductive Document : List Token → List Clause → Prop where
  | none : Document [] []
  | binding {s r : List Token} {c : NamespaceClause} {cs : List Clause} (h : Binding s c)
      (hr : Document r cs) : Document (s ++ r) (.binding c :: cs)
  | nodeType {s r : List Token} {c : TypeClause} {cs : List Clause} (h : NodeType s c)
      (hr : Document r cs) (ho : c.endsOpen = true → looksAt '<' r = false) :
      Document (s ++ r) (.nodeType c :: cs)

end Grammar

end Cnd
