import Cnd.Proofs.Outline.Complete
import Cnd.Proofs.Token.Bare

/-!
The outline of other tokens.

A change of tokens that keeps their signs and contents changes no decision of a reader: it reads the
changed tokens as it reads the others, and leaves or breaks at the changed ones. There is one lemma
per reader, and `ofTokens_map` says so of whole outlines, the broken ones too. What is derived from
the grammar is derived of other tokens as well (`document_map`).
-/

namespace Cnd

/-! ## Trees of other tokens -/

def ItemName.map (f : Token → Token) : ItemName → ItemName
  | .wildcard => .wildcard
  | .named t => .named (f t)

/-- Other tokens for the marks of an item. -/
def Mark.mapAll (f : Token → Token) (ms : List (Token × Mark)) : List (Token × Mark) :=
  ms.map fun (t, m) => (f t, m)

def PropertyClause.map (f : Token → Token) (c : PropertyClause) : PropertyClause :=
  ⟨c.name.map f, c.type, c.defaults.map f, Mark.mapAll f c.marks, c.constraints.map f⟩

def ChildClause.map (f : Token → Token) (c : ChildClause) : ChildClause :=
  ⟨c.name.map f, c.requiredTypes.map (List.map f), c.defaultType.map f, Mark.mapAll f c.marks⟩

def MemberClause.map (f : Token → Token) : MemberClause → MemberClause
  | .property c => .property (c.map f)
  | .child c => .child (c.map f)

def TypeClause.map (f : Token → Token) (c : TypeClause) : TypeClause :=
  ⟨f c.name, c.supertypes.map f, c.orderable, c.mixin, c.members.map (.map f)⟩

def NamespaceClause.map (f : Token → Token) (c : NamespaceClause) : NamespaceClause :=
  ⟨f c.opening, c.pfx, c.uri⟩

def Clause.map (f : Token → Token) : Clause → Clause
  | .binding c => .binding (c.map f)
  | .nodeType c => .nodeType (c.map f)

def Break.map (f : Token → Token) : Break → Break
  | .scan => .scan
  | .grammar fault found => .grammar fault (f found)

def OutlineEnd.map (f : Token → Token) : OutlineEnd → OutlineEnd
  | .complete => .complete
  | .broken c stop => .broken (c.map (.map f)) (stop.map f)

def Outline.map (f : Token → Token) (o : Outline) : Outline :=
  ⟨o.clauses.map (.map f), o.ending.map f⟩

namespace Outline

/-- What is read or left, or a break, of other tokens. -/
def relabel {α β : Type} (f : Token → Token) (g : α → β) : Except Break α → Except Break β
  | .ok a => .ok (g a)
  | .error b => .error (b.map f)

section
variable {α β : Type} (f : Token → Token) (g : α → β)

@[simp] theorem relabel_ok (a : α) : relabel f g (.ok a) = .ok (g a) := rfl

@[simp] theorem relabel_error (b : Break) : relabel f g (.error b) = .error (b.map f) := rfl

end

theorem behind_map (f : Token → Token) (ts : List Token) :
    behind (ts.map f) = relabel f (List.map f) (behind ts) := by
  rcases ts with _ | ⟨t, _ | ⟨next, rest⟩⟩ <;> rfl

theorem keyword?_bare {α : Type} (table : List (String × α)) (t : Token) :
    keyword? table t.bare = keyword? table t := by
  obtain ⟨l, p⟩ := t
  cases l <;> rfl

section

variable {f : Token → Token} (hf : Token.Keeps f)

include hf

theorem keyword?_map {α : Type} (table : List (String × α)) (t : Token) :
    keyword? table (f t) = keyword? table t := by
  rw [← keyword?_bare, hf.bare, keyword?_bare]

theorem looksAt_map (c : Char) (ts : List Token) : looksAt c (ts.map f) = looksAt c ts := by
  cases ts with
  | nil => rfl
  | cons t ts => exact hf.symbol t c

theorem expect_map (d : Delimiter) (ts : List Token) :
    expect d (ts.map f) = relabel f (List.map f) (expect d ts) := by
  cases ts with
  | nil => rfl
  | cons t rest =>
    have hbehind := behind_map f (t :: rest)
    simp only [List.map_cons, expect, hf.symbol] at hbehind ⊢
    split
    · exact hbehind
    · rfl

theorem lookText_map (e : Expected) (ts : List Token) :
    lookText e (ts.map f) = relabel f (Prod.map f id) (lookText e ts) := by
  cases ts with
  | nil => rfl
  | cons t rest =>
    simp only [List.map_cons, lookText, hf.text]
    split <;> rfl

/-! ## Lists -/

theorem names_map (e : Expected) (ts : List Token) :
    names e (ts.map f) = ((names e ts).1.map f, relabel f (List.map f) (names e ts).2) := by
  fun_induction names e ts with
  | case1 => rfl
  | case2 t s ht => simp [names, hf.text, ht, Break.map]
  | case3 t ht => simp [names, hf.text, ht, Break.map]
  | case4 t comma rest ht => simp [names, hf.text, ht, Break.map]
  | case5 t comma rest s ht hc more left heq ih =>
    rw [heq] at ih
    simp [names, hf.text, ht, hf.symbol, hc, ih]
  | case6 t comma rest s ht hc => simp [names, hf.text, ht, hf.symbol, hc]

theorem literals_map (e : Expected) (ts : List Token) :
    literals e (ts.map f) = relabel f (Prod.map (List.map f) (List.map f)) (literals e ts) := by
  fun_induction literals e ts with
  | case1 => rfl
  | case2 t s ht => simp [literals, hf.text, ht, Break.map]
  | case3 t ht => simp [literals, hf.text, ht, Break.map]
  | case4 t comma rest ht => simp [literals, hf.text, ht, Break.map]
  | case5 t comma rest s ht hc b heq ih =>
    rw [heq] at ih
    simp [literals, hf.text, ht, hf.symbol, hc, ih]
  | case6 t comma rest s ht hc more left heq ih =>
    rw [heq] at ih
    simp [literals, hf.text, ht, hf.symbol, hc, ih]
  | case7 t comma rest s ht hc => simp [literals, hf.text, ht, hf.symbol, hc]

theorem literalsAfter_map (c : Char) (e : Expected) (ts : List Token) :
    literalsAfter c e (ts.map f) =
      relabel f (Prod.map (List.map f) (List.map f)) (literalsAfter c e ts) := by
  cases ts with
  | nil => rfl
  | cons t rest =>
    simp only [List.map_cons, literalsAfter, hf.symbol]
    split
    · exact literals_map hf e rest
    · rfl

theorem mark?_map (t : Token) : mark? (f t) = mark? t := by
  simp only [mark?, keyword?_map hf]

theorem marks_map (ts : List Token) :
    marks (ts.map f) = (Mark.mapAll f (marks ts).1, relabel f (List.map f) (marks ts).2) := by
  fun_induction marks ts with
  | case1 => rfl
  | case2 t rest hm => simp [marks, mark?_map hf, hm, Mark.mapAll]
  | case3 t m hm => simp [marks, mark?_map hf, hm, Mark.mapAll, Break.map]
  | case4 t m hm next more ms left heq ih =>
    rw [heq] at ih
    rw [List.map_cons] at ih
    simp [marks, mark?_map hf, hm, Mark.mapAll, ih]

/-! ## Members -/

theorem itemName_map (e : Expected) (ts : List Token) :
    itemName e (ts.map f) =
      ((itemName e ts).1.map (.map f), relabel f (List.map f) (itemName e ts).2) := by
  simp only [itemName, looksAt_map hf, behind_map, lookText_map hf]
  split
  · rfl
  · cases lookText e ts <;> rfl

theorem propertyType_map (ts : List Token) :
    propertyType (ts.map f) = relabel f (Prod.map id (List.map f)) (propertyType ts) := by
  simp only [propertyType, looksAt_map hf, behind_map, bind, Except.bind]
  split
  · rfl
  cases behind ts with
  | error b => rfl
  | ok ts =>
    cases ts with
    | nil => rfl
    | cons t rest =>
      simp only [relabel_ok, List.map_cons, keyword?_map hf]
      split
      · rfl
      · rw [← List.map_cons, behind_map]
        cases behind (t :: rest) with
        | error b => rfl
        | ok ts =>
          simp only [relabel_ok, expect_map hf]
          cases expect .propertyTypeClose ts <;> rfl

theorem property_map (ts : List Token) :
    property (ts.map f) = ((property ts).1.map (.map f), relabel f (List.map f) (property ts).2) := by
  simp only [property, itemName_map hf]
  rcases itemName .propertyName ts with ⟨_ | name, b | ts⟩
  · rfl
  · rfl
  · rfl
  simp only [Option.map_some, relabel_ok, propertyType_map hf]
  rcases propertyType ts with b | ⟨type, ts⟩
  · rfl
  simp only [relabel_ok, Prod.map, literalsAfter_map hf]
  rcases literalsAfter '=' .defaultValue ts with b | ⟨defaults, ts⟩
  · rfl
  simp only [relabel_ok, Prod.map, marks_map hf]
  rcases marks ts with ⟨ms, b | ts⟩
  · rfl
  simp only [relabel_ok, literalsAfter_map hf]
  rcases literalsAfter '<' .constraint ts with b | ⟨constraints, ts⟩ <;> rfl

theorem requiredTypes_map (ts : List Token) :
    requiredTypes (ts.map f) =
      ((requiredTypes ts).1.map (List.map f), relabel f (List.map f) (requiredTypes ts).2) := by
  simp only [requiredTypes, looksAt_map hf, behind_map]
  split
  · rfl
  cases behind ts with
  | error b => rfl
  | ok ts =>
    simp only [relabel_ok, names_map hf]
    rcases names .requiredType ts with ⟨types, b | ts⟩
    · rfl
    · simp only [relabel_ok, expect_map hf, Option.map_some]

theorem defaultType_map (ts : List Token) :
    defaultType (ts.map f) =
      ((defaultType ts).1.map f, relabel f (List.map f) (defaultType ts).2) := by
  simp only [defaultType, looksAt_map hf, behind_map]
  split
  · rfl
  cases behind ts with
  | error b => rfl
  | ok ts =>
    simp only [relabel_ok, lookText_map hf, behind_map]
    cases lookText .defaultType ts <;> rfl

theorem child_map (ts : List Token) :
    child (ts.map f) = ((child ts).1.map (.map f), relabel f (List.map f) (child ts).2) := by
  simp only [child, itemName_map hf]
  rcases itemName .childName ts with ⟨_ | name, b | ts⟩
  · rfl
  · rfl
  · rfl
  simp only [Option.map_some, relabel_ok, requiredTypes_map hf]
  rcases requiredTypes ts with ⟨required, b | ts⟩
  · rfl
  simp only [relabel_ok, defaultType_map hf]
  rcases defaultType ts with ⟨type, b | ts⟩
  · rfl
  simp only [relabel_ok, marks_map hf]
  rfl

theorem member?_map (ts : List Token) :
    member? (ts.map f) =
      (member? ts).map fun found => (found.1.map (.map f), relabel f (List.map f) found.2) := by
  rcases ts with _ | ⟨t, _ | ⟨next, rest⟩⟩
  · rfl
  · simp only [List.map_cons, List.map_nil, member?, hf.symbol]
    split <;> rfl
  · have hproperty := property_map hf (next :: rest)
    have hchild := child_map hf (next :: rest)
    simp only [List.map_cons, member?, hf.symbol] at hproperty hchild ⊢
    split
    · simp only [hproperty, Option.map_some, Option.map_map]
      rfl
    split
    · simp only [hchild, Option.map_some, Option.map_map]
      rfl
    · rfl

omit hf in
/-- The members one by one. -/
theorem members_eq (ts : List Token) :
    members ts = match member? ts with
      | none => ([], .ok ts)
      | some (c, .error b) => (c.toList, .error b)
      | some (c, .ok rest) => (c.toList ++ (members rest).1, (members rest).2) := by
  rw [members]
  split <;> rename_i h <;> rw [h]

theorem members_map (ts : List Token) :
    members (ts.map f) = ((members ts).1.map (.map f), relabel f (List.map f) (members ts).2) := by
  fun_induction members ts with
  | case1 ts hm =>
    rw [members_eq, member?_map hf, hm]
    rfl
  | case2 ts c b hm =>
    rw [members_eq, member?_map hf, hm]
    cases c <;> rfl
  | case3 ts c rest hm ms left heq ih =>
    rw [heq] at ih
    rw [members_eq, member?_map hf, hm]
    simp only [Option.map_some, relabel_ok, ih]
    cases c <;> rfl

/-! ## Node types and bindings -/

theorem supertypes_map (ts : List Token) :
    supertypes (ts.map f) =
      ((supertypes ts).1.map f, relabel f (List.map f) (supertypes ts).2) := by
  simp only [supertypes, looksAt_map hf, behind_map]
  split
  · rfl
  cases behind ts with
  | error b => rfl
  | ok ts => simp only [relabel_ok, names_map hf]

theorem options_map (ts : List Token) :
    options (ts.map f) =
      ((options ts).1, (options ts).2.1, relabel f (List.map f) (options ts).2.2) := by
  cases ts with
  | nil => rfl
  | cons t rest =>
    have hbehind := behind_map f (t :: rest)
    simp only [List.map_cons, options, keyword?_map hf] at hbehind ⊢
    split
    · rfl
    rw [hbehind]
    rcases behind (t :: rest) with b | _ | ⟨u, more⟩
    · rfl
    · rfl
    simp only [relabel_ok, List.map_cons, keyword?_map hf]
    split
    · split
      · rfl
      · rw [← List.map_cons, behind_map]
    · rfl

theorem nodeType_map (ts : List Token) :
    nodeType (ts.map f) = ((nodeType ts).1.map (.map f), relabel f (List.map f) (nodeType ts).2) := by
  simp only [nodeType, expect_map hf]
  rcases expect .typeOpen ts with b | ts
  · rfl
  simp only [relabel_ok, lookText_map hf]
  rcases lookText .typeName ts with b | ⟨name, text⟩
  · rfl
  simp only [relabel_ok, Prod.map, behind_map]
  rcases behind ts with b | ts
  · rfl
  simp only [relabel_ok, expect_map hf]
  rcases expect .typeClose ts with b | ts
  · rfl
  simp only [relabel_ok, supertypes_map hf]
  rcases supertypes ts with ⟨supers, b | ts⟩
  · rfl
  simp only [relabel_ok, options_map hf]
  rcases options ts with ⟨o, m, b | ts⟩
  · rfl
  simp only [relabel_ok, members_map hf]
  rfl

theorem binding_map (ts : List Token) :
    binding (ts.map f) = relabel f (Prod.map (.map f) (List.map f)) (binding ts) := by
  cases ts with
  | nil => rfl
  | cons opening rest =>
    have hbehind := behind_map f (opening :: rest)
    simp only [List.map_cons, binding, bind, Except.bind] at hbehind ⊢
    rw [hbehind]
    rcases behind (opening :: rest) with b | ts
    · rfl
    simp only [relabel_ok, lookText_map hf]
    rcases lookText .bindingPrefix ts with b | ⟨t, pfx⟩
    · rfl
    simp only [relabel_ok, Prod.map, behind_map]
    rcases behind ts with b | ts
    · rfl
    simp only [relabel_ok, expect_map hf]
    rcases expect .bindingEquals ts with b | ts
    · rfl
    simp only [relabel_ok, lookText_map hf]
    rcases lookText .bindingUri ts with b | ⟨u, uri⟩
    · rfl
    simp only [relabel_ok, Prod.map, behind_map]
    rcases behind ts with b | ts
    · rfl
    simp only [relabel_ok, expect_map hf]
    rcases expect .bindingClose ts with b | ts <;> rfl

/-! ## The whole -/

omit hf in
/-- An outline clause by clause. -/
theorem ofTokens_cons (t : Token) (rest : List Token) :
    ofTokens (t :: rest) =
      if t.isEnding then ⟨[], .complete⟩
      else if t.isSymbol '<' then
        match binding (t :: rest) with
        | .error b => ⟨[], .broken none b⟩
        | .ok (c, left) => ⟨.binding c :: (ofTokens left).clauses, (ofTokens left).ending⟩
      else
        match nodeType (t :: rest) with
        | (c, .error b) => ⟨[], .broken c b⟩
        | (none, .ok _) => ⟨[], .broken none .scan⟩
        | (some c, .ok left) => ⟨.nodeType c :: (ofTokens left).clauses, (ofTokens left).ending⟩ := by
  rw [ofTokens]
  split
  · rfl
  split <;> split <;> rename_i h <;> rw [h]

/-- **Relabelled tokens have the relabelled outline.** -/
theorem ofTokens_map (ts : List Token) : ofTokens (ts.map f) = (ofTokens ts).map f := by
  fun_induction ofTokens ts with
  | case1 =>
    rw [List.map_nil, ofTokens]
    rfl
  | case2 t rest he =>
    rw [List.map_cons, ofTokens_cons, hf.isEnding, if_pos he]
    rfl
  | case3 t rest he ho b hb =>
    have hbinding := binding_map hf (t :: rest)
    rw [hb, List.map_cons] at hbinding
    rw [List.map_cons, ofTokens_cons, hf.isEnding, if_neg he, hf.symbol, if_pos ho, hbinding]
    rfl
  | case4 t rest he ho c left hb o ih =>
    have hbinding := binding_map hf (t :: rest)
    rw [hb, List.map_cons] at hbinding
    rw [List.map_cons, ofTokens_cons, hf.isEnding, if_neg he, hf.symbol, if_pos ho, hbinding]
    simp only [relabel_ok, Prod.map, ih]
    rfl
  | case5 t rest he ho c b hn =>
    have hnode := nodeType_map hf (t :: rest)
    rw [hn, List.map_cons] at hnode
    rw [List.map_cons, ofTokens_cons, hf.isEnding, if_neg he, hf.symbol, if_neg ho, hnode]
    rfl
  | case6 t rest he ho left hn =>
    have hnode := nodeType_map hf (t :: rest)
    rw [hn, List.map_cons] at hnode
    rw [List.map_cons, ofTokens_cons, hf.isEnding, if_neg he, hf.symbol, if_neg ho, hnode]
    rfl
  | case7 t rest he ho c left hn o ih =>
    have hnode := nodeType_map hf (t :: rest)
    rw [hn, List.map_cons] at hnode
    rw [List.map_cons, ofTokens_cons, hf.isEnding, if_neg he, hf.symbol, if_neg ho, hnode]
    simp only [Option.map_some, relabel_ok, ih]
    rfl

theorem document_map {ts : List Token} {cs : List Clause} (hts : ∀ t ∈ ts, t.isEnding = false)
    (h : Grammar.Document ts cs) : Grammar.Document (ts.map f) (cs.map (.map f)) := by
  have hending : (⟨.ending, .start⟩ : Token).isEnding = true := rfl
  have hmapped : ∀ t ∈ ts.map f, t.isEnding = false := by
    intro t ht
    obtain ⟨u, hu, rfl⟩ := List.mem_map.1 ht
    rw [hf.isEnding, hts u hu]
  have hmap := ofTokens_map hf (ts ++ [⟨.ending, .start⟩])
  rw [(ofTokens_eq_complete_iff hts hending).2 h, List.map_append] at hmap
  exact (ofTokens_eq_complete_iff hmapped ((hf.isEnding _).trans hending)).1 hmap

end

end Outline

end Cnd
