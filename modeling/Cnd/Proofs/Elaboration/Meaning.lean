import Cnd.Elaboration
import Cnd.Proofs.Except

/-!
What clauses mean, said without an order of work or a way to fail.

A name is what the table resolves it to, a literal the value it converts to, the attributes of an
item are a set with a last action, and a node type marks at most one primary item. `Means` is for
the clauses of a text: each is taken in the table that the bindings in front of it have made.
`nodeType_eq_ok` and `clauses_eq_ok` say that elaborating gives that meaning if there is one, and
fails otherwise.
-/

namespace Cnd

namespace Mark

def action? : Mark → Option VersionAction
  | .attribute _ => none
  | .action v => some v

end Mark

/-- The attributes with those of marks: what some mark sets is set, and the last action counts. -/
def ItemAttributes.withMarks (a : ItemAttributes) (ms : List Mark) : ItemAttributes where
  autocreated := a.autocreated || ms.contains (.attribute .isAutocreated)
  mandatory := a.mandatory || ms.contains (.attribute .isMandatory)
  isProtected := a.isProtected || ms.contains (.attribute .isProtected)
  multiple := a.multiple || ms.contains (.attribute .isMultiple)
  primary := a.primary || ms.contains (.attribute .isPrimary)
  onParentVersion := (ms.filterMap Mark.action?).getLast?.getD a.onParentVersion

namespace MemberClause

def name : MemberClause → ItemName
  | .property c => c.name
  | .child c => c.name

def marks : MemberClause → List (Token × Mark)
  | .property c => c.marks
  | .child c => c.marks

def property? : MemberClause → Option PropertyClause
  | .property c => some c
  | .child _ => none

def child? : MemberClause → Option ChildClause
  | .property _ => none
  | .child c => some c

end MemberClause

def Clause.nodeType? : Clause → Option TypeClause
  | .binding _ => none
  | .nodeType c => some c

namespace Meaning

open Elaboration (textOf)

/-! ## Items -/

def IsName (ns : Namespaces) (t : Token) (n : Name) : Prop := ns.resolve (textOf t) = .ok n

def IsItemName (ns : Namespaces) : ItemName → Name → Prop
  | .wildcard, n => n = .wildcard
  | .named t, n => IsName ns t n

def IsValue (ns : Namespaces) (type : PropertyType) (t : Token) (v : Value) : Prop :=
  Value.convert ns type (textOf t) = .ok v

def IsConstraint (ns : Namespaces) (type : PropertyType) (t : Token) (c : Constraint) : Prop :=
  Constraint.read ns type (textOf t) = .ok c

structure IsProperty (ns : Namespaces) (owner : Name) (c : PropertyClause)
    (p : PropertyDefinition) : Prop where
  name : IsItemName ns c.name p.name
  declaringType : p.declaringType = owner
  type : p.type = c.type
  defaults : List.Forall₂ (IsValue ns c.type) c.defaults p.defaults
  constraints : List.Forall₂ (IsConstraint ns c.type) c.constraints p.constraints
  attributes : p.attributes = ({} : ItemAttributes).withMarks (c.marks.map (·.2))

/-- The required types of a child node, the type that all types extend if there are none. -/
def AreRequired (ns : Namespaces) : Option (List Token) → List Name → Prop
  | none, names => names = [.base]
  | some ts, names => List.Forall₂ (IsName ns) ts names

def IsDefaultType (ns : Namespaces) : Option Token → Option Name → Prop
  | none, n => n = none
  | some t, n => ∃ name, n = some name ∧ IsName ns t name

structure IsChild (ns : Namespaces) (owner : Name) (c : ChildClause) (d : ChildDefinition) :
    Prop where
  name : IsItemName ns c.name d.name
  declaringType : d.declaringType = owner
  requiredTypes : AreRequired ns c.requiredTypes d.requiredTypes
  defaultType : IsDefaultType ns c.defaultType d.defaultType
  attributes : d.attributes = ({} : ItemAttributes).withMarks (c.marks.map (·.2))

/-! ## Node types and texts -/

/-- How often marks make an item the primary one. -/
def primaryMarks (ms : List (Token × Mark)) : Nat := ms.countP (·.2 == .attribute .isPrimary)

structure IsNodeType (ns : Namespaces) (c : TypeClause) (t : NodeType) : Prop where
  name : IsName ns c.name t.name
  supertypes : List.Forall₂ (IsName ns) c.supertypes t.supertypes
  orderable : t.orderable = c.orderable
  mixin : t.mixin = c.mixin
  properties : List.Forall₂ (IsProperty ns t.name) (c.members.filterMap (·.property?)) t.properties
  children : List.Forall₂ (IsChild ns t.name) (c.members.filterMap (·.child?)) t.children
  /-- No item is marked as primary where there is a primary item already. -/
  primaryOnce : primaryMarks (c.members.flatMap (·.marks)) ≤ 1
  primaryItem : ∀ n, t.primaryItem = some n ↔
    ∃ m ∈ c.members, 0 < primaryMarks m.marks ∧ IsItemName ns m.name n

/-- The node types of clauses and the table behind them, starting from a table. -/
inductive Means (policy : ConflictPolicy) :
    Namespaces → List Clause → List NodeType → Namespaces → Prop where
  | none {ns : Namespaces} : Means policy ns [] [] ns
  | binding {ns ns' last : Namespaces} {change : Namespaces.Change} {c : NamespaceClause}
      {cs : List Clause} {ts : List NodeType} (h : ns.declare policy c.pfx c.uri = .ok (ns', change))
      (hr : Means policy ns' cs ts last) : Means policy ns (.binding c :: cs) ts last
  | nodeType {ns last : Namespaces} {c : TypeClause} {t : NodeType} {cs : List Clause}
      {ts : List NodeType} (h : IsNodeType ns c t) (hr : Means policy ns cs ts last) :
      Means policy ns (.nodeType c :: cs) (t :: ts) last

theorem IsItemName.unique {ns : Namespaces} {i : ItemName} {n n' : Name} (h : IsItemName ns i n)
    (h' : IsItemName ns i n') : n = n' := by
  cases i with
  | wildcard => exact h.trans h'.symm
  | named t => exact Except.ok.inj (h.symm.trans h')

/-! ## Elaborating items -/

theorem name_eq_ok {source : Option String} {ns : Namespaces} {t : Token} {n : Name} :
    Elaboration.name source ns t = .ok n ↔ IsName ns t n := by
  unfold Elaboration.name IsName
  cases ns.resolve (textOf t) <;> simp

theorem itemName_eq_ok {source : Option String} {ns : Namespaces} {i : ItemName} {n : Name} :
    Elaboration.itemName source ns i = .ok n ↔ IsItemName ns i n := by
  cases i with
  | wildcard => simp only [Elaboration.itemName, IsItemName, Except.ok.injEq, eq_comm]
  | named t => exact name_eq_ok

theorem defaultValue_eq_ok {source : Option String} {ns : Namespaces} {type : PropertyType}
    {t : Token} {v : Value} :
    Elaboration.defaultValue source ns type t = .ok v ↔ IsValue ns type t v := by
  unfold Elaboration.defaultValue IsValue
  cases Value.convert ns type (textOf t) <;> simp

theorem constraint_eq_ok {source : Option String} {ns : Namespaces} {type : PropertyType}
    {t : Token} {c : Constraint} :
    Elaboration.constraint source ns type t = .ok c ↔ IsConstraint ns type t c := by
  unfold Elaboration.constraint IsConstraint
  cases Constraint.read ns type (textOf t) with
  | ok k => simp
  | error e =>
    simp only
    cases e.overflow? <;> simp

@[simp] theorem primaryMarks_nil : primaryMarks [] = 0 := rfl

theorem primaryMarks_cons (t : Token) (m : Mark) (ms : List (Token × Mark)) :
    primaryMarks ((t, m) :: ms) = primaryMarks ms + if m = .attribute .isPrimary then 1 else 0 := by
  simp [primaryMarks, List.countP_cons]

theorem primaryMarks_append (ms ms' : List (Token × Mark)) :
    primaryMarks (ms ++ ms') = primaryMarks ms + primaryMarks ms' := by
  simp [primaryMarks]

theorem withMarks_nil (a : ItemAttributes) : a.withMarks [] = a := by
  simp [ItemAttributes.withMarks]

theorem withMarks_attribute (a : ItemAttributes) (k : Attribute) (ms : List Mark) :
    a.withMarks (.attribute k :: ms) = (Elaboration.setAttribute a k).withMarks ms := by
  cases k <;> simp [ItemAttributes.withMarks, Elaboration.setAttribute, Mark.action?]

theorem withMarks_action (a : ItemAttributes) (v : VersionAction) (ms : List Mark) :
    a.withMarks (.action v :: ms) = { a with onParentVersion := v }.withMarks ms := by
  simp [ItemAttributes.withMarks, Mark.action?, List.getLast?_cons]

/-- One, if there is a primary item already. -/
def taken (primary : Option Name) : Nat := if primary.isSome then 1 else 0

/-- Marks are refused just if they mark a second primary item, the one they are on included. -/
theorem marks_eq_ok {source : Option String} {owner : String} {item : Name}
    {ms : List (Token × Mark)} {a a' : ItemAttributes} {primary primary' : Option Name} :
    Elaboration.marks source owner item ms a primary = .ok (a', primary') ↔
      primaryMarks ms + taken primary ≤ 1 ∧ a' = a.withMarks (ms.map (·.2)) ∧
        primary' = if primaryMarks ms = 0 then primary else some item := by
  induction ms generalizing a primary with
  | nil =>
    have ht : taken primary ≤ 1 := by unfold taken; split <;> omega
    simp only [Elaboration.marks, Except.ok.injEq, Prod.mk.injEq, primaryMarks_nil, Nat.zero_add,
      List.map_nil, withMarks_nil, if_true]
    exact ⟨fun h => ⟨ht, h.1.symm, h.2.symm⟩, fun h => ⟨h.2.1.symm, h.2.2.symm⟩⟩
  | cons e ms ih =>
    obtain ⟨t, m⟩ := e
    rw [primaryMarks_cons, List.map_cons]
    rcases m with k | v
    · rw [withMarks_attribute]
      cases k with
      | isPrimary =>
        simp only [Elaboration.marks, if_true]
        cases primary with
        | some n =>
          simp only [Option.isSome_some, if_true, reduceCtorEq, false_iff, taken]
          rintro ⟨hle, -⟩
          omega
        | none =>
          simp only [Option.isSome_none, Bool.false_eq_true, if_false, ih, taken,
            Option.isSome_some, if_true, Nat.add_zero, Nat.add_one_ne_zero, if_true, ite_self]
      | isAutocreated | isMandatory | isProtected | isMultiple =>
        simp [Elaboration.marks, ih]
    · rw [withMarks_action]
      simp [Elaboration.marks, ih]

theorem property_eq_ok {source : Option String} {ns : Namespaces} {owner : Name}
    {primary primary' : Option Name} {c : PropertyClause} {p : PropertyDefinition} :
    Elaboration.property source ns owner primary c = .ok (p, primary') ↔
      IsProperty ns owner c p ∧ primaryMarks c.marks + taken primary ≤ 1 ∧
        primary' = if primaryMarks c.marks = 0 then primary else some p.name := by
  unfold Elaboration.property
  simp only [bind_eq_ok, pure_eq_ok, itemName_eq_ok, mapM_eq_ok, defaultValue_eq_ok,
    constraint_eq_ok, Prod.exists, marks_eq_ok, Prod.mk.injEq]
  constructor
  · rintro ⟨n, hn, ds, hds, a, q, ⟨hle, rfl, rfl⟩, ks, hks, rfl, rfl⟩
    exact ⟨⟨hn, rfl, rfl, hds, hks, rfl⟩, hle, rfl⟩
  · rintro ⟨⟨hn, rfl, ht, hds, hks, ha⟩, hle, rfl⟩
    refine ⟨p.name, hn, p.defaults, hds, p.attributes, _, ⟨hle, ha, rfl⟩, p.constraints, hks, ?_, rfl⟩
    rw [← ht]

theorem defaultType_eq_ok {source : Option String} {ns : Namespaces} {t : Option Token}
    {n : Option Name} : t.mapM (Elaboration.name source ns) = .ok n ↔ IsDefaultType ns t n := by
  cases t with
  | none =>
    simp only [Option.mapM_none, pure_eq_ok, IsDefaultType]
    exact eq_comm
  | some t =>
    simp only [Option.mapM_some, Functor.map, Except.map, IsDefaultType]
    cases hn : Elaboration.name source ns t with
    | ok name =>
      have := name_eq_ok.1 hn
      constructor
      · intro h
        exact ⟨name, (Except.ok.inj h).symm, this⟩
      · rintro ⟨name', rfl, h'⟩
        rw [Except.ok.inj (this.symm.trans h')]
    | error e =>
      simp only [reduceCtorEq, false_iff, not_exists, not_and]
      intro name _ h
      rw [name_eq_ok.2 h] at hn
      simp at hn

theorem child_eq_ok {source : Option String} {ns : Namespaces} {owner : Name}
    {primary primary' : Option Name} {c : ChildClause} {d : ChildDefinition} :
    Elaboration.child source ns owner primary c = .ok (d, primary') ↔
      IsChild ns owner c d ∧ primaryMarks c.marks + taken primary ≤ 1 ∧
        primary' = if primaryMarks c.marks = 0 then primary else some d.name := by
  obtain ⟨name, required, type, ms⟩ := c
  unfold Elaboration.child
  cases required with
  | none =>
    simp only [bind_eq_ok, pure_eq_ok, itemName_eq_ok, defaultType_eq_ok, Prod.exists, marks_eq_ok,
      Prod.mk.injEq]
    constructor
    · rintro ⟨n, hn, rs, rfl, q, hq, a, q', ⟨hle, rfl, rfl⟩, rfl, rfl⟩
      exact ⟨⟨hn, rfl, rfl, hq, rfl⟩, hle, rfl⟩
    · rintro ⟨⟨hn, rfl, hrs, hq, ha⟩, hle, rfl⟩
      exact ⟨d.name, hn, d.requiredTypes, hrs.symm, d.defaultType, hq, d.attributes, _,
        ⟨hle, ha, rfl⟩, rfl, rfl⟩
  | some ts =>
    simp only [bind_eq_ok, pure_eq_ok, itemName_eq_ok, mapM_eq_ok, name_eq_ok, defaultType_eq_ok,
      Prod.exists, marks_eq_ok, Prod.mk.injEq]
    constructor
    · rintro ⟨n, hn, rs, hrs, q, hq, a, q', ⟨hle, rfl, rfl⟩, rfl, rfl⟩
      exact ⟨⟨hn, rfl, hrs, hq, rfl⟩, hle, rfl⟩
    · rintro ⟨⟨hn, rfl, hrs, hq, ha⟩, hle, rfl⟩
      exact ⟨d.name, hn, d.requiredTypes, hrs, d.defaultType, hq, d.attributes, _, ⟨hle, ha, rfl⟩,
        rfl, rfl⟩

/-! ## Elaborating clauses -/

/-- The primary item behind members, given the one in front of them. -/
def PrimaryBehind (ns : Namespaces) (ms : List MemberClause) (before after : Option Name) : Prop :=
  primaryMarks (ms.flatMap (·.marks)) + taken before ≤ 1 ∧
    ∀ n, after = some n ↔
      before = some n ∨ ∃ m ∈ ms, 0 < primaryMarks m.marks ∧ IsItemName ns m.name n

theorem primaryBehind_nil {ns : Namespaces} {before after : Option Name} :
    PrimaryBehind ns [] before after ↔ after = before := by
  have ht : taken before ≤ 1 := by unfold taken; split <;> omega
  simp only [PrimaryBehind, List.flatMap_nil, primaryMarks_nil, Nat.zero_add, ht, true_and,
    List.not_mem_nil, false_and, exists_false, or_false]
  constructor
  · intro h
    exact Option.ext h
  · rintro rfl n
    rfl

/-- One member more: it is checked against the primary item so far, and may become it. -/
theorem primaryBehind_cons {ns : Namespaces} {m : MemberClause} {ms : List MemberClause}
    {before after : Option Name} {item : Name} (hi : IsItemName ns m.name item) :
    PrimaryBehind ns (m :: ms) before after ↔
      primaryMarks m.marks + taken before ≤ 1 ∧
        PrimaryBehind ns ms (if primaryMarks m.marks = 0 then before else some item) after := by
  simp only [PrimaryBehind, List.flatMap_cons, primaryMarks_append, List.mem_cons, exists_eq_or_imp]
  by_cases hz : primaryMarks m.marks = 0
  · have ht : taken before ≤ 1 := by unfold taken; split <;> omega
    simp only [hz, Nat.zero_add, if_true, Nat.lt_irrefl, false_and, false_or, ht, true_and]
  · have hpos : 0 < primaryMarks m.marks := Nat.pos_of_ne_zero hz
    simp only [if_neg hz, taken, Option.isSome_some, if_true, hpos, true_and]
    cases before with
    | some n =>
      simp only [Option.isSome_some, if_true]
      constructor
      · rintro ⟨hle, -⟩
        omega
      · rintro ⟨hle, -⟩
        omega
    | none =>
      have hname : ∀ n, IsItemName ns m.name n ↔ some item = some n := by
        intro n
        rw [Option.some.injEq]
        exact ⟨fun h => hi.unique h, fun h => h ▸ hi⟩
      simp only [Option.isSome_none, Bool.false_eq_true, if_false, reduceCtorEq, false_or, hname]
      constructor
      · rintro ⟨hle, h⟩
        exact ⟨by omega, by omega, h⟩
      · rintro ⟨hone, hle, h⟩
        exact ⟨by omega, h⟩

theorem members_eq_ok {source : Option String} {ns : Namespaces} {owner : Name}
    {ms : List MemberClause} {acc res : Elaboration.Members} :
    Elaboration.members source ns owner ms acc = .ok res ↔
      (∃ ps, List.Forall₂ (IsProperty ns owner) (ms.filterMap (·.property?)) ps ∧
        res.properties = acc.properties ++ ps) ∧
      (∃ cs, List.Forall₂ (IsChild ns owner) (ms.filterMap (·.child?)) cs ∧
        res.children = acc.children ++ cs) ∧
      PrimaryBehind ns ms acc.primary res.primary := by
  induction ms generalizing acc with
  | nil =>
    simp only [Elaboration.members, Except.ok.injEq, List.filterMap_nil, List.forall₂_nil_left_iff,
      exists_eq_left, List.append_nil, primaryBehind_nil]
    constructor
    · rintro rfl
      exact ⟨rfl, rfl, rfl⟩
    · obtain ⟨ps, cs, q⟩ := acc
      obtain ⟨ps', cs', q'⟩ := res
      rintro ⟨rfl, rfl, rfl⟩
      rfl
  | cons m ms ih =>
    cases m with
    | property c =>
      simp only [Elaboration.members, bind_eq_ok, Prod.exists, property_eq_ok, ih]
      simp only [List.filterMap_cons, MemberClause.property?, MemberClause.child?,
        List.forall₂_cons_left_iff]
      constructor
      · rintro ⟨p, q, ⟨hp, hle, rfl⟩, ⟨ps, hps, hrp⟩, hcs, hq⟩
        refine ⟨⟨p :: ps, ⟨p, ps, hp, hps, rfl⟩, by rw [hrp]; simp⟩, hcs, ?_⟩
        exact (primaryBehind_cons (m := .property c) hp.name).2 ⟨hle, hq⟩
      · rintro ⟨⟨_, ⟨p, ps, hp, hps, rfl⟩, hrp⟩, hcs, hq⟩
        obtain ⟨hle, hq⟩ := (primaryBehind_cons (m := .property c) hp.name).1 hq
        exact ⟨p, _, ⟨hp, hle, rfl⟩, ⟨ps, hps, by rw [hrp]; simp⟩, hcs, hq⟩
    | child c =>
      simp only [Elaboration.members, bind_eq_ok, Prod.exists, child_eq_ok, ih]
      simp only [List.filterMap_cons, MemberClause.property?, MemberClause.child?,
        List.forall₂_cons_left_iff]
      constructor
      · rintro ⟨d, q, ⟨hd, hle, rfl⟩, hps, ⟨cs, hcs, hrc⟩, hq⟩
        refine ⟨hps, ⟨d :: cs, ⟨d, cs, hd, hcs, rfl⟩, by rw [hrc]; simp⟩, ?_⟩
        exact (primaryBehind_cons (m := .child c) hd.name).2 ⟨hle, hq⟩
      · rintro ⟨hps, ⟨_, ⟨d, cs, hd, hcs, rfl⟩, hrc⟩, hq⟩
        obtain ⟨hle, hq⟩ := (primaryBehind_cons (m := .child c) hd.name).1 hq
        exact ⟨d, _, ⟨hd, hle, rfl⟩, hps, ⟨cs, hcs, by rw [hrc]; simp⟩, hq⟩

theorem nodeType_eq_ok (source : Option String) {ns : Namespaces} {c : TypeClause} {t : NodeType} :
    Elaboration.nodeType source ns c = .ok t ↔ IsNodeType ns c t := by
  unfold Elaboration.nodeType
  simp only [bind_eq_ok, pure_eq_ok, name_eq_ok, mapM_eq_ok, members_eq_ok, List.nil_append,
    exists_eq_right', PrimaryBehind, taken, Option.isSome_none, Bool.false_eq_true, if_false,
    Nat.add_zero, reduceCtorEq, false_or]
  constructor
  · rintro ⟨n, hn, supers, hs, m, ⟨hps, hcs, hle, hq⟩, rfl⟩
    exact ⟨hn, hs, rfl, rfl, hps, hcs, hle, hq⟩
  · rintro ⟨hn, hs, ho, hm, hps, hcs, hle, hq⟩
    obtain ⟨n, supers, o, x, q, ps, cs⟩ := t
    obtain rfl := ho
    obtain rfl := hm
    exact ⟨n, hn, supers, hs, ⟨ps, cs, q⟩, ⟨hps, hcs, hle, hq⟩, rfl⟩

/-- Elaborating clauses gives what they mean, and fails where they mean nothing. -/
theorem clauses_eq_ok (source : Option String) {policy : ConflictPolicy} {cs : List Clause}
    {ns last : Namespaces} {ts : List NodeType} :
    (Elaboration.clauses source policy cs ns).outcome = .ok (ts, last) ↔
      Means policy ns cs ts last := by
  induction cs generalizing ns ts with
  | nil =>
    simp only [Elaboration.clauses, Except.ok.injEq, Prod.mk.injEq]
    constructor
    · rintro ⟨rfl, rfl⟩
      exact .none
    · intro h
      cases h
      exact ⟨rfl, rfl⟩
  | cons c cs ih =>
    cases c with
    | binding c =>
      simp only [Elaboration.clauses]
      constructor
      · intro h
        split at h
        · simp at h
        · rename_i hd
          exact .binding hd (ih.1 h)
      · intro h
        obtain _ | ⟨hd, hr⟩ | _ := h
        rw [hd]
        exact ih.2 hr
    | nodeType c =>
      simp only [Elaboration.clauses]
      constructor
      · intro h
        split at h
        · simp at h
        · rename_i t ht
          simp only [Except.map] at h
          split at h
          · simp at h
          · rename_i done hr
            obtain ⟨ts', ns'⟩ := done
            simp only [Except.ok.injEq, Prod.mk.injEq] at h
            obtain ⟨rfl, rfl⟩ := h
            exact .nodeType ((nodeType_eq_ok source).1 ht) (ih.1 hr)
      · intro h
        obtain _ | _ | ⟨ht, hr⟩ := h
        rw [(nodeType_eq_ok source).2 ht]
        simp [ih.2 hr, Except.map]

theorem outline_eq_ok {source : Option String} {policy : ConflictPolicy} {scan : Option ScanError}
    {o : Outline} {ns last : Namespaces} {ts : List NodeType} :
    (Elaboration.outline source policy scan o ns).outcome = .ok (ts, last) ↔
      o.ending = .complete ∧ Means policy ns o.clauses ts last := by
  rw [← clauses_eq_ok source]
  unfold Elaboration.outline
  obtain ⟨cs, ending⟩ := o
  cases hc : (Elaboration.clauses source policy cs ns).outcome with
  | error e => simp [hc]
  | ok done =>
    cases ending with
    | complete => simp [hc]
    | broken c b =>
      cases c with
      | none => simp [hc]
      | some c =>
        obtain ⟨ts', ns'⟩ := done
        cases hn : Elaboration.nodeType source ns' c <;> simp [hc, hn]

end Meaning

end Cnd
