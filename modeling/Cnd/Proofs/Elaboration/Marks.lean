import Cnd.Proofs.Elaboration.Alike
import Cnd.Proofs.Elaboration.Failure
import Cnd.Proofs.Outline.Marks
import Mathlib.Data.List.Induction

/-!
What the marks of an item come to.

Attributes are a set, and of the actions the last one counts, so the same marks in another order or
said twice come to the same (`Restates`). Only a mark of a primary item is refused, where its node
type has a primary item already (`marks_error_at`). An item is elaborated up to its marks, then its
marks, and then its constraints (`members_marked`).
-/

namespace Cnd

/-- Whether an attribute is set. -/
def ItemAttributes.has (a : ItemAttributes) : Attribute → Bool
  | .isPrimary => a.primary
  | .isAutocreated => a.autocreated
  | .isMandatory => a.mandatory
  | .isProtected => a.isProtected
  | .isMultiple => a.multiple

namespace Mark

/-- The last action among marks. Without one, items are copied. -/
inductive LastAction : List Mark → VersionAction → Prop
  | none {ms : List Mark} (h : ∀ v, action v ∉ ms) : LastAction ms .copy
  | some {front behind : List Mark} {v : VersionAction} (h : ∀ w, action w ∉ behind) :
      LastAction (front ++ action v :: behind) v

/-- The same marks in another order with the same action last, or one of them said twice. The mark
of a primary item is not said twice. -/
inductive Restates : List Mark → List Mark → Prop
  | permuted {ms ms' : List Mark} (h : ms'.Perm ms) (ha : ∀ v, LastAction ms v → LastAction ms' v) :
      Restates ms ms'
  | repeated {front behind : List Mark} {m : Mark} (hm : m ≠ .attribute .isPrimary) :
      Restates (front ++ m :: behind) (front ++ m :: m :: behind)
  | trans {ms ms' ms'' : List Mark} (h : Restates ms ms') (h' : Restates ms' ms'') :
      Restates ms ms''

end Mark

/-- The attributes that marks stand for. -/
structure ItemAttributes.AreOf (ms : List Mark) (a : ItemAttributes) : Prop where
  has : ∀ k, a.has k = true ↔ .attribute k ∈ ms
  action : Mark.LastAction ms a.onParentVersion

namespace Mark

/-! ## Marks as a set with a last action -/

theorem lastAction_iff {ms : List Mark} {v : VersionAction} :
    LastAction ms v ↔ (ms.filterMap action?).getLast?.getD .copy = v := by
  have hnone : ∀ l : List Mark, (∀ w, action w ∉ l) ↔ l.filterMap action? = [] := by
    intro l
    rw [List.filterMap_eq_nil_iff]
    constructor
    · rintro h (k | w) hm
      · rfl
      · exact absurd hm (h w)
    · intro h w hw
      simpa [action?] using h _ hw
  constructor
  · rintro (⟨h⟩ | ⟨h⟩)
    · simp [(hnone _).1 h]
    · simp [List.filterMap_append, action?, (hnone _).1 h]
  · rintro rfl
    induction ms using List.reverseRecOn with
    | nil => exact .none (by simp)
    | append_singleton ms m ih =>
      rcases m with k | w
      · -- an attribute at the end leaves the last action as it is
        simp only [List.filterMap_append, List.filterMap_cons, action?, List.filterMap_nil,
          List.append_nil]
        generalize (ms.filterMap action?).getLast?.getD .copy = v at ih
        cases ih with
        | none h => exact .none (by simpa using h)
        | some h =>
          rw [List.append_assoc]
          exact .some (by simpa using h)
      · have hlast : LastAction (ms ++ action w :: []) w := .some (by simp)
        simpa [action?] using hlast

end Mark

theorem ItemAttributes.areOf_iff {ms : List Mark} {a : ItemAttributes} :
    a.AreOf ms ↔ a = ({} : ItemAttributes).withMarks ms := by
  constructor
  · rintro ⟨hhas, haction⟩
    rw [Mark.lastAction_iff] at haction
    have hflag : ∀ k, a.has k = ms.contains (.attribute k) := by
      intro k
      rw [Bool.eq_iff_iff, hhas k, List.contains_iff_mem]
    obtain ⟨autocreated, mandatory, isProtected, multiple, primary, action⟩ := a
    simp only [withMarks, Bool.false_or, mk.injEq]
    exact ⟨hflag .isAutocreated, hflag .isMandatory, hflag .isProtected, hflag .isMultiple,
      hflag .isPrimary, haction.symm⟩
  · rintro rfl
    refine ⟨fun k => ?_, Mark.lastAction_iff.2 rfl⟩
    cases k <;> simp [withMarks, has]

namespace Mark

theorem Restates.nil_iff {ms ms' : List Mark} (h : Restates ms ms') : ms' = [] ↔ ms = [] := by
  induction h with
  | permuted h _ => exact ⟨fun he => by simpa [he] using h, fun he => by simpa [he] using h⟩
  | repeated _ => simp
  | trans _ _ ih ih' => exact ih'.trans ih

theorem Restates.count_eq {ms ms' : List Mark} (h : Restates ms ms') :
    ms'.count (.attribute .isPrimary) = ms.count (.attribute .isPrimary) := by
  induction h with
  | permuted h _ => exact h.count_eq _
  | repeated hm => simp [List.count_cons_of_ne hm]
  | trans _ _ ih ih' => exact ih'.trans ih

theorem Restates.areOf {ms ms' : List Mark} (h : Restates ms ms') {a : ItemAttributes}
    (ha : a.AreOf ms) : a.AreOf ms' := by
  induction h with
  | permuted h hlast => exact ⟨fun k => (ha.has k).trans h.mem_iff.symm, hlast _ ha.action⟩
  | @repeated front behind m _ =>
    refine ⟨fun k => (ha.has k).trans (by simp), ?_⟩
    have := ha.action
    rw [lastAction_iff] at this ⊢
    rw [← this]
    rcases m with k | v
    · simp only [List.filterMap_append, List.filterMap_cons, action?]
    · simp [List.filterMap_append, action?, List.getLast?_append, List.getLast?_cons]
  | trans _ _ ih ih' => exact ih' (ih ha)

/-- Marks that say the same come to the same attributes. -/
theorem Restates.withMarks_eq {ms ms' : List Mark} (h : Restates ms ms') :
    ({} : ItemAttributes).withMarks ms' = ({} : ItemAttributes).withMarks ms :=
  (ItemAttributes.areOf_iff.1 (h.areOf (ItemAttributes.areOf_iff.2 rfl))).symm

end Mark

/-! ## Items -/

/-- The definition of a property or a child node. -/
inductive ItemDefinition where
  | property (p : PropertyDefinition)
  | child (d : ChildDefinition)

namespace ItemDefinition

def name : ItemDefinition → Name
  | property p => p.name
  | child d => d.name

/-- A definition with attributes and constraints in place of its own; child nodes have no
constraints. -/
def complete (a : ItemAttributes) (ks : List Constraint) : ItemDefinition → ItemDefinition
  | property p => property { p with attributes := a, constraints := ks }
  | child d => child { d with attributes := a }

end ItemDefinition

namespace NodeType

/-- A node type with one more item. -/
def add (t : NodeType) (primary : Option Name) : ItemDefinition → NodeType
  | .property p => { t with properties := t.properties ++ [p], primaryItem := primary }
  | .child d => { t with children := t.children ++ [d], primaryItem := primary }

/-- Whether an item comes next behind those of a node type in another. -/
def GoesOnWith (t : NodeType) (i : ItemDefinition) (t' : NodeType) : Prop :=
  match i with
  | .property p => t.properties ++ [p] <+: t'.properties
  | .child d => t.children ++ [d] <+: t'.children

end NodeType

namespace Meaning

open Elaboration (fault)

def IsItem (ns : Namespaces) (owner : Name) : MemberClause → ItemDefinition → Prop
  | .property c, .property p => IsProperty ns owner c p
  | .child c, .child d => IsChild ns owner c d
  | _, _ => False

/-- Whether one item more than the primary one of a node type is marked as that. -/
def Clashes (ms : List (Token × Mark)) (primary : Option Name) : Prop :=
  1 < primaryMarks ms ∨ 0 < primaryMarks ms ∧ primary ≠ none

theorem clashes_iff {ms : List (Token × Mark)} {primary : Option Name} :
    Clashes ms primary ↔ ¬ primaryMarks ms + taken primary ≤ 1 := by
  unfold Clashes taken
  cases primary with
  | none =>
    simp only [ne_eq, not_true, and_false, or_false, Option.isSome_none, Bool.false_eq_true,
      if_false, Nat.add_zero]
    omega
  | some n =>
    simp only [ne_eq, reduceCtorEq, not_false_eq_true, and_true, Option.isSome_some, if_true]
    omega

theorem primaryMarks_eq_count (ms : List (Token × Mark)) :
    primaryMarks ms = (ms.map (·.2)).count (.attribute .isPrimary) := by
  rw [primaryMarks, List.count, List.countP_map]
  rfl

section

variable {source : Option String} {owner : String} {item : Name} {ms : List (Token × Mark)}
  {a : ItemAttributes} {primary : Option Name}

/-- Marks fail at the first one of a primary item that is met where there is one already. -/
theorem marks_error_at {f : Failure}
    (h : Elaboration.marks source owner item ms a primary = .error f) :
    ∃ front t behind, ms = front ++ (t, .attribute .isPrimary) :: behind ∧
      primaryMarks front + taken primary = 1 ∧ f = fault source t (.secondPrimary owner) := by
  induction ms generalizing a primary with
  | nil => simp [Elaboration.marks] at h
  | cons e ms ih =>
    obtain ⟨t, k | v⟩ := e
    · cases k with
      | isPrimary =>
        simp only [Elaboration.marks] at h
        split at h
        · rename_i hsome
          exact ⟨[], t, ms, rfl, by simp [taken, hsome], (Except.error.inj h).symm⟩
        · rename_i hnone
          obtain ⟨front, u, behind, rfl, hone, hf⟩ := ih h
          refine ⟨_ :: front, u, behind, rfl, ?_, hf⟩
          simp only [taken, Option.isSome_some, if_true] at hone
          simp only [primaryMarks_cons, taken, hnone, Bool.false_eq_true, if_false, if_true]
          exact hone
      | isAutocreated | isMandatory | isProtected | isMultiple =>
        obtain ⟨front, u, behind, rfl, hone, hf⟩ := ih h
        exact ⟨_ :: front, u, behind, rfl, by simpa [primaryMarks_cons] using hone, hf⟩
    · obtain ⟨front, u, behind, rfl, hone, hf⟩ := ih h
      exact ⟨_ :: front, u, behind, rfl, by simpa [primaryMarks_cons] using hone, hf⟩

/-- Without a clash the attributes are those that the marks stand for. -/
theorem marks_of_not_clashes (source : Option String) (owner : String) (item : Name)
    (h : ¬ Clashes ms primary) :
    ∃ a q, a.AreOf (ms.map (·.2)) ∧
      Elaboration.marks source owner item ms {} primary = .ok (a, q) := by
  rw [clashes_iff, not_not] at h
  exact ⟨_, _, ItemAttributes.areOf_iff.2 rfl, marks_eq_ok.2 ⟨h, rfl, rfl⟩⟩

theorem marks_of_clashes (source : Option String) (owner : String) (item : Name)
    (h : Clashes ms primary) :
    ∃ front t behind, ms = front ++ (t, .attribute .isPrimary) :: behind ∧
      primaryMarks front + taken primary = 1 ∧
      Elaboration.marks source owner item ms {} primary =
        .error (fault source t (.secondPrimary owner)) := by
  cases hm : Elaboration.marks source owner item ms {} primary with
  | ok r => exact absurd (marks_eq_ok.1 hm).1 (clashes_iff.1 h)
  | error f =>
    obtain ⟨front, t, behind, hms, hone, rfl⟩ := marks_error_at hm
    exact ⟨front, t, behind, hms, hone, rfl⟩

/-- Marks that say the same are elaborated alike. -/
theorem marks_restated {ms' : List (Token × Mark)}
    (h : Mark.Restates (ms.map (·.2)) (ms'.map (·.2))) :
    Alike (Elaboration.marks source owner item ms' {} primary)
      (Elaboration.marks source owner item ms {} primary) := by
  have hcount : primaryMarks ms' = primaryMarks ms := by
    rw [primaryMarks_eq_count, h.count_eq, primaryMarks_eq_count]
  by_cases hc : Clashes ms primary
  · have hc' : Clashes ms' primary := by rwa [Clashes, hcount]
    obtain ⟨_, _, _, -, -, he⟩ := marks_of_clashes source owner item hc
    obtain ⟨_, _, _, -, -, he'⟩ := marks_of_clashes source owner item hc'
    rw [he, he']
    exact Elaboration.alike_fault source rfl rfl
  · rw [clashes_iff, not_not] at hc
    rw [marks_eq_ok.2 ⟨hc, rfl, rfl⟩, marks_eq_ok.2 ⟨by rwa [hcount], rfl, rfl⟩, hcount,
      h.withMarks_eq]
    exact .refl _

end

end Meaning

namespace Elaboration

/-! ## An item behind others -/

section

variable {source : Option String} {ns : Namespaces} {owner : Name}

theorem members_append (ms ms' : List MemberClause) (acc : Members) :
    members source ns owner (ms ++ ms') acc =
      members source ns owner ms acc >>= members source ns owner ms' := by
  induction ms generalizing acc with
  | nil => rfl
  | cons m ms ih => cases m <;> simp only [List.cons_append, members, bind_assoc, ih]

/-- A node type with more members goes on where it is without them. -/
theorem nodeType_extend {c : TypeClause} {t : NodeType} (h : nodeType source ns c = .ok t)
    (ms : List MemberClause) :
    nodeType source ns (c.extend ms) =
      members source ns t.name ms ⟨t.properties, t.children, t.primaryItem⟩ >>= fun m =>
        pure { t with
          primaryItem := m.primary, properties := m.properties, children := m.children } := by
  unfold nodeType at h ⊢
  simp only [bind_eq_ok, pure_eq_ok] at h
  obtain ⟨n, hn, supers, hs, m, hm, rfl⟩ := h
  simp only [TypeClause.extend, hn, hs]
  change (members source ns n (c.members ++ ms) ⟨[], [], none⟩ >>= _) = _
  rw [members_append, hm]
  rfl

/-- The constraints of a member; child nodes have none. -/
def constraints (source : Option String) (ns : Namespaces) (ks : List Token) :
    MemberClause → Except Failure (List Constraint)
  | .property c => ks.mapM (constraint source ns c.type)
  | .child _ => pure []

def Members.add (m : Members) (primary : Option Name) : ItemDefinition → Members
  | .property p => ⟨m.properties ++ [p], m.children, primary⟩
  | .child d => ⟨m.properties, m.children ++ [d], primary⟩

/-- **An item is elaborated up to its marks, then its marks, and then its constraints.** -/
theorem members_marked {item : MemberClause} {i : ItemDefinition}
    (hi : Meaning.IsItem ns owner item i) (ms : List (Token × Mark)) (ks : List Token)
    (acc : Members) :
    members source ns owner [item.marked ms ks] acc =
      marks source (ns.render owner) i.name ms {} acc.primary >>= fun marked =>
        constraints source ns ks item >>= fun cs =>
          pure (acc.add marked.2 (i.complete marked.1 cs)) := by
  match item, i, hi with
  | .property c, .property p, hi =>
    obtain ⟨hname, howner, htype, hdefaults, -, -⟩ := hi
    have hvalues : c.defaults.mapM (defaultValue source ns c.type) = .ok p.defaults :=
      mapM_eq_ok.2 (hdefaults.imp fun _ _ => Meaning.defaultValue_eq_ok.2)
    obtain ⟨name, declaringType, type, defaults, cs, a⟩ := p
    obtain rfl : declaringType = owner := howner
    obtain rfl : type = c.type := htype
    simp only [members, MemberClause.marked, property, Meaning.itemName_eq_ok.2 hname, hvalues]
    simp only [bind_assoc, pure_bind]
    rfl
  | .child c, .child d, hi =>
    obtain ⟨hname, howner, hrequired, hdefault, -⟩ := hi
    have htypes : c.requiredTypes.elim (pure [Name.base]) (·.mapM (name source ns)) =
        .ok d.requiredTypes := by
      cases hc : c.requiredTypes with
      | none =>
        rw [hc] at hrequired
        exact congrArg Except.ok hrequired.symm
      | some ts =>
        rw [hc] at hrequired
        exact mapM_eq_ok.2 (List.Forall₂.imp (fun _ _ => Meaning.name_eq_ok.2) hrequired)
    obtain ⟨name, declaringType, requiredTypes, defaultType, a⟩ := d
    obtain rfl : declaringType = owner := howner
    simp only [members, MemberClause.marked, Meaning.child_eq, Meaning.itemName_eq_ok.2 hname,
      htypes, Meaning.defaultType_eq_ok.2 hdefault]
    simp only [bind_assoc, pure_bind]
    rfl

theorem members_prefix {ms : List MemberClause} {acc res : Members}
    (h : members source ns owner ms acc = .ok res) :
    acc.properties <+: res.properties ∧ acc.children <+: res.children := by
  obtain ⟨⟨ps, -, hps⟩, ⟨cs, -, hcs⟩, -⟩ := Meaning.members_eq_ok.1 h
  exact ⟨⟨ps, hps.symm⟩, ⟨cs, hcs.symm⟩⟩

end

/-! ## Marks that say the same -/

section

variable {source : Option String} {ms ms' : List (Token × Mark)}

theorem members_restated {ns : Namespaces} {owner : Name}
    (h : Mark.Restates (ms.map (·.2)) (ms'.map (·.2))) (item : MemberClause) (ks : List Token)
    (acc : Members) :
    Alike (members source ns owner [item.marked ms' ks] acc)
      (members source ns owner [item.marked ms ks] acc) := by
  cases item with
  | property c =>
    have hp : Alike
        (property source ns owner acc.primary { c with marks := ms', constraints := ks })
        (property source ns owner acc.primary { c with marks := ms, constraints := ks }) :=
      (Alike.refl _).bind fun _ => (Alike.refl _).bind fun _ =>
        (Meaning.marks_restated h).bind fun _ => .refl _
    exact hp.bind fun _ => .refl _
  | child c =>
    have hd : Alike (child source ns owner acc.primary { c with marks := ms' })
        (child source ns owner acc.primary { c with marks := ms }) := by
      rw [Meaning.child_eq, Meaning.child_eq]
      exact (Alike.refl _).bind fun _ => (Alike.refl _).bind fun _ => (Alike.refl _).bind fun _ =>
        (Meaning.marks_restated h).bind fun _ => .refl _
    exact hd.bind fun _ => .refl _

theorem sameClause_restated (h : Mark.Restates (ms.map (·.2)) (ms'.map (·.2))) (c : TypeClause)
    (item : MemberClause) (ks : List Token) (more : List MemberClause) :
    SameClause source (.nodeType (c.extend (item.marked ms' ks :: more)))
      (.nodeType (c.extend (item.marked ms ks :: more))) := by
  refine .nodeType fun ns => (Alike.refl _).bind fun n => (Alike.refl _).bind fun _ => ?_
  have hsplit : ∀ ms, members source ns n (c.extend (item.marked ms ks :: more)).members =
      fun acc => members source ns n c.members acc >>= fun m =>
        members source ns n [item.marked ms ks] m >>= members source ns n more := by
    intro ms
    funext acc
    rw [TypeClause.extend, ← List.singleton_append, members_append]
    exact congrArg _ (funext fun m => members_append _ _ m)
  rw [hsplit, hsplit]
  exact ((Alike.refl _).bind fun m => (members_restated h item ks m).bind fun _ => .refl _).bind
    fun _ => .refl _

/-- Outlines that differ in one node type are elaborated alike if that is. -/
theorem outline_around {policy : ConflictPolicy} {scan scan' : Option ScanError}
    (h : scan'.map (·.fault) = scan.map (·.fault)) {c c' : TypeClause}
    (hc : SameClause source (.nodeType c') (.nodeType c)) (before : List Clause)
    (o : Except Break Outline) (ns : Namespaces) :
    (outline source policy scan' (Outline.around before c' o) ns).Alike
      (outline source policy scan (Outline.around before c o) ns) := by
  have hsame : ∀ cs, List.Forall₂ (SameClause source) cs cs :=
    fun cs => List.forall₂_same.2 fun c _ => .refl c
  cases o with
  | error b =>
    obtain ⟨hk, hu⟩ := breakFailure_congr source h b
    exact outline_congr policy (hsame before) (.broken (.some hc) hk hu) ns
  | ok o =>
    exact outline_congr policy (List.rel_append (hsame before) (.cons hc (hsame o.clauses)))
      (.refl h o.ending) ns

end

end Elaboration

end Cnd
