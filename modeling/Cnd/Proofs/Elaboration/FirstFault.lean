import Cnd.Proofs.Elaboration.Failure
import Cnd.Proofs.Outline.Tokens

/-!
Which fault of a node type is reported, and at which token.

A node type is a list of checks, one for each token that is to be a name, a default value or a
constraint, and one for each mark of a primary item. The error of a node type is that of the first
check that fails, at the token of this check (`firstFault_of_nodeType`).
-/

namespace Cnd

/-! ## Checks -/

/-- What a token of a node type has to be, or that it is the only mark of a primary item. -/
inductive Check where
  | name (t : Token)
  | default (type : PropertyType) (t : Token)
  | constraint (type : PropertyType) (t : Token)
  | primary (t : Token)

namespace Check

def token : Check → Token
  | name t => t
  | default _ t => t
  | constraint _ t => t
  | primary t => t

def isPrimary : Check → Bool
  | primary _ => true
  | _ => false

/-- How many of the checks are of a mark of a primary item. -/
def primaries (ks : List Check) : Nat := ks.countP isPrimary

/-- The checks of marks: one for each that makes an item the primary one. -/
def ofMarks (ms : List (Token × Mark)) : List Check :=
  (ms.filter (·.2 == .attribute .isPrimary)).map fun m => .primary m.1

end Check

def ItemName.checks : ItemName → List Check
  | .wildcard => []
  | .named t => [.name t]

/-- The checks of a property. All of its default values are checked before its marks. -/
def PropertyClause.checks (c : PropertyClause) : List Check :=
  c.name.checks ++ (c.defaults.map (.default c.type) ++
    (Check.ofMarks c.marks ++ c.constraints.map (.constraint c.type)))

def ChildClause.checks (c : ChildClause) : List Check :=
  c.name.checks ++ ((c.requiredTypes.getD []).map .name ++
    (c.defaultType.toList.map .name ++ Check.ofMarks c.marks))

def MemberClause.checks : MemberClause → List Check
  | .property c => c.checks
  | .child c => c.checks

def TypeClause.checks (c : TypeClause) : List Check :=
  [.name c.name] ++ (c.supertypes.map .name ++ c.members.flatMap MemberClause.checks)

theorem Check.token_of_mem_ofMarks {ms : List (Token × Mark)} {k : Check}
    (h : k ∈ Check.ofMarks ms) : k.token ∈ ms.map (·.1) := by
  obtain ⟨m, hm, rfl⟩ := List.mem_map.1 h
  exact List.mem_map_of_mem (List.mem_filter.1 hm).1

theorem ItemName.token_of_mem_checks {i : ItemName} {k : Check} (h : k ∈ i.checks) :
    k.token ∈ i.tokens := by
  cases i with
  | wildcard => simp [ItemName.checks] at h
  | named t =>
    obtain rfl := List.mem_singleton.1 h
    exact List.mem_singleton_self t

theorem PropertyClause.token_of_mem_checks {c : PropertyClause} {k : Check} (h : k ∈ c.checks) :
    k.token ∈ c.tokens := by
  simp only [PropertyClause.checks, PropertyClause.tokens, List.mem_append] at h ⊢
  rcases h with h | h | h | h
  · exact .inl (ItemName.token_of_mem_checks h)
  · obtain ⟨t, ht, rfl⟩ := List.mem_map.1 h
    exact .inr (.inl ht)
  · exact .inr (.inr (.inl (Check.token_of_mem_ofMarks h)))
  · obtain ⟨t, ht, rfl⟩ := List.mem_map.1 h
    exact .inr (.inr (.inr ht))

theorem ChildClause.token_of_mem_checks {c : ChildClause} {k : Check} (h : k ∈ c.checks) :
    k.token ∈ c.tokens := by
  simp only [ChildClause.checks, ChildClause.tokens, List.mem_append] at h ⊢
  rcases h with h | h | h | h
  · exact .inl (ItemName.token_of_mem_checks h)
  · obtain ⟨t, ht, rfl⟩ := List.mem_map.1 h
    exact .inr (.inl ht)
  · obtain ⟨t, ht, rfl⟩ := List.mem_map.1 h
    exact .inr (.inr (.inl ht))
  · exact .inr (.inr (.inr (Check.token_of_mem_ofMarks h)))

/-- Checks are of tokens of their clause. -/
theorem TypeClause.token_of_mem_checks {c : TypeClause} {k : Check} (h : k ∈ c.checks) :
    k.token ∈ c.tokens := by
  simp only [TypeClause.checks, TypeClause.tokens, List.mem_append, List.mem_cons,
    List.not_mem_nil, or_false] at h ⊢
  rcases h with rfl | h | h
  · exact .inl rfl
  · obtain ⟨t, ht, rfl⟩ := List.mem_map.1 h
    exact .inr (.inl ht)
  · obtain ⟨m, hm, hk⟩ := List.mem_flatMap.1 h
    refine .inr (.inr (List.mem_flatMap.2 ⟨m, hm, ?_⟩))
    cases m with
    | property c => exact PropertyClause.token_of_mem_checks hk
    | child c => exact ChildClause.token_of_mem_checks hk

namespace Meaning

open Check (primaries ofMarks)
open Elaboration (textOf)

/-! ## Passing and failing -/

/-- A check that is passed. Marks are counted instead. -/
def Passes (ns : Namespaces) : Check → Prop
  | .name t => ∃ n, IsName ns t n
  | .default type t => ∃ v, IsValue ns type t v
  | .constraint type t => ∃ c, IsConstraint ns type t c
  | .primary _ => True

/-- What is wrong where a check of a node type fails, given how many marks of a primary item are in
front of it. -/
inductive Fails (ns : Namespaces) (typeName : Token) (marked : Nat) : Check → ParseFault → Prop
  | name {t : Token} {e : NameError} (h : ns.resolve (textOf t) = .error e) :
      Fails ns typeName marked (.name t) (.name (textOf t) e)
  | default {type : PropertyType} {t : Token} {e : ConversionError}
      (h : Value.convert ns type (textOf t) = .error e) :
      Fails ns typeName marked (.default type t) (.conversion e)
  | constraint {type : PropertyType} {t : Token} {e : ConstraintError}
      (h : Constraint.read ns type (textOf t) = .error e) (ho : e.overflow? = none) :
      Fails ns typeName marked (.constraint type t) (.constraint e)
  | primary {t : Token} {n : Name} (hm : 0 < marked) (hn : IsName ns typeName n) :
      Fails ns typeName marked (.primary t) (.secondPrimary (ns.render n))

/-- A fault at a token of the named source. -/
def errorAt (source : Option String) (t : Token) (f : ParseFault) : ParseError :=
  ⟨f, .ofPosition source t.position.line t.position.column⟩

section

variable {source : Option String} {ns : Namespaces} {typeName : Token} {marked : Nat}

/-- An error that is that of the first check to fail, behind a number of marks of a primary item. -/
def FirstFault (source : Option String) (ns : Namespaces) (typeName : Token) (marked : Nat)
    (ks : List Check) (e : ParseError) : Prop :=
  ∃ front k behind f, ks = front ++ k :: behind ∧ (∀ j ∈ front, Passes ns j) ∧
    marked + primaries front ≤ 1 ∧ Fails ns typeName (marked + primaries front) k f ∧
    e = errorAt source k.token f

@[simp] theorem primaries_append (ks ls : List Check) :
    primaries (ks ++ ls) = primaries ks + primaries ls :=
  List.countP_append

theorem primaries_map {check : Token → Check} (h : ∀ t, (check t).isPrimary = false)
    (ts : List Token) : primaries (ts.map check) = 0 := by
  simp [primaries, List.countP_eq_zero, h]

@[simp] theorem primaries_itemName (i : ItemName) : primaries i.checks = 0 := by
  cases i <;> rfl

@[simp] theorem primaries_ofMarks (ms : List (Token × Mark)) :
    primaries (ofMarks ms) = primaryMarks ms := by
  have hall : ∀ l : List (Token × Mark),
      primaries (l.map fun m => Check.primary m.1) = l.length := by
    intro l
    simp [primaries, List.countP_map, Function.comp_def, Check.isPrimary]
  rw [ofMarks, hall, ← List.countP_eq_length_filter, primaryMarks]

theorem primaries_property (c : PropertyClause) : primaries c.checks = primaryMarks c.marks := by
  have hdefaults : primaries (c.defaults.map (.default c.type)) = 0 := primaries_map (fun _ => rfl) _
  have hconstraints : primaries (c.constraints.map (.constraint c.type)) = 0 :=
    primaries_map (fun _ => rfl) _
  simp [PropertyClause.checks, hdefaults, hconstraints]

theorem primaries_child (c : ChildClause) : primaries c.checks = primaryMarks c.marks := by
  have hnames : ∀ ts : List Token, primaries (ts.map .name) = 0 := primaries_map fun _ => rfl
  simp [ChildClause.checks, hnames]

variable {e : ParseError} {ks ls front : List Check}

theorem FirstFault.left (h : FirstFault source ns typeName marked ks e) (ls : List Check) :
    FirstFault source ns typeName marked (ks ++ ls) e := by
  obtain ⟨front, k, behind, f, rfl, hfront⟩ := h
  exact ⟨front, k, behind ++ ls, f, by rw [List.append_assoc, List.cons_append], hfront⟩

/-- Checks that are passed come before the first one that fails. -/
theorem FirstFault.right (hfront : ∀ k ∈ front, Passes ns k)
    (h : FirstFault source ns typeName (marked + primaries front) ks e) :
    FirstFault source ns typeName marked (front ++ ks) e := by
  obtain ⟨front', k, behind, f, rfl, hfront', hone, hf, he⟩ := h
  rw [Nat.add_assoc, ← primaries_append] at hone hf
  refine ⟨front ++ front', k, behind, f, by rw [List.append_assoc], fun j hj => ?_, hone, hf, he⟩
  rcases List.mem_append.1 hj with hj | hj
  · exact hfront j hj
  · exact hfront' j hj

theorem FirstFault.right_unmarked (hfront : ∀ k ∈ front, Passes ns k) (hm : primaries front = 0)
    (h : FirstFault source ns typeName marked ks e) :
    FirstFault source ns typeName marked (front ++ ks) e :=
  .right hfront (by rwa [hm, Nat.add_zero])

theorem FirstFault.single {k : Check} {f : ParseFault} (hone : marked ≤ 1)
    (h : Fails ns typeName marked k f) :
    FirstFault source ns typeName marked [k] (errorAt source k.token f) :=
  ⟨[], k, [], f, rfl, by simp, hone, h, rfl⟩

/-! ## Tokens -/

/-- A step of elaborating a token makes a check: it succeeds where the check is passed, and its
error is that of the check. -/
structure Performs {α : Type} (source : Option String) (ns : Namespaces)
    (step : Token → Except Failure α) (check : Token → Check) : Prop where
  passes : ∀ {t a}, step t = .ok a → Passes ns (check t)
  fails : ∀ {t e}, step t = .error (.parse e) → ∀ typeName marked,
    ∃ f, Fails ns typeName marked (check t) f ∧ e = errorAt source (check t).token f
  notPrimary : ∀ t, (check t).isPrimary = false

theorem performs_name : Performs source ns (Elaboration.name source ns) .name where
  passes h := ⟨_, name_eq_ok.1 h⟩
  fails h typeName marked := by
    unfold Elaboration.name at h
    split at h
    · simp at h
    · rename_i he
      exact ⟨_, .name he, (Failure.parse.inj (Except.error.inj h)).symm⟩
  notPrimary _ := rfl

theorem performs_default (type : PropertyType) :
    Performs source ns (Elaboration.defaultValue source ns type) (.default type) where
  passes h := ⟨_, defaultValue_eq_ok.1 h⟩
  fails h typeName marked := by
    unfold Elaboration.defaultValue at h
    split at h
    · simp at h
    · rename_i he
      exact ⟨_, .default he, (Failure.parse.inj (Except.error.inj h)).symm⟩
  notPrimary _ := rfl

theorem performs_constraint (type : PropertyType) :
    Performs source ns (Elaboration.constraint source ns type) (.constraint type) where
  passes h := ⟨_, constraint_eq_ok.1 h⟩
  fails h typeName marked := by
    unfold Elaboration.constraint at h
    split at h
    · simp at h
    · rename_i he
      split at h
      · simp at h
      · rename_i ho
        exact ⟨_, .constraint he ho, (Failure.parse.inj (Except.error.inj h)).symm⟩
  notPrimary _ := rfl

section

variable {α : Type} {step : Token → Except Failure α} {check : Token → Check}

theorem Performs.firstFault (hp : Performs source ns step check) {t : Token}
    (h : step t = .error (.parse e)) (hone : marked ≤ 1) :
    FirstFault source ns typeName marked [check t] e := by
  obtain ⟨f, hf, rfl⟩ := hp.fails h typeName marked
  exact .single hone hf

theorem Performs.passes_mapM (hp : Performs source ns step check) {ts : List Token} {r : List α}
    (h : ts.mapM step = .ok r) : ∀ k ∈ ts.map check, Passes ns k := by
  intro k hk
  obtain ⟨t, ht, rfl⟩ := List.mem_map.1 hk
  obtain ⟨a, -, ha⟩ := exists_of_forall₂ (mapM_eq_ok.1 h).flip ht
  exact hp.passes ha

theorem Performs.firstFault_mapM (hp : Performs source ns step check) {ts : List Token}
    (h : ts.mapM step = .error (.parse e)) (hone : marked ≤ 1) :
    FirstFault source ns typeName marked (ts.map check) e := by
  obtain ⟨before, t, behind, r, rfl, hr, ht⟩ := mapM_eq_error.1 h
  rw [List.map_append, List.map_cons, ← List.singleton_append]
  exact .right_unmarked (hp.passes_mapM hr) (primaries_map hp.notPrimary before)
    ((hp.firstFault ht hone).left _)

end

theorem passes_itemName {i : ItemName} {n : Name} (h : IsItemName ns i n) :
    ∀ k ∈ i.checks, Passes ns k := by
  cases i with
  | wildcard => simp [ItemName.checks]
  | named t =>
    intro k hk
    obtain rfl := List.mem_singleton.1 hk
    exact ⟨n, h⟩

theorem firstFault_of_itemName {i : ItemName}
    (h : Elaboration.itemName source ns i = .error (.parse e)) (hone : marked ≤ 1) :
    FirstFault source ns typeName marked i.checks e := by
  cases i with
  | wildcard => simp [Elaboration.itemName] at h
  | named t => exact performs_name.firstFault h hone

theorem passes_defaultType {t : Option Token} {n : Option Name}
    (h : t.mapM (Elaboration.name source ns) = .ok n) :
    ∀ k ∈ t.toList.map Check.name, Passes ns k := by
  cases t with
  | none => simp
  | some t =>
    intro k hk
    obtain rfl := List.mem_singleton.1 hk
    obtain ⟨name, -, hn⟩ := defaultType_eq_ok.1 h
    exact ⟨name, hn⟩

theorem firstFault_of_defaultType {t : Option Token}
    (h : t.mapM (Elaboration.name source ns) = .error (.parse e)) (hone : marked ≤ 1) :
    FirstFault source ns typeName marked (t.toList.map .name) e := by
  cases t with
  | none => exact absurd h pure_ne_error
  | some t =>
    simp only [Option.mapM_some, Functor.map, map_eq_error] at h
    exact performs_name.firstFault h hone

/-! ## Marks -/

theorem passes_ofMarks (ns : Namespaces) (ms : List (Token × Mark)) :
    ∀ k ∈ ofMarks ms, Passes ns k := by
  intro k hk
  obtain ⟨m, -, rfl⟩ := List.mem_map.1 hk
  trivial

theorem taken_le_one (primary : Option Name) : taken primary ≤ 1 := by
  unfold taken
  split <;> omega

/-- Marks that are not refused count for the items behind them. -/
theorem taken_behind {ms : List (Token × Mark)} {primary : Option Name}
    (h : primaryMarks ms + taken primary ≤ 1) (item : Name) :
    taken (if primaryMarks ms = 0 then primary else some item) =
      taken primary + primaryMarks ms := by
  split
  · rename_i hz
    rw [hz, Nat.add_zero]
  · simp only [taken, Option.isSome_some, if_true] at h ⊢
    omega

theorem firstFault_of_marks {owner item : Name} {ms : List (Token × Mark)} {a : ItemAttributes}
    {primary : Option Name} (hn : IsName ns typeName owner)
    (h : Elaboration.marks source (ns.render owner) item ms a primary = .error (.parse e)) :
    FirstFault source ns typeName (taken primary) (ofMarks ms) e := by
  induction ms generalizing a primary with
  | nil => simp [Elaboration.marks] at h
  | cons m ms ih =>
    rcases m with ⟨t, k | v⟩
    · cases k with
      | isPrimary =>
        simp only [Elaboration.marks] at h
        have hchecks : ofMarks ((t, .attribute .isPrimary) :: ms) = [.primary t] ++ ofMarks ms := rfl
        rw [hchecks]
        cases primary with
        | some n =>
          obtain rfl := Failure.parse.inj (Except.error.inj h)
          have hmarked : 0 < taken (some n) := Nat.one_pos
          exact (FirstFault.single (taken_le_one _) (.primary hmarked hn)).left _
        | none => exact .right (by simp [Passes]) (ih h)
      | isAutocreated | isMandatory | isProtected | isMultiple => exact ih h
    · exact ih h

/-! ## Members -/

theorem IsProperty.passes {owner : Name} {c : PropertyClause} {p : PropertyDefinition}
    (h : IsProperty ns owner c p) : ∀ k ∈ c.checks, Passes ns k := by
  intro k hk
  simp only [PropertyClause.checks, List.mem_append] at hk
  rcases hk with hk | hk | hk | hk
  · exact passes_itemName h.name k hk
  · obtain ⟨t, ht, rfl⟩ := List.mem_map.1 hk
    obtain ⟨v, -, hv⟩ := exists_of_forall₂ h.defaults.flip ht
    exact ⟨v, hv⟩
  · exact passes_ofMarks ns c.marks k hk
  · obtain ⟨t, ht, rfl⟩ := List.mem_map.1 hk
    obtain ⟨v, -, hv⟩ := exists_of_forall₂ h.constraints.flip ht
    exact ⟨v, hv⟩

theorem firstFault_of_property {owner : Name} {c : PropertyClause} {primary : Option Name}
    (hn : IsName ns typeName owner)
    (h : Elaboration.property source ns owner primary c = .error (.parse e)) :
    FirstFault source ns typeName (taken primary) c.checks e := by
  have hone := taken_le_one primary
  unfold Elaboration.property at h
  rcases bind_eq_error.1 h with h | ⟨n, hname, h⟩
  · exact (firstFault_of_itemName h hone).left _
  refine .right_unmarked (passes_itemName (itemName_eq_ok.1 hname)) (primaries_itemName _) ?_
  rcases bind_eq_error.1 h with h | ⟨ds, hds, h⟩
  · exact ((performs_default c.type).firstFault_mapM h hone).left _
  refine .right_unmarked ((performs_default c.type).passes_mapM hds)
    (primaries_map (fun _ => rfl) _) ?_
  rcases bind_eq_error.1 h with h | ⟨⟨a, after⟩, ha, h⟩
  · exact (firstFault_of_marks hn h).left _
  have hle := (marks_eq_ok.1 ha).1
  refine .right (passes_ofMarks ns c.marks) ?_
  rw [primaries_ofMarks]
  rcases bind_eq_error.1 h with h | ⟨_, -, h⟩
  · exact (performs_constraint c.type).firstFault_mapM h (by omega)
  · exact absurd h pure_ne_error

theorem IsChild.passes {owner : Name} {c : ChildClause} {d : ChildDefinition}
    (h : IsChild ns owner c d) : ∀ k ∈ c.checks, Passes ns k := by
  intro k hk
  simp only [ChildClause.checks, List.mem_append] at hk
  rcases hk with hk | hk | hk | hk
  · exact passes_itemName h.name k hk
  · obtain ⟨t, ht, rfl⟩ := List.mem_map.1 hk
    have hr := h.requiredTypes
    cases hc : c.requiredTypes with
    | none => simp [hc] at ht
    | some ts =>
      rw [hc] at hr ht
      obtain ⟨n, -, hn⟩ := exists_of_forall₂ (List.Forall₂.flip hr) ht
      exact ⟨n, hn⟩
  · obtain ⟨t, ht, rfl⟩ := List.mem_map.1 hk
    have hd := h.defaultType
    rw [Option.mem_toList] at ht
    rw [ht] at hd
    obtain ⟨n, -, hn⟩ := hd
    exact ⟨n, hn⟩
  · exact passes_ofMarks ns c.marks k hk

theorem firstFault_of_child {owner : Name} {c : ChildClause} {primary : Option Name}
    (hn : IsName ns typeName owner)
    (h : Elaboration.child source ns owner primary c = .error (.parse e)) :
    FirstFault source ns typeName (taken primary) c.checks e := by
  have hone := taken_le_one primary
  rw [child_eq] at h
  rcases bind_eq_error.1 h with h | ⟨n, hname, h⟩
  · exact (firstFault_of_itemName h hone).left _
  refine .right_unmarked (passes_itemName (itemName_eq_ok.1 hname)) (primaries_itemName _) ?_
  rcases bind_eq_error.1 h with h | ⟨rs, hrs, h⟩
  · cases hc : c.requiredTypes with
    | none =>
      rw [hc] at h
      exact absurd h pure_ne_error
    | some ts =>
      rw [hc] at h
      exact (performs_name.firstFault_mapM h hone).left _
  have hrequired : ∀ k ∈ (c.requiredTypes.getD []).map Check.name, Passes ns k := by
    cases hc : c.requiredTypes with
    | none => simp
    | some ts =>
      rw [hc] at hrs
      exact performs_name.passes_mapM hrs
  refine .right_unmarked hrequired (primaries_map (fun _ => rfl) _) ?_
  rcases bind_eq_error.1 h with h | ⟨d, hd, h⟩
  · exact (firstFault_of_defaultType h hone).left _
  refine .right_unmarked (passes_defaultType hd) (primaries_map (fun _ => rfl) _) ?_
  rcases bind_eq_error.1 h with h | ⟨_, -, h⟩
  · exact firstFault_of_marks hn h
  · exact absurd h pure_ne_error

theorem firstFault_of_members {owner : Name} {ms : List MemberClause} {acc : Elaboration.Members}
    (hn : IsName ns typeName owner)
    (h : Elaboration.members source ns owner ms acc = .error (.parse e)) :
    FirstFault source ns typeName (taken acc.primary) (ms.flatMap MemberClause.checks) e := by
  induction ms generalizing acc with
  | nil => simp [Elaboration.members] at h
  | cons m ms ih =>
    rw [List.flatMap_cons]
    cases m with
    | property c =>
      simp only [Elaboration.members] at h
      rcases bind_eq_error.1 h with h | ⟨⟨p, primary⟩, hp, h⟩
      · exact (firstFault_of_property hn h).left _
      · obtain ⟨hproperty, hle, rfl⟩ := property_eq_ok.1 hp
        refine .right hproperty.passes ?_
        rw [MemberClause.checks, primaries_property, ← taken_behind hle p.name]
        exact ih h
    | child c =>
      simp only [Elaboration.members] at h
      rcases bind_eq_error.1 h with h | ⟨⟨d, primary⟩, hd, h⟩
      · exact (firstFault_of_child hn h).left _
      · obtain ⟨hchild, hle, rfl⟩ := child_eq_ok.1 hd
        refine .right hchild.passes ?_
        rw [MemberClause.checks, primaries_child, ← taken_behind hle d.name]
        exact ih h

/-! ## Node types -/

/-- The error of a node type is that of its first check that fails. -/
theorem firstFault_of_nodeType {c : TypeClause}
    (h : Elaboration.nodeType source ns c = .error (.parse e)) :
    FirstFault source ns c.name 0 c.checks e := by
  unfold Elaboration.nodeType at h
  rcases bind_eq_error.1 h with h | ⟨n, hname, h⟩
  · exact (performs_name.firstFault h (Nat.zero_le 1)).left _
  have hn := name_eq_ok.1 hname
  refine .right_unmarked (by simpa [Passes] using ⟨n, hn⟩) rfl ?_
  rcases bind_eq_error.1 h with h | ⟨supers, hs, h⟩
  · exact (performs_name.firstFault_mapM h (Nat.zero_le 1)).left _
  refine .right_unmarked (performs_name.passes_mapM hs) (primaries_map (fun _ => rfl) _) ?_
  rcases bind_eq_error.1 h with h | ⟨_, -, h⟩
  · exact firstFault_of_members hn h
  · exact absurd h pure_ne_error

end

end Meaning

end Cnd
