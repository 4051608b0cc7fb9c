import Cnd.Proofs.Pull.Lists

/-!
Which readers the parsers of members, node types and bindings follow.

What a reader reads before a break counts, so that its meaning goes part by part: the first part
that means nothing is the failure, and a break comes after the parts in front of it
(`settle_property` and the lemmas like it). The parser goes in that order.
-/

namespace Cnd.Pull

open Outline (Left behind expect lookText looksAt)

section

variable {source : Option String} {fault : Option ScanError} {ns : Namespaces} {α β γ σ : Type}
  {ts r : List Token}

/-! ## Members -/

theorem settle_itemName (e : Expected) (ts : List Token) :
    settle? source fault (Elaboration.itemName source ns) (Outline.itemName e ts) =
      if looksAt '*' ts then settled source fault (behind ts) >>= fun r => .ok (.wildcard, r)
      else settle? source fault (Elaboration.name source ns) (textAt e ts) := by
  rw [Outline.itemName]
  split
  · rfl
  · rw [textAt]
    rcases lookText e ts with b | found <;> rfl

theorem follows_itemName (e : Expected) :
    Follows fault ns ts (itemName source e)
      (settle? source fault (Elaboration.itemName source ns) (Outline.itemName e ts)) := by
  rw [settle_itemName]
  exact follows_sign (fun _ _ => follows_pure _) (follows_name e)

theorem follows_propertyType :
    Follows fault ns ts (propertyType source) (settled source fault (Outline.propertyType ts)) := by
  refine follows_look ?_
  rintro t r rfl
  rw [Outline.propertyType, looksAt]
  by_cases ht : t.isSymbol '(' = true
  · simp only [ht, if_true, Bool.not_true, Bool.false_eq_true, if_false]
    rw [settled_bind]
    refine (follows_advance (Outline.not_ending_of_isSymbol ht)).bind_map fun u _ => ?_
    refine follows_look ?_
    rintro t' r' rfl
    dsimp only
    cases htype : Outline.keyword? Keyword.propertyTypes t' with
    | none => exact follows_refuse _
    | some type =>
      dsimp only
      rw [settled_bind]
      refine (follows_advance (Outline.not_ending_of_keyword htype)).bind_map fun v _ => ?_
      rw [settled_bind]
      exact (follows_expectSymbol _).bind_map fun w _ => follows_pure type
  · simp only [ht]
    exact follows_pure _

/-- What a property comes to, part by part. -/
theorem settle_property (owner : Name) (primary : Option Name) (ts : List Token) :
    settle? source fault (Elaboration.property source ns owner primary) (Outline.property ts) =
      settle? source fault (Elaboration.itemName source ns) (Outline.itemName .propertyName ts) >>=
        fun item => settled source fault (Outline.propertyType item.2) >>=
        fun type => settled source fault (Outline.literalsAfter '=' .defaultValue type.2) >>=
        fun defaults => defaults.1.mapM (Elaboration.defaultValue source ns type.1) >>=
        fun values => marksFrom source fault (ns.render owner) item.1 ({}, primary) defaults.2 >>=
        fun marked => settled source fault (Outline.literalsAfter '<' .constraint marked.2) >>=
        fun texts => texts.1.mapM (Elaboration.constraint source ns type.1) >>=
        fun constraints => .ok ((⟨item.1, owner, type.1, values, constraints, marked.1.1⟩,
          marked.1.2), texts.2) := by
  unfold Outline.property
  rcases Outline.itemName .propertyName ts with ⟨_ | name, b | r₁⟩
  · rfl
  · rfl
  · simp [settle?, Elaboration.property, Elaboration.marks]
  rcases h₂ : Outline.propertyType r₁ with b | ⟨type, r₂⟩
  · simp [settle?, Elaboration.property, Elaboration.marks, h₂]
  rcases h₃ : Outline.literalsAfter '=' .defaultValue r₂ with b | ⟨defaults, r₃⟩
  · simp [settle?, Elaboration.property, Elaboration.marks, h₂, h₃]
  rcases h₄ : Outline.marks r₃ with ⟨ms, b | r₄⟩
  · simp [settle?, Elaboration.property, marksFrom, h₂, h₃, h₄]
  rcases h₅ : Outline.literalsAfter '<' .constraint r₄ with b | ⟨texts, r₅⟩ <;>
    simp [settle?, Elaboration.property, marksFrom, h₂, h₃, h₄, h₅]

theorem follows_property {n : Nat} (owner : Name) (primary : Option Name) (hn : ts.length ≤ n) :
    Follows fault ns ts (property source n owner primary)
      (settle? source fault (Elaboration.property source ns owner primary)
        (Outline.property ts)) := by
  rw [settle_property]
  refine follows_namespaces.andThen ?_
  refine (follows_itemName _).bind fun item r₁ h₁ => ?_
  refine follows_propertyType.bind fun type r₂ h₂ => ?_
  rw [settled_eq_ok] at h₂
  obtain ⟨name, h₁, -⟩ := of_settle?_eq_ok h₁
  have l₁ : r₁.length ≤ n := Nat.le_trans (Nat.le_of_lt (Outline.itemName_shorter h₁)) hn
  have l₂ := Nat.le_trans (Outline.propertyType_shorter h₂) l₁
  refine (follows_literalsAfter _ l₂).bind fun defaults r₃ h₃ => ?_
  rw [settled_eq_ok] at h₃
  have l₃ := Nat.le_trans (Outline.literalsAfter_shorter h₃) l₂
  refine (follows_check _).bind_map fun values _ => ?_
  refine (follows_attributes _ _ _ l₃).bind fun marked r₄ h₄ => ?_
  have l₄ : r₄.length ≤ n := Nat.le_trans (shorter_of_marksFrom h₄) l₃
  refine (follows_literalsAfter _ l₄).bind fun texts r₅ h₅ => ?_
  refine (follows_check _).bind_map fun constraints _ => ?_
  exact follows_pure _

/-- The names of required types; that of the type that all types extend, if there are none. -/
def requiredNames (source : Option String) (ns : Namespaces) :
    Option (List Token) → Except Failure (List Name)
  | none => .ok [Name.base]
  | some ts => ts.mapM (Elaboration.name source ns)

theorem settle_requiredTypes (ts : List Token) :
    settle source fault (requiredNames source ns (Outline.requiredTypes ts).1)
        (Outline.requiredTypes ts).2 =
      if looksAt '(' ts then
        settled source fault (behind ts) >>= fun r =>
        settle source fault ((Outline.names .requiredType r).1.mapM (Elaboration.name source ns))
          (Outline.names .requiredType r).2 >>= fun types =>
        settled source fault (expect .requiredTypesClose types.2) >>= fun r => .ok (types.1, r)
      else .ok ([Name.base], ts) := by
  rw [Outline.requiredTypes]
  by_cases ht : looksAt '(' ts = true
  · simp only [ht, if_true, Bool.not_true, Bool.false_eq_true, if_false]
    rcases behind ts with b | u
    · rfl
    rcases hn : Outline.names .requiredType u with ⟨types, b | r⟩
    · simp [requiredNames, hn]
    · rcases hc : expect .requiredTypesClose r with b | r'
      · simp [requiredNames, hn, hc]
      · simp [requiredNames, hn, hc]
  · simp [ht, requiredNames]

theorem follows_requiredTypes {n : Nat} (hn : ts.length ≤ n) :
    Follows fault ns ts (requiredTypes source n)
      (settle source fault (requiredNames source ns (Outline.requiredTypes ts).1)
        (Outline.requiredTypes ts).2) := by
  rw [settle_requiredTypes]
  refine follows_sign (fun r hlt => ?_) (follows_pure _)
  refine (follows_nameList _ (by omega)).bind fun types r' _ => ?_
  exact (follows_expectSymbol _).bind_map fun r'' _ => follows_pure types

theorem settle_defaultType (ts : List Token) :
    settle source fault ((Outline.defaultType ts).1.mapM (Elaboration.name source ns))
        (Outline.defaultType ts).2 =
      if looksAt '=' ts then
        settled source fault (behind ts) >>= fun r =>
        settle? source fault (Elaboration.name source ns) (textAt .defaultType r) >>= fun type =>
          .ok (some type.1, type.2)
      else .ok (none, ts) := by
  rw [Outline.defaultType]
  by_cases ht : looksAt '=' ts = true
  · simp only [ht, if_true, Bool.not_true, Bool.false_eq_true, if_false]
    rcases behind ts with b | u
    · rfl
    simp only [settled_ok, ok_bind, textAt]
    rcases lookText .defaultType u with b | found
    · rfl
    rcases behind u with b | r <;> simp [settle?]
  · simp [ht]

theorem follows_defaultType :
    Follows fault ns ts (defaultType source)
      (settle source fault ((Outline.defaultType ts).1.mapM (Elaboration.name source ns))
        (Outline.defaultType ts).2) := by
  rw [settle_defaultType]
  refine follows_sign (fun r _ => ?_) (follows_pure _)
  exact (follows_name _).bind fun type r' _ => follows_pure _

theorem child_eq (owner : Name) (primary : Option Name) (c : ChildClause) :
    Elaboration.child source ns owner primary c =
      Elaboration.itemName source ns c.name >>= fun item =>
      requiredNames source ns c.requiredTypes >>= fun required =>
      c.defaultType.mapM (Elaboration.name source ns) >>= fun type =>
      Elaboration.marks source (ns.render owner) item c.marks {} primary >>= fun marked =>
        .ok (⟨item, owner, required, type, marked.1⟩, marked.2) := by
  unfold Elaboration.child requiredNames
  cases c.requiredTypes <;> rfl

/-- What a child node comes to, part by part. -/
theorem settle_child (owner : Name) (primary : Option Name) (ts : List Token) :
    settle? source fault (Elaboration.child source ns owner primary) (Outline.child ts) =
      settle? source fault (Elaboration.itemName source ns) (Outline.itemName .childName ts) >>=
        fun item => settle source fault (requiredNames source ns (Outline.requiredTypes item.2).1)
          (Outline.requiredTypes item.2).2 >>=
        fun required => settle source fault
          ((Outline.defaultType required.2).1.mapM (Elaboration.name source ns))
          (Outline.defaultType required.2).2 >>=
        fun type => marksFrom source fault (ns.render owner) item.1 ({}, primary) type.2 >>=
        fun marked => .ok ((⟨item.1, owner, required.1, type.1, marked.1.1⟩, marked.1.2),
          marked.2) := by
  unfold Outline.child
  rcases Outline.itemName .childName ts with ⟨_ | name, b | r₁⟩
  · rfl
  · rfl
  · simp [settle?, child_eq, requiredNames, Elaboration.marks]
  rcases h₂ : Outline.requiredTypes r₁ with ⟨required, b | r₂⟩
  · simp [settle?, child_eq, Elaboration.marks, h₂]
  rcases h₃ : Outline.defaultType r₂ with ⟨type, b | r₃⟩
  · simp [settle?, child_eq, Elaboration.marks, h₂, h₃]
  rcases h₄ : Outline.marks r₃ with ⟨ms, b | r₄⟩ <;>
    simp [settle?, child_eq, marksFrom, h₂, h₃, h₄]

theorem follows_child {n : Nat} (owner : Name) (primary : Option Name) (hn : ts.length ≤ n) :
    Follows fault ns ts (child source n owner primary)
      (settle? source fault (Elaboration.child source ns owner primary) (Outline.child ts)) := by
  rw [settle_child]
  refine follows_namespaces.andThen ?_
  refine (follows_itemName _).bind fun item r₁ h₁ => ?_
  obtain ⟨name, h₁, -⟩ := of_settle?_eq_ok h₁
  have l₁ : r₁.length ≤ n := Nat.le_trans (Nat.le_of_lt (Outline.itemName_shorter h₁)) hn
  refine (follows_requiredTypes l₁).bind fun required r₂ h₂ => ?_
  have l₂ := Nat.le_trans (Outline.requiredTypes_shorter (Prod.ext rfl (settle_eq_ok.1 h₂).2)) l₁
  refine follows_defaultType.bind fun type r₃ h₃ => ?_
  have l₃ := Nat.le_trans (Outline.defaultType_shorter (Prod.ext rfl (settle_eq_ok.1 h₃).2)) l₂
  exact (follows_attributes _ _ _ l₃).bind fun marked r₄ _ => follows_pure _

/-- What stands behind the sign of a member. -/
def memberBehind {γ : Type} (read : List Token → Option γ × Left) (clause : γ → MemberClause)
    (ts : List Token) : Option MemberClause × Left :=
  match behind ts with
  | .error b => (none, .error b)
  | .ok r => ((read r).1.map clause, (read r).2)

theorem member?_eq (ts : List Token) :
    Outline.member? ts =
      if looksAt '-' ts then some (memberBehind Outline.property .property ts)
      else if looksAt '+' ts then some (memberBehind Outline.child .child ts)
      else none := by
  rcases ts with _ | ⟨t, _ | ⟨next, rest⟩⟩
  · rfl
  · rw [Outline.member?, looksAt, looksAt]
    by_cases hminus : t.isSymbol '-' = true
    · simp [hminus, memberBehind, behind]
    · by_cases hplus : t.isSymbol '+' = true <;> simp [hminus, hplus, memberBehind, behind]
  · rfl

/-- One more member, if one is looked at. -/
def memberOnce (source : Option String) (fault : Option ScanError) (ns : Namespaces) (owner : Name)
    (m : Elaboration.Members) (ts : List Token) :
    Except Failure ((Elaboration.Members ⊕ Elaboration.Members) × List Token) :=
  match Outline.member? ts with
  | none => .ok (.inr m, ts)
  | some found =>
    settle? source fault (fun c => Elaboration.members source ns owner [c] m) found >>= fun x =>
      .ok (.inl x.1, x.2)

/-- The members from here on, behind others. -/
def membersFrom (source : Option String) (fault : Option ScanError) (ns : Namespaces) (owner : Name)
    (m : Elaboration.Members) (ts : List Token) :
    Except Failure (Elaboration.Members × List Token) :=
  settle source fault (Elaboration.members source ns owner (Outline.members ts).1 m)
    (Outline.members ts).2

theorem settle_memberBehind {read : List Token → Option γ × Left} {clause : γ → MemberClause}
    {owner : Name} {m : Elaboration.Members} (meaning : γ → Except Failure α)
    (add : α → Elaboration.Members)
    (h : ∀ c, Elaboration.members source ns owner [clause c] m = (meaning c).map add)
    (ts : List Token) :
    settle? source fault (fun c => Elaboration.members source ns owner [c] m)
        (memberBehind read clause ts) =
      settled source fault (behind ts) >>= fun r =>
        settle? source fault meaning (read r) >>= fun x => .ok (add x.1, x.2) := by
  unfold memberBehind
  rcases behind ts with b | r
  · rfl
  rcases hr : read r with ⟨_ | c, b | r'⟩
  · simp [hr, settle?]
  · simp [hr, settle?]
  · simp only [hr, settle?, Option.map_some, h, settled_ok, ok_bind]
    rcases meaning c with f | a <;> rfl
  · simp only [hr, settle?, Option.map_some, h, settled_ok, ok_bind]
    rcases meaning c with f | a <;> rfl

theorem memberOnce_eq (owner : Name) (m : Elaboration.Members) (ts : List Token) :
    memberOnce source fault ns owner m ts =
      if looksAt '-' ts then
        settled source fault (behind ts) >>= fun r =>
        settle? source fault (Elaboration.property source ns owner m.primary)
          (Outline.property r) >>= fun x =>
        .ok (.inl ⟨m.properties ++ [x.1.1], m.children, x.1.2⟩, x.2)
      else if looksAt '+' ts then
        settled source fault (behind ts) >>= fun r =>
        settle? source fault (Elaboration.child source ns owner m.primary)
          (Outline.child r) >>= fun x =>
        .ok (.inl ⟨m.properties, m.children ++ [x.1.1], x.1.2⟩, x.2)
      else .ok (.inr m, ts) := by
  rw [memberOnce, member?_eq]
  by_cases hminus : looksAt '-' ts = true
  · simp only [hminus, if_true]
    rw [settle_memberBehind (Elaboration.property source ns owner m.primary)
      (fun x => ⟨m.properties ++ [x.1], m.children, x.2⟩) fun c => rfl]
    simp only [bind_assoc, ok_bind]
  by_cases hplus : looksAt '+' ts = true
  · simp only [hminus, hplus, if_true, Bool.false_eq_true, if_false]
    rw [settle_memberBehind (Elaboration.child source ns owner m.primary)
      (fun x => ⟨m.properties, m.children ++ [x.1], x.2⟩) fun c => rfl]
    simp only [bind_assoc, ok_bind]
  · simp [hminus, hplus]

theorem follows_memberRound {n : Nat} (owner : Name) (m : Elaboration.Members)
    (hn : ts.length ≤ n) :
    Follows fault ns ts (memberRound source n owner m)
      (memberOnce source fault ns owner m ts) := by
  rw [memberOnce_eq]
  refine follows_look fun t r hts => follows_ifSign hts (fun r' hlt => ?_)
    (follows_ifSign hts (fun r' hlt => ?_) (follows_pure _))
  · exact (follows_property owner m.primary (by omega)).bind fun x r'' _ => follows_pure _
  · exact (follows_child owner m.primary (by omega)).bind fun x r'' _ => follows_pure _

theorem shorter_of_memberOnce {owner : Name} {m m' : Elaboration.Members}
    (h : memberOnce source fault ns owner m ts = .ok (.inl m', r)) : r.length < ts.length := by
  unfold memberOnce at h
  split at h
  · simp at h
  · rename_i hmember
    obtain ⟨x, hx, h⟩ := bind_eq_ok.1 h
    obtain ⟨-, rfl⟩ := Prod.mk.inj (Except.ok.inj h)
    obtain ⟨c, rfl, -⟩ := of_settle?_eq_ok hx
    exact Outline.member?_shorter hmember

theorem membersFrom_eq (owner : Name) (m : Elaboration.Members) (ts : List Token) :
    membersFrom source fault ns owner m ts =
      memberOnce source fault ns owner m ts >>= onward (membersFrom source fault ns owner) := by
  rw [membersFrom, memberOnce, Outline.members_eq]
  rcases h : Outline.member? ts with _ | ⟨_ | c, b | r⟩
  · rfl
  · rfl
  · obtain ⟨m, -, hm, -⟩ := Outline.member_sound h
    simp at hm
  · simp [settle?]
  · change settle source fault (Elaboration.members source ns owner ([c] ++ _) m) _ = _
    rw [Elaboration.members_append]
    dsimp only [settle?]
    rcases Elaboration.members source ns owner [c] m with f | m' <;> rfl

theorem follows_members {n : Nat} (owner : Name) (m : Elaboration.Members) (hn : ts.length ≤ n) :
    Follows fault ns ts (rounds (memberRound source n owner) n m)
      (membersFrom source fault ns owner m ts) := by
  refine follows_rounds (fun ts => ts.length ≤ n) (memberOnce source fault ns owner) ?_ ?_ ?_ hn hn
  · exact fun m ts h => follows_memberRound owner m h
  · intro m m' ts r hlength h
    have hlt := shorter_of_memberOnce h
    exact ⟨by omega, hlt⟩
  · exact fun m ts _ => membersFrom_eq owner m ts

/-! ## Node types and bindings -/

theorem settle_supertypes (ts : List Token) :
    settle source fault ((Outline.supertypes ts).1.mapM (Elaboration.name source ns))
        (Outline.supertypes ts).2 =
      if looksAt '>' ts then
        settled source fault (behind ts) >>= fun r =>
        settle source fault ((Outline.names .supertypeName r).1.mapM (Elaboration.name source ns))
          (Outline.names .supertypeName r).2
      else .ok ([], ts) := by
  rw [Outline.supertypes]
  by_cases ht : looksAt '>' ts = true
  · simp only [ht, if_true, Bool.not_true, Bool.false_eq_true, if_false]
    rcases behind ts with b | u <;> rfl
  · simp [ht]

theorem follows_supertypes {n : Nat} (hn : ts.length ≤ n) :
    Follows fault ns ts (supertypes source n)
      (settle source fault ((Outline.supertypes ts).1.mapM (Elaboration.name source ns))
        (Outline.supertypes ts).2) := by
  rw [settle_supertypes]
  exact follows_sign (fun r hlt => follows_nameList _ (by omega)) (follows_pure _)

theorem follows_options :
    Follows fault ns ts (options source)
      ((settled source fault (Outline.options ts).2.2).map fun r =>
        (((Outline.options ts).1, (Outline.options ts).2.1), r)) := by
  refine follows_look ?_
  rintro t r rfl
  rw [Outline.options]
  cases hfirst : Outline.keyword? Keyword.options t with
  | none => exact follows_pure _
  | some first =>
    have hadvance : Follows fault ns (t :: r) (advance source) _ :=
      follows_advance (Outline.not_ending_of_keyword hfirst)
    dsimp only
    rcases hr : behind (t :: r) with b | u <;> rw [hr] at hadvance
    · exact hadvance.fails
    refine hadvance.andThen (follows_of_cons ?_)
    rintro t' r' rfl
    refine (follows_current t').andThen ?_
    dsimp only
    cases hsecond : Outline.keyword? Keyword.options t' with
    | none => exact follows_pure _
    | some second =>
      dsimp only
      split
      · exact follows_pure _
      · have hagain : Follows fault ns (t' :: r') (advance source) _ :=
          follows_advance (Outline.not_ending_of_keyword hsecond)
        rcases hr' : behind (t' :: r') with b | v <;> rw [hr'] at hagain
        · exact hagain.fails
        · exact hagain.andThen (follows_pure _)

/-- What a node type comes to, part by part. -/
theorem settle_nodeType (ts : List Token) :
    settle? source fault (Elaboration.nodeType source ns) (Outline.nodeType ts) =
      settled source fault (expect .typeOpen ts) >>= fun r =>
        settle? source fault (Elaboration.name source ns) (textAt .typeName r) >>=
        fun name => settled source fault (expect .typeClose name.2) >>=
        fun r => settle source fault ((Outline.supertypes r).1.mapM (Elaboration.name source ns))
          (Outline.supertypes r).2 >>=
        fun supers => settled source fault (Outline.options supers.2).2.2 >>=
        fun r => membersFrom source fault ns name.1 ⟨[], [], none⟩ r >>=
        fun m => .ok (⟨name.1, supers.1, (Outline.options supers.2).1,
          (Outline.options supers.2).2.1, m.1.primary, m.1.properties, m.1.children⟩, m.2) := by
  unfold Outline.nodeType
  rcases h₁ : expect .typeOpen ts with b | r₁
  · rfl
  simp only [textAt, settled_ok, ok_bind]
  rcases lookText .typeName r₁ with b | found
  · rfl
  rcases behind r₁ with b | r₂
  · simp [settle?, Elaboration.nodeType, Elaboration.members]
  rcases h₃ : expect .typeClose r₂ with b | r₃
  · simp [settle?, Elaboration.nodeType, Elaboration.members, h₃]
  rcases h₄ : Outline.supertypes r₃ with ⟨supers, b | r₄⟩
  · simp [settle?, Elaboration.nodeType, Elaboration.members, h₃, h₄]
  rcases h₅ : Outline.options r₄ with ⟨o, m, b | r₅⟩
  · simp [settle?, Elaboration.nodeType, Elaboration.members, h₃, h₄, h₅]
  rcases h₆ : Outline.members r₅ with ⟨ms, b | r₆⟩ <;>
    simp [settle?, Elaboration.nodeType, membersFrom, h₃, h₄, h₅, h₆]

theorem follows_nodeType {n : Nat} (hn : ts.length ≤ n) :
    Follows fault ns ts (nodeType source n)
      (settle? source fault (Elaboration.nodeType source ns) (Outline.nodeType ts)) := by
  rw [settle_nodeType]
  refine (follows_expectSymbol _).bind_map fun r₁ h₁ => ?_
  have l₁ := Nat.le_trans (Nat.le_of_lt (Outline.expect_shorter (settled_eq_ok.1 h₁))) hn
  refine (follows_name _).bind fun name r₂ h₂ => ?_
  have l₂ := Nat.le_trans (Nat.le_of_lt (shorter_of_textAt h₂)) l₁
  refine (follows_expectSymbol _).bind_map fun r₃ h₃ => ?_
  have l₃ := Nat.le_trans (Nat.le_of_lt (Outline.expect_shorter (settled_eq_ok.1 h₃))) l₂
  refine (follows_supertypes l₃).bind fun supers r₄ h₄ => ?_
  have l₄ := Nat.le_trans (Outline.supertypes_shorter (Prod.ext rfl (settle_eq_ok.1 h₄).2)) l₃
  refine follows_options.bind_map fun r₅ h₅ => ?_
  have h₅' := settled_eq_ok.1 h₅
  have l₅ := Nat.le_trans (Outline.options_shorter (Prod.ext rfl (Prod.ext rfl h₅'))) l₄
  exact (follows_members name _ l₅).bind fun m r₆ _ => follows_pure _

theorem textOf_of_lookText {e : Expected} {found : Token × String} (h : lookText e ts = .ok found) :
    Elaboration.textOf found.1 = found.2 := by
  obtain ⟨-, htext⟩ := Outline.lookText_eq_ok.1 h
  rw [Elaboration.textOf, htext, Option.getD_some]

theorem follows_binding (hlooks : looksAt '<' ts = true) :
    Follows fault ns ts (binding source) (settled source fault (Outline.binding ts)) := by
  refine follows_of_cons ?_
  rintro t r rfl
  rw [looksAt] at hlooks
  refine (follows_current t).andThen ?_
  rw [Outline.binding, settled_bind]
  refine (follows_advance (Outline.not_ending_of_isSymbol hlooks)).bind_map fun u _ => ?_
  rw [settled_bind]
  refine (follows_expectText _).bind_map fun pfx hpfx => ?_
  rw [settled_bind]
  refine (follows_advance_text (settled_eq_ok.1 hpfx)).bind_map fun r₂ _ => ?_
  rw [settled_bind]
  refine (follows_expectSymbol _).bind_map fun r₃ _ => ?_
  rw [settled_bind]
  refine (follows_expectText _).bind_map fun uri huri => ?_
  rw [settled_bind]
  refine (follows_advance_text (settled_eq_ok.1 huri)).bind_map fun r₄ _ => ?_
  rw [settled_bind]
  refine (follows_expectSymbol _).bind_map fun r₅ _ => ?_
  dsimp only
  rw [textOf_of_lookText (settled_eq_ok.1 hpfx), textOf_of_lookText (settled_eq_ok.1 huri)]
  exact follows_pure _

end

end Cnd.Pull
