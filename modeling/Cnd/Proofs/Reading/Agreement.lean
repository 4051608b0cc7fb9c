import Cnd.Proofs.Elaboration.Known
import Cnd.Proofs.Reading.Exact

/-!
Readings of one text that agree.

Where no declaration is refused, the policy for conflicts has nothing to decide: step by step, the
reading is the same under all policies, its reports included (`clauses_of_error`). And a table has a
part in a reading only by the prefixes that the text names. A larger table gives every clause the
meaning that it had (`IsNodeType.mono`), and takes the same declarations as long as none of them is
of a prefix that only the larger table binds (`Means.extended`).
-/

namespace Cnd

open Namespaces

/-! ## Policies -/

namespace Elaboration

/-- A change that no other binding stands against is reported without a warning. -/
theorem level_of_change {pfx uri : String} {c : Change} (h : c = .none ∨ c = .added) :
    ∀ e ∈ c.events pfx uri, e.level < Log.warning := by
  rcases h with rfl | rfl
  · simp [Change.events]
  · simp only [Change.events, List.mem_singleton, forall_eq]
    show Log.debug < Log.warning
    decide

theorem level_typeEvent (ns : Namespaces) (t : NodeType) : (typeEvent ns t).level < Log.warning := by
  show Log.debug < Log.warning
  decide

/-- Clauses that mean something where conflicts are errors are elaborated the same under every
policy. -/
theorem clauses_of_error {source : Option String} {cs : List Clause} {ns : Namespaces}
    {done : List NodeType × Namespaces} (h : (clauses source .error cs ns).outcome = .ok done)
    (policy : ConflictPolicy) :
    clauses source policy cs ns = clauses source .error cs ns ∧
      ∀ e ∈ (clauses source .error cs ns).events, e.level < Log.warning := by
  induction cs generalizing ns done with
  | nil => exact ⟨rfl, by simp [clauses]⟩
  | cons c cs ih =>
    cases c with
    | binding c =>
      simp only [clauses] at h ⊢
      cases hd : ns.declare .error c.pfx c.uri with
      | error e => simp [hd] at h
      | ok made =>
        obtain ⟨ns', change⟩ := made
        obtain ⟨hsame, hchange⟩ := declare_of_error hd policy
        simp only [hd] at h
        obtain ⟨hrest, hevents⟩ := ih h
        simp only [hsame, hrest, List.mem_append, true_and]
        rintro e (he | he)
        · exact level_of_change hchange e he
        · exact hevents e he
    | nodeType c =>
      simp only [clauses] at h ⊢
      cases ht : nodeType source ns c with
      | error e => simp [ht] at h
      | ok t =>
        simp only [ht] at h
        obtain ⟨done', hdone, -⟩ := map_eq_ok.1 h
        obtain ⟨hrest, hevents⟩ := ih hdone
        simp only [hrest, List.mem_cons, forall_eq_or_imp, true_and]
        exact ⟨level_typeEvent ns t, hevents⟩

/-- An outline reports what its clauses report. -/
theorem events_outline (source : Option String) (policy : ConflictPolicy) (scan : Option ScanError)
    (o : Outline) (ns : Namespaces) :
    (outline source policy scan o ns).events = (clauses source policy o.clauses ns).events := by
  unfold outline
  dsimp only
  split
  · rfl
  · rfl
  · rfl
  · split <;> rfl

theorem outline_of_error {source : Option String} {scan : Option ScanError} {o : Outline}
    {ns : Namespaces} {done : List NodeType × Namespaces}
    (h : (outline source .error scan o ns).outcome = .ok done) (policy : ConflictPolicy) :
    outline source policy scan o ns = outline source .error scan o ns ∧
      ∀ e ∈ (outline source .error scan o ns).events, e.level < Log.warning := by
  obtain ⟨-, hm⟩ := Meaning.outline_eq_ok.1 h
  obtain ⟨hsame, hevents⟩ := clauses_of_error ((Meaning.clauses_eq_ok source).2 hm) policy
  rw [events_outline]
  exact ⟨by simp only [outline, hsame], hevents⟩

end Elaboration

/-! ## Larger tables -/

namespace Meaning

section

variable {ns ns' : Namespaces} (he : ns.ExtendedBy ns')

include he

theorem IsName.mono {t : Token} {n : Name} (h : IsName ns t n) : IsName ns' t n :=
  (mentions_resolve (Elaboration.textOf t)).mono he h

theorem IsItemName.mono {i : ItemName} {n : Name} (h : IsItemName ns i n) : IsItemName ns' i n := by
  cases i with
  | wildcard => exact h
  | named t => exact IsName.mono he h

theorem IsValue.mono {type : PropertyType} {t : Token} {v : Value} (h : IsValue ns type t v) :
    IsValue ns' type t v :=
  Value.convert_eq_ok.2 (Value.read_mono he (Value.convert_eq_ok.1 h))

theorem IsConstraint.mono {type : PropertyType} {t : Token} {c : Constraint}
    (h : IsConstraint ns type t c) : IsConstraint ns' type t c :=
  (Constraint.mentions_read type (Elaboration.textOf t)).mono he h

theorem IsProperty.mono {owner : Name} {c : PropertyClause} {p : PropertyDefinition}
    (h : IsProperty ns owner c p) : IsProperty ns' owner c p where
  name := h.name.mono he
  declaringType := h.declaringType
  type := h.type
  defaults := h.defaults.imp fun _ _ => IsValue.mono he
  constraints := h.constraints.imp fun _ _ => IsConstraint.mono he
  attributes := h.attributes

theorem AreRequired.mono {types : Option (List Token)} {names : List Name}
    (h : AreRequired ns types names) : AreRequired ns' types names := by
  cases types with
  | none => exact h
  | some ts => exact List.Forall₂.imp (fun _ _ => IsName.mono he) h

theorem IsDefaultType.mono {t : Option Token} {n : Option Name} (h : IsDefaultType ns t n) :
    IsDefaultType ns' t n := by
  cases t with
  | none => exact h
  | some t =>
    obtain ⟨name, rfl, hn⟩ := h
    exact ⟨name, rfl, IsName.mono he hn⟩

theorem IsChild.mono {owner : Name} {c : ChildClause} {d : ChildDefinition}
    (h : IsChild ns owner c d) : IsChild ns' owner c d where
  name := h.name.mono he
  declaringType := h.declaringType
  requiredTypes := h.requiredTypes.mono he
  defaultType := h.defaultType.mono he
  attributes := h.attributes

end

/-- Each member of a node type has a name. -/
theorem IsNodeType.exists_isItemName {ns : Namespaces} {c : TypeClause} {t : NodeType}
    (h : IsNodeType ns c t) {m : MemberClause} (hm : m ∈ c.members) : ∃ n, IsItemName ns m.name n := by
  cases m with
  | property p =>
    have hp : p ∈ c.members.filterMap (·.property?) := List.mem_filterMap.2 ⟨_, hm, rfl⟩
    obtain ⟨d, -, hd⟩ := exists_of_forall₂ h.properties.flip hp
    exact ⟨d.name, hd.name⟩
  | child k =>
    have hk : k ∈ c.members.filterMap (·.child?) := List.mem_filterMap.2 ⟨_, hm, rfl⟩
    obtain ⟨d, -, hd⟩ := exists_of_forall₂ h.children.flip hk
    exact ⟨d.name, hd.name⟩

/-- What a clause means in a table, it means in a larger one. -/
theorem IsNodeType.mono {ns ns' : Namespaces} (he : ns.ExtendedBy ns') {c : TypeClause} {t : NodeType}
    (h : IsNodeType ns c t) : IsNodeType ns' c t where
  name := IsName.mono he h.name
  supertypes := h.supertypes.imp fun _ _ => IsName.mono he
  orderable := h.orderable
  mixin := h.mixin
  properties := h.properties.imp fun _ _ => IsProperty.mono he
  children := h.children.imp fun _ _ => IsChild.mono he
  primaryOnce := h.primaryOnce
  primaryItem n := by
    rw [h.primaryItem]
    refine exists_congr fun m => and_congr_right fun hm => and_congr_right fun _ => ?_
    constructor
    · exact IsItemName.mono he
    · -- the smaller table has a name for the member too, and it is the same one
      intro hn
      obtain ⟨n', hn'⟩ := h.exists_isItemName hm
      rw [hn.unique (hn'.mono he)]
      exact hn'

/-- A declaration of a prefix that is not new to the larger table only is made in both tables. -/
theorem declare_extended {policy : ConflictPolicy} {ns ns₁ ns' : Namespaces} {pfx uri : String}
    {change : Change} (h : ns.declare policy pfx uri = .ok (ns₁, change)) (he : ns.ExtendedBy ns')
    (hfree : ns'.contains pfx = true → ns.contains pfx = true) :
    ∃ ns₁', ns'.declare policy pfx uri = .ok (ns₁', change) ∧
      ns₁'.uri? pfx = ns₁.uri? pfx ∧ ns₁.ExtendedBy ns₁' := by
  have hsame : ns'.uri? pfx = ns.uri? pfx := by
    cases hu : ns.uri? pfx with
    | some u => exact he pfx u hu
    | none =>
      by_contra hne
      obtain ⟨u, hu'⟩ := contains_iff.1 (hfree (Option.isSome_iff_ne_none.2 hne))
      rw [hu] at hu'
      exact absurd hu' (by simp)
  have hchange := change_declare_congr policy uri hsame
  rw [h] at hchange
  obtain ⟨⟨ns₁', change'⟩, hd, hc⟩ := map_eq_ok.1 hchange
  obtain rfl : change' = change := hc
  have hself : ns₁'.uri? pfx = ns₁.uri? pfx := by
    rw [uri?_declare_self hd, uri?_declare_self h]
  refine ⟨ns₁', hd, hself, fun p u hu => ?_⟩
  by_cases hp : p = pfx
  · rw [hp, hself, ← hp]
    exact hu
  · rw [uri?_declare_other h hp] at hu
    rw [uri?_declare_other hd hp]
    exact he p u hu

/-- Clauses that declare no prefix that only a larger table binds mean the same from that table, and
leave it with its own prefixes besides those that they would have left. -/
theorem Means.extended {policy : ConflictPolicy} {ns last : Namespaces} {cs : List Clause}
    {ts : List NodeType} (h : Means policy ns cs ts last) {ns' : Namespaces}
    (he : ns.ExtendedBy ns')
    (hfree : ∀ pfx, ns'.contains pfx = true → last.contains pfx = true → ns.contains pfx = true) :
    ∃ last', Means policy ns' cs ts last' ∧
      ∀ pfx, last'.uri? pfx = (last.uri? pfx).or (ns'.uri? pfx) := by
  induction h generalizing ns' with
  | @none ns =>
    refine ⟨ns', .none, fun pfx => ?_⟩
    cases hu : ns.uri? pfx with
    | some u => exact he pfx u hu
    | none => rfl
  | @binding ns ns₁ last change c cs ts hd hr ih =>
    have hcovered : ns₁.CoveredBy last :=
      (hr.types CoveredBy .refl (fun _ _ _ => .trans) coveredBy_declare).1
    have hdeclared : last.contains c.pfx = true :=
      hcovered _ (contains_iff.2 ⟨_, uri?_declare_self hd⟩)
    obtain ⟨ns₁', hd', hself, he'⟩ := declare_extended hd he fun h' => hfree _ h' hdeclared
    have hother : ∀ pfx, pfx ≠ c.pfx → ns₁'.uri? pfx = ns'.uri? pfx := fun pfx hp =>
      uri?_declare_other hd' hp
    have hfree' : ∀ pfx, ns₁'.contains pfx = true → last.contains pfx = true →
        ns₁.contains pfx = true := by
      intro pfx h' hlast
      by_cases hp : pfx = c.pfx
      · rw [hp]
        exact contains_iff.2 ⟨_, uri?_declare_self hd⟩
      · rw [contains, hother pfx hp] at h'
        rw [contains, uri?_declare_other hd hp]
        exact hfree pfx h' hlast
    obtain ⟨last', hm, hlast⟩ := ih he' hfree'
    refine ⟨last', .binding hd' hm, fun pfx => ?_⟩
    rw [hlast]
    by_cases hp : pfx = c.pfx
    · obtain ⟨u, hu⟩ := contains_iff.1 hdeclared
      rw [hp, hu, Option.some_or, Option.some_or]
    · rw [hother pfx hp]
  | nodeType hc _ ih =>
    obtain ⟨last', hm, hlast⟩ := ih he hfree
    exact ⟨last', .nodeType (hc.mono he) hm, hlast⟩

end Meaning

/-! ## Texts -/

namespace Definitions

theorem read_of_error {source : String} {ns : Namespaces} {text : String} {d : Definitions}
    (h : (read source .error ns text).outcome = .ok d) (policy : ConflictPolicy) :
    read source policy ns text = read source .error ns text ∧
      ∀ e ∈ (read source .error ns text).events, e.level < Log.warning := by
  have ho := read_eq_ok_iff_outline.1 h
  obtain ⟨hsame, hevents⟩ := Elaboration.outline_of_error ho policy
  simp only [read, hsame, ho, List.mem_append, List.mem_singleton, true_and]
  rintro e (he | rfl)
  · exact hevents e he
  · show Log.info < Log.warning
    decide

/-- **The policy counts where there is a conflict.** A text that is read where conflicts are errors
is read under every policy as the same definitions, with the same table at its end and the same
reports, none of which is a warning. -/
theorem readWith_of_error {source : String} {seed : Option Namespaces} {text : String}
    {d : Definitions} (h : (readWith source .error seed text).outcome = .ok d)
    (policy : ConflictPolicy) :
    (readWith source policy seed text).outcome = .ok d ∧
      (readWith source policy seed text).events = (readWith source .error seed text).events ∧
      ∀ e ∈ (readWith source policy seed text).events, e.level < Log.warning := by
  cases seed with
  | some ns =>
    have hread : (read source .error ns text).outcome = .ok d := h
    obtain ⟨hsame, hevents⟩ := read_of_error hread policy
    simp only [readWith, hsame, true_and]
    exact ⟨h, hevents⟩
  | none =>
    have hread : (read source .error .builtin text).outcome = .ok d := h
    obtain ⟨hsame, hevents⟩ := read_of_error hread policy
    simp only [readWith, hsame, List.mem_append, true_and]
    refine ⟨h, ?_⟩
    rintro e (he | he)
    · obtain ⟨b, -, rfl⟩ := List.mem_map.1 he
      exact Elaboration.level_of_change (.inr rfl) _ (List.mem_singleton_self _)
    · exact hevents e he

/-- The node type of `[e:t]`, with the prefix `e` bound to `u`. -/
def plainType : NodeType := ⟨⟨"u", "t"⟩, [], false, false, none, [], []⟩

def repeatedOutline : Outlined "<e='u'> <e='u'> [e:t]" where
  outline :=
    ⟨[.binding ⟨⟨.symbol '<', ⟨1, 1⟩⟩, "e", "u"⟩, .binding ⟨⟨.symbol '<', ⟨1, 9⟩⟩, "e", "u"⟩,
      .nodeType ⟨⟨.text "e:t" false, ⟨1, 18⟩⟩, [], false, false, []⟩], .complete⟩
  eq := by decide +kernel

/-- A binding that is declared twice is no conflict. -/
theorem readWith_of_error_repeated :
    let text := "<e='u'> <e='u'> [e:t]"
    (readWith "" .error none text).outcome = .ok ⟨[plainType], Namespaces.builtin.bind "e" "u"⟩ ∧
    (readWith "" .override none text).outcome = .ok ⟨[plainType], Namespaces.builtin.bind "e" "u"⟩ ∧
    ∀ e ∈ (readWith "" .override none text).events, e.level < Log.warning := by
  intro text
  have h : (readWith "" .error none text).outcome =
      .ok ⟨[plainType], Namespaces.builtin.bind "e" "u"⟩ := readWith_of_outline repeatedOutline rfl
  obtain ⟨hoverride, -, hevents⟩ := readWith_of_error h .override
  exact ⟨h, hoverride, hevents⟩

/-- **Prefixes that a text does not know do not matter.** A text that is read from a table is read
from every table that binds more as the same node types, if the table at its end binds none of the
prefixes that are added; these are at the end what they were at first, and the others are what they
would have been. -/
theorem readWith_extended {source : String} {policy : ConflictPolicy}
    {seed : Option Namespaces} (seed' : Option Namespaces) {text : String} {d : Definitions}
    (he : (seed.getD .builtin).ExtendedBy (seed'.getD .builtin))
    (h : (readWith source policy seed text).outcome = .ok d)
    (hfree : ∀ pfx, (seed'.getD .builtin).contains pfx = true →
      d.namespaces.contains pfx = true → (seed.getD .builtin).contains pfx = true) :
    ∃ last, (readWith source policy seed' text).outcome = .ok ⟨d.types, last⟩ ∧
      ∀ pfx uri, last.uri? pfx = some uri ↔ d.namespaces.uri? pfx = some uri ∨
        (seed.getD .builtin).uri? pfx = none ∧ (seed'.getD .builtin).uri? pfx = some uri := by
  rw [outcome_readWith] at h
  obtain ⟨tokens, stop, clauses, hscan, hdoc, hm⟩ := read_eq_ok_iff.1 h
  obtain ⟨last, hm', hlast⟩ := hm.extended he hfree
  have hcovered : (seed.getD .builtin).CoveredBy d.namespaces :=
    (hm.types CoveredBy .refl (fun _ _ _ => .trans) coveredBy_declare).1
  refine ⟨last, ?_, fun pfx uri => ?_⟩
  · rw [outcome_readWith, read_eq_ok_iff]
    exact ⟨tokens, stop, clauses, hscan, hdoc, hm'⟩
  · rw [hlast]
    cases hd : d.namespaces.uri? pfx with
    | some current =>
      -- a prefix at the end of the text is none of those that are added
      have hadded : ¬ ((seed.getD .builtin).uri? pfx = none ∧
          (seed'.getD .builtin).uri? pfx = some uri) := by
        rintro ⟨hnone, hu⟩
        have := hfree pfx (contains_iff.2 ⟨_, hu⟩) (contains_iff.2 ⟨_, hd⟩)
        simp [contains, hnone] at this
      simp [hadded]
    | none =>
      have hnone : (seed.getD .builtin).uri? pfx = none := by
        cases hu : (seed.getD .builtin).uri? pfx with
        | none => rfl
        | some u =>
          have := hcovered pfx (contains_iff.2 ⟨_, hu⟩)
          simp [contains, hd] at this
      simp [hnone]

def overriddenOutline : Outlined "<e='v'> <e='u'> [e:t]" where
  outline :=
    ⟨[.binding ⟨⟨.symbol '<', ⟨1, 1⟩⟩, "e", "v"⟩, .binding ⟨⟨.symbol '<', ⟨1, 9⟩⟩, "e", "u"⟩,
      .nodeType ⟨⟨.text "e:t" false, ⟨1, 18⟩⟩, [], false, false, []⟩], .complete⟩
  eq := by decide +kernel

/-- A prefix that is bound twice under the overriding policy ends the same beside another one. -/
theorem readWith_extended_override :
    let text := "<e='v'> <e='u'> [e:t]"
    ∃ last, (readWith "" .override (some (Namespaces.builtin.bind "z" "v")) text).outcome =
        .ok ⟨[plainType], last⟩ ∧ last.uri? "e" = some "u" ∧ last.uri? "z" = some "v" := by
  intro text
  have h : (readWith "" .override none text).outcome =
      .ok ⟨[plainType], Namespaces.builtin.bind "e" "u"⟩ :=
    readWith_of_outline overriddenOutline rfl
  obtain ⟨last, hread, hlast⟩ := readWith_extended (some (Namespaces.builtin.bind "z" "v"))
    (extendedBy_bind _ _ _) h fun pfx hz he => by
      by_cases hp : pfx = "z"
      · subst hp
        exact absurd he (by decide)
      · simpa [contains, uri?_bind, hp] using hz
  exact ⟨last, hread, (hlast "e" "u").2 (.inl rfl), (hlast "z" "v").2 (.inr ⟨rfl, rfl⟩)⟩

end Definitions

end Cnd
