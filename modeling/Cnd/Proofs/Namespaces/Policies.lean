import Cnd.Namespaces.Session
import Cnd.Proofs.Except
import Cnd.Proofs.Namespaces.Extend

/-!
Pairs declared one after the other, compared between the policies (`declareEach_policies`).

One declaration changes the URI of its own prefix only: a policy decides whether the former URI or
the declared one stays (`uri?_afterDeclaring_ignore`, `uri?_afterDeclaring_override`). So over a run
the first URI wins or the last one, and a run in which none is refused leaves the policy no choice.
-/

namespace Cnd.Namespaces

/-- The table after pairs were declared one by one; a refused pair leaves it as it is. -/
def declareEach (policy : ConflictPolicy) (ns : Namespaces) (ds : List (String × String)) :
    Namespaces :=
  ds.foldl (fun ns d => ns.afterDeclaring policy (.text d.1) (.text d.2)) ns

/-- No pair is refused where they are declared one by one. -/
def AcceptsEach (policy : ConflictPolicy) : Namespaces → List (String × String) → Prop
  | _, [] => True
  | ns, d :: ds =>
    (ns.declare policy d.1 d.2).isOk = true ∧
      AcceptsEach policy (ns.afterDeclaring policy (.text d.1) (.text d.2)) ds

/-- The form of a pair that may be declared. -/
def IsDeclaration (d : String × String) : Prop := checkDeclaration d.1 d.2 = .ok ()

/-- The table or one of the pairs gives a prefix this URI. -/
def Given (ns : Namespaces) (ds : List (String × String)) (pfx uri : String) : Prop :=
  ns.uri? pfx = some uri ∨ (pfx, uri) ∈ ds

/-- Table and pairs together give no prefix two URIs. -/
def Consistent (ns : Namespaces) (ds : List (String × String)) : Prop :=
  ∀ pfx u v, ns.Given ds pfx u → ns.Given ds pfx v → u = v

/-! ## One declaration -/

theorem afterDeclaring_of_declare {ns ns' : Namespaces} {policy : ConflictPolicy} {pfx uri : String}
    {c : Change} (h : ns.declare policy pfx uri = .ok (ns', c)) :
    ns.afterDeclaring policy (.text pfx) (.text uri) = ns' := by
  rw [afterDeclaring, declareData, h]

/-- A policy other than the refusal of conflicts accepts every declaration. -/
theorem exists_declare {policy : ConflictPolicy} (hp : policy ≠ .error) (ns : Namespaces)
    {d : String × String} (hd : IsDeclaration d) :
    ∃ ns' c, ns.declare policy d.1 d.2 = .ok (ns', c) := by
  unfold declare
  rw [show checkDeclaration d.1 d.2 = .ok () from hd]
  cases hu : ns.uri? d.1 with
  | none => exact ⟨_, _, rfl⟩
  | some current =>
    by_cases he : (current == d.2) = true
    · exact ⟨_, _, by simp only [he, if_true]; rfl⟩
    · cases policy with
      | error => exact absurd rfl hp
      | ignore | override => exact ⟨_, _, by simp only [he, Bool.false_eq_true, if_false]; rfl⟩

theorem uri?_afterDeclaring_ignore (ns : Namespaces) {d : String × String} (hd : IsDeclaration d)
    (p : String) :
    (ns.afterDeclaring .ignore (.text d.1) (.text d.2)).uri? p =
      (ns.uri? p).or (if p = d.1 then some d.2 else none) := by
  obtain ⟨ns', c, h⟩ := exists_declare (show ConflictPolicy.ignore ≠ .error by simp) ns hd
  rw [afterDeclaring_of_declare h]
  obtain ⟨-, hcases⟩ := declare_cases h
  rcases hcases with ⟨hu, rfl, -⟩ | ⟨-, rfl, -⟩ | ⟨current, hu, -, ⟨-, rfl, -⟩ | ⟨hp, -⟩⟩
  · by_cases he : p = d.1
    · rw [he, hu, Option.some_or]
    · rw [if_neg he, Option.or_none]
  · exact uri?_bind ns d.1 d.2 p
  · by_cases he : p = d.1
    · rw [he, hu, Option.some_or]
    · rw [if_neg he, Option.or_none]
  · simp at hp

theorem uri?_afterDeclaring_override (ns : Namespaces) {d : String × String} (hd : IsDeclaration d)
    (p : String) :
    (ns.afterDeclaring .override (.text d.1) (.text d.2)).uri? p =
      if p = d.1 then some d.2 else ns.uri? p := by
  obtain ⟨ns', c, h⟩ := exists_declare (show ConflictPolicy.override ≠ .error by simp) ns hd
  rw [afterDeclaring_of_declare h]
  by_cases he : p = d.1
  · rw [if_pos he, he, uri?_declare_self h]
    obtain ⟨-, hcases⟩ := declare_cases h
    rcases hcases with ⟨-, -, rfl⟩ | ⟨-, -, rfl⟩ | ⟨current, -, -, ⟨hp, -⟩ | ⟨-, -, rfl⟩⟩
    · rfl
    · rfl
    · simp at hp
    · rfl
  · rw [if_neg he, uri?_declare_other h he]

/-- The table accepts a declaration without conflict. -/
theorem isOk_declare_error {ns : Namespaces} {d : String × String} (hd : IsDeclaration d) :
    (ns.declare .error d.1 d.2).isOk = true ↔ ∀ u, ns.uri? d.1 = some u → u = d.2 := by
  unfold declare
  rw [show checkDeclaration d.1 d.2 = .ok () from hd]
  cases hu : ns.uri? d.1 with
  | none => simp [Except.isOk, Except.toBool]
  | some current =>
    by_cases he : current = d.2
    · simp [he, Except.isOk, Except.toBool]
    · simp [he, Except.isOk, Except.toBool]

/-! ## Runs -/

theorem uri?_declareEach_ignore {ds : List (String × String)} (hd : ∀ d ∈ ds, IsDeclaration d)
    (ns : Namespaces) (p : String) :
    (ns.declareEach .ignore ds).uri? p = (ns.uri? p).or (ds.lookup p) := by
  induction ds generalizing ns with
  | nil => rw [List.lookup_nil, Option.or_none]; rfl
  | cons d ds ih =>
    obtain ⟨hd, hds⟩ := List.forall_mem_cons.1 hd
    rw [declareEach, List.foldl_cons, ← declareEach, ih hds, uri?_afterDeclaring_ignore ns hd,
      List.lookup_cons, Option.or_assoc]
    by_cases he : p = d.1
    · rw [if_pos he, he, beq_self_eq_true, Option.some_or]
    · rw [if_neg he, beq_false_of_ne he, Option.none_or]

theorem uri?_declareEach_override {ds : List (String × String)} (hd : ∀ d ∈ ds, IsDeclaration d)
    (ns : Namespaces) (p : String) :
    (ns.declareEach .override ds).uri? p = (ds.reverse.lookup p).or (ns.uri? p) := by
  induction ds generalizing ns with
  | nil => rfl
  | cons d ds ih =>
    obtain ⟨hd, hds⟩ := List.forall_mem_cons.1 hd
    rw [declareEach, List.foldl_cons, ← declareEach, ih hds, uri?_afterDeclaring_override ns hd,
      List.reverse_cons, List.lookup_append, Option.or_assoc, List.lookup_cons, List.lookup_nil]
    by_cases he : p = d.1
    · rw [if_pos he, he, beq_self_eq_true, Option.some_or]
    · rw [if_neg he, beq_false_of_ne he, Option.none_or]

theorem acceptsEach_of_ne_error {policy : ConflictPolicy} (hp : policy ≠ .error)
    {ds : List (String × String)} (hd : ∀ d ∈ ds, IsDeclaration d) (ns : Namespaces) :
    ns.AcceptsEach policy ds := by
  induction ds generalizing ns with
  | nil => trivial
  | cons d ds ih =>
    obtain ⟨hd, hds⟩ := List.forall_mem_cons.1 hd
    obtain ⟨ns', c, h⟩ := exists_declare hp ns hd
    exact ⟨by rw [h]; rfl, ih hds _⟩

/-- What the table and the pairs give is what the table behind the first pair and the others give,
where that is accepted. -/
theorem given_cons_iff {ns ns' : Namespaces} {d : String × String} {c : Change}
    (h : ns.declare .error d.1 d.2 = .ok (ns', c)) (ds : List (String × String)) (p u : String) :
    ns.Given (d :: ds) p u ↔ ns'.Given ds p u := by
  have hself : ns'.uri? d.1 = some d.2 := by
    rw [uri?_declare_self h]
    rcases (declare_of_error h .error).2 with rfl | rfl <;> rfl
  unfold Given
  rw [List.mem_cons]
  constructor
  · rintro (hu | hpu | hm)
    · exact .inl (extendedBy_declare (by simp) h p u hu)
    · obtain ⟨rfl, rfl⟩ : p = d.1 ∧ u = d.2 := by simp [← hpu]
      exact .inl hself
    · exact .inr hm
  · rintro (hu | hm)
    · by_cases he : p = d.1
      · rw [he, hself] at hu
        exact .inr (.inl (by rw [he, ← Option.some.inj hu]))
      · rw [uri?_declare_other h he] at hu
        exact .inl hu
    · exact .inr (.inr hm)

theorem acceptsEach_error_iff {ds : List (String × String)} (hd : ∀ d ∈ ds, IsDeclaration d)
    (ns : Namespaces) : ns.AcceptsEach .error ds ↔ ns.Consistent ds := by
  induction ds generalizing ns with
  | nil =>
    refine iff_of_true trivial fun p u v hu hv => ?_
    simp only [Given, List.not_mem_nil, or_false] at hu hv
    exact Option.some.inj (hu.symm.trans hv)
  | cons d ds ih =>
    obtain ⟨hd, hds⟩ := List.forall_mem_cons.1 hd
    rw [AcceptsEach]
    constructor
    · rintro ⟨hok, hrest⟩
      obtain ⟨⟨ns', c⟩, h⟩ := exists_of_isOk hok
      rw [afterDeclaring_of_declare h, ih hds] at hrest
      intro p u v hu hv
      exact hrest p u v ((given_cons_iff h ds p u).1 hu) ((given_cons_iff h ds p v).1 hv)
    · intro hc
      have hok : (ns.declare .error d.1 d.2).isOk = true :=
        (isOk_declare_error hd).2 fun u hu => hc d.1 u d.2 (.inl hu) (.inr List.mem_cons_self)
      obtain ⟨⟨ns', c⟩, h⟩ := exists_of_isOk hok
      refine ⟨hok, ?_⟩
      rw [afterDeclaring_of_declare h, ih hds]
      intro p u v hu hv
      exact hc p u v ((given_cons_iff h ds p u).2 hu) ((given_cons_iff h ds p v).2 hv)

/-- Where none is refused for a conflict the policy does not matter. -/
theorem declareEach_eq_of_accepted {ns : Namespaces} {ds : List (String × String)}
    (h : ns.AcceptsEach .error ds) (policy : ConflictPolicy) :
    ns.declareEach policy ds = ns.declareEach .error ds := by
  induction ds generalizing ns with
  | nil => rfl
  | cons d ds ih =>
    obtain ⟨hok, hrest⟩ := h
    obtain ⟨⟨ns', c⟩, hdecl⟩ := exists_of_isOk hok
    have hsame := afterDeclaring_of_declare (declare_of_error hdecl policy).1
    rw [afterDeclaring_of_declare hdecl] at hrest
    unfold declareEach
    rw [List.foldl_cons, List.foldl_cons, hsame, afterDeclaring_of_declare hdecl]
    exact ih hrest

/-! ## Runs made again -/

/-- A prefix that is bound stays as it is, unless the policy is to override. -/
theorem afterDeclaring_of_contains {policy : ConflictPolicy} (hp : policy ≠ .override)
    {ns : Namespaces} {pfx : String} (h : ns.contains pfx = true) (uri : String) :
    ns.afterDeclaring policy (.text pfx) (.text uri) = ns := by
  obtain ⟨u, hu⟩ := contains_iff.1 h
  cases hdecl : ns.declare policy pfx uri with
  | error e => rw [afterDeclaring, declareData, hdecl]
  | ok r =>
    obtain ⟨ns', c⟩ := r
    rw [afterDeclaring_of_declare hdecl]
    obtain ⟨-, hcases⟩ := declare_cases hdecl
    rcases hcases with ⟨-, rfl, -⟩ | ⟨hn, -⟩ | ⟨current, -, -, ⟨-, rfl, -⟩ | ⟨ho, -⟩⟩
    · rfl
    · rw [hu] at hn
      simp at hn
    · rfl
    · exact absurd ho hp

theorem coveredBy_afterDeclaring (ns : Namespaces) (policy : ConflictPolicy) (pfx uri : String) :
    ns.CoveredBy (ns.afterDeclaring policy (.text pfx) (.text uri)) := by
  cases hdecl : ns.declare policy pfx uri with
  | error e =>
    rw [afterDeclaring, declareData, hdecl]
    exact .refl ns
  | ok r => exact afterDeclaring_of_declare hdecl ▸ coveredBy_declare hdecl

theorem coveredBy_declareEach (ns : Namespaces) (policy : ConflictPolicy)
    (ds : List (String × String)) : ns.CoveredBy (ns.declareEach policy ds) := by
  induction ds generalizing ns with
  | nil => exact .refl ns
  | cons d ds ih => exact (coveredBy_afterDeclaring ns policy d.1 d.2).trans (ih _)

/-- Whatever has the form of a declaration is bound behind it, be it accepted or refused. -/
theorem contains_afterDeclaring (ns : Namespaces) (policy : ConflictPolicy) {d : String × String}
    (hd : IsDeclaration d) :
    (ns.afterDeclaring policy (.text d.1) (.text d.2)).contains d.1 = true := by
  cases hdecl : ns.declare policy d.1 d.2 with
  | ok r => exact contains_iff.2 ⟨_, afterDeclaring_of_declare hdecl ▸ uri?_declare_self hdecl⟩
  | error e =>
    rw [afterDeclaring, declareData, hdecl, contains]
    cases hu : ns.uri? d.1 with
    | some u => rw [Option.isSome_some]
    | none =>
      rw [declare, show checkDeclaration d.1 d.2 = .ok () from hd, hu] at hdecl
      simp at hdecl

theorem contains_declareEach (policy : ConflictPolicy) {ds : List (String × String)}
    (hd : ∀ d ∈ ds, IsDeclaration d) (ns : Namespaces) :
    ∀ d ∈ ds, (ns.declareEach policy ds).contains d.1 = true := by
  induction ds generalizing ns with
  | nil => simp
  | cons e ds ih =>
    obtain ⟨he, hds⟩ := List.forall_mem_cons.1 hd
    refine List.forall_mem_cons.2 ⟨?_, ih hds _⟩
    exact coveredBy_declareEach _ policy ds _ (contains_afterDeclaring ns policy he)

theorem declareEach_of_contains {policy : ConflictPolicy} (hp : policy ≠ .override)
    {ns : Namespaces} {ds : List (String × String)} (h : ∀ d ∈ ds, ns.contains d.1 = true) :
    ns.declareEach policy ds = ns := by
  induction ds with
  | nil => rfl
  | cons d ds ih =>
    obtain ⟨hd, hds⟩ := List.forall_mem_cons.1 h
    rw [declareEach, List.foldl_cons, afterDeclaring_of_contains hp hd, ← declareEach]
    exact ih hds

/-- **What the policies do with declarations over a whole run.** The first URI of a prefix stays
under one of them and the last one under another, whatever else is declared; a run is accepted
without any conflict exactly if no prefix is given two URIs, and then all policies make the same
table; and a run made again changes nothing unless the policy is to override. -/
theorem declareEach_policies (ns : Namespaces) {ds : List (String × String)}
    (hd : ∀ d ∈ ds, IsDeclaration d) :
    (ns.AcceptsEach .ignore ds ∧
      ∀ p, (ns.declareEach .ignore ds).uri? p = (ns.uri? p).or (ds.lookup p)) ∧
    (ns.AcceptsEach .override ds ∧
      ∀ p, (ns.declareEach .override ds).uri? p = (ds.reverse.lookup p).or (ns.uri? p)) ∧
    (ns.AcceptsEach .error ds ↔ ns.Consistent ds) ∧
    (ns.Consistent ds → ∀ policy, ns.declareEach policy ds = ns.declareEach .error ds) ∧
    ∀ policy, policy ≠ .override →
      (ns.declareEach policy ds).declareEach policy ds = ns.declareEach policy ds := by
  refine ⟨⟨acceptsEach_of_ne_error (by simp) hd ns, uri?_declareEach_ignore hd ns⟩,
    ⟨acceptsEach_of_ne_error (by simp) hd ns, uri?_declareEach_override hd ns⟩,
    acceptsEach_error_iff hd ns, ?_, ?_⟩
  · intro hc policy
    exact declareEach_eq_of_accepted ((acceptsEach_error_iff hd ns).2 hc) policy
  · intro policy hp
    exact declareEach_of_contains hp (contains_declareEach policy hd ns)

/-- Two pairs for one prefix around a pair for another one, in a table that has neither. -/
theorem declareEach_policies_interleaved :
    (∀ d ∈ [("a", "u"), ("b", "u"), ("a", "v")], IsDeclaration d) ∧
      (empty.declareEach .ignore [("a", "u"), ("b", "u"), ("a", "v")]).uri? "a" = some "u" ∧
      (empty.declareEach .override [("a", "u"), ("b", "u"), ("a", "v")]).uri? "a" = some "v" ∧
      ¬ empty.AcceptsEach .error [("a", "u"), ("b", "u"), ("a", "v")] := by
  have hd : ∀ d ∈ [("a", "u"), ("b", "u"), ("a", "v")], IsDeclaration d := by
    simp only [List.forall_mem_cons]
    exact ⟨rfl, rfl, rfl, by simp⟩
  obtain ⟨⟨-, hignore⟩, ⟨-, hoverride⟩, herror, -⟩ := declareEach_policies empty hd
  refine ⟨hd, (hignore "a").trans rfl, (hoverride "a").trans rfl, fun h => ?_⟩
  exact absurd (herror.1 h "a" "u" "v" (.inr (by simp)) (.inr (by simp))) (by decide)

end Cnd.Namespaces
