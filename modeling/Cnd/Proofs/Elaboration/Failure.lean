import Cnd.Proofs.Constraint
import Cnd.Proofs.Elaboration.Meaning

/-!
Where elaborating a text fails, and which failures are no errors of that text.

An outline fails at its first clause that fails, all in front of it meaning something, or at its
break (`failsAt_or_broken`). Only a constraint can be passed on as another failure than an error, so
such a failure is met where everything in front of that constraint means something. `Cut` says what
is in front of it in a node type, and `PassesOn` in a text.
-/

namespace Cnd

/-- An error of a text or a file. -/
def Failure.IsParse (f : Failure) : Prop := ∃ e, f = .parse e

namespace Meaning

open Elaboration (textOf)

/-- What reading a constraint passes on as it is. -/
def IsPassedOn (type : PropertyType) (t : Token) (f : Failure) : Prop :=
  ∃ o, Constraint.Overflows type (textOf t) o ∧ f = .patternOverflow o

/-- The members of a node type in front of a constraint that is passed on, and what is in front of
it in its own property. -/
inductive Cut (f : Failure) : List MemberClause → List MemberClause → Prop where
  | here {p : PropertyClause} {ks rest : List Token} {t : Token} {ms : List MemberClause}
      (hk : p.constraints = ks ++ t :: rest) (h : IsPassedOn p.type t f) :
      Cut f (.property p :: ms) [.property { p with constraints := ks }]
  | later {m : MemberClause} {ms front : List MemberClause} (h : Cut f ms front) :
      Cut f (m :: ms) (m :: front)

/-- A node type in which a constraint is passed on, and what is in front of it means something. -/
def TypePassesOn (ns : Namespaces) (c : TypeClause) (f : Failure) : Prop :=
  ∃ front t, Cut f c.members front ∧ IsNodeType ns { c with members := front } t

/-- Clauses in which a constraint is passed on, and what is in front of it means something. -/
def PassesOn (policy : ConflictPolicy) (ns : Namespaces) (cs : List Clause) (f : Failure) : Prop :=
  ∃ before c behind ts ns', cs = before ++ .nodeType c :: behind ∧
    Means policy ns before ts ns' ∧ TypePassesOn ns' c f

/-! ## Items -/

theorem name_error {source : Option String} {ns : Namespaces} {t : Token} {f : Failure}
    (h : Elaboration.name source ns t = .error f) : f.IsParse := by
  unfold Elaboration.name at h
  split at h
  · simp at h
  · exact ⟨_, (Except.error.inj h).symm⟩

theorem itemName_error {source : Option String} {ns : Namespaces} {i : ItemName} {f : Failure}
    (h : Elaboration.itemName source ns i = .error f) : f.IsParse := by
  cases i with
  | wildcard => simp [Elaboration.itemName] at h
  | named t => exact name_error h

theorem names_error {source : Option String} {ns : Namespaces} {ts : List Token} {f : Failure}
    (h : ts.mapM (Elaboration.name source ns) = .error f) : f.IsParse := by
  obtain ⟨_, t, _, _, -, -, ht⟩ := mapM_eq_error.1 h
  exact name_error ht

theorem defaultType_error {source : Option String} {ns : Namespaces} {t : Option Token}
    {f : Failure} (h : t.mapM (Elaboration.name source ns) = .error f) : f.IsParse := by
  cases t with
  | none => exact absurd h pure_ne_error
  | some t =>
    simp only [Option.mapM_some, Functor.map, map_eq_error] at h
    exact name_error h

theorem defaultValues_error {source : Option String} {ns : Namespaces} {type : PropertyType}
    {ts : List Token} {f : Failure}
    (h : ts.mapM (Elaboration.defaultValue source ns type) = .error f) : f.IsParse := by
  obtain ⟨_, t, _, _, -, -, ht⟩ := mapM_eq_error.1 h
  unfold Elaboration.defaultValue at ht
  split at ht
  · simp at ht
  · exact ⟨_, (Except.error.inj ht).symm⟩

theorem marks_error {source : Option String} {owner : String} {item : Name}
    {ms : List (Token × Mark)} {a : ItemAttributes} {primary : Option Name} {f : Failure}
    (h : Elaboration.marks source owner item ms a primary = .error f) : f.IsParse := by
  fun_induction Elaboration.marks source owner item ms a primary with
  | case1 => simp at h
  | case2 => exact ⟨_, (Except.error.inj h).symm⟩
  | case3 _ _ _ _ _ ih => exact ih h
  | case4 _ _ _ _ _ _ ih => exact ih h
  | case5 _ _ _ _ _ ih => exact ih h

theorem constraint_eq_error {source : Option String} {ns : Namespaces} {type : PropertyType}
    {t : Token} {f : Failure} (hf : ¬ f.IsParse) :
    Elaboration.constraint source ns type t = .error f ↔ IsPassedOn type t f := by
  unfold Elaboration.constraint
  constructor
  · intro h
    split at h
    · simp at h
    · rename_i e he
      split at h
      · rename_i o ho
        exact ⟨o, (Constraint.read_overflow_iff ns).1 ⟨e, he, ho⟩, (Except.error.inj h).symm⟩
      · exact absurd ⟨_, (Except.error.inj h).symm⟩ hf
  · rintro ⟨o, ho, rfl⟩
    obtain ⟨e, he, ho⟩ := (Constraint.read_overflow_iff ns).2 ho
    simp [he, ho]

/-! ## Members -/

/-- The constraints of a property are read last, so a cut property has all but some of them. -/
theorem property_eq_error {source : Option String} {ns : Namespaces} {owner : Name}
    {primary : Option Name} {c : PropertyClause} {f : Failure} (hf : ¬ f.IsParse) :
    Elaboration.property source ns owner primary c = .error f ↔
      ∃ ks t rest r, c.constraints = ks ++ t :: rest ∧ IsPassedOn c.type t f ∧
        Elaboration.property source ns owner primary { c with constraints := ks } = .ok r := by
  unfold Elaboration.property
  simp only [bind_eq_error, bind_eq_ok, pure_eq_ok]
  constructor
  · rintro (h | ⟨n, hn, h | ⟨ds, hds, h | ⟨⟨a, q⟩, ha, h | ⟨_, -, h⟩⟩⟩⟩)
    · exact absurd (itemName_error h) hf
    · exact absurd (defaultValues_error h) hf
    · exact absurd (marks_error h) hf
    · obtain ⟨ks, t, rest, r, hk, hr, ht⟩ := mapM_eq_error.1 h
      exact ⟨ks, t, rest, _, hk, (constraint_eq_error hf).1 ht, n, hn, ds, hds, _, ha, r, hr, rfl⟩
    · exact absurd h pure_ne_error
  · rintro ⟨ks, t, rest, _, hk, ht, n, hn, ds, hds, ⟨a, q⟩, ha, r, hr, -⟩
    have := mapM_eq_error.2 ⟨ks, t, rest, r, hk, hr, (constraint_eq_error hf).2 ht⟩
    exact .inr ⟨n, hn, .inr ⟨ds, hds, .inr ⟨_, ha, .inl this⟩⟩⟩

/-- The steps of elaborating a child node one behind the other. -/
theorem child_eq {source : Option String} {ns : Namespaces} {owner : Name}
    {primary : Option Name} {c : ChildClause} :
    Elaboration.child source ns owner primary c =
      (Elaboration.itemName source ns c.name >>= fun n =>
        c.requiredTypes.elim (pure [Name.base]) (·.mapM (Elaboration.name source ns)) >>=
          fun required => c.defaultType.mapM (Elaboration.name source ns) >>= fun type =>
            Elaboration.marks source (ns.render owner) n c.marks {} primary >>= fun marked =>
              pure (⟨n, owner, required, type, marked.1⟩, marked.2)) := by
  obtain ⟨name, _ | ts, type, ms⟩ := c <;> rfl

theorem child_error {source : Option String} {ns : Namespaces} {owner : Name}
    {primary : Option Name} {c : ChildClause} {f : Failure}
    (h : Elaboration.child source ns owner primary c = .error f) : f.IsParse := by
  rw [child_eq] at h
  simp only [bind_eq_error] at h
  rcases h with h | ⟨_, -, h | ⟨_, -, h | ⟨_, -, h | ⟨_, -, h⟩⟩⟩⟩
  · exact itemName_error h
  · cases hc : c.requiredTypes with
    | none =>
      rw [hc] at h
      exact absurd h pure_ne_error
    | some ts =>
      rw [hc] at h
      exact names_error h
  · exact defaultType_error h
  · exact marks_error h
  · exact absurd h pure_ne_error

theorem members_eq_error {source : Option String} {ns : Namespaces} {owner : Name}
    {ms : List MemberClause} {acc : Elaboration.Members} {f : Failure} (hf : ¬ f.IsParse) :
    Elaboration.members source ns owner ms acc = .error f ↔
      ∃ front res, Cut f ms front ∧ Elaboration.members source ns owner front acc = .ok res := by
  induction ms generalizing acc with
  | nil =>
    simp only [Elaboration.members, reduceCtorEq, false_iff]
    rintro ⟨front, res, h, -⟩
    cases h
  | cons m ms ih =>
    cases m with
    | property c =>
      simp only [Elaboration.members, bind_eq_error, property_eq_error hf, ih]
      constructor
      · rintro (⟨ks, t, rest, r, hk, ht, hp⟩ | ⟨r, hp, front, res, hcut, hres⟩)
        · exact ⟨_, _, .here hk ht, bind_eq_ok.2 ⟨r, hp, rfl⟩⟩
        · exact ⟨_, res, .later hcut, bind_eq_ok.2 ⟨r, hp, hres⟩⟩
      · rintro ⟨front, res, hcut, hres⟩
        cases hcut with
        | here hk ht =>
          obtain ⟨r, hp, -⟩ := bind_eq_ok.1 hres
          exact .inl ⟨_, _, _, r, hk, ht, hp⟩
        | later hcut =>
          obtain ⟨r, hp, hres⟩ := bind_eq_ok.1 hres
          exact .inr ⟨r, hp, _, res, hcut, hres⟩
    | child c =>
      simp only [Elaboration.members, bind_eq_error, ih]
      constructor
      · rintro (h | ⟨r, hc, front, res, hcut, hres⟩)
        · exact absurd (child_error h) hf
        · exact ⟨_, res, .later hcut, bind_eq_ok.2 ⟨r, hc, hres⟩⟩
      · rintro ⟨front, res, hcut, hres⟩
        cases hcut with
        | later hcut =>
          obtain ⟨r, hc, hres⟩ := bind_eq_ok.1 hres
          exact .inr ⟨r, hc, _, res, hcut, hres⟩

/-! ## Clauses -/

theorem nodeType_eq_error {source : Option String} {ns : Namespaces} {c : TypeClause} {f : Failure}
    (hf : ¬ f.IsParse) :
    Elaboration.nodeType source ns c = .error f ↔ TypePassesOn ns c f := by
  simp only [TypePassesOn, ← nodeType_eq_ok source]
  unfold Elaboration.nodeType
  simp only [bind_eq_error, bind_eq_ok, pure_eq_ok, members_eq_error hf]
  constructor
  · rintro (h | ⟨n, hn, h | ⟨supers, hs, ⟨front, res, hcut, hres⟩ | ⟨_, -, h⟩⟩⟩)
    · exact absurd (name_error h) hf
    · exact absurd (names_error h) hf
    · exact ⟨front, _, hcut, n, hn, supers, hs, res, hres, rfl⟩
    · exact absurd h pure_ne_error
  · rintro ⟨front, t, hcut, n, hn, supers, hs, res, hres, -⟩
    exact .inr ⟨n, hn, .inr ⟨supers, hs, .inl ⟨front, res, hcut, hres⟩⟩⟩

/-- A clause that fails in a table: a binding that is refused, or a node type that fails. -/
inductive ClauseFails (source : Option String) (policy : ConflictPolicy) (ns : Namespaces) :
    Clause → Failure → Prop
  | binding {c : NamespaceClause} {e : NameError} (h : ns.declare policy c.pfx c.uri = .error e) :
      ClauseFails source policy ns (.binding c)
        (Elaboration.fault source c.opening (.declaration e))
  | nodeType {c : TypeClause} {f : Failure} (h : Elaboration.nodeType source ns c = .error f) :
      ClauseFails source policy ns (.nodeType c) f

/-- Clauses of which one fails, and all in front of it mean something. -/
def FailsAt (source : Option String) (policy : ConflictPolicy) (ns : Namespaces)
    (cs : List Clause) (f : Failure) : Prop :=
  ∃ before c behind ts ns', cs = before ++ c :: behind ∧ Means policy ns before ts ns' ∧
    ClauseFails source policy ns' c f

section

variable {source : Option String} {policy : ConflictPolicy} {ns : Namespaces} {f : Failure}

/-- One clause more in front: it fails, or it means something and what fails is behind it. -/
theorem failsAt_cons {c : Clause} {cs : List Clause} :
    FailsAt source policy ns (c :: cs) f ↔
      ClauseFails source policy ns c f ∨
        ∃ ts ns', Means policy ns [c] ts ns' ∧ FailsAt source policy ns' cs f := by
  constructor
  · rintro ⟨before, d, behind, ts, last, hcs, hm, hf⟩
    cases hm with
    | none =>
      obtain ⟨rfl, -⟩ := List.cons.inj hcs
      exact .inl hf
    | binding hd hr =>
      obtain ⟨rfl, rfl⟩ := List.cons.inj hcs
      exact .inr ⟨_, _, .binding hd .none, _, d, behind, _, last, rfl, hr, hf⟩
    | nodeType hn hr =>
      obtain ⟨rfl, rfl⟩ := List.cons.inj hcs
      exact .inr ⟨_, _, .nodeType hn .none, _, d, behind, _, last, rfl, hr, hf⟩
  · rintro (hf | ⟨_, _, hc, before, d, behind, ts, last, rfl, hm, hf⟩)
    · exact ⟨[], c, cs, [], ns, rfl, .none, hf⟩
    · cases hc with
      | binding hd hr =>
        cases hr
        exact ⟨_ :: before, d, behind, ts, last, rfl, .binding hd hm, hf⟩
      | nodeType hn hr =>
        cases hr
        exact ⟨_ :: before, d, behind, _, last, rfl, .nodeType hn hm, hf⟩

theorem clauses_eq_error {cs : List Clause} :
    (Elaboration.clauses source policy cs ns).outcome = .error f ↔
      FailsAt source policy ns cs f := by
  induction cs generalizing ns with
  | nil =>
    simp only [Elaboration.clauses, reduceCtorEq, false_iff]
    rintro ⟨before, c, behind, ts, ns', h, -⟩
    simp at h
  | cons c cs ih =>
    rw [failsAt_cons]
    cases c with
    | binding c =>
      simp only [Elaboration.clauses]
      constructor
      · intro h
        split at h
        · rename_i hd
          obtain rfl := Except.error.inj h
          exact .inl (.binding hd)
        · rename_i hd
          exact .inr ⟨_, _, .binding hd .none, ih.1 h⟩
      · rintro (hf | ⟨_, _, hm, hf⟩)
        · cases hf with
          | binding hd => rw [hd]
        · obtain _ | ⟨hd, ⟨⟩⟩ | _ := hm
          rw [hd]
          exact ih.2 hf
    | nodeType c =>
      simp only [Elaboration.clauses]
      constructor
      · intro h
        split at h
        · rename_i hn
          obtain rfl := Except.error.inj h
          exact .inl (.nodeType hn)
        · rename_i hn
          exact .inr ⟨_, _, .nodeType ((nodeType_eq_ok source).1 hn) .none, ih.1 (map_eq_error.1 h)⟩
      · rintro (hf | ⟨_, _, hm, hf⟩)
        · cases hf with
          | nodeType hn => rw [hn]
        · obtain _ | _ | ⟨hn, ⟨⟩⟩ := hm
          rw [(nodeType_eq_ok source).2 hn]
          exact map_eq_error.2 (ih.2 hf)

/-- One clause more at the end: what fails is in front of it, or it is this clause. -/
theorem failsAt_concat {cs : List Clause} {c : Clause} :
    FailsAt source policy ns (cs ++ [c]) f ↔
      FailsAt source policy ns cs f ∨
        ∃ ts ns', Means policy ns cs ts ns' ∧ ClauseFails source policy ns' c f := by
  constructor
  · rintro ⟨before, d, behind, ts, last, hcs, hm, hf⟩
    rcases List.eq_nil_or_concat behind with rfl | ⟨behind, e, rfl⟩
    · obtain ⟨rfl, hd⟩ := List.append_inj' hcs rfl
      obtain ⟨rfl, -⟩ := List.cons.inj hd
      exact .inr ⟨ts, last, hm, hf⟩
    · rw [List.concat_eq_append, ← List.cons_append, ← List.append_assoc] at hcs
      obtain ⟨rfl, -⟩ := List.append_inj' hcs rfl
      exact .inl ⟨before, d, behind, ts, last, rfl, hm, hf⟩
  · rintro (⟨before, d, behind, ts, last, rfl, hm, hf⟩ | ⟨ts, last, hm, hf⟩)
    · exact ⟨before, d, behind ++ [c], ts, last, by simp, hm, hf⟩
    · exact ⟨cs, c, [], ts, last, rfl, hm, hf⟩

/-- A failure that is no error of the text is that of a node type. -/
theorem failsAt_iff_passesOn (source : Option String) {cs : List Clause} (hf : ¬ f.IsParse) :
    FailsAt source policy ns cs f ↔ PassesOn policy ns cs f := by
  constructor
  · rintro ⟨before, c, behind, ts, ns', hcs, hm, hc⟩
    cases hc with
    | binding _ => exact absurd ⟨_, rfl⟩ hf
    | nodeType hn => exact ⟨before, _, behind, ts, ns', hcs, hm, (nodeType_eq_error hf).1 hn⟩
  · rintro ⟨before, c, behind, ts, ns', hcs, hm, hc⟩
    exact ⟨before, .nodeType c, behind, ts, ns', hcs, hm, .nodeType ((nodeType_eq_error hf).2 hc)⟩

end

end Meaning

/-- The clauses of an outline, with the node type that a break leaves unfinished. -/
def Outline.begun (o : Outline) : List Clause :=
  match o.ending with
  | .broken (some c) _ => o.clauses ++ [.nodeType c]
  | _ => o.clauses

namespace Meaning

section

variable {source : Option String} {policy : ConflictPolicy} {ns : Namespaces} {f : Failure}
  {scan : Option ScanError} {o : Outline}

theorem outline_of_failsAt (h : FailsAt source policy ns o.begun f) :
    (Elaboration.outline source policy scan o ns).outcome = .error f := by
  obtain ⟨cs, ending⟩ := o
  have hclauses : FailsAt source policy ns cs f →
      (Elaboration.outline source policy scan ⟨cs, ending⟩ ns).outcome = .error f := by
    intro h
    simp only [Elaboration.outline, clauses_eq_error.2 h]
  cases ending with
  | complete => exact hclauses h
  | broken c b =>
    cases c with
    | none => exact hclauses h
    | some c =>
      rcases failsAt_concat.1 h with h | ⟨ts, ns', hm, hc⟩
      · exact hclauses h
      · cases hc with
        | nodeType hn => simp only [Elaboration.outline, (clauses_eq_ok source).2 hm, hn]

/-- An outline fails where one of its clauses does, the unfinished node type included, or else at
its break. -/
theorem failsAt_or_broken (h : (Elaboration.outline source policy scan o ns).outcome = .error f) :
    FailsAt source policy ns o.begun f ∨
      ∃ c b, o.ending = .broken c b ∧ Elaboration.breakFailure source scan b = f := by
  obtain ⟨cs, ending⟩ := o
  unfold Elaboration.outline at h
  cases hc : (Elaboration.clauses source policy cs ns).outcome with
  | error e =>
    simp only [hc] at h
    obtain rfl := Except.error.inj h
    have hcs := clauses_eq_error.1 hc
    cases ending with
    | complete => exact .inl hcs
    | broken c b =>
      cases c with
      | none => exact .inl hcs
      | some c => exact .inl (failsAt_concat.2 (.inl hcs))
  | ok done =>
    obtain ⟨ts, ns'⟩ := done
    cases ending with
    | complete => simp [hc] at h
    | broken c b =>
      cases c with
      | none =>
        simp only [hc] at h
        exact .inr ⟨none, b, rfl, Except.error.inj h⟩
      | some c =>
        simp only [hc] at h
        split at h
        · rename_i e he
          obtain rfl := Except.error.inj h
          have hm := (clauses_eq_ok source).1 hc
          exact .inl (failsAt_concat.2 (.inr ⟨ts, ns', hm, .nodeType he⟩))
        · exact .inr ⟨some c, b, rfl, Except.error.inj h⟩

theorem breakFailure_isParse (source : Option String) (scan : Option ScanError) (b : Break) :
    (Elaboration.breakFailure source scan b).IsParse := by
  cases b with
  | scan => cases scan with
    | none => exact ⟨_, rfl⟩
    | some e => exact ⟨_, rfl⟩
  | grammar f t => exact ⟨_, rfl⟩

/-- Elaborating an outline passes on a failure just if its clauses do. -/
theorem outline_eq_error (hf : ¬ f.IsParse) :
    (Elaboration.outline source policy scan o ns).outcome = .error f ↔
      PassesOn policy ns o.begun f := by
  rw [← failsAt_iff_passesOn source hf]
  constructor
  · intro h
    rcases failsAt_or_broken h with h | ⟨c, b, -, hb⟩
    · exact h
    · rw [← hb] at hf
      exact absurd (breakFailure_isParse source scan b) hf
  · exact outline_of_failsAt

end

end Meaning

end Cnd
