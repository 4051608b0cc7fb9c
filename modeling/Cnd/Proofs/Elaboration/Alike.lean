import Cnd.Proofs.Elaboration.Meaning
import Cnd.Proofs.Outline.Relabel

/-!
What clauses of other tokens mean.

Where tokens keep their signs and contents, elaborating them gives the same meaning and the same
reports, or a failure of the same kind with the same message. Only its place may be another
(`Alike`). There is one lemma per function of the elaboration, and `outline_map` says so of whole
outlines.
-/

namespace Cnd

/-! ## Failures without their places -/

/-- The sorts of failures that a caller can tell apart. -/
inductive Failure.Kind where
  | unreadable
  | scan
  | grammar
  | name
  | conflict
  | value
  | semantic
  | overflow
  | nullInPath
  deriving DecidableEq, Repr

def NameError.kind (e : NameError) : Failure.Kind := if e.isConflict then .conflict else .name

def ParseFault.kind : ParseFault → Failure.Kind
  | .unreadable _ => .unreadable
  | .scan _ => .scan
  | .grammar .. => .grammar
  | .name _ e => e.kind
  | .declaration e => e.kind
  | .conversion _ => .value
  | .constraint _ => .value
  | .secondPrimary _ => .semantic

namespace Failure

def kind : Failure → Kind
  | .parse e => e.fault.kind
  | .patternOverflow _ => .overflow
  | .nullInPath => .nullInPath

/-- The message without a place behind it. -/
def unplaced : Failure → String
  | .parse e => e.message
  | f => f.message

end Failure

/-- Outcomes that are the same but for the place of a failure. -/
inductive Alike {α : Type} : Except Failure α → Except Failure α → Prop where
  | ok (a : α) : Alike (.ok a) (.ok a)
  | error {f f' : Failure} (kind : f'.kind = f.kind) (unplaced : f'.unplaced = f.unplaced) :
    Alike (.error f') (.error f)

namespace Alike

variable {α β : Type}

theorem refl (x : Except Failure α) : Alike x x := by
  cases x with
  | ok a => exact .ok a
  | error f => exact .error rfl rfl

theorem symm {x y : Except Failure α} (h : Alike x y) : Alike y x := by
  cases h with
  | ok a => exact .ok a
  | error hk hu => exact .error hk.symm hu.symm

theorem trans {x y z : Except Failure α} (h : Alike x y) (h' : Alike y z) : Alike x z := by
  cases h with
  | ok a => exact h'
  | error hk hu =>
    cases h' with
    | error hk' hu' => exact .error (hk.trans hk') (hu.trans hu')

theorem ok_iff {x y : Except Failure α} (h : Alike x y) {a : α} : x = .ok a ↔ y = .ok a := by
  cases h with
  | ok a => rfl
  | error => simp

theorem bind {x y : Except Failure α} {g k : α → Except Failure β} (h : Alike x y)
    (hg : ∀ a, Alike (g a) (k a)) : Alike (x >>= g) (y >>= k) := by
  cases h with
  | ok a => exact hg a
  | error hk hu => exact .error hk hu

theorem map {x y : Except Failure α} (h : Alike x y) (g : α → β) : Alike (x.map g) (y.map g) := by
  cases h with
  | ok a => exact .ok (g a)
  | error hk hu => exact .error hk hu

theorem mapM {γ : Type} {f : γ → γ} {g : γ → Except Failure α}
    (h : ∀ c, Alike (g (f c)) (g c)) (l : List γ) : Alike ((l.map f).mapM g) (l.mapM g) := by
  induction l with
  | nil => exact refl _
  | cons c l ih =>
    rw [List.map_cons, List.mapM_cons, List.mapM_cons]
    exact (h c).bind fun _ => ih.bind fun _ => refl _

end Alike

namespace Elaboration

/-- Results that are the same but for the place of a failure. -/
def Result.Alike {α : Type} (r r' : Result α) : Prop :=
  r.events = r'.events ∧ Cnd.Alike r.outcome r'.outcome

theorem Result.Alike.symm {α : Type} {r r' : Result α} (h : r.Alike r') : r'.Alike r :=
  ⟨h.1.symm, h.2.symm⟩

theorem Result.Alike.trans {α : Type} {r r' r'' : Result α} (h : r.Alike r') (h' : r'.Alike r'') :
    r.Alike r'' :=
  ⟨h.1.trans h'.1, h.2.trans h'.2⟩

/-- A fault that says the same of two tokens, at each of them. -/
theorem alike_fault {α : Type} (source : Option String) {t t' : Token} {e e' : ParseFault}
    (hk : e'.kind = e.kind) (hm : e'.message = e.message) :
    Alike (.error (fault source t' e') : Except Failure α) (.error (fault source t e)) :=
  .error hk hm

/-! ## Clauses in place of others -/

/-- Clauses that are elaborated alike in every table. -/
inductive SameClause (source : Option String) : Clause → Clause → Prop
  | binding {c c' : NamespaceClause} (hp : c'.pfx = c.pfx) (hu : c'.uri = c.uri) :
      SameClause source (.binding c') (.binding c)
  | nodeType {c c' : TypeClause}
      (h : ∀ ns, Alike (nodeType source ns c') (nodeType source ns c)) :
      SameClause source (.nodeType c') (.nodeType c)

/-- Endings that fail alike if they do, the scans of the two texts being what they are. -/
inductive SameEnding (source : Option String) (scan' scan : Option ScanError) :
    OutlineEnd → OutlineEnd → Prop
  | complete : SameEnding source scan' scan .complete .complete
  | broken {c c' : Option TypeClause} {b b' : Break}
      (hc : Option.Rel (fun c' c => SameClause source (.nodeType c') (.nodeType c)) c' c)
      (kind : (breakFailure source scan' b').kind = (breakFailure source scan b).kind)
      (unplaced : (breakFailure source scan' b').unplaced = (breakFailure source scan b).unplaced) :
      SameEnding source scan' scan (.broken c' b') (.broken c b)

section

variable {source : Option String} {cs cs' : List Clause}

theorem breakFailure_congr (source : Option String) {scan scan' : Option ScanError}
    (h : scan'.map (·.fault) = scan.map (·.fault)) (b : Break) :
    (breakFailure source scan' b).kind = (breakFailure source scan b).kind ∧
      (breakFailure source scan' b).unplaced = (breakFailure source scan b).unplaced := by
  cases b with
  | grammar f t => exact ⟨rfl, rfl⟩
  | scan =>
    cases scan with
    | none =>
      obtain rfl := Option.map_eq_none_iff.1 h
      exact ⟨rfl, rfl⟩
    | some e =>
      obtain ⟨e', rfl, he⟩ := Option.map_eq_some_iff.1 h
      exact ⟨rfl, congrArg ScanFault.message he⟩

theorem SameClause.refl (c : Clause) : SameClause source c c := by
  cases c with
  | binding c => exact .binding rfl rfl
  | nodeType c => exact .nodeType fun _ => .refl _

theorem SameEnding.refl {scan scan' : Option ScanError}
    (h : scan'.map (·.fault) = scan.map (·.fault)) (e : OutlineEnd) :
    SameEnding source scan' scan e e := by
  cases e with
  | complete => exact .complete
  | broken c b =>
    obtain ⟨hk, hu⟩ := breakFailure_congr source h b
    cases c with
    | none => exact .broken .none hk hu
    | some c => exact .broken (.some (.refl _)) hk hu

theorem clauses_congr (policy : ConflictPolicy) (h : List.Forall₂ (SameClause source) cs' cs)
    (ns : Namespaces) : (clauses source policy cs' ns).Alike (clauses source policy cs ns) := by
  induction h generalizing ns with
  | nil => exact ⟨rfl, .refl _⟩
  | @cons c' c cs' cs hc _ ih =>
    cases hc with
    | @binding c c' hp hu =>
      simp only [clauses, hp, hu]
      cases ns.declare policy c.pfx c.uri with
      | error e => exact ⟨rfl, alike_fault source rfl rfl⟩
      | ok declared =>
        obtain ⟨hevents, houtcome⟩ := ih declared.1
        exact ⟨congrArg (_ ++ ·) hevents, houtcome⟩
    | @nodeType c c' hc =>
      have hc := hc ns
      simp only [clauses]
      generalize nodeType source ns c' = x at hc
      generalize nodeType source ns c = y at hc
      cases hc with
      | error hk hu => exact ⟨rfl, .error hk hu⟩
      | ok t =>
        obtain ⟨hevents, houtcome⟩ := ih ns
        exact ⟨congrArg (_ :: ·) hevents, houtcome.map _⟩

/-- Outlines of clauses that are elaborated alike mean the same, and fail in the same way. -/
theorem outline_congr (policy : ConflictPolicy) {scan scan' : Option ScanError}
    {ending ending' : OutlineEnd} (h : List.Forall₂ (SameClause source) cs' cs)
    (he : SameEnding source scan' scan ending' ending) (ns : Namespaces) :
    (outline source policy scan' ⟨cs', ending'⟩ ns).Alike
      (outline source policy scan ⟨cs, ending⟩ ns) := by
  obtain ⟨hevents, houtcome⟩ := clauses_congr policy h ns
  simp only [outline]
  generalize clauses source policy cs' ns = r at hevents houtcome
  generalize clauses source policy cs ns = r' at hevents houtcome
  obtain ⟨events, outcome⟩ := r
  obtain ⟨events', outcome'⟩ := r'
  obtain rfl : events = events' := hevents
  cases houtcome with
  | error hk hu => exact ⟨rfl, .error hk hu⟩
  | ok done =>
    cases he with
    | complete => exact ⟨rfl, .ok done⟩
    | @broken _ _ b b' hc hk hu =>
      cases hc with
      | none => exact ⟨rfl, .error hk hu⟩
      | @some c' c hc =>
        obtain _ | ⟨hc⟩ := hc
        have hc := hc done.2
        simp only
        generalize nodeType source done.2 c' = x at hc
        generalize nodeType source done.2 c = y at hc
        cases hc with
        | error hk' hu' => exact ⟨rfl, .error hk' hu'⟩
        | ok t => exact ⟨rfl, .error hk hu⟩

end

section

variable {f : Token → Token} (hf : Token.Keeps f) {source : Option String} {ns : Namespaces}

include hf

theorem textOf_map (t : Token) : textOf (f t) = textOf t := by
  rw [textOf, hf.text, textOf]

/-! ## Members -/

theorem name_map (t : Token) : Alike (name source ns (f t)) (name source ns t) := by
  unfold name
  rw [textOf_map hf]
  cases ns.resolve (textOf t) with
  | ok n => exact .ok n
  | error e => exact alike_fault source rfl rfl

theorem itemName_map (i : ItemName) :
    Alike (itemName source ns (i.map f)) (itemName source ns i) := by
  cases i with
  | wildcard => exact .refl _
  | named t => exact name_map hf t

theorem defaultValue_map (type : PropertyType) (t : Token) :
    Alike (defaultValue source ns type (f t)) (defaultValue source ns type t) := by
  unfold defaultValue
  rw [textOf_map hf]
  cases Value.convert ns type (textOf t) with
  | ok v => exact .ok v
  | error e => exact alike_fault source rfl rfl

theorem constraint_map (type : PropertyType) (t : Token) :
    Alike (constraint source ns type (f t)) (constraint source ns type t) := by
  unfold constraint
  rw [textOf_map hf]
  cases Constraint.read ns type (textOf t) with
  | ok c => exact .ok c
  | error e =>
    cases h : e.overflow? with
    | none => simpa only [h] using alike_fault source rfl rfl
    | some o => simpa only [h] using .error rfl rfl

omit hf in
theorem marks_map (typeName : String) (item : Name) (ms : List (Token × Mark))
    (a : ItemAttributes) (primary : Option Name) :
    Alike (marks source typeName item (Mark.mapAll f ms) a primary)
      (marks source typeName item ms a primary) := by
  induction ms generalizing a primary with
  | nil => exact .refl _
  | cons e ms ih =>
    obtain ⟨t, k | v⟩ := e
    · cases k with
      | isPrimary =>
        simp only [Mark.mapAll, List.map_cons, marks] at ih ⊢
        split
        · exact alike_fault source rfl rfl
        · exact ih _ _
      | isAutocreated | isMandatory | isProtected | isMultiple => exact ih _ _
    · exact ih _ _

theorem property_map (owner : Name) (primary : Option Name) (c : PropertyClause) :
    Alike (property source ns owner primary (c.map f)) (property source ns owner primary c) :=
  (itemName_map hf c.name).bind fun _ =>
    (Alike.mapM (defaultValue_map hf c.type) c.defaults).bind fun _ =>
      (marks_map _ _ c.marks {} primary).bind fun _ =>
        (Alike.mapM (constraint_map hf c.type) c.constraints).bind fun _ => .refl _

theorem defaultType_map (t : Option Token) :
    Alike ((t.map f).mapM (name source ns)) (t.mapM (name source ns)) := by
  cases t with
  | none => exact .refl _
  | some t => exact (name_map hf t).map some

theorem child_map (owner : Name) (primary : Option Name) (c : ChildClause) :
    Alike (child source ns owner primary (c.map f)) (child source ns owner primary c) := by
  obtain ⟨name, required, type, ms⟩ := c
  refine (itemName_map hf name).bind fun n => ?_
  cases required with
  | none =>
    exact (defaultType_map hf type).bind fun _ =>
      (marks_map _ _ ms {} primary).bind fun _ => .refl _
  | some ts =>
    exact (Alike.mapM (name_map hf) ts).bind fun _ =>
      (defaultType_map hf type).bind fun _ =>
        (marks_map _ _ ms {} primary).bind fun _ => .refl _

theorem members_map (owner : Name) (cs : List MemberClause) (m : Members) :
    Alike (members source ns owner (cs.map (.map f)) m) (members source ns owner cs m) := by
  induction cs generalizing m with
  | nil => exact .refl _
  | cons c cs ih =>
    cases c with
    | property c => exact (property_map hf owner m.primary c).bind fun _ => ih _
    | child c => exact (child_map hf owner m.primary c).bind fun _ => ih _

/-! ## Clauses -/

theorem nodeType_map (c : TypeClause) :
    Alike (nodeType source ns (c.map f)) (nodeType source ns c) :=
  (name_map hf c.name).bind fun n =>
    (Alike.mapM (name_map hf) c.supertypes).bind fun _ =>
      (members_map hf n c.members _).bind fun _ => .refl _

theorem breakFailure_map (source : Option String) (scan : Option ScanError) (b : Break) :
    (breakFailure source scan (b.map f)).kind = (breakFailure source scan b).kind ∧
      (breakFailure source scan (b.map f)).unplaced = (breakFailure source scan b).unplaced := by
  cases b with
  | scan => exact ⟨rfl, rfl⟩
  | grammar e found =>
    have hd : (f found).describe = found.describe := by
      rw [← Token.describe_bare, hf.bare, Token.describe_bare]
    have hm : e.message (f found) = e.message found := by
      unfold GrammarFault.message
      rw [hd]
    exact ⟨rfl, hm⟩

theorem sameClause_map (c : Clause) : SameClause source (c.map f) c := by
  cases c with
  | binding c => exact .binding rfl rfl
  | nodeType c => exact .nodeType fun _ => nodeType_map hf c

theorem sameEnding_map (scan : Option ScanError) (e : OutlineEnd) :
    SameEnding source scan scan (e.map f) e := by
  cases e with
  | complete => exact .complete
  | broken c b =>
    obtain ⟨hk, hu⟩ := breakFailure_map hf source scan b
    cases c with
    | none => exact .broken .none hk hu
    | some c => exact .broken (.some (sameClause_map hf (.nodeType c))) hk hu

theorem clauses_map (policy : ConflictPolicy) (cs : List Clause) (ns : Namespaces) :
    (clauses source policy (cs.map (.map f)) ns).Alike (clauses source policy cs ns) :=
  clauses_congr policy (List.forall₂_map_left_iff.2
    (List.forall₂_same.2 fun c _ => sameClause_map hf c)) ns

/-- **Relabelled outlines mean the same**, and fail in the same way. -/
theorem outline_map (policy : ConflictPolicy) (scan : Option ScanError) (o : Outline)
    (ns : Namespaces) :
    (outline source policy scan (o.map f) ns).Alike (outline source policy scan o ns) :=
  outline_congr policy (List.forall₂_map_left_iff.2
    (List.forall₂_same.2 fun c _ => sameClause_map hf c)) (sameEnding_map hf scan o.ending) ns

end

end Elaboration

/-- Clauses of other tokens have the same meaning, if they have one. -/
theorem Meaning.means_map {f : Token → Token} (hf : Token.Keeps f) {policy : ConflictPolicy}
    {ns last : Namespaces} {cs : List Clause} {ts : List NodeType}
    (h : Means policy ns cs ts last) : Means policy ns (cs.map (.map f)) ts last := by
  rw [← clauses_eq_ok none] at h ⊢
  exact (Elaboration.clauses_map hf policy cs ns).2.ok_iff.2 h

end Cnd
