import Cnd.Proofs.Elaboration.Alike
import Cnd.Proofs.Reading.Exact
import Cnd.Proofs.Token.Join

/-!
Reading two texts as one.

A second text below a first one is read as if it were read next, from the table that the first one
leaves. There is one exception, `Captures`: where the first text ends with a property without
constraints and the second one begins with a binding, the angle bracket of the binding is taken to
begin constraints, and the text as a whole is refused.
-/

namespace Cnd

/-! ## Derivations of joined texts -/

namespace Grammar

open Outline (looksAt endsOpen binding_cons nodeType_cons endsOpen_cons)

theorem looksAt_append {c : Char} {s r : List Token} (h : s ≠ []) :
    looksAt c (s ++ r) = looksAt c s := by
  cases s with
  | nil => exact absurd rfl h
  | cons t s => rfl

theorem document_nil {cs : List Clause} (h : Document [] cs) : cs = [] := by
  generalize hs : ([] : List Token) = s at h
  cases h with
  | none => rfl
  | binding hb _ =>
    have := binding_cons hb []
    rw [List.append_nil, (List.append_eq_nil_iff.1 hs.symm).1] at this
    simp at this
  | nodeType hn _ _ =>
    have := nodeType_cons hn []
    rw [List.append_nil, (List.append_eq_nil_iff.1 hs.symm).1] at this
    simp at this

/-- Two texts in a row are a text, unless an angle bracket stands behind an open property. -/
theorem document_append {s r : List Token} {cs ds : List Clause} (h : Document s cs)
    (hr : Document r ds) (ho : endsOpen cs = true → looksAt '<' r = false) :
    Document (s ++ r) (cs ++ ds) := by
  induction h with
  | none => exact hr
  | @binding s s' c cs hb hd ih =>
    rw [List.append_assoc]
    exact .binding hb (ih fun h => ho (endsOpen_cons h))
  | @nodeType s s' c cs hn hd hopen ih =>
    rw [List.append_assoc]
    refine .nodeType hn (ih fun h => ho (endsOpen_cons h)) fun hc => ?_
    by_cases hs : s' = []
    · subst hs
      obtain rfl := document_nil hd
      exact ho (by simpa [endsOpen] using hc)
    · rw [looksAt_append hs]
      exact hopen hc

/-- A text whose last clause is a node type, taken apart in front of that. -/
theorem document_concat {s : List Token} {cs : List Clause} {c : TypeClause}
    (h : Document s (cs ++ [.nodeType c])) :
    ∃ s₁ s₂, s = s₁ ++ s₂ ∧ Document s₁ cs ∧ NodeType s₂ c := by
  generalize hd : cs ++ [Clause.nodeType c] = ds at h
  induction h generalizing cs with
  | none => simp at hd
  | @binding s r b ds hb _ ih =>
    cases cs with
    | nil => simp at hd
    | cons d cs =>
      obtain ⟨rfl, htail⟩ := List.cons.inj hd
      obtain ⟨s₁, s₂, rfl, h₁, h₂⟩ := ih htail
      exact ⟨s ++ s₁, s₂, by simp, .binding hb h₁, h₂⟩
  | @nodeType s r c' ds hn hr ho ih =>
    cases cs with
    | nil =>
      obtain ⟨hc, hds⟩ := List.cons.inj hd
      obtain rfl := Clause.nodeType.inj hc
      subst hds
      generalize hds : ([] : List Clause) = ds at hr
      cases hr with
      | none => exact ⟨[], s, by simp, .none, hn⟩
      | binding _ _ => simp at hds
      | nodeType _ _ _ => simp at hds
    | cons d cs =>
      obtain ⟨rfl, htail⟩ := List.cons.inj hd
      obtain ⟨s₁, s₂, rfl, h₁, h₂⟩ := ih htail
      refine ⟨s ++ s₁, s₂, by simp, .nodeType hn h₁ fun h => ?_, h₂⟩
      by_cases hs : s₁ = []
      · simp [hs]
      · rw [← looksAt_append hs]
        exact ho h

/-- Constraints behind an open property are its own. -/
theorem members_capture {s k ks : List Token} {ms : List MemberClause} (h : Members s ms)
    (ho : ms.getLast?.any (·.isOpen) = true) (hk : TextsAfter '<' k ks) :
    ∃ ms' p, Members (s ++ k) (ms' ++ [.property p]) ∧ p.constraints = ks := by
  induction h with
  | none => simp at ho
  | @more s s' m ms hm hms ih =>
    cases hms with
    | none =>
      cases hm with
      | child _ _ => simp [MemberClause.isOpen] at ho
      | property hs hp =>
        obtain @⟨n, y, d, m, k', name, type, defaults, constraints, marks, hn, hy, hd, hmark, hk'⟩ := hp
        have hnone : constraints = [] := by simpa [MemberClause.isOpen] using ho
        subst hnone
        cases hk' with
        | some _ htexts => exact absurd rfl (Outline.texts_ne_nil htexts)
        | none =>
          refine ⟨[], ⟨name, type, defaults, marks, ks⟩, ?_, rfl⟩
          have := Member.property hs (.mk hn hy hd hmark hk)
          simpa using Members.more this .none
    | more hm' hms' =>
      obtain ⟨ms', p, hp, hc⟩ := ih (by simpa using ho)
      refine ⟨m :: ms', p, ?_, hc⟩
      rw [List.append_assoc]
      exact .more hm hp

theorem nodeType_capture {s k ks : List Token} {c : TypeClause} (h : NodeType s c)
    (ho : c.endsOpen = true) (hk : TextsAfter '<' k ks) :
    ∃ c' ms p, NodeType (s ++ k) c' ∧ c'.members = ms ++ [.property p] ∧ p.constraints = ks := by
  obtain @⟨l, name, r, s, o, m, supers, ord, mix, ms, hl, ht, hr, hs, hopt, hm⟩ := h
  obtain ⟨ms', p, hm', hc⟩ := members_capture hm ho hk
  refine ⟨⟨name, supers, ord, mix, ms' ++ [.property p]⟩, ms', p, ?_, rfl, hc⟩
  simpa using NodeType.mk hl ht hr hs hopt hm'

end Grammar

theorem Meaning.means_append {policy : ConflictPolicy} {ns ns' last : Namespaces}
    {cs ds : List Clause} {ts us : List NodeType} (h : Means policy ns cs ts ns')
    (hr : Means policy ns' ds us last) : Means policy ns (cs ++ ds) (ts ++ us) last := by
  induction h with
  | none => exact hr
  | binding hd _ ih => exact .binding hd (ih hr)
  | nodeType hn _ ih => exact .nodeType hn (ih hr)

/-! ## The exception -/

namespace Outline

open Grammar

theorem concat_of_endsOpen {cs : List Clause} (h : endsOpen cs = true) :
    ∃ init c, cs = init ++ [.nodeType c] ∧ c.endsOpen = true := by
  rcases List.eq_nil_or_concat cs with rfl | ⟨init, c, rfl⟩
  · simp [endsOpen] at h
  · rw [List.concat_eq_append] at h ⊢
    cases c with
    | binding b => simp [endsOpen] at h
    | nodeType c => exact ⟨init, c, rfl, by simpa [endsOpen] using h⟩

theorem broken_of_nodeType {t : Token} {r : List Token} (he : t.isEnding = false)
    (hl : t.isSymbol '<' = false) (ho : t.isSymbol '[' = false) :
    Outline.ofTokens (t :: r) = ⟨[], .broken none (.grammar (.delimiter .typeOpen) t)⟩ := by
  have hn : nodeType (t :: r) = (none, .error (.grammar (.delimiter .typeOpen) t)) := by
    simp [nodeType, expect, Delimiter.symbol, ho]
  rw [Outline.ofTokens]
  simp only [he, Bool.false_eq_true, if_false, hl]
  split
  · rename_i h
    rw [hn] at h
    obtain ⟨rfl, hb⟩ := Prod.mk.inj h
    rw [Except.error.inj hb]
  · rename_i h
    rw [hn] at h
    simp at h
  · rename_i h
    rw [hn] at h
    simp at h

/-- Behind an open property an angle bracket and a text are its constraints, and no member goes on
with an equals sign. -/
theorem nodeType_of_capture {s r : List Token} {c : TypeClause} {opening p e : Token}
    (h : Grammar.NodeType s c) (hc : c.endsOpen = true) (ho : opening.isSymbol '<' = true)
    (hp : p.text?.isSome = true) (he : e.isSymbol '=' = true) :
    ∃ c', nodeType (s ++ opening :: p :: e :: r) = (some c', .ok (e :: r)) := by
  have hk : TextsAfter '<' [opening, p] [p] := .some ho (.one hp)
  obtain ⟨c', ms, q, hn, hms, hq⟩ := nodeType_capture h hc hk
  have hends : EndsAt c' (e :: r) := by
    refine ⟨by simp [hms], fun m hm => ?_⟩
    rw [hms, List.getLast?_concat] at hm
    obtain rfl := Option.some.inj hm
    exact ⟨by simp [hq], fun _ => ⟨by simp, isSymbol_of_isSymbol he (by decide)⟩⟩
  have hno : members (e :: r) = ([], .ok (e :: r)) :=
    members_of_no_sign (isSymbol_of_isSymbol he (by decide)) (isSymbol_of_isSymbol he (by decide))
  have hread := nodeType_append hn hends
  rw [hno, List.append_assoc] at hread
  exact ⟨_, hread⟩

/-- A binding behind an open property is read as its constraints up to the prefix, and what is left
begins no clause. -/
theorem broken_of_capture {s r : List Token} {cs ds : List Clause} {stop : Token}
    (hs : Document s cs) (hr : Document r ds) (ho : endsOpen cs = true)
    (hl : looksAt '<' r = true) : (Outline.ofTokens (s ++ (r ++ [stop]))).ending ≠ .complete := by
  obtain ⟨init, c, rfl, hc⟩ := concat_of_endsOpen ho
  obtain ⟨s₁, s₂, rfl, h₁, h₂⟩ := document_concat hs
  cases hr with
  | none => simp at hl
  | nodeType hn _ _ =>
    rw [looksAt_of_looksAt (nodeType_cons hn _) (by decide)] at hl
    simp at hl
  | @binding b r' b' ds' hb _ =>
    obtain @⟨opening, p, e, u, close, pfx, uri, hopen, hp, he, hu, hclose⟩ := hb
    have hpt : p.text?.isSome = true := by rw [hp]; rfl
    obtain ⟨c', hread⟩ := nodeType_of_capture (r := u :: close :: (r' ++ [stop])) h₂ hc hopen hpt he
    have hbegins := nodeType_cons h₂ (opening :: p :: e :: u :: close :: (r' ++ [stop]))
    have hfirst : looksAt '<' (s₂ ++ opening :: p :: e :: u :: close :: (r' ++ [stop])) = false :=
      looksAt_of_looksAt hbegins (by decide)
    have htokens : s₁ ++ s₂ ++ ([opening, p, e, u, close] ++ r' ++ [stop]) =
        s₁ ++ (s₂ ++ opening :: p :: e :: u :: close :: (r' ++ [stop])) := by simp
    rw [htokens, ofTokens_append h₁ (.inr (.inl hbegins)) fun _ => hfirst,
      ofTokens_of_nodeType hbegins hread, Except.map, around,
      broken_of_nodeType (by simp [Token.isEnding, isSymbol_iff.1 he])
        (isSymbol_of_isSymbol he (by decide)) (isSymbol_of_isSymbol he (by decide))]
    simp

end Outline

/-! ## Reading -/

namespace Definitions

/-- Whether the first text ends with a property without constraints, and the second one begins with
an angle bracket. -/
def Captures (a b : String) : Prop :=
  Outline.endsOpen (Outline.ofTokens (Token.scan a.toList).tokens).clauses = true ∧
    Outline.looksAt '<' (Token.scan b.toList).tokens = true

instance (a b : String) : Decidable (Captures a b) := inferInstanceAs (Decidable (_ ∧ _))

theorem keeps_below (k : Nat) : Token.Keeps (.below k) := ⟨fun _ _ => rfl, fun _ => rfl⟩

theorem toList_join (a b : String) : (a ++ "\n" ++ b).toList = a.toList ++ '\n' :: b.toList := by
  simp

/-- **Reading goes on.** Two texts that are read one after the other, the second from the table that
the first leaves, are read as one text to the same end; but if the second one begins with a binding
that the last property of the first captures, the one text is refused. -/
theorem readWith_join {source first second : String} {policy : ConflictPolicy}
    {seed : Option Namespaces} {a b : String} {d e : Definitions}
    (ha : (readWith first policy seed a).outcome = .ok d)
    (hb : (readWith second policy (some d.namespaces) b).outcome = .ok e) :
    (¬ Captures a b → (readWith source policy seed (a ++ "\n" ++ b)).outcome =
      .ok ⟨d.types ++ e.types, e.namespaces⟩) ∧
    (Captures a b → ∃ f, (readWith source policy seed (a ++ "\n" ++ b)).outcome = .error f) := by
  rw [outcome_readWith] at ha hb
  obtain ⟨ts, stop, cs, hs, hd, hm⟩ := read_eq_ok_iff.1 ha
  obtain ⟨us, stop', ds, hs', hd', hm'⟩ := read_eq_ok_iff.1 hb
  have hcaptures : Captures a b ↔
      Outline.endsOpen cs = true ∧ Outline.looksAt '<' (us.map (.below stop.line)) = true := by
    rw [Captures, hs, hs', (ofTokens_of_scan hs).2 hd, Outline.looksAt_map (keeps_below _)]
    cases us with
    | nil => simp [Token.isSymbol]
    | cons u us => rfl
  have hscan := scan_join hs hs'
  rw [← toList_join] at hscan
  have hbelow := Outline.document_map (keeps_below stop.line) (not_ending_of_scan hs') hd'
  constructor
  · intro hc
    rw [outcome_readWith, read_eq_ok_iff]
    refine ⟨_, _, _, hscan, Grammar.document_append hd hbelow fun ho => ?_,
      Meaning.means_append hm (Meaning.means_map (keeps_below _) hm')⟩
    rw [← Bool.not_eq_true]
    exact fun hl => hc (hcaptures.2 ⟨ho, hl⟩)
  · intro hc
    obtain ⟨ho, hl⟩ := hcaptures.1 hc
    cases hr : (readWith source policy seed (a ++ "\n" ++ b)).outcome with
    | error f => exact ⟨f, rfl⟩
    | ok d =>
      exfalso
      rw [outcome_readWith] at hr
      obtain ⟨vs, last, all, hv, hdoc, -⟩ := read_eq_ok_iff.1 hr
      have hcomplete := (ofTokens_of_scan hv).2 hdoc
      have htokens := congrArg Scanned.tokens (hv.symm.trans hscan)
      simp only at htokens
      rw [htokens, List.append_assoc] at hcomplete
      exact Outline.broken_of_capture hd hbelow ho hl (congrArg Outline.ending hcomplete)

/-- The node type of `[a]` and `- b`, as the first of two texts. -/
def openType : NodeType :=
  ⟨⟨"", "a"⟩, [], false, false, none, [⟨⟨"", "b"⟩, ⟨"", "a"⟩, .string, [], [], {}⟩], []⟩

def openOutline : Outlined "[a]\n- b" where
  outline :=
    ⟨[.nodeType ⟨⟨.text "a" false, ⟨1, 2⟩⟩, [], false, false,
      [.property ⟨.named ⟨.text "b" false, ⟨2, 3⟩⟩, .string, [], [], []⟩]⟩], .complete⟩
  eq := by decide +kernel

def bindingOutline : Outlined "<ex='http://e/'>" where
  outline := ⟨[.binding ⟨⟨.symbol '<', ⟨1, 1⟩⟩, "ex", "http://e/"⟩], .complete⟩
  eq := by decide +kernel

/-- A binding below that node type belongs to neither of them. -/
theorem readWith_join_open_type :
    (readWith "" .error none "[a]\n- b").outcome = .ok ⟨[openType], .builtin⟩ ∧
    (readWith "" .error (some .builtin) "<ex='http://e/'>").outcome =
      .ok ⟨[], Namespaces.builtin.bind "ex" "http://e/"⟩ ∧
    ∃ f, (readWith "" .error none ("[a]\n- b" ++ "\n" ++ "<ex='http://e/'>")).outcome = .error f := by
  have ha : (readWith "" .error none "[a]\n- b").outcome = .ok ⟨[openType], .builtin⟩ :=
    readWith_of_outline openOutline rfl
  have hb : (readWith "" .error (some .builtin) "<ex='http://e/'>").outcome =
      .ok ⟨[], Namespaces.builtin.bind "ex" "http://e/"⟩ :=
    readWith_of_outline bindingOutline rfl
  have hcaptures : Captures "[a]\n- b" "<ex='http://e/'>" := by
    rw [Captures, openOutline.eq]
    exact ⟨rfl, by cbv⟩
  exact ⟨ha, hb, (readWith_join ha hb).2 hcaptures⟩

end Definitions

end Cnd
