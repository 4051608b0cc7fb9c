import Cnd.Proofs.Except
import Cnd.Proofs.Outline.Grammar

/-!
What is read as an outline is derived from the grammar.

Each reader has a lemma that splits the tokens it was given into a phrase of the grammar and the
tokens left, and `document_of_ofTokens` is the one for a whole text. Behind a property without
constraints the tokens left do not begin with an angle bracket.
-/

namespace Cnd.Outline

open Grammar

/-! ## Single tokens -/

theorem isSymbol_iff {t : Token} {c : Char} : t.isSymbol c = true ↔ t.lexeme = .symbol c := by
  simp [Token.isSymbol]

@[simp] theorem looksAt_nil (c : Char) : looksAt c [] = false := rfl

@[simp] theorem looksAt_cons (c : Char) (t : Token) (r : List Token) :
    looksAt c (t :: r) = t.isSymbol c := rfl

theorem exists_of_looksAt {c : Char} {ts : List Token} (h : looksAt c ts = true) :
    ∃ t r, ts = t :: r ∧ t.isSymbol c = true := by
  cases ts with
  | nil => simp at h
  | cons t r => exact ⟨t, r, rfl, by simpa using h⟩

theorem behind_eq_ok {ts r : List Token} : behind ts = .ok r ↔ r ≠ [] ∧ ∃ t, ts = t :: r := by
  constructor
  · intro h
    unfold behind at h
    split at h
    · rename_i t next rest
      simp only [Except.ok.injEq] at h
      subst h
      exact ⟨by simp, t, rfl⟩
    · simp at h
  · rintro ⟨hr, t, rfl⟩
    cases r with
    | nil => exact absurd rfl hr
    | cons next rest => rfl

theorem expect_eq_ok {d : Delimiter} {ts r : List Token} :
    expect d ts = .ok r ↔ r ≠ [] ∧ ∃ t, ts = t :: r ∧ t.isSymbol d.symbol = true := by
  cases ts with
  | nil => simp [expect]
  | cons t rest =>
    simp only [expect]
    by_cases ht : t.isSymbol d.symbol = true
    · simp only [ht, if_true, behind_eq_ok, List.cons.injEq]
      constructor
      · rintro ⟨hr, u, rfl, rfl⟩
        exact ⟨hr, t, ⟨rfl, rfl⟩, ht⟩
      · rintro ⟨hr, u, ⟨rfl, rfl⟩, -⟩
        exact ⟨hr, t, rfl, rfl⟩
    · simp only [ht, Bool.false_eq_true, if_false, reduceCtorEq, false_iff, List.cons.injEq]
      rintro ⟨-, u, ⟨rfl, -⟩, hu⟩
      exact ht hu

theorem lookText_eq_ok {e : Expected} {ts : List Token} {t : Token} {s : String} :
    lookText e ts = .ok (t, s) ↔ (∃ r, ts = t :: r) ∧ t.text? = some s := by
  cases ts with
  | nil => simp [lookText]
  | cons u rest =>
    simp only [lookText, List.cons.injEq, exists_and_left, exists_eq', and_true]
    cases hu : u.text? with
    | some x =>
      simp only [Except.ok.injEq, Prod.mk.injEq]
      constructor
      · rintro ⟨rfl, rfl⟩
        exact ⟨rfl, hu⟩
      · rintro ⟨rfl, hx⟩
        exact ⟨rfl, by rw [hu] at hx; exact Option.some.inj hx⟩
    | none =>
      simp only [reduceCtorEq, false_iff, not_and]
      rintro rfl
      simp [hu]

/-- No spelling is one of an attribute and of an action. -/
theorem versionActions_not_attributes :
    ∀ e ∈ Keyword.versionActions, Keyword.attributes.lookup e.1 = none := by decide

theorem attribute_not_action {t : Token} {v : VersionAction}
    (h : keyword? Keyword.versionActions t = some v) : keyword? Keyword.attributes t = none := by
  have hl : ∀ s, Keyword.versionActions.lookup s = some v → Keyword.attributes.lookup s = none := by
    intro s hs
    obtain ⟨l₁, l₂, he, -⟩ := List.lookup_eq_some_iff.1 hs
    exact versionActions_not_attributes (s, v) (by rw [he]; simp)
  unfold keyword? at h ⊢
  split at h
  · exact hl _ h
  · split at h
    · rename_i hc
      rw [if_pos hc]
      exact hl _ h
    · simp at h
  · simp at h

theorem mark?_eq_some_iff {t : Token} {m : Mark} : mark? t = some m ↔ Spells t m := by
  unfold mark?
  rcases m with a | v
  · cases hv : keyword? Keyword.versionActions t with
    | some v => simp [Spells, attribute_not_action hv]
    | none => simp [Spells]
  · cases hv : keyword? Keyword.versionActions t with
    | some w => simp [Spells, hv]
    | none => simp [Spells, hv]

/-! ## Lists -/

theorem texts_of_names {e : Expected} {ts ns r : List Token} (h : names e ts = (ns, .ok r)) :
    ∃ s, ts = s ++ r ∧ Texts s ns ∧ r ≠ [] := by
  fun_induction names e ts generalizing ns with
  | case1 => simp at h
  | case2 => simp at h
  | case3 => simp at h
  | case4 => simp at h
  | case5 t comma rest s ht hc ns' left heq ih =>
    simp only [Prod.mk.injEq] at h
    obtain ⟨rfl, rfl⟩ := h
    obtain ⟨s', rfl, hs, hr⟩ := ih heq
    exact ⟨t :: comma :: s', rfl, .more (by simp [ht]) hc hs, hr⟩
  | case6 t comma rest s ht hc =>
    simp only [Prod.mk.injEq, Except.ok.injEq] at h
    obtain ⟨rfl, rfl⟩ := h
    exact ⟨[t], rfl, .one (by simp [ht]), by simp⟩

theorem texts_of_literals {e : Expected} {ts ls r : List Token} (h : literals e ts = .ok (ls, r)) :
    ∃ s, ts = s ++ r ∧ Texts s ls ∧ r ≠ [] := by
  fun_induction literals e ts generalizing ls with
  | case1 => simp at h
  | case2 => simp at h
  | case3 => simp at h
  | case4 => simp at h
  | case5 => simp at h
  | case6 t comma rest s ht hc ls' left heq ih =>
    simp only [Except.ok.injEq, Prod.mk.injEq] at h
    obtain ⟨rfl, rfl⟩ := h
    obtain ⟨s', rfl, hs, hr⟩ := ih heq
    exact ⟨t :: comma :: s', rfl, .more (by simp [ht]) hc hs, hr⟩
  | case7 t comma rest s ht hc =>
    simp only [Prod.mk.injEq, Except.ok.injEq] at h
    obtain ⟨rfl, rfl⟩ := h
    exact ⟨[t], rfl, .one (by simp [ht]), by simp⟩

theorem texts_ne_nil {s ns : List Token} (h : Texts s ns) : ns ≠ [] := by
  cases h <;> simp

/-- Where there are no literals, the sign in front of them does not follow. -/
theorem textsAfter_of_literalsAfter {c : Char} {e : Expected} {ts ls r : List Token}
    (h : literalsAfter c e ts = .ok (ls, r)) :
    ∃ s, ts = s ++ r ∧ TextsAfter c s ls ∧ r ≠ [] ∧ (ls = [] → looksAt c r = false) := by
  unfold literalsAfter at h
  split at h
  · simp at h
  rename_i t rest
  split at h
  · rename_i ht
    obtain ⟨s, rfl, hs, hr⟩ := texts_of_literals h
    exact ⟨t :: s, rfl, .some ht hs, hr, fun hn => absurd hn (texts_ne_nil hs)⟩
  · rename_i ht
    simp only [Except.ok.injEq, Prod.mk.injEq] at h
    obtain ⟨rfl, rfl⟩ := h
    exact ⟨[], rfl, .none, by simp, fun _ => by simpa using ht⟩

theorem marked_of_marks {ts r : List Token} {ms : List (Token × Mark)}
    (h : marks ts = (ms, .ok r)) : ∃ s, ts = s ++ r ∧ Marked s ms ∧ r ≠ [] := by
  fun_induction marks ts generalizing ms with
  | case1 => simp at h
  | case2 t rest ht =>
    simp only [Prod.mk.injEq, Except.ok.injEq] at h
    obtain ⟨rfl, rfl⟩ := h
    exact ⟨[], rfl, .none, by simp⟩
  | case3 => simp at h
  | case4 t m ht next more ms' left heq ih =>
    simp only [Prod.mk.injEq] at h
    obtain ⟨rfl, rfl⟩ := h
    obtain ⟨s, hts, hs, hr⟩ := ih heq
    exact ⟨t :: s, by rw [hts]; rfl, .more (mark?_eq_some_iff.1 ht) hs, hr⟩

/-! ## Members -/

theorem named_of_itemName {e : Expected} {ts r : List Token} {n : Option ItemName}
    (h : itemName e ts = (n, .ok r)) :
    ∃ name s, n = some name ∧ ts = s ++ r ∧ Named s name ∧ r ≠ [] := by
  unfold itemName at h
  split at h
  · rename_i hw
    simp only [Prod.mk.injEq] at h
    obtain ⟨rfl, hb⟩ := h
    obtain ⟨hr, t, rfl⟩ := behind_eq_ok.1 hb
    exact ⟨.wildcard, [t], rfl, rfl, .wildcard (by simpa using hw), hr⟩
  · split at h
    · simp at h
    · rename_i t x hl
      simp only [Prod.mk.injEq] at h
      obtain ⟨rfl, hb⟩ := h
      obtain ⟨hr, u, rfl⟩ := behind_eq_ok.1 hb
      obtain ⟨⟨r', hc⟩, ht⟩ := lookText_eq_ok.1 hl
      obtain ⟨rfl, rfl⟩ := List.cons.inj hc
      exact ⟨.named u, [u], rfl, rfl, .named (by simp [ht]), hr⟩

theorem typed_of_propertyType {ts r : List Token} {type : PropertyType} (hne : ts ≠ [])
    (h : propertyType ts = .ok (type, r)) : ∃ s, ts = s ++ r ∧ Typed s type ∧ r ≠ [] := by
  unfold propertyType at h
  split at h
  · simp only [Except.ok.injEq, Prod.mk.injEq] at h
    obtain ⟨rfl, rfl⟩ := h
    exact ⟨[], rfl, .none, hne⟩
  rename_i hl
  cases h₁ : behind ts with
  | error b => simp [h₁, bind, Except.bind] at h
  | ok ts₁ =>
    obtain ⟨-, l, rfl⟩ := behind_eq_ok.1 h₁
    simp only [h₁, bind, Except.bind] at h
    split at h
    · simp at h
    rename_i t more
    split at h
    · simp at h
    rename_i type' ht
    cases h₂ : behind (t :: more) with
    | error b => simp [h₂] at h
    | ok ts₂ =>
      obtain ⟨-, t', hc⟩ := behind_eq_ok.1 h₂
      obtain ⟨-, rfl⟩ := List.cons.inj hc
      simp only [h₂] at h
      cases h₃ : expect .propertyTypeClose more with
      | error b => simp [h₃] at h
      | ok ts₃ =>
        obtain ⟨hr, close, rfl, hclose⟩ := expect_eq_ok.1 h₃
        simp only [h₃, Except.ok.injEq, Prod.mk.injEq] at h
        obtain ⟨rfl, rfl⟩ := h
        exact ⟨[l, t, close], rfl, .some (by simpa using hl) ht hclose, hr⟩

/-- Behind a property without constraints none are left. -/
theorem property_sound {ts r : List Token} {c : Option PropertyClause}
    (h : property ts = (c, .ok r)) :
    ∃ p s, c = some p ∧ ts = s ++ r ∧ Property s p ∧ r ≠ [] ∧
      (p.constraints = [] → looksAt '<' r = false) := by
  unfold property at h
  split at h
  · rename_i hn
    simp only [Prod.mk.injEq] at h
    rw [h.2] at hn
    obtain ⟨_, _, hnone, -⟩ := named_of_itemName hn
    simp at hnone
  · simp at h
  rename_i name ts₁ h₁
  obtain ⟨_, n, hname, rfl, hn, hne₁⟩ := named_of_itemName h₁
  obtain rfl := Option.some.inj hname
  split at h
  · simp at h
  rename_i type ts₂ h₂
  obtain ⟨y, rfl, hy, -⟩ := typed_of_propertyType hne₁ h₂
  split at h
  · simp at h
  rename_i defaults ts₃ h₃
  obtain ⟨d, rfl, hd, -⟩ := textsAfter_of_literalsAfter h₃
  split at h
  · simp at h
  rename_i ms ts₄ h₄
  obtain ⟨m, rfl, hm, -⟩ := marked_of_marks h₄
  split at h
  · simp at h
  rename_i constraints ts₅ h₅
  obtain ⟨k, rfl, hk, hr, hopen⟩ := textsAfter_of_literalsAfter h₅
  simp only [Prod.mk.injEq, Except.ok.injEq] at h
  obtain ⟨rfl, rfl⟩ := h
  exact ⟨_, n ++ (y ++ (d ++ (m ++ k))), rfl, by simp, .mk hn hy hd hm hk, hr, hopen⟩

theorem required_of_requiredTypes {ts r : List Token} {types : Option (List Token)} (hne : ts ≠ [])
    (h : requiredTypes ts = (types, .ok r)) : ∃ s, ts = s ++ r ∧ Required s types ∧ r ≠ [] := by
  unfold requiredTypes at h
  split at h
  · simp only [Prod.mk.injEq, Except.ok.injEq] at h
    obtain ⟨rfl, rfl⟩ := h
    exact ⟨[], rfl, .none, hne⟩
  rename_i hl
  split at h
  · simp at h
  rename_i ts₁ h₁
  obtain ⟨-, l, rfl⟩ := behind_eq_ok.1 h₁
  split at h
  · simp at h
  rename_i types' ts₂ h₂
  obtain ⟨s, rfl, hs, -⟩ := texts_of_names h₂
  simp only [Prod.mk.injEq] at h
  obtain ⟨rfl, h₃⟩ := h
  obtain ⟨hr, close, rfl, hclose⟩ := expect_eq_ok.1 h₃
  exact ⟨l :: s ++ [close], by simp, .some (by simpa using hl) hs hclose, hr⟩

theorem default_of_defaultType {ts r : List Token} {t : Option Token} (hne : ts ≠ [])
    (h : defaultType ts = (t, .ok r)) : ∃ s, ts = s ++ r ∧ DefaultType s t ∧ r ≠ [] := by
  unfold defaultType at h
  split at h
  · simp only [Prod.mk.injEq, Except.ok.injEq] at h
    obtain ⟨rfl, rfl⟩ := h
    exact ⟨[], rfl, .none, hne⟩
  rename_i hl
  split at h
  · simp at h
  rename_i ts₁ h₁
  obtain ⟨-, sign, rfl⟩ := behind_eq_ok.1 h₁
  split at h
  · simp at h
  rename_i u x hu
  obtain ⟨⟨r', rfl⟩, hx⟩ := lookText_eq_ok.1 hu
  simp only [Prod.mk.injEq] at h
  obtain ⟨rfl, hb⟩ := h
  obtain ⟨hr, u', hc⟩ := behind_eq_ok.1 hb
  obtain ⟨-, rfl⟩ := List.cons.inj hc
  exact ⟨[sign, u], rfl, .some (by simpa using hl) (by simp [hx]), hr⟩

theorem child_sound {ts r : List Token} {c : Option ChildClause} (h : child ts = (c, .ok r)) :
    ∃ p s, c = some p ∧ ts = s ++ r ∧ Child s p ∧ r ≠ [] := by
  unfold child at h
  split at h
  · rename_i hn
    simp only [Prod.mk.injEq] at h
    rw [h.2] at hn
    obtain ⟨_, _, hnone, -⟩ := named_of_itemName hn
    simp at hnone
  · simp at h
  rename_i name ts₁ h₁
  obtain ⟨_, n, hname, rfl, hn, hne₁⟩ := named_of_itemName h₁
  obtain rfl := Option.some.inj hname
  split at h
  · simp at h
  rename_i required ts₂ h₂
  obtain ⟨q, rfl, hq, hne₂⟩ := required_of_requiredTypes hne₁ h₂
  split at h
  · simp at h
  rename_i type ts₃ h₃
  obtain ⟨d, rfl, hd, -⟩ := default_of_defaultType hne₂ h₃
  simp only [Prod.mk.injEq] at h
  obtain ⟨rfl, h₄⟩ := h
  obtain ⟨m, rfl, hm, hr⟩ := marked_of_marks (Prod.ext rfl h₄)
  exact ⟨_, n ++ (q ++ (d ++ m)), rfl, by simp, .mk hn hq hd hm, hr⟩

theorem member_sound {ts r : List Token} {c : Option MemberClause}
    (h : member? ts = some (c, .ok r)) :
    ∃ m s, c = some m ∧ ts = s ++ r ∧ Member s m ∧ r ≠ [] ∧
      (m.isOpen = true → looksAt '<' r = false) := by
  unfold member? at h
  split at h
  · rename_i t next rest
    split at h
    · rename_i ht
      simp only [Option.some.injEq, Prod.mk.injEq] at h
      obtain ⟨rfl, hp⟩ := h
      obtain ⟨p, s, hc, hts, hs, hr, hopen⟩ := property_sound (Prod.ext rfl hp)
      refine ⟨.property p, t :: s, congrArg (Option.map _) hc, by rw [hts]; rfl, .property ht hs, hr, ?_⟩
      intro ho
      exact hopen (List.isEmpty_iff.1 ho)
    · split at h
      · rename_i ht
        simp only [Option.some.injEq, Prod.mk.injEq] at h
        obtain ⟨rfl, hp⟩ := h
        obtain ⟨p, s, hc, hts, hs, hr⟩ := child_sound (Prod.ext rfl hp)
        exact ⟨.child p, t :: s, congrArg (Option.map _) hc, by rw [hts]; rfl, .child ht hs, hr,
          fun ho => by simp [MemberClause.isOpen] at ho⟩
      · simp at h
  · split at h <;> simp at h
  · simp at h

/-! ## Clauses -/

theorem members_sound {ts r : List Token} {ms : List MemberClause} (hne : ts ≠ [])
    (h : members ts = (ms, .ok r)) :
    ∃ s, ts = s ++ r ∧ Members s ms ∧ r ≠ [] ∧
      (ms.getLast?.any (·.isOpen) = true → looksAt '<' r = false) := by
  fun_induction members ts generalizing ms with
  | case1 ts =>
    simp only [Prod.mk.injEq, Except.ok.injEq] at h
    obtain ⟨rfl, rfl⟩ := h
    exact ⟨[], rfl, .none, hne, by simp⟩
  | case2 => simp at h
  | case3 ts c rest hm ms' left heq ih =>
    simp only [Prod.mk.injEq] at h
    obtain ⟨rfl, rfl⟩ := h
    obtain ⟨m, s, rfl, rfl, hs, hrest, hopen⟩ := member_sound hm
    obtain ⟨s', rfl, hs', hr, hopen'⟩ := ih hrest heq
    refine ⟨s ++ s', by simp, .more hs hs', hr, ?_⟩
    intro ho
    cases hs' with
    | none => exact hopen (by simpa using ho)
    | more _ _ => exact hopen' (by simpa using ho)

theorem textsAfter_of_supertypes {ts r ns : List Token} (hne : ts ≠ [])
    (h : supertypes ts = (ns, .ok r)) : ∃ s, ts = s ++ r ∧ TextsAfter '>' s ns ∧ r ≠ [] := by
  unfold supertypes at h
  split at h
  · simp only [Prod.mk.injEq, Except.ok.injEq] at h
    obtain ⟨rfl, rfl⟩ := h
    exact ⟨[], rfl, .none, hne⟩
  rename_i hl
  split at h
  · simp at h
  rename_i ts₁ h₁
  obtain ⟨-, sign, rfl⟩ := behind_eq_ok.1 h₁
  obtain ⟨s, rfl, hs, hr⟩ := texts_of_names h
  exact ⟨sign :: s, rfl, .some (by simpa using hl) hs, hr⟩

theorem mixin_of_option (o : TypeOption) : (!(o == .orderable)) = (o == .mixin) := by
  cases o <;> rfl

theorem options_sound {ts r : List Token} {o m : Bool} (h : options ts = (o, m, .ok r)) :
    ∃ s, ts = s ++ r ∧ Options s o m ∧ r ≠ [] := by
  unfold options at h
  split at h
  · simp at h
  rename_i t rest
  split at h
  · simp only [Prod.mk.injEq, Except.ok.injEq] at h
    obtain ⟨rfl, rfl, rfl⟩ := h
    exact ⟨[], rfl, .none, by simp⟩
  rename_i first ht
  simp only at h
  split at h
  · simp at h
  · simp at h
  rename_i u more hb
  obtain ⟨-, t', hc⟩ := behind_eq_ok.1 hb
  obtain ⟨rfl, rfl⟩ := List.cons.inj hc
  split at h
  · rename_i second hu
    split at h
    · simp only [Prod.mk.injEq, Except.ok.injEq] at h
      obtain ⟨rfl, rfl, rfl⟩ := h
      exact ⟨[t], rfl, mixin_of_option first ▸ .one ht, by simp⟩
    · rename_i hne
      simp only [Prod.mk.injEq] at h
      obtain ⟨rfl, rfl, hr⟩ := h
      obtain ⟨hr, u', hc'⟩ := behind_eq_ok.1 hr
      obtain ⟨rfl, rfl⟩ := List.cons.inj hc'
      exact ⟨[t, u], rfl, .both ht hu (by simpa using fun e => hne (by simp [e])), hr⟩
  · simp only [Prod.mk.injEq, Except.ok.injEq] at h
    obtain ⟨rfl, rfl, rfl⟩ := h
    exact ⟨[t], rfl, mixin_of_option first ▸ .one ht, by simp⟩

theorem nodeType_sound {ts r : List Token} {c : Option TypeClause} (h : nodeType ts = (c, .ok r)) :
    ∃ t s, c = some t ∧ ts = s ++ r ∧ NodeType s t ∧ r ≠ [] ∧
      (t.endsOpen = true → looksAt '<' r = false) := by
  unfold nodeType at h
  split at h
  · simp at h
  rename_i ts₁ h₁
  obtain ⟨-, l, rfl, hl⟩ := expect_eq_ok.1 h₁
  split at h
  · simp at h
  rename_i name x h₂
  obtain ⟨⟨r₂, rfl⟩, hx⟩ := lookText_eq_ok.1 h₂
  split at h
  · simp at h
  rename_i ts₃ h₃
  obtain ⟨-, name', hc⟩ := behind_eq_ok.1 h₃
  obtain ⟨rfl, rfl⟩ := List.cons.inj hc
  split at h
  · simp at h
  rename_i ts₄ h₄
  obtain ⟨hne₄, close, rfl, hclose⟩ := expect_eq_ok.1 h₄
  split at h
  · simp at h
  rename_i supers ts₅ h₅
  obtain ⟨s, rfl, hs, hne₅⟩ := textsAfter_of_supertypes hne₄ h₅
  split at h
  · simp at h
  rename_i o m ts₆ h₆
  obtain ⟨q, rfl, hq, hne₆⟩ := options_sound h₆
  simp only [Prod.mk.injEq] at h
  obtain ⟨rfl, h₇⟩ := h
  obtain ⟨p, rfl, hp, hr, hopen⟩ := members_sound hne₆ (Prod.ext rfl h₇)
  exact ⟨_, l :: name :: close :: (s ++ (q ++ p)), rfl, by simp,
    .mk hl (by simp [hx]) hclose hs hq hp, hr, hopen⟩

theorem binding_sound {ts r : List Token} {c : NamespaceClause} (h : binding ts = .ok (c, r)) :
    ∃ s, ts = s ++ r ∧ (looksAt '<' ts = true → Binding s c) ∧ r ≠ [] := by
  unfold binding at h
  split at h
  · simp at h
  rename_i opening more
  simp only [bind_eq_ok] at h
  obtain ⟨ts₁, h₁, ⟨p, pfx⟩, h₂, ts₃, h₃, ts₄, h₄, ⟨u, uri⟩, h₅, ts₆, h₆, ts₇, h₇, h⟩ := h
  obtain ⟨-, opening', hc⟩ := behind_eq_ok.1 h₁
  obtain ⟨rfl, rfl⟩ := List.cons.inj hc
  obtain ⟨⟨r₂, rfl⟩, hp⟩ := lookText_eq_ok.1 h₂
  obtain ⟨-, p', hc⟩ := behind_eq_ok.1 h₃
  obtain ⟨rfl, rfl⟩ := List.cons.inj hc
  obtain ⟨-, e, rfl, he⟩ := expect_eq_ok.1 h₄
  obtain ⟨⟨r₅, rfl⟩, hu⟩ := lookText_eq_ok.1 h₅
  obtain ⟨-, u', hc⟩ := behind_eq_ok.1 h₆
  obtain ⟨rfl, rfl⟩ := List.cons.inj hc
  obtain ⟨hr, close, rfl, hclose⟩ := expect_eq_ok.1 h₇
  simp only [Except.ok.injEq, Prod.mk.injEq] at h
  obtain ⟨rfl, rfl⟩ := h
  exact ⟨[opening, p, e, u, close], rfl, fun ho => .mk (by simpa using ho) hp he hu hclose, hr⟩

/-! ## The whole -/

/-- A text with a complete outline is one of the grammar, up to its ending. -/
theorem document_of_ofTokens {ts : List Token} {cs : List Clause}
    (h : Outline.ofTokens ts = ⟨cs, .complete⟩) :
    ∃ s e r, ts = s ++ e :: r ∧ e.isEnding = true ∧ Document s cs := by
  fun_induction Outline.ofTokens ts generalizing cs with
  | case1 => simp at h
  | case2 t rest ht =>
    simp only [Outline.mk.injEq, and_true] at h
    subst h
    exact ⟨[], t, rest, rfl, ht, .none⟩
  | case3 => simp at h
  | case4 t rest ht ho c left hb o =>
    rename_i ih
    simp only [Outline.mk.injEq] at h
    obtain ⟨rfl, he⟩ := h
    obtain ⟨s, hts, hs, -⟩ := binding_sound hb
    have hl : Outline.ofTokens left = ⟨(Outline.ofTokens left).clauses, .complete⟩ := by rw [← he]
    obtain ⟨s', e, r, hleft, hend, hs'⟩ := ih hl
    exact ⟨s ++ s', e, r, by rw [hts, hleft]; simp, hend, .binding (hs (by simpa using ho)) hs'⟩
  | case5 => simp at h
  | case6 => simp at h
  | case7 t rest ht ho c left hb o =>
    rename_i ih
    simp only [Outline.mk.injEq] at h
    obtain ⟨rfl, he⟩ := h
    obtain ⟨c', s, hc, hts, hs, -, hopen⟩ := nodeType_sound hb
    obtain rfl := Option.some.inj hc
    have hl : Outline.ofTokens left = ⟨(Outline.ofTokens left).clauses, .complete⟩ := by rw [← he]
    obtain ⟨s', e, r, hleft, hend, hs'⟩ := ih hl
    subst hleft
    refine ⟨s ++ s', e, r, by rw [hts]; simp, hend, .nodeType hs hs' fun h => ?_⟩
    cases s' with
    | nil => rfl
    | cons x s' => simpa using hopen h

end Cnd.Outline
