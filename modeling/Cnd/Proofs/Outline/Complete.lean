import Cnd.Proofs.Outline.Sound

/-!
What is derived from the grammar is read as it is derived.

A reader takes as much as it can, so a phrase is read whole only where the tokens behind it do not go
on with it. `Stops` says this of all phrases at once, and `Separates` of a member, whose constraints
need less. `ofTokens_append` reads the clauses of a text, whatever is behind them.
-/

namespace Cnd.Outline

open Grammar

/-! ## What ends a phrase -/

/-- Tokens that go on with no phrase but, perhaps, the constraints of a property. -/
structure Stops (r : List Token) : Prop where
  ne : r ≠ []
  comma : looksAt ',' r = false
  paren : looksAt '(' r = false
  equals : looksAt '=' r = false
  supertypes : looksAt '>' r = false
  mark : r.head?.bind mark? = none
  option : r.head?.bind (keyword? Keyword.options) = none

theorem isSymbol_of_isSymbol {t : Token} {c d : Char} (h : t.isSymbol c = true) (hne : c ≠ d) :
    t.isSymbol d = false := by
  rw [← Bool.not_eq_true, isSymbol_iff, isSymbol_iff.1 h]
  intro he
  exact hne (Lexeme.symbol.inj he)

theorem looksAt_of_looksAt {c d : Char} {ts : List Token} (h : looksAt c ts = true) (hne : c ≠ d) :
    looksAt d ts = false := by
  obtain ⟨t, r, rfl, ht⟩ := exists_of_looksAt h
  exact isSymbol_of_isSymbol ht hne

theorem text?_of_isSymbol {t : Token} {c : Char} (h : t.isSymbol c = true) : t.text? = none := by
  simp [Token.text?, isSymbol_iff.1 h]

theorem isSymbol_of_text? {t : Token} (h : t.text?.isSome = true) (c : Char) :
    t.isSymbol c = false := by
  rw [← Bool.not_eq_true]
  intro hs
  simp [text?_of_isSymbol hs] at h

theorem keyword?_of_isSymbol {α : Type} {table : List (String × α)} {t : Token} {c : Char}
    (h : t.isSymbol c = true) (hc : c ≠ '*' ∧ c ≠ '!') : keyword? table t = none := by
  simp [keyword?, isSymbol_iff.1 h, hc]

theorem keyword?_of_isEnding {α : Type} {table : List (String × α)} {t : Token}
    (h : t.isEnding = true) : keyword? table t = none := by
  simp only [Token.isEnding, beq_iff_eq] at h
  simp [keyword?, h]

/-- A keyword is no sign but one of the two that are spellings. -/
theorem isSymbol_of_keyword? {α : Type} {table : List (String × α)} {t : Token} {a : α} {d : Char}
    (h : keyword? table t = some a) (hd : d ≠ '*' ∧ d ≠ '!') : t.isSymbol d = false := by
  rw [← Bool.not_eq_true]
  intro hs
  simp [keyword?_of_isSymbol hs hd] at h

theorem isSymbol_of_spells {t : Token} {m : Mark} {d : Char} (h : Spells t m)
    (hd : d ≠ '*' ∧ d ≠ '!') : t.isSymbol d = false := by
  rcases m with a | v
  · exact isSymbol_of_keyword? (show keyword? Keyword.attributes t = some a from h) hd
  · exact isSymbol_of_keyword? (show keyword? Keyword.versionActions t = some v from h) hd

/-- The signs that begin a clause or a member. -/
def openings : List Char := ['<', '[', '-', '+']

theorem Stops.of_isSymbol {t : Token} {c : Char} {r : List Token} (h : t.isSymbol c = true)
    (hc : c ∈ openings) : Stops (t :: r) := by
  have hne : c ≠ ',' ∧ c ≠ '(' ∧ c ≠ '=' ∧ c ≠ '>' ∧ c ≠ '*' ∧ c ≠ '!' := by
    simp only [openings, List.mem_cons, List.not_mem_nil, or_false] at hc
    rcases hc with rfl | rfl | rfl | rfl <;> decide
  obtain ⟨h₁, h₂, h₃, h₄, h₅⟩ := hne
  refine ⟨by simp, isSymbol_of_isSymbol h h₁, isSymbol_of_isSymbol h h₂, isSymbol_of_isSymbol h h₃,
    isSymbol_of_isSymbol h h₄, ?_, keyword?_of_isSymbol h h₅⟩
  simp [mark?, keyword?_of_isSymbol h h₅]

theorem Stops.of_isEnding {t : Token} {r : List Token} (h : t.isEnding = true) :
    Stops (t :: r) := by
  have hs : ∀ c, t.isSymbol c = false := by
    intro c
    simp only [Token.isEnding, beq_iff_eq] at h
    simp [Token.isSymbol, h]
  refine ⟨by simp, hs _, hs _, hs _, hs _, ?_, keyword?_of_isEnding h⟩
  simp [mark?, keyword?_of_isEnding h]

/-- Tokens behind which a member is over. -/
def Separates : MemberClause → List Token → Prop
  | .property p, r => (p.constraints = [] → Stops r ∧ looksAt '<' r = false) ∧
      (p.constraints ≠ [] → r ≠ [] ∧ looksAt ',' r = false)
  | .child _, r => Stops r

theorem Stops.separates {r : List Token} (h : Stops r) {m : MemberClause}
    (ho : m.isOpen = true → looksAt '<' r = false) : Separates m r := by
  cases m with
  | property p =>
    exact ⟨fun hc => ⟨h, ho (List.isEmpty_iff.2 hc)⟩, fun _ => ⟨h.ne, h.comma⟩⟩
  | child c => exact h

/-! ## Lists -/

theorem names_append {e : Expected} {s ns r : List Token} (h : Texts s ns) (hr : r ≠ [])
    (hc : looksAt ',' r = false) : names e (s ++ r) = (ns, .ok r) := by
  induction h with
  | @one t ht =>
    obtain ⟨x, hx⟩ := Option.isSome_iff_exists.1 ht
    cases r with
    | nil => exact absurd rfl hr
    | cons u r =>
      rw [looksAt_cons] at hc
      simp [names, hx, hc]
  | @more t comma s ns ht hcomma hs ih =>
    obtain ⟨x, hx⟩ := Option.isSome_iff_exists.1 ht
    simp [names, hx, hcomma, ih]

theorem literals_append {e : Expected} {s ls r : List Token} (h : Texts s ls) (hr : r ≠ [])
    (hc : looksAt ',' r = false) : literals e (s ++ r) = .ok (ls, r) := by
  induction h with
  | @one t ht =>
    obtain ⟨x, hx⟩ := Option.isSome_iff_exists.1 ht
    cases r with
    | nil => exact absurd rfl hr
    | cons u r =>
      rw [looksAt_cons] at hc
      simp [literals, hx, hc]
  | @more t comma s ls ht hcomma hs ih =>
    obtain ⟨x, hx⟩ := Option.isSome_iff_exists.1 ht
    simp [literals, hx, hcomma, ih]

theorem literalsAfter_append {c : Char} {e : Expected} {s ls r : List Token}
    (h : TextsAfter c s ls) (hr : r ≠ []) (hsign : ls = [] → looksAt c r = false)
    (hcomma : ls ≠ [] → looksAt ',' r = false) : literalsAfter c e (s ++ r) = .ok (ls, r) := by
  cases h with
  | none =>
    cases r with
    | nil => exact absurd rfl hr
    | cons t r =>
      have ht := hsign rfl
      rw [looksAt_cons] at ht
      simp [literalsAfter, ht]
  | @some sign s' _ hs hts =>
    simp only [List.cons_append, literalsAfter, hs, if_true]
    exact literals_append hts hr (hcomma (texts_ne_nil hts))

/-- The tokens in sight, or the break where they run out. -/
def inSight (r : List Token) : Left := if r.isEmpty then .error .scan else .ok r

theorem inSight_of_ne_nil {r : List Token} (h : r ≠ []) : inSight r = .ok r := by
  simp [inSight, h]

/-- Marks are taken up to the first token that is none. -/
theorem marks_of_marked {s r : List Token} {ms : List (Token × Mark)} (h : Marked s ms)
    (hm : r.head?.bind mark? = none) : marks (s ++ r) = (ms, inSight r) := by
  induction h with
  | none =>
    cases r with
    | nil => rfl
    | cons t r =>
      simp only [List.head?_cons, Option.bind_some] at hm
      simp [marks, hm, inSight]
  | @more t m s ms ht hs ih =>
    rw [List.cons_append]
    cases hsr : s ++ r with
    | nil =>
      obtain ⟨rfl, rfl⟩ := List.append_eq_nil_iff.1 hsr
      cases hs
      simp [marks, mark?_eq_some_iff.2 ht, inSight]
    | cons u more =>
      rw [hsr] at ih
      simp [marks, mark?_eq_some_iff.2 ht, ih]

/-! ## What may stand in front -/

theorem looksAt_textsAfter {c d : Char} {s ls r : List Token} (h : TextsAfter c s ls) (hne : c ≠ d)
    (hr : looksAt d r = false) : looksAt d (s ++ r) = false := by
  cases h with
  | none => exact hr
  | some hs _ => exact isSymbol_of_isSymbol hs hne

theorem looksAt_marked {d : Char} {s r : List Token} {ms : List (Token × Mark)} (h : Marked s ms)
    (hd : d ≠ '*' ∧ d ≠ '!') (hr : looksAt d r = false) : looksAt d (s ++ r) = false := by
  cases h with
  | none => exact hr
  | more ht _ => exact isSymbol_of_spells ht hd

/-- Behind the marks of a property its constraints, or what ends it, stop every phrase. -/
theorem stops_constraints {p : PropertyClause} {k r : List Token}
    (hk : TextsAfter '<' k p.constraints) (hr : Separates (.property p) r) : Stops (k ++ r) := by
  generalize hc : p.constraints = constraints at hk
  cases hk with
  | none => exact (hr.1 hc).1
  | some hs _ => exact .of_isSymbol hs (by simp [openings])

/-! ## Members -/

theorem itemName_append {e : Expected} {s r : List Token} {n : ItemName} (h : Named s n)
    (hr : r ≠ []) : itemName e (s ++ r) = (some n, .ok r) := by
  have hb : ∀ t, behind (t :: r) = .ok r := fun t => behind_eq_ok.2 ⟨hr, t, rfl⟩
  cases h with
  | @wildcard t ht => simp [itemName, ht, hb]
  | @named t ht =>
    obtain ⟨x, hx⟩ := Option.isSome_iff_exists.1 ht
    simp [itemName, isSymbol_of_text? ht, lookText, hx, hb]

theorem propertyType_append {s r : List Token} {type : PropertyType} (h : Typed s type)
    (hr : r ≠ []) (hp : s = [] → looksAt '(' r = false) :
    propertyType (s ++ r) = .ok (type, r) := by
  cases h with
  | none => simp [propertyType, hp rfl]
  | @some l t close _ hl ht hclose =>
    have he : expect .propertyTypeClose (close :: r) = .ok r :=
      expect_eq_ok.2 ⟨hr, close, rfl, hclose⟩
    simp [propertyType, hl, behind, ht, he, bind, Except.bind]

/-- The constraints behind the marks of a property, and what is left. -/
def constraintsBehind (r : List Token) : List Token × Left :=
  match literalsAfter '<' .constraint r with
  | .error b => ([], .error b)
  | .ok (ks, left) => (ks, .ok left)

/-- A property is read with its marks, whatever comes of what is behind them. -/
theorem property_marked {n y d s r : List Token} {name : ItemName} {type : PropertyType}
    {defaults : List Token} {ms : List (Token × Mark)} (hn : Named n name) (hy : Typed y type)
    (hd : TextsAfter '=' d defaults) (hs : Marked s ms) (hr : r.head?.bind mark? = none)
    (hne : s ++ r ≠ []) (htype : y = [] → looksAt '(' (d ++ (s ++ r)) = false)
    (hequals : defaults = [] → looksAt '=' (s ++ r) = false)
    (hcomma : defaults ≠ [] → looksAt ',' (s ++ r) = false) :
    property (n ++ (y ++ (d ++ (s ++ r)))) =
      (some ⟨name, type, defaults, ms, (constraintsBehind r).1⟩, (constraintsBehind r).2) := by
  have hdne : d ++ (s ++ r) ≠ [] := fun h => hne (List.append_eq_nil_iff.1 h).2
  have hyne : y ++ (d ++ (s ++ r)) ≠ [] := fun h => hdne (List.append_eq_nil_iff.1 h).2
  rw [property, itemName_append hn hyne]
  simp only
  rw [propertyType_append hy hdne htype]
  simp only
  rw [literalsAfter_append hd hne hequals hcomma]
  simp only
  rw [marks_of_marked hs hr]
  cases r with
  | nil => rfl
  | cons t r =>
    rw [inSight_of_ne_nil (List.cons_ne_nil t r)]
    simp only [constraintsBehind]
    cases literalsAfter '<' .constraint (t :: r) <;> rfl

theorem property_append {s r : List Token} {p : PropertyClause} (h : Property s p)
    (hr : Separates (.property p) r) : property (s ++ r) = (some p, .ok r) := by
  obtain @⟨n, y, d, m, k, name, type, defaults, constraints, ms, hn, hy, hd, hm, hk⟩ := h
  have hkr : Stops (k ++ r) := stops_constraints hk hr
  have hmkr : m ++ (k ++ r) ≠ [] := by simp [hkr.ne]
  have hmc := looksAt_marked hm (by decide) hkr.comma
  have hme := looksAt_marked hm (by decide) hkr.equals
  have hmp := looksAt_marked hm (by decide) hkr.paren
  have hdp := looksAt_textsAfter hd (by decide) hmp
  have h₅ : literalsAfter '<' .constraint (k ++ r) = .ok (constraints, r) := by
    refine literalsAfter_append hk ?_ (fun hc => (hr.1 hc).2) (fun hc => (hr.2 hc).2)
    by_cases hc : constraints = []
    · exact (hr.1 hc).1.ne
    · exact (hr.2 hc).1
  simp only [List.append_assoc]
  rw [property_marked hn hy hd hm hkr.mark hmkr (fun _ => hdp) (fun _ => hme) (fun _ => hmc),
    constraintsBehind, h₅]

theorem requiredTypes_append {s r : List Token} {types : Option (List Token)} (h : Required s types)
    (hr : r ≠ []) (hp : types = none → looksAt '(' r = false) :
    requiredTypes (s ++ r) = (types, .ok r) := by
  cases h with
  | none => simp [requiredTypes, hp rfl]
  | @some l close s' ts hl hs hclose =>
    have hb : behind (l :: (s' ++ close :: r)) = .ok (s' ++ close :: r) :=
      behind_eq_ok.2 ⟨by simp, l, rfl⟩
    have he : expect .requiredTypesClose (close :: r) = .ok r :=
      expect_eq_ok.2 ⟨hr, close, rfl, hclose⟩
    have hn := names_append (e := .requiredType) hs (r := close :: r) (by simp)
      (isSymbol_of_isSymbol hclose (by decide))
    simp [requiredTypes, hl, hb, hn, he]

theorem defaultType_append {s r : List Token} {t : Option Token} (h : DefaultType s t)
    (hr : r ≠ []) (he : t = none → looksAt '=' r = false) : defaultType (s ++ r) = (t, .ok r) := by
  cases h with
  | none => simp [defaultType, he rfl]
  | @some sign u hs hu =>
    obtain ⟨x, hx⟩ := Option.isSome_iff_exists.1 hu
    have hb : behind (u :: r) = .ok r := behind_eq_ok.2 ⟨hr, u, rfl⟩
    have hb' : behind (sign :: u :: r) = .ok (u :: r) := rfl
    simp [defaultType, hs, hb, hb', lookText, hx]

theorem looksAt_default {d : Char} {s r : List Token} {t : Option Token} (h : DefaultType s t)
    (hd : d ≠ '=') (hr : looksAt d r = false) : looksAt d (s ++ r) = false := by
  cases h with
  | none => exact hr
  | some hs _ => exact isSymbol_of_isSymbol hs hd.symm

theorem child_marked {n q d s r : List Token} {name : ItemName} {required : Option (List Token)}
    {type : Option Token} {ms : List (Token × Mark)} (hn : Named n name) (hq : Required q required)
    (hd : DefaultType d type) (hs : Marked s ms) (hr : r.head?.bind mark? = none)
    (hne : s ++ r ≠ []) (hrequired : required = none → looksAt '(' (d ++ (s ++ r)) = false)
    (hequals : type = none → looksAt '=' (s ++ r) = false) :
    child (n ++ (q ++ (d ++ (s ++ r)))) = (some ⟨name, required, type, ms⟩, inSight r) := by
  have hdne : d ++ (s ++ r) ≠ [] := fun h => hne (List.append_eq_nil_iff.1 h).2
  have hqne : q ++ (d ++ (s ++ r)) ≠ [] := fun h => hdne (List.append_eq_nil_iff.1 h).2
  rw [child, itemName_append hn hqne]
  simp only
  rw [requiredTypes_append hq hdne hrequired]
  simp only
  rw [defaultType_append hd hne hequals]
  simp only
  rw [marks_of_marked hs hr]

theorem child_append {s r : List Token} {c : ChildClause} (h : Child s c) (hr : Stops r) :
    child (s ++ r) = (some c, .ok r) := by
  obtain @⟨n, q, d, m, name, required, type, ms, hn, hq, hd, hm⟩ := h
  have hmp := looksAt_marked hm (by decide) hr.paren
  have hme := looksAt_marked hm (by decide) hr.equals
  have hdp := looksAt_default hd (by decide) hmp
  have hmne : m ++ r ≠ [] := by simp [hr.ne]
  simp only [List.append_assoc]
  rw [child_marked hn hq hd hm hr.mark hmne (fun _ => hdp) (fun _ => hme),
    inSight_of_ne_nil hr.ne]

theorem named_ne_nil {s : List Token} {n : ItemName} (h : Named s n) : s ≠ [] := by
  cases h <;> simp

theorem member_append {s r : List Token} {m : MemberClause} (h : Member s m)
    (hr : Separates m r) : member? (s ++ r) = some (some m, .ok r) := by
  cases h with
  | @property sign s p hs hp =>
    have hne : s ≠ [] := by
      cases hp with
      | mk hn _ _ _ _ => simp [named_ne_nil hn]
    obtain ⟨t, rest, rfl⟩ := List.exists_cons_of_ne_nil hne
    have hc := property_append hp hr
    rw [List.cons_append] at hc
    simp [member?, hs, hc]
  | @child sign s c hs hc =>
    have hne : s ≠ [] := by
      cases hc with
      | mk hn _ _ _ => simp [named_ne_nil hn]
    obtain ⟨t, rest, rfl⟩ := List.exists_cons_of_ne_nil hne
    have hchild := child_append hc hr
    rw [List.cons_append] at hchild
    simp [member?, hs, isSymbol_of_isSymbol hs (show '+' ≠ '-' by decide), hchild]

/-- A member begins with its sign. -/
theorem member_cons {s : List Token} {m : MemberClause} (h : Member s m) :
    ∃ sign s' c, s = sign :: s' ∧ sign.isSymbol c = true ∧ (c = '-' ∨ c = '+') := by
  cases h with
  | property hs _ => exact ⟨_, _, '-', rfl, hs, .inl rfl⟩
  | child hs _ => exact ⟨_, _, '+', rfl, hs, .inr rfl⟩

theorem stops_member {s r : List Token} {m : MemberClause} (h : Member s m) :
    Stops (s ++ r) ∧ looksAt '<' (s ++ r) = false := by
  obtain ⟨sign, s', c, rfl, hs, rfl | rfl⟩ := member_cons h
  · exact ⟨.of_isSymbol hs (by simp [openings]), isSymbol_of_isSymbol hs (by decide)⟩
  · exact ⟨.of_isSymbol hs (by simp [openings]), isSymbol_of_isSymbol hs (by decide)⟩

/-- The members behind one, given what that one leaves. -/
def membersFrom : Left → List MemberClause × Left
  | .error b => ([], .error b)
  | .ok rest => members rest

theorem members_of_member {ts : List Token} {m : MemberClause} {left : Left}
    (h : member? ts = some (some m, left)) :
    members ts = (m :: (membersFrom left).1, (membersFrom left).2) := by
  rw [members]
  split
  · rename_i hnone
    rw [h] at hnone
    simp at hnone
  · rename_i hbroken
    rw [h] at hbroken
    simp only [Option.some.injEq, Prod.mk.injEq] at hbroken
    obtain ⟨rfl, rfl⟩ := hbroken
    rfl
  · rename_i hsome
    rw [h] at hsome
    simp only [Option.some.injEq, Prod.mk.injEq] at hsome
    obtain ⟨rfl, rfl⟩ := hsome
    rfl

theorem members_append {s r : List Token} {ms : List MemberClause} (h : Members s ms)
    (hr : ∀ m, ms.getLast? = some m → Separates m r) :
    members (s ++ r) = (ms ++ (members r).1, (members r).2) := by
  induction h with
  | none => simp
  | @more s s' m ms hm hms ih =>
    have hsep : Separates m (s' ++ r) := by
      cases hms with
      | none => exact hr m rfl
      | more hm' _ =>
        rw [List.append_assoc]
        exact (stops_member hm').1.separates fun _ => (stops_member hm').2
    have hih := ih fun m' hm' => hr m' (by
      cases ms with
      | nil => simp at hm'
      | cons a l => simpa using hm')
    rw [List.append_assoc, members_of_member (member_append hm hsep), membersFrom, hih]
    rfl

theorem members_of_no_sign {r : List Token} (hm : looksAt '-' r = false)
    (hp : looksAt '+' r = false) : members r = ([], .ok r) := by
  have hn : member? r = none := by
    unfold member?
    split
    · rw [looksAt_cons] at hm hp
      simp [hm, hp]
    · rw [looksAt_cons] at hm hp
      simp [hm, hp]
    · rfl
  rw [members]
  split
  · rfl
  · rename_i h
    rw [hn] at h
    simp at h
  · rename_i h
    rw [hn] at h
    simp at h

/-! ## Clauses -/

/-- Tokens behind which a node type is over, as far as its members go. -/
def EndsAt (c : TypeClause) (r : List Token) : Prop :=
  (c.members = [] → Stops r) ∧ ∀ m, c.members.getLast? = some m → Separates m r

theorem stops_members {s r : List Token} {ms : List MemberClause} (h : Members s ms)
    (hr : ms = [] → Stops r) : Stops (s ++ r) := by
  cases h with
  | none => exact hr rfl
  | more hm _ =>
    rw [List.append_assoc]
    exact (stops_member hm).1

theorem supertypes_append {s r ns : List Token} (h : TextsAfter '>' s ns) (hr : r ≠ [])
    (hc : looksAt ',' r = false) (hs : looksAt '>' r = false) :
    supertypes (s ++ r) = (ns, .ok r) := by
  cases h with
  | none => simp [supertypes, hs]
  | @some sign s' _ hsign hts =>
    have hne : s' ++ r ≠ [] := by simp [hr]
    have hb : behind (sign :: (s' ++ r)) = .ok (s' ++ r) := behind_eq_ok.2 ⟨hne, sign, rfl⟩
    simp [supertypes, hsign, hb, names_append hts hr hc]

theorem looksAt_options {d : Char} {s r : List Token} {o m : Bool} (h : Options s o m)
    (hd : d ≠ '*' ∧ d ≠ '!') (hr : looksAt d r = false) : looksAt d (s ++ r) = false := by
  cases h with
  | none => exact hr
  | one ht => exact isSymbol_of_keyword? ht hd
  | both ht _ _ => exact isSymbol_of_keyword? ht hd

theorem options_append {s r : List Token} {o m : Bool} (h : Options s o m) (hr : Stops r) :
    options (s ++ r) = (o, m, .ok r) := by
  obtain ⟨u, more, rfl⟩ := List.exists_cons_of_ne_nil hr.ne
  have hu : keyword? Keyword.options u = none := by simpa using hr.option
  cases h with
  | none => simp [options, hu]
  | @one t o ht => simp [options, ht, behind, hu, mixin_of_option]
  | @both t v o p ht hv hne =>
    have hpo : (p == o) = false := by simpa using fun e => hne e.symm
    simp [options, ht, behind, hv, hpo]

/-- A node type is read whole, and members behind it are taken for its own. -/
theorem nodeType_append {s r : List Token} {c : TypeClause} (h : NodeType s c) (hr : EndsAt c r) :
    nodeType (s ++ r) =
      (some { c with members := c.members ++ (members r).1 }, (members r).2) := by
  obtain @⟨l, name, close, s, o, m, supers, ord, mix, ms, hl, ht, hclose, hs, ho, hm⟩ := h
  have hmr : Stops (m ++ r) := stops_members hm hr.1
  have homr : o ++ (m ++ r) ≠ [] := by simp [hmr.ne]
  have hsomr : s ++ (o ++ (m ++ r)) ≠ [] := by simp [hmr.ne]
  obtain ⟨x, hx⟩ := Option.isSome_iff_exists.1 ht
  have h₁ : expect .typeOpen (l :: name :: close :: (s ++ (o ++ (m ++ r)))) =
      .ok (name :: close :: (s ++ (o ++ (m ++ r)))) := expect_eq_ok.2 ⟨by simp, l, rfl, hl⟩
  have h₂ : lookText .typeName (name :: close :: (s ++ (o ++ (m ++ r)))) = .ok (name, x) :=
    lookText_eq_ok.2 ⟨⟨_, rfl⟩, hx⟩
  have h₃ : behind (name :: close :: (s ++ (o ++ (m ++ r)))) =
      .ok (close :: (s ++ (o ++ (m ++ r)))) := rfl
  have h₄ : expect .typeClose (close :: (s ++ (o ++ (m ++ r)))) = .ok (s ++ (o ++ (m ++ r))) :=
    expect_eq_ok.2 ⟨hsomr, close, rfl, hclose⟩
  have h₅ := supertypes_append hs homr (looksAt_options ho (by decide) hmr.comma)
    (looksAt_options ho (by decide) hmr.supertypes)
  have h₆ := options_append ho hmr
  simp only [List.cons_append, List.append_assoc, nodeType]
  rw [h₁]
  simp only
  rw [h₂]
  simp only
  rw [h₃]
  simp only
  rw [h₄]
  simp only
  rw [h₅]
  simp only
  rw [h₆]
  simp only
  rw [members_append hm hr.2]

theorem binding_append {s r : List Token} {c : NamespaceClause} (h : Binding s c) (hr : r ≠ []) :
    binding (s ++ r) = .ok (c, r) := by
  obtain @⟨opening, p, e, u, close, pfx, uri, ho, hp, he, hu, hc⟩ := h
  have h₄ : expect .bindingEquals (e :: u :: close :: r) = .ok (u :: close :: r) :=
    expect_eq_ok.2 ⟨by simp, e, rfl, he⟩
  have h₇ : expect .bindingClose (close :: r) = .ok r := expect_eq_ok.2 ⟨hr, close, rfl, hc⟩
  simp [binding, behind, lookText, hp, hu, h₄, h₇, bind, Except.bind]

/-! ## The whole -/

theorem ofTokens_of_binding {ts left : List Token} {c : NamespaceClause}
    (ho : looksAt '<' ts = true) (h : binding ts = .ok (c, left)) :
    Outline.ofTokens ts =
      ⟨.binding c :: (Outline.ofTokens left).clauses, (Outline.ofTokens left).ending⟩ := by
  obtain ⟨t, rest, rfl, ht⟩ := exists_of_looksAt ho
  have he : t.isEnding = false := by simp [Token.isEnding, isSymbol_iff.1 ht]
  rw [Outline.ofTokens]
  simp only [he, Bool.false_eq_true, if_false, ht, if_true]
  split
  · rename_i hb
    rw [h] at hb
    simp at hb
  · rename_i hb
    rw [h] at hb
    simp only [Except.ok.injEq, Prod.mk.injEq] at hb
    obtain ⟨rfl, rfl⟩ := hb
    rfl

/-- The outline of clauses, a node type, and what is behind it or the break that leaves it
unfinished. -/
def around (before : List Clause) (c : TypeClause) : Except Break Outline → Outline
  | .error b => ⟨before, .broken (some c) b⟩
  | .ok o => ⟨before ++ .nodeType c :: o.clauses, o.ending⟩

/-- The outline of tokens that begin with a node type. -/
theorem ofTokens_of_nodeType {ts : List Token} {c : TypeClause} {left : Left}
    (ho : looksAt '[' ts = true) (h : nodeType ts = (some c, left)) :
    Outline.ofTokens ts = around [] c (left.map Outline.ofTokens) := by
  obtain ⟨t, rest, rfl, ht⟩ := exists_of_looksAt ho
  have he : t.isEnding = false := by simp [Token.isEnding, isSymbol_iff.1 ht]
  have hs : t.isSymbol '<' = false := isSymbol_of_isSymbol ht (by decide)
  rw [Outline.ofTokens]
  simp only [he, Bool.false_eq_true, if_false, hs]
  split
  · rename_i hn
    rw [h] at hn
    obtain ⟨rfl, rfl⟩ := Prod.mk.inj hn
    rfl
  · rename_i hn
    rw [h] at hn
    simp at hn
  · rename_i hn
    rw [h] at hn
    obtain ⟨hc, rfl⟩ := Prod.mk.inj hn
    obtain rfl := Option.some.inj hc
    rfl

theorem ofTokens_of_isEnding {t : Token} {r : List Token} (h : t.isEnding = true) :
    Outline.ofTokens (t :: r) = ⟨[], .complete⟩ := by
  rw [Outline.ofTokens]
  simp [h]

/-- Whether the last clause is a node type that ends with a property without constraints. -/
def endsOpen (cs : List Clause) : Bool :=
  cs.getLast?.any fun
    | .binding _ => false
    | .nodeType c => c.endsOpen

theorem endsOpen_cons {c : Clause} {cs : List Clause} (h : endsOpen cs = true) :
    endsOpen (c :: cs) = true := by
  cases cs with
  | nil => simp [endsOpen] at h
  | cons d ds => simpa [endsOpen] using h

theorem binding_cons {s : List Token} {c : NamespaceClause} (h : Binding s c) (r : List Token) :
    looksAt '<' (s ++ r) = true := by
  cases h with
  | mk ho _ _ _ _ => exact ho

theorem nodeType_cons {s : List Token} {c : TypeClause} (h : NodeType s c) (r : List Token) :
    looksAt '[' (s ++ r) = true := by
  cases h with
  | mk hl _ _ _ _ _ => exact hl

/-- Tokens that begin a clause, or end the text. -/
def Begins (r : List Token) : Prop :=
  looksAt '<' r = true ∨ looksAt '[' r = true ∨ ∃ t more, r = t :: more ∧ t.isEnding = true

theorem Begins.stops {r : List Token} (h : Begins r) : Stops r := by
  rcases h with h | h | ⟨t, more, rfl, h⟩
  · obtain ⟨t, more, rfl, ht⟩ := exists_of_looksAt h
    exact .of_isSymbol ht (by simp [openings])
  · obtain ⟨t, more, rfl, ht⟩ := exists_of_looksAt h
    exact .of_isSymbol ht (by simp [openings])
  · exact .of_isEnding h

theorem Begins.members {r : List Token} (h : Begins r) : members r = ([], .ok r) := by
  rcases h with h | h | ⟨t, more, rfl, h⟩
  · exact members_of_no_sign (looksAt_of_looksAt h (by decide)) (looksAt_of_looksAt h (by decide))
  · exact members_of_no_sign (looksAt_of_looksAt h (by decide)) (looksAt_of_looksAt h (by decide))
  · simp only [Token.isEnding, beq_iff_eq] at h
    exact members_of_no_sign (by simp [Token.isSymbol, h]) (by simp [Token.isSymbol, h])

theorem document_begins {s : List Token} {cs : List Clause} (h : Document s cs) {r : List Token}
    (hr : Begins r) : Begins (s ++ r) := by
  cases h with
  | none => exact hr
  | binding hb _ =>
    rw [List.append_assoc]
    exact .inl (binding_cons hb _)
  | nodeType hn _ _ =>
    rw [List.append_assoc]
    exact .inr (.inl (nodeType_cons hn _))

theorem endsAt_of_begins {c : TypeClause} {r : List Token} (hr : Begins r)
    (ho : c.endsOpen = true → looksAt '<' r = false) : EndsAt c r :=
  ⟨fun _ => hr.stops, fun m hm => hr.stops.separates fun h => ho (by simp [TypeClause.endsOpen, hm, h])⟩

/-- The clauses of a text are read one after the other, and then what is behind them. -/
theorem ofTokens_append {s r : List Token} {cs : List Clause} (h : Document s cs) (hr : Begins r)
    (ho : endsOpen cs = true → looksAt '<' r = false) :
    Outline.ofTokens (s ++ r) =
      ⟨cs ++ (Outline.ofTokens r).clauses, (Outline.ofTokens r).ending⟩ := by
  induction h with
  | none => rfl
  | @binding s s' c cs hb hd ih =>
    have hbegins := document_begins hd hr
    rw [List.append_assoc, ofTokens_of_binding (binding_cons hb _) (binding_append hb hbegins.stops.ne),
      ih fun h => ho (endsOpen_cons h)]
    rfl
  | @nodeType s s' c cs hn hd hopen ih =>
    have hbegins := document_begins hd hr
    have hends : EndsAt c (s' ++ r) := by
      refine endsAt_of_begins hbegins fun hc => ?_
      cases hd with
      | none => exact ho (by simpa [endsOpen] using hc)
      | binding hb _ =>
        have := hopen hc
        rw [binding_cons hb] at this
        simp at this
      | nodeType hn' _ _ =>
        rw [List.append_assoc]
        exact looksAt_of_looksAt (nodeType_cons hn' _) (by decide)
    have hread := nodeType_append hn hends
    rw [hbegins.members, List.append_nil] at hread
    rw [List.append_assoc, ofTokens_of_nodeType (nodeType_cons hn _) hread, Except.map, around,
      ih fun h => ho (endsOpen_cons h)]
    rfl

/-- **Reading is exact.** The outline of a text is complete just if its tokens, up to the ending,
are derived from the grammar; and the clauses are those of the derivation. -/
theorem ofTokens_eq_complete_iff {ts : List Token} {stop : Token} {cs : List Clause}
    (hts : ∀ t ∈ ts, t.isEnding = false) (hs : stop.isEnding = true) :
    Outline.ofTokens (ts ++ [stop]) = ⟨cs, .complete⟩ ↔ Document ts cs := by
  constructor
  · intro h
    obtain ⟨s, e, r, hsplit, he, hd⟩ := document_of_ofTokens h
    -- The ending found is the last token, since no other one is an ending.
    have hr : r = [] := by
      rcases List.eq_nil_or_concat r with hr | ⟨r', x, hr⟩
      · exact hr
      · exfalso
        rw [hr, List.concat_eq_append, ← List.cons_append, ← List.append_assoc] at hsplit
        have hmem : e ∈ ts := by
          rw [(List.append_inj' hsplit rfl).1]
          simp
        rw [hts e hmem] at he
        simp at he
    subst hr
    rw [(List.append_inj' hsplit rfl).1]
    exact hd
  · intro h
    have hb : Begins [stop] := .inr (.inr ⟨stop, [], rfl, hs⟩)
    have hne : looksAt '<' [stop] = false := by
      simp only [Token.isEnding, beq_iff_eq] at hs
      simp [Token.isSymbol, hs]
    rw [ofTokens_append h hb fun _ => hne, ofTokens_of_isEnding hs]
    simp

end Cnd.Outline
