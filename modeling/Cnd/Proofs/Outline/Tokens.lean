import Cnd.Proofs.Outline.Sound

/-!
Which tokens are in an outline, and at which one it breaks.

What a reader takes is among the tokens it was given (`Reads`), before a break as well. A break is at
one of these tokens, or the tokens run out; an ending among them prevents that, since no reader goes
past it. So the outline of a text holds only tokens of the text, and it breaks at one of them unless
the scan of the text has a fault (`heldIn_of_ofTokens`, `reads_of_ofTokens`).
-/

namespace Cnd

/-! ## Tokens of clauses -/

def ItemName.tokens : ItemName → List Token
  | .wildcard => []
  | .named t => [t]

def PropertyClause.tokens (c : PropertyClause) : List Token :=
  c.name.tokens ++ (c.defaults ++ (c.marks.map (·.1) ++ c.constraints))

def ChildClause.tokens (c : ChildClause) : List Token :=
  c.name.tokens ++ (c.requiredTypes.getD [] ++ (c.defaultType.toList ++ c.marks.map (·.1)))

def MemberClause.tokens : MemberClause → List Token
  | .property c => c.tokens
  | .child c => c.tokens

def TypeClause.tokens (c : TypeClause) : List Token :=
  c.name :: (c.supertypes ++ c.members.flatMap MemberClause.tokens)

/-- A clause whose tokens are among the given ones, those of a binding one behind the other. -/
def Clause.HeldIn (ts : List Token) : Clause → Prop
  | .binding c => ∃ s, s <:+: ts ∧ Grammar.Binding s c
  | .nodeType c => c.tokens ⊆ ts

theorem Clause.HeldIn.of_suffix {r ts : List Token} {c : Clause} (h : c.HeldIn r) (hs : r <:+ ts) :
    c.HeldIn ts := by
  cases c with
  | binding c =>
    obtain ⟨s, hi, hb⟩ := h
    exact ⟨s, hi.trans hs.isInfix, hb⟩
  | nodeType c => exact fun t ht => hs.subset (h ht)

namespace Outline

/-! ## What is left of tokens -/

/-- What may become of tokens: the last ones are left, one of them is where the grammar is broken,
or they run out without an ending. -/
inductive Leaves (ts : List Token) : Left → Prop
  | rest {r : List Token} (hne : r ≠ []) (h : r <:+ ts) : Leaves ts (.ok r)
  | grammar {f : GrammarFault} {t : Token} (h : t ∈ ts) : Leaves ts (.error (.grammar f t))
  | scan (h : ∀ t ∈ ts.getLast?, t.isEnding = false) : Leaves ts (.error .scan)

/-- Tokens that have been taken from others, and what is left of these. -/
structure Reads (ts taken : List Token) (left : Left) : Prop where
  taken : taken ⊆ ts
  leaves : Leaves ts left

section

variable {ts r taken taken' : List Token} {left : Left}

theorem Leaves.cons {t : Token} (ht : t.isEnding = false) (h : Leaves r left) :
    Leaves (t :: r) left := by
  cases h with
  | rest hne h => exact .rest hne (h.trans (List.suffix_cons t r))
  | grammar h => exact .grammar (List.mem_cons_of_mem t h)
  | scan h =>
    refine .scan fun u hu => ?_
    cases r with
    | nil =>
      obtain rfl : t = u := by simpa using hu
      exact ht
    | cons v r => exact h u (by simpa [List.getLast?_cons_cons] using hu)

theorem Leaves.of_suffix (h : Leaves r left) (hne : r ≠ []) (hs : r <:+ ts) : Leaves ts left := by
  cases h with
  | rest hne' h => exact .rest hne' (h.trans hs)
  | grammar h => exact .grammar (hs.subset h)
  | scan h =>
    obtain ⟨front, rfl⟩ := hs
    refine .scan fun t ht => h t ?_
    rwa [List.getLast?_append_of_ne_nil front hne] at ht

theorem Reads.mono (h : Reads ts taken left) (hs : taken' ⊆ taken) : Reads ts taken' left :=
  ⟨fun _ ht => h.taken (hs ht), h.leaves⟩

theorem Reads.cons {t : Token} (ht : t.isEnding = false) (h : Reads r taken left) :
    Reads (t :: r) (t :: taken) left :=
  ⟨List.cons_subset_cons t h.taken, h.leaves.cons ht⟩

/-- What is left by one reader is read by the next. -/
theorem Reads.append (h : Reads ts taken (.ok r)) (h' : Reads r taken' left) :
    Reads ts (taken ++ taken') left := by
  cases h.leaves with
  | rest hne hs =>
    exact ⟨List.append_subset.2 ⟨h.taken, fun _ ht => hs.subset (h'.taken ht)⟩,
      h'.leaves.of_suffix hne hs⟩

theorem Reads.ne_nil (h : Reads ts taken (.ok r)) : r ≠ [] := by
  cases h.leaves with
  | rest hne _ => exact hne

/-- Nothing is read, and nothing is in the way. -/
theorem Reads.nothing (h : ts ≠ []) : Reads ts [] (.ok ts) :=
  ⟨List.nil_subset ts, .rest h (List.suffix_refl ts)⟩

end

/-! ## Single tokens -/

theorem not_ending_of_isSymbol {t : Token} {c : Char} (h : t.isSymbol c = true) :
    t.isEnding = false := by
  simp [Token.isEnding, isSymbol_iff.1 h]

theorem not_ending_of_text {t : Token} {s : String} (h : t.text? = some s) :
    t.isEnding = false := by
  unfold Token.text? at h
  split at h
  · rename_i hl
    simp [Token.isEnding, hl]
  · simp at h

theorem not_ending_of_keyword {α : Type} {table : List (String × α)} {t : Token} {a : α}
    (h : keyword? table t = some a) : t.isEnding = false := by
  unfold keyword? at h
  split at h
  · rename_i hl
    simp [Token.isEnding, hl]
  · rename_i hl
    simp [Token.isEnding, hl]
  · simp at h

theorem not_ending_of_mark {t : Token} {m : Mark} (h : mark? t = some m) : t.isEnding = false := by
  have hs := mark?_eq_some_iff.1 h
  rcases m with a | v
  · exact not_ending_of_keyword hs
  · exact not_ending_of_keyword hs

theorem reads_behind {t : Token} {r : List Token} (ht : t.isEnding = false) :
    Reads (t :: r) [t] (behind (t :: r)) := by
  cases r with
  | nil => exact ⟨by simp, .scan (by simpa using ht)⟩
  | cons u r => exact (Reads.nothing (List.cons_ne_nil u r)).cons ht

theorem reads_expect {d : Delimiter} {ts : List Token} : Reads ts [] (expect d ts) := by
  unfold expect
  split
  · exact ⟨by simp, .scan (by simp)⟩
  · split
    · rename_i ht
      exact (reads_behind (not_ending_of_isSymbol ht)).mono (List.nil_subset _)
    · exact ⟨by simp, .grammar List.mem_cons_self⟩

theorem reads_of_lookText_error {e : Expected} {ts : List Token} {b : Break}
    (h : lookText e ts = .error b) : Reads ts [] (.error b) := by
  unfold lookText at h
  split at h
  · obtain rfl := Except.error.inj h
    exact ⟨by simp, .scan (by simp)⟩
  · split at h
    · simp at h
    · obtain rfl := Except.error.inj h
      exact ⟨by simp, .grammar List.mem_cons_self⟩

/-- A text that is looked at is taken with the step behind it. -/
theorem reads_of_lookText {e : Expected} {ts : List Token} {t : Token} {s : String}
    (h : lookText e ts = .ok (t, s)) : Reads ts [t] (behind ts) := by
  obtain ⟨⟨r, rfl⟩, ht⟩ := lookText_eq_ok.1 h
  exact reads_behind (not_ending_of_text ht)

theorem reads_of_looksAt {c : Char} {ts : List Token} (h : looksAt c ts = true) :
    Reads ts [] (behind ts) := by
  obtain ⟨t, r, rfl, ht⟩ := exists_of_looksAt h
  exact (reads_behind (not_ending_of_isSymbol ht)).mono (List.nil_subset _)

/-! ## Lists -/

theorem reads_names {e : Expected} {ts ns : List Token} {left : Left}
    (h : names e ts = (ns, left)) : Reads ts ns left := by
  fun_induction names e ts generalizing ns with
  | case1 =>
    obtain ⟨rfl, rfl⟩ := Prod.mk.inj h
    exact ⟨by simp, .scan (by simp)⟩
  | case2 t s ht =>
    obtain ⟨rfl, rfl⟩ := Prod.mk.inj h
    exact reads_behind (not_ending_of_text ht)
  | case3 | case4 =>
    obtain ⟨rfl, rfl⟩ := Prod.mk.inj h
    exact ⟨by simp, .grammar List.mem_cons_self⟩
  | case5 t comma rest s ht hc ns' left' heq ih =>
    obtain ⟨rfl, rfl⟩ := Prod.mk.inj h
    refine (((ih heq).cons (not_ending_of_isSymbol hc)).cons (not_ending_of_text ht)).mono ?_
    exact List.cons_subset_cons t (List.subset_cons_self comma ns')
  | case6 t comma rest s ht hc =>
    obtain ⟨rfl, rfl⟩ := Prod.mk.inj h
    exact reads_behind (not_ending_of_text ht)

theorem subset_of_texts {s ts : List Token} (h : Grammar.Texts s ts) : ts ⊆ s := by
  induction h with
  | one => exact List.Subset.refl _
  | more _ _ _ ih => exact List.cons_subset_cons _ fun _ ht => List.mem_cons_of_mem _ (ih ht)

theorem reads_literals_error {e : Expected} {ts : List Token} {b : Break}
    (h : literals e ts = .error b) : Reads ts [] (.error b) := by
  fun_induction literals e ts with
  | case1 =>
    obtain rfl := Except.error.inj h
    exact ⟨by simp, .scan (by simp)⟩
  | case2 t s ht =>
    obtain rfl := Except.error.inj h
    exact (reads_behind (not_ending_of_text ht)).mono (List.nil_subset _)
  | case3 | case4 =>
    obtain rfl := Except.error.inj h
    exact ⟨by simp, .grammar List.mem_cons_self⟩
  | case5 t comma rest s ht hc b' heq ih =>
    obtain rfl := Except.error.inj h
    have hrest := ((ih heq).cons (not_ending_of_isSymbol hc)).cons (not_ending_of_text ht)
    exact hrest.mono (List.nil_subset _)
  | case6 => simp at h
  | case7 => simp at h

theorem reads_literalsAfter_error {c : Char} {e : Expected} {ts : List Token} {b : Break}
    (h : literalsAfter c e ts = .error b) : Reads ts [] (.error b) := by
  unfold literalsAfter at h
  split at h
  · obtain rfl := Except.error.inj h
    exact ⟨by simp, .scan (by simp)⟩
  · split at h
    · rename_i ht
      exact ((reads_literals_error h).cons (not_ending_of_isSymbol ht)).mono (List.nil_subset _)
    · simp at h

theorem reads_literalsAfter {c : Char} {e : Expected} {ts ls r : List Token}
    (h : literalsAfter c e ts = .ok (ls, r)) : Reads ts ls (.ok r) := by
  obtain ⟨s, rfl, hs, hr, -⟩ := textsAfter_of_literalsAfter h
  refine ⟨fun t ht => ?_, .rest hr (List.suffix_append s r)⟩
  cases hs with
  | none => simp at ht
  | some _ hs => exact List.mem_append_left r (List.mem_cons_of_mem _ (subset_of_texts hs ht))

theorem reads_marks {ts : List Token} {ms : List (Token × Mark)} {left : Left}
    (h : marks ts = (ms, left)) : Reads ts (ms.map (·.1)) left := by
  fun_induction marks ts generalizing ms with
  | case1 =>
    obtain ⟨rfl, rfl⟩ := Prod.mk.inj h
    exact ⟨by simp, .scan (by simp)⟩
  | case2 t rest =>
    obtain ⟨rfl, rfl⟩ := Prod.mk.inj h
    exact .nothing (List.cons_ne_nil t rest)
  | case3 t m ht =>
    obtain ⟨rfl, rfl⟩ := Prod.mk.inj h
    exact reads_behind (not_ending_of_mark ht)
  | case4 t m ht next more ms' left' heq ih =>
    obtain ⟨rfl, rfl⟩ := Prod.mk.inj h
    exact (ih heq).cons (not_ending_of_mark ht)

/-! ## Members -/

theorem reads_itemName {e : Expected} {ts : List Token} {n : Option ItemName} {left : Left}
    (h : itemName e ts = (n, left)) : Reads ts (n.elim [] ItemName.tokens) left := by
  unfold itemName at h
  split at h
  · rename_i hw
    obtain ⟨rfl, rfl⟩ := Prod.mk.inj h
    exact reads_of_looksAt hw
  · split at h
    · rename_i hl
      obtain ⟨rfl, rfl⟩ := Prod.mk.inj h
      exact reads_of_lookText_error hl
    · rename_i hl
      obtain ⟨rfl, rfl⟩ := Prod.mk.inj h
      exact reads_of_lookText hl

theorem reads_propertyType {ts r : List Token} {type : PropertyType} (hne : ts ≠ [])
    (h : propertyType ts = .ok (type, r)) : Reads ts [] (.ok r) := by
  obtain ⟨s, rfl, -, hr⟩ := typed_of_propertyType hne h
  exact ⟨List.nil_subset _, .rest hr (List.suffix_append s r)⟩

theorem reads_propertyType_error {ts : List Token} {b : Break}
    (h : propertyType ts = .error b) : Reads ts [] (.error b) := by
  unfold propertyType at h
  split at h
  · simp at h
  rename_i hl
  have hopen := reads_of_looksAt (by simpa using hl)
  rcases bind_eq_error.1 h with h₁ | ⟨ts₁, h₁, h⟩
  · rwa [h₁] at hopen
  rw [h₁] at hopen
  split at h
  · exact absurd rfl hopen.ne_nil
  rename_i t more
  split at h
  · obtain rfl := Except.error.inj h
    exact hopen.append ⟨by simp, .grammar List.mem_cons_self⟩
  rename_i ht
  have htype := hopen.append
    ((reads_behind (r := more) (not_ending_of_keyword ht)).mono (List.nil_subset _))
  rcases bind_eq_error.1 h with h₂ | ⟨ts₂, h₂, h⟩
  · rwa [h₂] at htype
  rw [h₂] at htype
  have hclose := htype.append (reads_expect (d := .propertyTypeClose))
  rcases bind_eq_error.1 h with h₃ | ⟨ts₃, -, h⟩
  · rwa [h₃] at hclose
  · simp at h

theorem reads_property {ts : List Token} {c : Option PropertyClause} {left : Left}
    (h : property ts = (c, left)) : Reads ts (c.elim [] PropertyClause.tokens) left := by
  unfold property at h
  split at h <;> rename_i h₁
  · obtain ⟨rfl, rfl⟩ := Prod.mk.inj h
    exact reads_itemName h₁
  · obtain ⟨rfl, rfl⟩ := Prod.mk.inj h
    exact (reads_itemName h₁).mono (by simp [PropertyClause.tokens])
  have hname := reads_itemName h₁
  split at h <;> rename_i h₂
  · obtain ⟨rfl, rfl⟩ := Prod.mk.inj h
    exact (hname.append (reads_propertyType_error h₂)).mono (by simp [PropertyClause.tokens])
  have htype := hname.append (reads_propertyType hname.ne_nil h₂)
  split at h <;> rename_i h₃
  · obtain ⟨rfl, rfl⟩ := Prod.mk.inj h
    exact (htype.append (reads_literalsAfter_error h₃)).mono (by simp [PropertyClause.tokens])
  have hdefaults := htype.append (reads_literalsAfter h₃)
  split at h <;> rename_i h₄
  · obtain ⟨rfl, rfl⟩ := Prod.mk.inj h
    exact (hdefaults.append (reads_marks h₄)).mono (by simp [PropertyClause.tokens])
  have hmarks := hdefaults.append (reads_marks h₄)
  split at h <;> rename_i h₅
  · obtain ⟨rfl, rfl⟩ := Prod.mk.inj h
    exact (hmarks.append (reads_literalsAfter_error h₅)).mono (by simp [PropertyClause.tokens])
  · obtain ⟨rfl, rfl⟩ := Prod.mk.inj h
    exact (hmarks.append (reads_literalsAfter h₅)).mono (by simp [PropertyClause.tokens])

theorem reads_requiredTypes {ts : List Token} {types : Option (List Token)} {left : Left}
    (hne : ts ≠ []) (h : requiredTypes ts = (types, left)) : Reads ts (types.getD []) left := by
  unfold requiredTypes at h
  split at h
  · obtain ⟨rfl, rfl⟩ := Prod.mk.inj h
    exact .nothing hne
  rename_i hl
  have hopen := reads_of_looksAt (by simpa using hl)
  split at h <;> rename_i h₁ <;> rw [h₁] at hopen
  · obtain ⟨rfl, rfl⟩ := Prod.mk.inj h
    exact hopen
  split at h <;> rename_i h₂ <;> have hnames := hopen.append (reads_names h₂)
  · obtain ⟨rfl, rfl⟩ := Prod.mk.inj h
    exact hnames
  · obtain ⟨rfl, rfl⟩ := Prod.mk.inj h
    exact (hnames.append reads_expect).mono (by simp)

theorem reads_defaultType {ts : List Token} {t : Option Token} {left : Left} (hne : ts ≠ [])
    (h : defaultType ts = (t, left)) : Reads ts t.toList left := by
  unfold defaultType at h
  split at h
  · obtain ⟨rfl, rfl⟩ := Prod.mk.inj h
    exact .nothing hne
  rename_i hl
  have hopen := reads_of_looksAt (by simpa using hl)
  split at h <;> rename_i h₁ <;> rw [h₁] at hopen
  · obtain ⟨rfl, rfl⟩ := Prod.mk.inj h
    exact hopen
  split at h <;> rename_i h₂
  · obtain ⟨rfl, rfl⟩ := Prod.mk.inj h
    exact hopen.append (reads_of_lookText_error h₂)
  · obtain ⟨rfl, rfl⟩ := Prod.mk.inj h
    exact hopen.append (reads_of_lookText h₂)

theorem reads_child {ts : List Token} {c : Option ChildClause} {left : Left}
    (h : child ts = (c, left)) : Reads ts (c.elim [] ChildClause.tokens) left := by
  unfold child at h
  split at h <;> rename_i h₁
  · obtain ⟨rfl, rfl⟩ := Prod.mk.inj h
    exact reads_itemName h₁
  · obtain ⟨rfl, rfl⟩ := Prod.mk.inj h
    exact (reads_itemName h₁).mono (by simp [ChildClause.tokens])
  have hname := reads_itemName h₁
  split at h <;> rename_i h₂ <;>
    have hrequired := hname.append (reads_requiredTypes hname.ne_nil h₂)
  · obtain ⟨rfl, rfl⟩ := Prod.mk.inj h
    exact hrequired.mono (by simp [ChildClause.tokens])
  split at h <;> rename_i h₃ <;>
    have htype := hrequired.append (reads_defaultType hrequired.ne_nil h₃)
  · obtain ⟨rfl, rfl⟩ := Prod.mk.inj h
    exact htype.mono (by simp [ChildClause.tokens])
  · obtain ⟨rfl, rfl⟩ := Prod.mk.inj h
    exact (htype.append (reads_marks rfl)).mono (by simp [ChildClause.tokens])

theorem reads_member {ts : List Token} {c : Option MemberClause} {left : Left}
    (h : member? ts = some (c, left)) : Reads ts (c.elim [] MemberClause.tokens) left := by
  unfold member? at h
  split at h
  · rename_i t next rest
    split at h
    · rename_i ht
      cases hp : property (next :: rest) with
      | mk p left' =>
        simp only [hp] at h
        obtain ⟨rfl, rfl⟩ := Prod.mk.inj (Option.some.inj h)
        refine ((reads_property hp).cons (not_ending_of_isSymbol ht)).mono ?_
        cases p with
        | none => exact List.nil_subset _
        | some p => exact List.subset_cons_self t p.tokens
    · split at h
      · rename_i ht
        cases hp : child (next :: rest) with
        | mk p left' =>
          simp only [hp] at h
          obtain ⟨rfl, rfl⟩ := Prod.mk.inj (Option.some.inj h)
          refine ((reads_child hp).cons (not_ending_of_isSymbol ht)).mono ?_
          cases p with
          | none => exact List.nil_subset _
          | some p => exact List.subset_cons_self t p.tokens
      · simp at h
  · split at h
    · rename_i t ht
      obtain ⟨rfl, rfl⟩ := Prod.mk.inj (Option.some.inj h)
      have ht : t.isEnding = false := by
        rcases Bool.or_eq_true_iff.1 ht with ht | ht
        · exact not_ending_of_isSymbol ht
        · exact not_ending_of_isSymbol ht
      exact (reads_behind ht).mono (List.nil_subset _)
    · simp at h
  · simp at h

theorem reads_members {ts : List Token} {ms : List MemberClause} {left : Left} (hne : ts ≠ [])
    (h : members ts = (ms, left)) : Reads ts (ms.flatMap MemberClause.tokens) left := by
  fun_induction members ts generalizing ms with
  | case1 ts =>
    obtain ⟨rfl, rfl⟩ := Prod.mk.inj h
    exact .nothing hne
  | case2 ts c b hm =>
    obtain ⟨rfl, rfl⟩ := Prod.mk.inj h
    refine (reads_member hm).mono ?_
    cases c <;> simp
  | case3 ts c rest hm ms' left' heq ih =>
    obtain ⟨rfl, rfl⟩ := Prod.mk.inj h
    have hfirst := reads_member hm
    refine (hfirst.append (ih hfirst.ne_nil heq)).mono ?_
    cases c <;> simp

/-! ## Clauses -/

theorem reads_supertypes {ts ns : List Token} {left : Left} (hne : ts ≠ [])
    (h : supertypes ts = (ns, left)) : Reads ts ns left := by
  unfold supertypes at h
  split at h
  · obtain ⟨rfl, rfl⟩ := Prod.mk.inj h
    exact .nothing hne
  rename_i hl
  have hopen := reads_of_looksAt (by simpa using hl)
  split at h <;> rename_i h₁ <;> rw [h₁] at hopen
  · obtain ⟨rfl, rfl⟩ := Prod.mk.inj h
    exact hopen
  · exact hopen.append (reads_names h)

theorem reads_options {ts : List Token} {o m : Bool} {left : Left}
    (h : options ts = (o, m, left)) : Reads ts [] left := by
  unfold options at h
  split at h
  · simp only [Prod.mk.injEq] at h
    obtain ⟨-, -, rfl⟩ := h
    exact ⟨by simp, .scan (by simp)⟩
  rename_i t rest
  split at h
  · simp only [Prod.mk.injEq] at h
    obtain ⟨-, -, rfl⟩ := h
    exact .nothing (List.cons_ne_nil t rest)
  rename_i ht
  have hfirst : Reads (t :: rest) [] (behind (t :: rest)) :=
    (reads_behind (not_ending_of_keyword ht)).mono (List.nil_subset _)
  simp only at h
  split at h <;> rename_i h₁ <;> rw [h₁] at hfirst
  · simp only [Prod.mk.injEq] at h
    obtain ⟨-, -, rfl⟩ := h
    exact hfirst
  · exact absurd rfl hfirst.ne_nil
  rename_i u more
  split at h
  · rename_i hu
    split at h
    · simp only [Prod.mk.injEq] at h
      obtain ⟨-, -, rfl⟩ := h
      exact hfirst
    · simp only [Prod.mk.injEq] at h
      obtain ⟨-, -, rfl⟩ := h
      exact (hfirst.append (reads_behind (not_ending_of_keyword hu))).mono (List.nil_subset _)
  · simp only [Prod.mk.injEq] at h
    obtain ⟨-, -, rfl⟩ := h
    exact hfirst

theorem reads_nodeType {ts : List Token} {c : Option TypeClause} {left : Left}
    (h : nodeType ts = (c, left)) : Reads ts (c.elim [] TypeClause.tokens) left := by
  have hopen : Reads ts [] (expect .typeOpen ts) := reads_expect
  unfold nodeType at h
  split at h <;> rename_i h₁ <;> rw [h₁] at hopen
  · obtain ⟨rfl, rfl⟩ := Prod.mk.inj h
    exact hopen
  split at h <;> rename_i h₂
  · obtain ⟨rfl, rfl⟩ := Prod.mk.inj h
    exact hopen.append (reads_of_lookText_error h₂)
  have hname := hopen.append (reads_of_lookText h₂)
  split at h <;> rename_i h₃ <;> rw [h₃] at hname
  · obtain ⟨rfl, rfl⟩ := Prod.mk.inj h
    exact hname.mono (by simp [TypeClause.tokens])
  have hclose := hname.append (reads_expect (d := .typeClose))
  split at h <;> rename_i h₄ <;> rw [h₄] at hclose
  · obtain ⟨rfl, rfl⟩ := Prod.mk.inj h
    exact hclose.mono (by simp [TypeClause.tokens])
  split at h <;> rename_i h₅ <;>
    have hsupers := hclose.append (reads_supertypes hclose.ne_nil h₅)
  · obtain ⟨rfl, rfl⟩ := Prod.mk.inj h
    exact hsupers.mono (by simp [TypeClause.tokens])
  split at h <;> rename_i h₆ <;> have hoptions := hsupers.append (reads_options h₆)
  · obtain ⟨rfl, rfl⟩ := Prod.mk.inj h
    exact hoptions.mono (by simp [TypeClause.tokens])
  · obtain ⟨rfl, rfl⟩ := Prod.mk.inj h
    exact (hoptions.append (reads_members hoptions.ne_nil rfl)).mono (by simp [TypeClause.tokens])

theorem reads_binding_error {t : Token} {r : List Token} {b : Break} (ht : t.isEnding = false)
    (h : binding (t :: r) = .error b) : Reads (t :: r) [] (.error b) := by
  have hopen : Reads (t :: r) [] (behind (t :: r)) := (reads_behind ht).mono (List.nil_subset _)
  simp only [binding] at h
  rcases bind_eq_error.1 h with h₁ | ⟨ts₁, h₁, h⟩ <;> rw [h₁] at hopen
  · exact hopen
  rcases bind_eq_error.1 h with h₂ | ⟨⟨p, pfx⟩, h₂, h⟩
  · exact hopen.append (reads_of_lookText_error h₂)
  have hprefix := hopen.append ((reads_of_lookText h₂).mono (List.nil_subset _))
  rcases bind_eq_error.1 h with h₃ | ⟨ts₃, h₃, h⟩ <;> rw [h₃] at hprefix
  · exact hprefix
  have hequals := hprefix.append (reads_expect (d := .bindingEquals))
  rcases bind_eq_error.1 h with h₄ | ⟨ts₄, h₄, h⟩ <;> rw [h₄] at hequals
  · exact hequals
  rcases bind_eq_error.1 h with h₅ | ⟨⟨u, uri⟩, h₅, h⟩
  · exact hequals.append (reads_of_lookText_error h₅)
  have huri := hequals.append ((reads_of_lookText h₅).mono (List.nil_subset _))
  rcases bind_eq_error.1 h with h₆ | ⟨ts₆, h₆, h⟩ <;> rw [h₆] at huri
  · exact huri
  have hclose := huri.append (reads_expect (d := .bindingClose))
  rcases bind_eq_error.1 h with h₇ | ⟨ts₇, -, h⟩
  · rwa [h₇] at hclose
  · simp at h

/-! ## The whole -/

/-- Clauses are held in the tokens that they are read from. -/
theorem heldIn_of_ofTokens {ts : List Token} {c : Clause} (h : c ∈ (Outline.ofTokens ts).clauses) :
    c.HeldIn ts := by
  fun_induction Outline.ofTokens ts with
  | case1 => simp at h
  | case2 => simp at h
  | case3 => simp at h
  | case4 t rest ht ho b left hb o =>
    rename_i ih
    obtain ⟨s, hts, hs, -⟩ := binding_sound hb
    rcases List.mem_cons.1 h with rfl | h
    · exact ⟨s, hts ▸ (List.prefix_append s left).isInfix, hs (by simpa using ho)⟩
    · exact (ih h).of_suffix (hts ▸ List.suffix_append s left)
  | case5 => simp at h
  | case6 => simp at h
  | case7 t rest ht ho d left hb o =>
    rename_i ih
    have hd := reads_nodeType hb
    rcases List.mem_cons.1 h with rfl | h
    · exact hd.taken
    · cases hd.leaves with
      | rest _ hs => exact (ih h).of_suffix hs

/-- A break is at one of the tokens, or these have no ending; the part of a node type in front of it
is among them. -/
theorem reads_of_ofTokens {ts : List Token} {c : Option TypeClause} {b : Break}
    (h : (Outline.ofTokens ts).ending = .broken c b) :
    Reads ts (c.elim [] TypeClause.tokens) (.error b) := by
  fun_induction Outline.ofTokens ts with
  | case1 =>
    obtain ⟨rfl, rfl⟩ := OutlineEnd.broken.inj h
    exact ⟨by simp, .scan (by simp)⟩
  | case2 => simp at h
  | case3 t rest ht ho b' hb =>
    obtain ⟨rfl, rfl⟩ := OutlineEnd.broken.inj h
    exact reads_binding_error (by simpa using ht) hb
  | case4 t rest ht ho d left hb o =>
    rename_i ih
    obtain ⟨s, hts, -, hne⟩ := binding_sound hb
    have hleft := ih h
    rw [hts]
    exact ⟨fun u hu => List.mem_append_right s (hleft.taken hu),
      hleft.leaves.of_suffix hne (List.suffix_append s left)⟩
  | case5 t rest ht ho d b' hb =>
    obtain ⟨rfl, rfl⟩ := OutlineEnd.broken.inj h
    exact reads_nodeType hb
  | case6 t rest ht ho left hb =>
    -- a node type that is read to its end has a clause
    obtain ⟨_, _, hnone, -⟩ := nodeType_sound hb
    simp at hnone
  | case7 t rest ht ho d left hb o =>
    rename_i ih
    have hd := (reads_nodeType hb).mono (List.nil_subset _)
    exact hd.append (ih h)

end Outline

end Cnd
