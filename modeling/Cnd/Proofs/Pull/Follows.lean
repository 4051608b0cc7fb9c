import Cnd.Proofs.Except
import Cnd.Proofs.Outline.Tokens
import Cnd.Proofs.Pull.Parser

/-!
A parser that pulls its tokens reads as the readers of outlines do.

A parser follows a reader if, wherever it starts, it gives the meaning of what the reader reads, or
the failure of that, or that of the break behind it (`Follows`). The answers that it has been given
are then those for the tokens that the reader took, one for each. Each parser has a lemma with the
reader that it follows. A round of a loop that goes on takes a token, so the tokens in sight are
rounds enough (`follows_rounds`).
-/

namespace Cnd.Pull

open Outline (Left behind expect lookText looksAt)

/-- What the lexer has still to say where some tokens are in sight. -/
def pending (fault : Option ScanError) (ts : List Token) : List Answer :=
  ts.tail.map .ok ++ fault.toList.map .error

/-- The tokens that a parser has in sight, up to the ending or a fault. -/
structure Sees (fault : Option ScanError) (s : Session) (ts : List Token) : Prop where
  head : ts.head? = some s.token
  remaining : s.token.isEnding = false → s.lexer.remaining = ⟨ts.tail, fault⟩

section

variable (source : Option String) (fault : Option ScanError) (ns : Namespaces)

/-- A parser ends as expected: with a result and the tokens behind it, or with a failure. -/
def Ends {α : Type} (ts : List Token) (c : Course α) : Except Failure (α × List Token) → Prop
  | .ok (a, r) => c.result = .ok a ∧ Sees fault c.session r ∧ c.session.namespaces = ns ∧
      c.events = [] ∧ pending fault ts = c.answers ++ pending fault r
  | .error f => c.result = .error (.failed f) ∧ c.events = [] ∧ c.answers <+: pending fault ts

/-- From some tokens on, a parser ends as expected. -/
def Follows {α : Type} (ts : List Token) (m : Pull α) (x : Except Failure (α × List Token)) :
    Prop :=
  ∀ s, Sees fault s ts → s.namespaces = ns → Ends fault ns ts (m s) x

/-- What a reader that may break comes to. -/
def settled {β : Type} (x : Except Break β) : Except Failure β :=
  x.mapError (Elaboration.breakFailure source fault)

/-- What is read comes before the break behind it. -/
def settle {α : Type} (meaning : Except Failure α) (left : Left) :
    Except Failure (α × List Token) := do
  let a ← meaning
  let r ← settled source fault left
  return (a, r)

/-- What may be read comes before the break behind it. -/
def settle? {γ α : Type} (meaning : γ → Except Failure α) :
    Option γ × Left → Except Failure (α × List Token)
  | (some c, left) => settle source fault (meaning c) left
  | (none, .error b) => .error (Elaboration.breakFailure source fault b)
  | (none, .ok _) => .error (Elaboration.breakFailure source fault .scan)

end

section

variable {source : Option String} {fault : Option ScanError} {ns : Namespaces} {α β γ σ : Type}
  {ts r : List Token} {m : Pull α} {x : Except Failure (α × List Token)}

@[simp] theorem ok_bind {ε : Type} (a : α) (k : α → Except ε β) : (Except.ok a >>= k) = k a := rfl

@[simp] theorem error_bind {ε : Type} (f : ε) (k : α → Except ε β) :
    (Except.error f >>= k) = .error f := rfl

@[simp] theorem settled_ok (a : α) : settled source fault (.ok a) = .ok a := rfl

@[simp] theorem settled_error (b : Break) :
    (settled source fault (.error b) : Except Failure α) =
      .error (Elaboration.breakFailure source fault b) := rfl

@[simp] theorem settle_ok (x : Except Failure α) (r : List Token) :
    settle source fault x (.ok r) = x >>= fun a => .ok (a, r) := rfl

/-- What is read first has its failure first. -/
@[simp] theorem settle_error (x : Except Failure α) (b : Break) :
    settle source fault x (.error b) =
      x >>= fun _ => .error (Elaboration.breakFailure source fault b) := rfl

theorem settle_eq_ok {x : Except Failure α} {left : Left} {p : α × List Token} :
    settle source fault x left = .ok p ↔ x = .ok p.1 ∧ left = .ok p.2 := by
  rcases x with f | a <;> rcases left with b | r <;>
    simp [settle, settled, Except.mapError, bind, Except.bind, pure, Except.pure, Prod.ext_iff]

theorem of_settle?_eq_ok {meaning : γ → Except Failure α} {x : Option γ × Left} {p : α × List Token}
    (h : settle? source fault meaning x = .ok p) :
    ∃ c, x = (some c, .ok p.2) ∧ meaning c = .ok p.1 := by
  rcases x with ⟨_ | c, b | r⟩
  · simp [settle?] at h
  · simp [settle?] at h
  · exact absurd (settle_eq_ok.1 h).2 (by simp)
  · obtain ⟨hc, hr⟩ := settle_eq_ok.1 h
    exact ⟨c, by rw [hr], hc⟩

theorem settled_eq_ok {x : Except Break α} {a : α} :
    settled source fault x = .ok a ↔ x = .ok a := by
  rcases x with b | a <;> simp [settled, Except.mapError]

theorem settled_bind (x : Except Break α) (k : α → Except Break β) :
    settled source fault (x >>= k) =
      settled source fault x >>= fun a => settled source fault (k a) := by
  cases x <;> rfl

theorem follows_nil : Follows fault ns [] m x := fun s hs => by simpa using hs.head

/-- Only tokens that are there matter. -/
theorem follows_of_cons (h : ∀ t r, ts = t :: r → Follows fault ns ts m x) :
    Follows fault ns ts m x := by
  cases ts with
  | nil => exact follows_nil
  | cons t r => exact h t r rfl

theorem follows_pure (a : α) : Follows fault ns ts (pure a) (.ok (a, ts)) :=
  fun _ hs hns => ⟨rfl, hs, hns, rfl, rfl⟩

theorem follows_stop (f : Failure) : Follows fault ns ts (stop (.failed f) : Pull α) (.error f) :=
  fun _ _ _ => ⟨rfl, rfl, List.nil_prefix⟩

theorem follows_check (y : Except Failure α) :
    Follows fault ns ts (check y) (y.map fun a => (a, ts)) := by
  cases y with
  | ok a => exact follows_pure a
  | error f => exact follows_stop f

theorem follows_namespaces : Follows fault ns ts namespaces (.ok (ns, ts)) :=
  fun _ hs hns => ⟨congrArg _ hns, hs, hns, rfl, rfl⟩

theorem follows_current (t : Token) : Follows fault ns (t :: r) current (.ok (t, t :: r)) := by
  intro s hs hns
  obtain rfl : t = s.token := Option.some.inj hs.head
  exact ⟨rfl, hs, hns, rfl, rfl⟩

theorem Follows.bind {k : α → Pull β} {y : α × List Token → Except Failure (β × List Token)}
    (h : Follows fault ns ts m x)
    (hk : ∀ a r, x = .ok (a, r) → Follows fault ns r (k a) (y (a, r))) :
    Follows fault ns ts (m >>= k) (x >>= y) := by
  intro s hs hns
  have hm := h s hs hns
  cases x with
  | error f =>
    obtain ⟨hresult, hevents, hanswers⟩ := hm
    rw [bind_of_error hresult]
    exact ⟨rfl, hevents, hanswers⟩
  | ok p =>
    obtain ⟨a, r⟩ := p
    obtain ⟨hresult, hsees, hns', hevents, hanswers⟩ := hm
    have hend := hk a r rfl (m s).session hsees hns'
    rw [bind_of_ok hresult]
    change Ends fault ns ts _ (y (a, r))
    cases hy : y (a, r) with
    | error f =>
      rw [hy] at hend
      obtain ⟨hresult', hevents', hanswers'⟩ := hend
      refine ⟨hresult', by simp [hevents, hevents'], ?_⟩
      rw [hanswers]
      exact (List.prefix_append_right_inj _).2 hanswers'
    | ok q =>
      rw [hy] at hend
      obtain ⟨hresult', hsees', hns'', hevents', hanswers'⟩ := hend
      refine ⟨hresult', hsees', hns'', by simp [hevents, hevents'], ?_⟩
      rw [hanswers, hanswers', List.append_assoc]

/-- What has been read goes before the rest. -/
theorem Follows.andThen {k : α → Pull β} {a : α} {y : Except Failure (β × List Token)}
    (h : Follows fault ns ts m (.ok (a, r))) (hk : Follows fault ns r (k a) y) :
    Follows fault ns ts (m >>= k) y := by
  refine h.bind (y := fun _ => y) fun b q hb => ?_
  obtain ⟨rfl, rfl⟩ := Prod.mk.inj (Except.ok.inj hb)
  exact hk

theorem Follows.fails {k : α → Pull β} {f : Failure} (h : Follows fault ns ts m (.error f)) :
    Follows fault ns ts (m >>= k) (.error f) :=
  h.bind (y := fun _ => .error f) fun _ _ hb => nomatch hb

theorem Follows.bind_map {k : α → Pull β} {x : Except Failure γ} {g : γ → α × List Token}
    {y : γ → Except Failure (β × List Token)} (h : Follows fault ns ts m (x.map g))
    (hk : ∀ c, x = .ok c → Follows fault ns (g c).2 (k (g c).1) (y c)) :
    Follows fault ns ts (m >>= k) (x >>= y) := by
  cases x with
  | error f => exact h.fails
  | ok c => exact h.andThen (hk c rfl)

/-- What looks at a token is given the first one. -/
theorem follows_look {k : Token → Pull β} {y : Except Failure (β × List Token)}
    (h : ∀ t r, ts = t :: r → Follows fault ns ts (k t) y) :
    Follows fault ns ts (current >>= k) y := by
  refine follows_of_cons ?_
  rintro t r rfl
  exact (follows_current t).andThen (h t r rfl)

/-! ## Tokens -/

/-- What the lexer has still to say is in sight of the token that it says next. -/
theorem sees_of_next {l l' : Lexer} {t : Token} (h : l.next = .ok (t, l')) (ns : Namespaces) :
    Sees l.remaining.fault ⟨t, l', ns⟩ l.remaining.tokens := by
  cases ht : t.isEnding with
  | true =>
    rw [Lexer.remaining_of_ending h ht]
    exact ⟨rfl, fun hf => by simp [ht] at hf⟩
  | false =>
    rw [Lexer.remaining_of_token h ht]
    exact ⟨rfl, fun _ => rfl⟩

/-- Asking the lexer once is taking one token. -/
theorem follows_advance {t : Token} (ht : t.isEnding = false) :
    Follows fault ns (t :: r) (advance source)
      ((settled source fault (behind (t :: r))).map fun r => ((), r)) := by
  intro s hs hns
  obtain rfl : t = s.token := Option.some.inj hs.head
  have hremaining := hs.remaining ht
  rw [List.tail_cons] at hremaining
  cases hnext : s.lexer.next with
  | error e =>
    rw [advance_of_error source hnext]
    obtain ⟨rfl, rfl⟩ := Scanned.mk.inj ((Lexer.remaining_of_error hnext).symm.trans hremaining)
    exact ⟨rfl, rfl, List.prefix_refl _⟩
  | ok found =>
    obtain ⟨u, l⟩ := found
    rw [advance_of_ok source hnext]
    have hsees := sees_of_next hnext s.namespaces
    rw [hremaining] at hsees
    obtain ⟨more, rfl⟩ := List.head?_eq_some_iff.1 hsees.head
    exact ⟨rfl, hsees, hns, rfl, rfl⟩

/-- A sign that is taken, if it is looked at. -/
theorem follows_ifSign {t : Token} {c : Char} {m m' : Pull α}
    {y : List Token → Except Failure (α × List Token)} {y' : Except Failure (α × List Token)}
    (hts : ts = t :: r) (h : ∀ r, r.length < ts.length → Follows fault ns r m (y r))
    (h' : Follows fault ns ts m' y') :
    Follows fault ns ts (if t.isSymbol c then advance source >>= fun _ => m else m')
      (if looksAt c ts then settled source fault (behind ts) >>= y else y') := by
  subst hts
  rw [looksAt]
  split
  · rename_i ht
    refine (follows_advance (Outline.not_ending_of_isSymbol ht)).bind_map fun r' hr' => ?_
    exact h r' (Outline.behind_shorter (settled_eq_ok.1 hr'))
  · exact h'

theorem follows_sign {c : Char} {m m' : Pull α} {y : List Token → Except Failure (α × List Token)}
    {y' : Except Failure (α × List Token)}
    (h : ∀ r, r.length < ts.length → Follows fault ns r m (y r)) (h' : Follows fault ns ts m' y') :
    Follows fault ns ts
      (current >>= fun t => if t.isSymbol c then advance source >>= fun _ => m else m')
      (if looksAt c ts then settled source fault (behind ts) >>= y else y') :=
  follows_look fun _ _ hts => follows_ifSign hts h h'

theorem follows_refuse {t : Token} (f : GrammarFault) :
    Follows fault ns (t :: r) (refuse source f : Pull α)
      (.error (Elaboration.breakFailure source fault (.grammar f t))) :=
  (follows_current t).andThen (follows_stop _)

theorem follows_expectSymbol (d : Delimiter) :
    Follows fault ns ts (expectSymbol source d)
      ((settled source fault (expect d ts)).map fun r => ((), r)) := by
  refine follows_look ?_
  rintro t r rfl
  rw [expect]
  split
  · rename_i ht
    exact follows_advance (Outline.not_ending_of_isSymbol ht)
  · exact follows_refuse _

theorem follows_expectText (e : Expected) :
    Follows fault ns ts (expectText source e)
      ((settled source fault (lookText e ts)).map fun found => (found.1, ts)) := by
  refine follows_look ?_
  rintro t r rfl
  rw [lookText]
  cases t.text? with
  | none => exact follows_refuse _
  | some s => exact follows_pure t

theorem follows_advance_text {e : Expected} {found : Token × String}
    (h : lookText e ts = .ok found) :
    Follows fault ns ts (advance source)
      ((settled source fault (behind ts)).map fun r => ((), r)) := by
  obtain ⟨⟨r, rfl⟩, ht⟩ := Outline.lookText_eq_ok.1 h
  exact follows_advance (Outline.not_ending_of_text ht)

/-- A text that is taken, if one is looked at. -/
def textAt (e : Expected) (ts : List Token) : Option Token × Left :=
  match lookText e ts with
  | .error b => (none, .error b)
  | .ok (t, _) => (some t, behind ts)

theorem settle_textAt (meaning : Token → Except Failure α) (e : Expected) (ts : List Token) :
    settle? source fault meaning (textAt e ts) =
      settled source fault (lookText e ts) >>= fun found =>
        settle source fault (meaning found.1) (behind ts) := by
  rw [textAt]
  rcases lookText e ts with b | ⟨t, s⟩ <;> rfl

theorem shorter_of_textAt {meaning : Token → Except Failure α} {e : Expected} {a : α}
    (h : settle? source fault meaning (textAt e ts) = .ok (a, r)) : r.length < ts.length := by
  rw [settle_textAt] at h
  obtain ⟨found, -, h⟩ := bind_eq_ok.1 h
  exact Outline.behind_shorter (settle_eq_ok.1 h).2

theorem follows_resolve (t : Token) :
    Follows fault ns ts (resolve source t)
      ((Elaboration.name source ns t).map fun n => (n, ts)) :=
  follows_namespaces.andThen (follows_check _)

theorem follows_name (e : Expected) :
    Follows fault ns ts (name source e)
      (settle? source fault (Elaboration.name source ns) (textAt e ts)) := by
  rw [settle_textAt]
  refine (follows_expectText e).bind_map fun found hfound => ?_
  refine (follows_resolve found.1).bind_map fun n _ => ?_
  refine (follows_advance_text (settled_eq_ok.1 hfound)).bind_map fun r _ => ?_
  exact follows_pure n

/-! ## Loops -/

/-- What a loop follows from a round on that has this result. -/
def onward (whole : σ → List Token → Except Failure (α × List Token)) :
    (σ ⊕ α) × List Token → Except Failure (α × List Token)
  | (.inl y, r) => whole y r
  | (.inr a, r) => .ok (a, r)

/-- A loop follows what its rounds follow, if a round that goes on takes a token. -/
theorem follows_rounds {round : σ → Pull (σ ⊕ α)} (P : List Token → Prop)
    (once : σ → List Token → Except Failure ((σ ⊕ α) × List Token))
    {whole : σ → List Token → Except Failure (α × List Token)}
    (hround : ∀ x ts, P ts → Follows fault ns ts (round x) (once x ts))
    (hnext : ∀ x y ts r, P ts → once x ts = .ok (.inl y, r) → P r ∧ r.length < ts.length)
    (hwhole : ∀ x ts, P ts → whole x ts = once x ts >>= onward whole) :
    ∀ {n : Nat} {x : σ} {ts : List Token}, P ts → ts.length ≤ n →
      Follows fault ns ts (rounds round n x) (whole x ts) := by
  intro n
  induction n with
  | zero =>
    intro x ts _ hlength
    rw [List.eq_nil_of_length_eq_zero (Nat.le_zero.1 hlength)]
    exact follows_nil
  | succ n ih =>
    intro x ts hP hlength
    rw [hwhole x ts hP]
    refine (hround x ts hP).bind fun z r hz => ?_
    cases z with
    | inl y =>
      obtain ⟨hPr, hlt⟩ := hnext x y ts r hP hz
      exact ih hPr (by omega)
    | inr a => exact follows_pure a

end

end Cnd.Pull
