import Cnd.Proofs.Elaboration.Marks
import Cnd.Proofs.Outline.Relabel
import Cnd.Proofs.Pull.Follows

/-!
Which readers the parsers of names, literals and marks follow.

Each loop has what one round reads (`nameOnce`), and what the whole reads from a round on
(`namesBehind`). A round that goes on takes a token, and the whole is a round and the whole from
there on (`namesBehind_eq`), so the loop follows the reader (`follows_nameList`).
-/

namespace Cnd.Pull

open Outline (Left behind expect lookText looksAt)

section

variable {source : Option String} {fault : Option ScanError} {ns : Namespaces} {α β γ σ : Type}
  {ts r : List Token}

/-! ## Lists of names -/

/-- One more name, if a comma is looked at. -/
def nameOnce (source : Option String) (fault : Option ScanError) (ns : Namespaces) (e : Expected)
    (names : List Name) (ts : List Token) :
    Except Failure ((List Name ⊕ List Name) × List Token) :=
  if looksAt ',' ts then do
    let r ← settled source fault (behind ts)
    let (n, r) ← settle? source fault (Elaboration.name source ns) (textAt e r)
    return (.inl (names ++ [n]), r)
  else .ok (.inr names, ts)

/-- Names behind others. -/
def namesFrom (source : Option String) (fault : Option ScanError) (ns : Namespaces) (e : Expected)
    (names : List Name) (ts : List Token) : Except Failure (List Name × List Token) :=
  settle source fault
    ((Outline.names e ts).1.mapM (Elaboration.name source ns) >>= fun more => .ok (names ++ more))
    (Outline.names e ts).2

/-- Names behind others, if a comma is looked at. -/
def namesBehind (source : Option String) (fault : Option ScanError) (ns : Namespaces) (e : Expected)
    (names : List Name) (ts : List Token) : Except Failure (List Name × List Token) :=
  if looksAt ',' ts then namesFrom source fault ns e names ts.tail else .ok (names, ts)

theorem follows_nameRound (e : Expected) (names : List Name) :
    Follows fault ns ts (nameRound source e names) (nameOnce source fault ns e names ts) :=
  follows_sign (fun _ _ => (follows_name e).bind fun _ _ _ => follows_pure _) (follows_pure _)

theorem names_eq (e : Expected) (ts : List Token) :
    Outline.names e ts = match lookText e ts, behind ts with
      | .error b, _ => ([], .error b)
      | .ok (t, _), .error b => ([t], .error b)
      | .ok (t, _), .ok r =>
        if looksAt ',' r then (t :: (Outline.names e r.tail).1, (Outline.names e r.tail).2)
        else ([t], .ok r) := by
  rcases ts with _ | ⟨t, _ | ⟨comma, rest⟩⟩
  · rfl
  · rw [Outline.names, lookText]
    rcases t.text? with _ | s <;> rfl
  · rw [Outline.names, lookText]
    rcases t.text? with _ | s <;> rfl

theorem shorter_of_nameOnce {e : Expected} {names names' : List Name}
    (h : nameOnce source fault ns e names ts = .ok (.inl names', r)) : r.length < ts.length := by
  unfold nameOnce at h
  split at h
  · obtain ⟨r', hr', h⟩ := bind_eq_ok.1 h
    have hlt := Outline.behind_shorter (settled_eq_ok.1 hr')
    obtain ⟨⟨n, r''⟩, hn, h⟩ := bind_eq_ok.1 h
    obtain ⟨-, rfl⟩ := Prod.mk.inj (pure_eq_ok.1 h)
    have := shorter_of_textAt hn
    omega
  · simp at h

theorem namesFrom_eq (e : Expected) (names : List Name) (ts : List Token) :
    namesFrom source fault ns e names ts =
      settle? source fault (Elaboration.name source ns) (textAt e ts) >>= fun x =>
        namesBehind source fault ns e (names ++ [x.1]) x.2 := by
  rw [namesFrom, names_eq, settle_textAt]
  rcases lookText e ts with b | ⟨t, s⟩
  · rfl
  rcases behind ts with b | r
  · simp
  · by_cases hcomma : looksAt ',' r = true <;> simp [namesBehind, namesFrom, hcomma, settle]

theorem namesBehind_eq (e : Expected) (names : List Name) (ts : List Token) :
    namesBehind source fault ns e names ts =
      nameOnce source fault ns e names ts >>= onward (namesBehind source fault ns e) := by
  unfold nameOnce
  rw [namesBehind]
  split
  · rcases ts with _ | ⟨comma, _ | ⟨t, rest⟩⟩
    · rfl
    · rfl
    · simp [namesFrom_eq, behind, onward]
  · rfl

theorem follows_nameList {n : Nat} (e : Expected) (hn : ts.length ≤ n) :
    Follows fault ns ts (nameList source e n)
      (settle source fault ((Outline.names e ts).1.mapM (Elaboration.name source ns))
        (Outline.names e ts).2) := by
  have hnames : settle source fault ((Outline.names e ts).1.mapM (Elaboration.name source ns))
      (Outline.names e ts).2 = namesFrom source fault ns e [] ts := by
    rw [namesFrom]
    rcases (Outline.names e ts).1.mapM (Elaboration.name source ns) with f | names <;> rfl
  rw [hnames, namesFrom_eq]
  refine (follows_name e).bind fun first r hfirst => ?_
  have hlt := shorter_of_textAt hfirst
  refine follows_rounds (fun _ => True) (nameOnce source fault ns e) ?_ ?_ ?_ trivial (by omega)
  · exact fun names ts _ => follows_nameRound e names
  · exact fun names names' ts r _ h => ⟨trivial, shorter_of_nameOnce h⟩
  · exact fun names ts _ => namesBehind_eq e names ts

/-! ## Lists of literals -/

/-- One more literal behind the token looked at. -/
def literalOnce (source : Option String) (fault : Option ScanError) (e : Expected)
    (literals : List Token) (ts : List Token) :
    Except Failure ((List Token ⊕ List Token) × List Token) := do
  let r ← settled source fault (behind ts)
  let (literal, _) ← settled source fault (lookText e r)
  let r ← settled source fault (behind r)
  return (if looksAt ',' r then .inl (literals ++ [literal]) else .inr (literals ++ [literal]), r)

/-- The literals behind the token looked at, and others in front of them. -/
def literalsFrom (source : Option String) (fault : Option ScanError) (e : Expected)
    (literals : List Token) (ts : List Token) : Except Failure (List Token × List Token) :=
  (settled source fault (Outline.literals e ts.tail)).map fun more => (literals ++ more.1, more.2)

theorem literals_eq (e : Expected) (ts : List Token) :
    Outline.literals e ts = match lookText e ts, behind ts with
      | .error b, _ => .error b
      | .ok _, .error b => .error b
      | .ok (t, _), .ok r =>
        if looksAt ',' r then (Outline.literals e r.tail).map fun more => (t :: more.1, more.2)
        else .ok ([t], r) := by
  rcases ts with _ | ⟨t, _ | ⟨comma, rest⟩⟩
  · rfl
  · rw [Outline.literals, lookText]
    rcases t.text? with _ | s <;> rfl
  · rw [Outline.literals, lookText]
    rcases t.text? with _ | s
    · rfl
    · by_cases hcomma : comma.isSymbol ',' = true
      · simp only [behind, looksAt, List.tail_cons, hcomma, if_true]
        rcases Outline.literals e rest with b | more <;> rfl
      · simp [behind, looksAt, hcomma]

theorem follows_literalRound {t : Token} (e : Expected) (literals : List Token)
    (ht : t.isEnding = false) :
    Follows fault ns (t :: r) (literalRound source e literals)
      (literalOnce source fault e literals (t :: r)) := by
  refine (follows_advance ht).bind_map fun ts _ => ?_
  refine (follows_expectText e).bind_map fun found hfound => ?_
  refine (follows_advance_text (settled_eq_ok.1 hfound)).bind_map fun ts' _ => ?_
  refine follows_of_cons ?_
  rintro v more rfl
  exact (follows_current v).andThen (follows_pure _)

theorem literalsFrom_eq (e : Expected) (literals : List Token) (ts : List Token) :
    literalsFrom source fault e literals ts =
      literalOnce source fault e literals ts >>= onward (literalsFrom source fault e) := by
  rw [literalsFrom, literalOnce]
  rcases ts with _ | ⟨t, _ | ⟨t', rest⟩⟩
  · rfl
  · rfl
  rw [List.tail_cons, literals_eq, behind]
  simp only [settled_ok, ok_bind]
  rcases lookText e (t' :: rest) with b | found
  · rfl
  rcases behind (t' :: rest) with b | r
  · rfl
  by_cases hcomma : looksAt ',' r = true
  · rcases h : Outline.literals e r.tail with b | more <;>
      simp [hcomma, onward, literalsFrom, h, Except.map]
  · simp [hcomma, onward, Except.map]

theorem next_of_literalOnce {e : Expected} {literals literals' : List Token}
    (h : literalOnce source fault e literals ts = .ok (.inl literals', r)) :
    (∀ t ∈ r.head?, t.isEnding = false) ∧ r.length < ts.length := by
  unfold literalOnce at h
  obtain ⟨u, hu, h⟩ := bind_eq_ok.1 h
  obtain ⟨⟨literal, _⟩, -, h⟩ := bind_eq_ok.1 h
  obtain ⟨r', hr, h⟩ := bind_eq_ok.1 h
  have h₁ := Outline.behind_shorter (settled_eq_ok.1 hu)
  have h₂ := Outline.behind_shorter (settled_eq_ok.1 hr)
  obtain ⟨hcomma, rfl⟩ := Prod.mk.inj (pure_eq_ok.1 h)
  split at hcomma
  · rename_i hlooks
    refine ⟨fun t ht => ?_, by omega⟩
    obtain ⟨rest, rfl⟩ := List.head?_eq_some_iff.1 ht
    exact Outline.not_ending_of_isSymbol hlooks
  · simp at hcomma

theorem follows_literalsAfter {n : Nat} {c : Char} (e : Expected) (hn : ts.length ≤ n) :
    Follows fault ns ts (literalsAfter source c e n)
      (settled source fault (Outline.literalsAfter c e ts)) := by
  refine follows_look ?_
  rintro t r rfl
  rw [Outline.literalsAfter]
  split
  · rename_i ht
    have hwhole : settled source fault (Outline.literals e r) =
        literalsFrom source fault e [] (t :: r) := by
      rw [literalsFrom, List.tail_cons]
      rcases Outline.literals e r with b | found <;> rfl
    rw [hwhole]
    refine follows_rounds (fun ts => ∀ t ∈ ts.head?, t.isEnding = false)
      (literalOnce source fault e) ?_ ?_ ?_ ?_ hn
    · intro literals ts hhead
      refine follows_of_cons ?_
      rintro u more rfl
      exact follows_literalRound e literals (hhead u rfl)
    · exact fun literals literals' ts r _ h => next_of_literalOnce h
    · exact fun literals ts _ => literalsFrom_eq e literals ts
    · intro u hu
      obtain rfl : t = u := Option.some.inj hu
      exact Outline.not_ending_of_isSymbol ht
  · exact follows_pure []

/-! ## Marks -/

theorem marks_append {typeName : String} {item : Name} (ms ms' : List (Token × Mark))
    (a : ItemAttributes) (primary : Option Name) :
    Elaboration.marks source typeName item (ms ++ ms') a primary =
      Elaboration.marks source typeName item ms a primary >>= fun x =>
        Elaboration.marks source typeName item ms' x.1 x.2 := by
  fun_induction Elaboration.marks source typeName item ms a primary with
  | case1 => rfl
  | case2 t rest a primary hprimary => simp [Elaboration.marks, hprimary, bind, Except.bind]
  | case3 t rest a primary hprimary ih => simp [Elaboration.marks, hprimary, ih]
  | case4 t k rest a primary hk ih =>
    cases k with
    | isPrimary => exact absurd rfl hk
    | _ => exact ih
  | case5 t v rest a primary ih => exact ih

/-- One more mark, if one is looked at. -/
def markOnce (source : Option String) (fault : Option ScanError) (typeName : String) (item : Name)
    (x : ItemAttributes × Option Name) : List Token → Except Failure
      (((ItemAttributes × Option Name) ⊕ (ItemAttributes × Option Name)) × List Token)
  | [] => .error (Elaboration.breakFailure source fault .scan)
  | t :: r => match Outline.mark? t with
    | none => .ok (.inr x, t :: r)
    | some m => do
      let next ← Elaboration.marks source typeName item [(t, m)] x.1 x.2
      let r ← settled source fault (behind (t :: r))
      return (.inl next, r)

/-- The marks from here on, and what others have come to. -/
def marksFrom (source : Option String) (fault : Option ScanError) (typeName : String) (item : Name)
    (x : ItemAttributes × Option Name) (ts : List Token) :
    Except Failure ((ItemAttributes × Option Name) × List Token) :=
  settle source fault (Elaboration.marks source typeName item (Outline.marks ts).1 x.1 x.2)
    (Outline.marks ts).2

theorem follows_attributeRound (typeName : String) (item : Name)
    (x : ItemAttributes × Option Name) :
    Follows fault ns ts (attributeRound source typeName item x)
      (markOnce source fault typeName item x ts) := by
  refine follows_look ?_
  rintro t r rfl
  rw [markOnce]
  cases hm : Outline.mark? t with
  | none => exact follows_pure _
  | some m =>
    refine (follows_check _).bind_map fun next _ => ?_
    refine (follows_advance (Outline.not_ending_of_mark hm)).bind_map fun r' _ => ?_
    exact follows_pure _

theorem shorter_of_markOnce {typeName : String} {item : Name} {x y : ItemAttributes × Option Name}
    (h : markOnce source fault typeName item x ts = .ok (.inl y, r)) : r.length < ts.length := by
  unfold markOnce at h
  split at h
  · simp at h
  · split at h
    · simp at h
    · obtain ⟨next, -, h⟩ := bind_eq_ok.1 h
      obtain ⟨r', hr, h⟩ := bind_eq_ok.1 h
      obtain ⟨-, rfl⟩ := Prod.mk.inj (pure_eq_ok.1 h)
      exact Outline.behind_shorter (settled_eq_ok.1 hr)

theorem shorter_of_marksFrom {typeName : String} {item : Name} {x y : ItemAttributes × Option Name}
    (h : marksFrom source fault typeName item x ts = .ok (y, r)) : r.length ≤ ts.length :=
  Outline.marks_shorter (Prod.ext rfl (settle_eq_ok.1 h).2)

theorem marksFrom_eq (typeName : String) (item : Name) (x : ItemAttributes × Option Name)
    (ts : List Token) :
    marksFrom source fault typeName item x ts =
      markOnce source fault typeName item x ts >>=
        onward (marksFrom source fault typeName item) := by
  rw [marksFrom]
  rcases ts with _ | ⟨t, rest⟩
  · rfl
  rw [markOnce, Outline.marks]
  rcases Outline.mark? t with _ | m
  · rfl
  rcases rest with _ | ⟨next, more⟩
  · dsimp only
    rcases Elaboration.marks source typeName item [(t, m)] x.1 x.2 with f | y <;> rfl
  · dsimp only
    rw [← List.singleton_append, marks_append]
    rcases Elaboration.marks source typeName item [(t, m)] x.1 x.2 with f | y <;> rfl

theorem follows_attributes {n : Nat} (typeName : String) (item : Name)
    (x : ItemAttributes × Option Name) (hn : ts.length ≤ n) :
    Follows fault ns ts (rounds (attributeRound source typeName item) n x)
      (marksFrom source fault typeName item x ts) := by
  refine follows_rounds (fun _ => True) (markOnce source fault typeName item) ?_ ?_ ?_ trivial hn
  · exact fun x ts _ => follows_attributeRound typeName item x
  · exact fun x y ts r _ h => ⟨trivial, shorter_of_markOnce h⟩
  · exact fun x ts _ => marksFrom_eq typeName item x ts

end

end Cnd.Pull
