import Cnd.Constraint
import Cnd.Proofs.Except
import Cnd.Proofs.ItemPath
import Cnd.Proofs.Namespaces.Extend

/-!
The prefixes that a text mentions, and the names that it thereby has.

Names, paths and constraints on them are read by a table only through the URIs of the prefixes in
their texts. `Mentions` says so of a reader: every mentioned prefix is bound to the URI of its name,
and a table that binds all of them reads the text too, as the same thing just if it binds each to
the URI of its name.
-/

namespace Cnd

open Namespaces

namespace Namespaces

/-- The prefix in front of the first colon of a text, the empty one if there is no colon. -/
def prefixOf (s : List Char) : String :=
  if ':' ∈ s then String.ofList (s.takeWhile (· != ':')) else ""

/-- Each prefix is bound to the URI of the name at its place. -/
def Binds (ns : Namespaces) (prefixes : List String) (names : List Name) : Prop :=
  List.Forall₂ (fun pfx n => ns.uri? pfx = some n.uri) prefixes names

theorem Binds.length_eq {ns : Namespaces} {prefixes : List String} {names : List Name}
    (h : ns.Binds prefixes names) : prefixes.length = names.length := List.Forall₂.length_eq h

theorem Binds.append_iff {ns : Namespaces} {ps qs : List String} {as bs : List Name}
    (hl : ps.length = as.length) :
    ns.Binds (ps ++ qs) (as ++ bs) ↔ ns.Binds ps as ∧ ns.Binds qs bs := by
  induction ps generalizing as with
  | nil =>
    cases as with
    | nil => simp [Binds]
    | cons a as => simp at hl
  | cons p ps ih =>
    cases as with
    | nil => simp at hl
    | cons a as =>
      have hl : ps.length = as.length := by simpa using hl
      have ih := ih hl
      simp only [Binds, List.cons_append, List.forall₂_cons] at ih ⊢
      rw [ih, and_assoc]

theorem Binds.mono {ns ns' : Namespaces} {prefixes : List String} {names : List Name}
    (h : ns.Binds prefixes names) (he : ns.ExtendedBy ns') : ns'.Binds prefixes names :=
  List.Forall₂.imp (fun pfx n hu => he pfx n.uri hu) h

theorem Binds.contains {ns : Namespaces} {prefixes : List String} {names : List Name}
    (h : ns.Binds prefixes names) : ∀ pfx ∈ prefixes, ns.contains pfx = true := by
  intro pfx hp
  obtain ⟨n, -, hu⟩ := exists_of_forall₂ (List.Forall₂.flip h) hp
  exact contains_iff.2 ⟨n.uri, hu⟩

end Namespaces

/-- What is read by a table has names, by prefixes that do not depend on the table. -/
structure Mentions {α : Type} (Reads : Namespaces → α → Prop) (prefixes : List String)
    (names : α → List Name) : Prop where
  binds : ∀ ns x, Reads ns x → ns.Binds prefixes (names x)
  carry : ∀ ns ns' x, Reads ns x → (∀ pfx ∈ prefixes, ns'.contains pfx = true) →
    ∃ x', Reads ns' x' ∧ (x' = x ↔ ns'.Binds prefixes (names x))

namespace Mentions

variable {α β γ : Type} {names : α → List Name}

/-- A larger table reads the same. -/
theorem mono {Reads : Namespaces → α → Prop} {prefixes : List String}
    (h : Mentions Reads prefixes names) {ns ns' : Namespaces} (he : ns.ExtendedBy ns') {x : α}
    (hx : Reads ns x) : Reads ns' x := by
  have hbinds := (h.binds ns x hx).mono he
  obtain ⟨x', hx', hiff⟩ := h.carry ns ns' x hx hbinds.contains
  rwa [hiff.2 hbinds] at hx'

/-- Nothing is read. -/
theorem never {Reads : Namespaces → α → Prop} (h : ∀ ns x, ¬Reads ns x) (prefixes : List String) :
    Mentions Reads prefixes names :=
  ⟨fun ns x hx => absurd hx (h ns x), fun ns _ x hx => absurd hx (h ns x)⟩

/-- The table does not matter. -/
theorem const {Reads : Namespaces → α → Prop} (h : ∀ ns ns' x, Reads ns x → Reads ns' x)
    (hn : ∀ ns x, Reads ns x → names x = []) : Mentions Reads [] names where
  binds ns x hx := by
    rw [hn ns x hx]
    exact .nil
  carry ns ns' x hx _ := by
    refine ⟨x, h ns ns' x hx, ?_⟩
    rw [hn ns x hx]
    exact ⟨fun _ => .nil, fun _ => rfl⟩

/-- What is read is put into a larger thing. -/
theorem map {Reads : Namespaces → α → Prop} {prefixes : List String}
    (h : Mentions Reads prefixes names) {f : α → β} (hf : ∀ a b, f a = f b → a = b)
    {Reads' : Namespaces → β → Prop} {names' : β → List Name}
    (hr : ∀ ns y, Reads' ns y ↔ ∃ x, Reads ns x ∧ f x = y) (hn : ∀ x, names' (f x) = names x) :
    Mentions Reads' prefixes names' where
  binds ns y hy := by
    obtain ⟨x, hx, rfl⟩ := (hr ns y).1 hy
    rw [hn]
    exact h.binds ns x hx
  carry ns ns' y hy hc := by
    obtain ⟨x, hx, rfl⟩ := (hr ns y).1 hy
    obtain ⟨x', hx', hiff⟩ := h.carry ns ns' x hx hc
    refine ⟨f x', (hr ns' _).2 ⟨x', hx', rfl⟩, ?_⟩
    rw [hn, ← hiff]
    exact ⟨hf x' x, congrArg f⟩

/-- Two things are read one behind the other. -/
theorem pair {A : Namespaces → α → Prop} {B : Namespaces → β → Prop} {ps qs : List String}
    {namesB : β → List Name} (ha : Mentions A ps names) (hb : Mentions B qs namesB)
    {f : α → β → γ} (hf : ∀ a b a' b', f a b = f a' b' → a = a' ∧ b = b')
    {Reads' : Namespaces → γ → Prop} {names' : γ → List Name}
    (hr : ∀ ns z, Reads' ns z ↔ ∃ x y, A ns x ∧ B ns y ∧ f x y = z)
    (hn : ∀ x y, names' (f x y) = names x ++ namesB y) : Mentions Reads' (ps ++ qs) names' where
  binds ns z hz := by
    obtain ⟨x, y, hx, hy, rfl⟩ := (hr ns z).1 hz
    have hx := ha.binds ns x hx
    rw [hn, Binds.append_iff hx.length_eq]
    exact ⟨hx, hb.binds ns y hy⟩
  carry ns ns' z hz hc := by
    obtain ⟨x, y, hx, hy, rfl⟩ := (hr ns z).1 hz
    obtain ⟨x', hx', hxiff⟩ := ha.carry ns ns' x hx fun p hp => hc p (List.mem_append_left _ hp)
    obtain ⟨y', hy', hyiff⟩ := hb.carry ns ns' y hy fun p hp => hc p (List.mem_append_right _ hp)
    refine ⟨f x' y', (hr ns' _).2 ⟨x', y', hx', hy', rfl⟩, ?_⟩
    rw [hn, Binds.append_iff (ha.binds ns x hx).length_eq, ← hxiff, ← hyiff]
    constructor
    · exact hf x' y' x y
    · intro h
      rw [h.1, h.2]

end Mentions

/-! ## Names -/

theorem Namespaces.prefixOf_prefixed {pfx : String} {cs : List Char} (hp : LegalPrefix pfx)
    (h : LegalLocal cs) : prefixOf (prefixed pfx cs) = pfx := by
  unfold prefixOf prefixed
  by_cases he : pfx = ""
  · rw [if_pos he, if_neg (h.not_mem (by decide)), he]
  · have hcolon := colon_not_mem_prefix (hp he)
    rw [if_neg he, if_pos (by simp), Text.takeWhile_ne_append hcolon, String.ofList_toList]

theorem Namespaces.mentions_resolve (text : String) :
    Mentions (fun ns n => ns.resolve text = .ok n) [prefixOf text.toList] (fun n => [n]) where
  binds ns n h := by
    obtain ⟨hlegal, pfx, hp, hu, htext⟩ := resolve_eq_ok_iff.1 h
    rw [htext, prefixOf_prefixed hp hlegal]
    exact .cons hu .nil
  carry ns ns' n h hc := by
    obtain ⟨hlegal, pfx, hp, -, htext⟩ := resolve_eq_ok_iff.1 h
    rw [htext, prefixOf_prefixed hp hlegal] at hc ⊢
    obtain ⟨uri, hu⟩ := contains_iff.1 (hc pfx (List.mem_singleton_self pfx))
    refine ⟨⟨uri, n.localName⟩, resolve_eq_ok_iff.2 ⟨hlegal, pfx, hp, hu, htext⟩, ?_⟩
    simp only [Binds, List.forall₂_cons, List.forall₂_nil_right_iff, and_true, hu, Option.some.injEq]
    obtain ⟨nuri, localName⟩ := n
    simp

/-! ## Paths -/

namespace PathSegment

def names : PathSegment → List Name
  | .item n _ => [n]
  | .current | .parent => []

/-- The prefix of a text between slashes: that of its name, without the index. -/
def prefixes (s : List Char) : List String :=
  if s == [] || s == ['.'] || s == ['.', '.'] then []
  else [prefixOf (((splitIndex? s).map (·.1)).getD s)]

theorem mentions_ofText (path : String) (s : List Char) :
    Mentions (fun ns g => ofText ns path s = .ok g) (prefixes s) names := by
  by_cases hempty : s = []
  · rw [hempty]
    exact .never (fun ns g h => by simp [ofText] at h) _
  by_cases hdot : s = ['.']
  · rw [hdot]
    exact .const (fun _ _ _ h => h) fun _ g h => by rw [← Except.ok.inj h]; rfl
  by_cases hdots : s = ['.', '.']
  · rw [hdots]
    exact .const (fun _ _ _ h => h) fun _ g h => by rw [← Except.ok.inj h]; rfl
  unfold ofText prefixes
  simp only [List.isEmpty_iff, beq_iff_eq, Bool.or_eq_true, hempty, hdot, hdots, or_self, if_false]
  cases splitIndex? s with
  | none =>
    have hname := Namespaces.mentions_resolve (String.ofList s)
    rw [String.toList_ofList] at hname
    refine hname.map (f := fun n => PathSegment.item n none) (fun a b h => ?_) (fun ns g => ?_) fun _ => rfl
    · exact (PathSegment.item.inj h).1
    · dsimp only
      cases ns.resolve (String.ofList s) <;> simp
  | some parts =>
    obtain ⟨name, digits⟩ := parts
    dsimp only
    cases Numeral.ofDigits digits with
    | error count => exact .never (by simp) _
    | ok index =>
      dsimp only
      by_cases hindex : index < 1
      · simp only [if_pos hindex]
        exact .never (by simp) _
      have hname := Namespaces.mentions_resolve (String.ofList name)
      rw [String.toList_ofList] at hname
      simp only [if_neg hindex]
      refine hname.map (f := fun n => PathSegment.item n (some index)) (fun a b h => ?_) (fun ns g => ?_)
        fun _ => rfl
      · exact (PathSegment.item.inj h).1
      · cases ns.resolve (String.ofList name) <;> simp

end PathSegment

namespace ItemPath

def names (p : ItemPath) : List Name := p.segments.flatMap PathSegment.names

/-- The prefixes of a text: those of what is between its slashes. -/
def prefixes (s : List Char) : List String :=
  (FilePath.splitSlash s).flatMap PathSegment.prefixes

/-- Nothing is in front of a slash at the start. -/
theorem prefixes_slash (s : List Char) : prefixes ('/' :: s) = prefixes s := by
  have h := FilePath.splitSlash_append (s := []) (by simp) s
  rw [List.nil_append] at h
  rw [prefixes, h]
  rfl

theorem mentions_segmentsOf (path : String) (texts : List (List Char)) :
    Mentions (fun ns gs => segmentsOf ns path texts = .ok gs) (texts.flatMap PathSegment.prefixes)
      fun gs => gs.flatMap PathSegment.names := by
  induction texts with
  | nil => exact .const (fun _ _ _ h => h) fun _ gs h => by rw [← Except.ok.inj h]; rfl
  | cons s texts ih =>
    refine (PathSegment.mentions_ofText path s).pair ih (f := List.cons) (fun a b a' b' h => ?_)
      (fun ns gs => ?_) fun _ _ => rfl
    · exact List.cons.inj h
    · rw [segmentsOf]
      cases PathSegment.ofText ns path s with
      | error e => simp
      | ok g => cases segmentsOf ns path texts <;> simp

theorem mentions_parse (text : String) :
    Mentions (fun ns p => parse ns text = .ok p) (prefixes text.toList) names := by
  have hsegments : ∀ (absolute : Bool) (s : List Char),
      Mentions (fun ns p => (segmentsOf ns text (FilePath.splitSlash s)).map (⟨absolute, ·⟩) = .ok p)
        ((FilePath.splitSlash s).flatMap PathSegment.prefixes) names := fun absolute s =>
    (mentions_segmentsOf text (FilePath.splitSlash s)).map (f := ItemPath.mk absolute)
      (fun a b h => (ItemPath.mk.inj h).2) (fun ns p => map_eq_ok) fun _ => rfl
  unfold parse
  split
  · exact .never (by simp) _
  · rename_i htext
    rw [htext, prefixes_slash]
    exact .const (fun _ _ _ h => h) fun _ p h => by rw [← Except.ok.inj h]; rfl
  · rename_i rest _ htext
    rw [htext, prefixes_slash]
    exact hsegments true rest
  · exact hsegments false text.toList

end ItemPath

/-! ## Values and constraints -/

def Value.names : Value → List Name
  | .name n => [n]
  | .path p => p.names
  | _ => []

/-- The names that a requirement asks for, those of its path included. -/
def Requirement.names : Requirement → List Name
  | .name n | .nodeType n => [n]
  | .path p _ => p.names
  | _ => []

namespace Constraint

/-- The text of the path in the text of a constraint on paths, and whether an asterisk is below. -/
def stem (s : List Char) : List Char × Bool :=
  if ['*', '/'].isPrefixOf s.reverse then
    let above := s.take (s.length - 2)
    (if above.isEmpty then ['/'] else above, true)
  else (s, false)

theorem readName_eq_ok {ns : Namespaces} {text : String} {n : Name} :
    readName ns text = .ok n ↔ ns.resolve text = .ok n := by
  rw [readName]
  cases ns.resolve text <;> simp

theorem readPath_eq_ok {ns : Namespaces} {text : String} {r : Requirement} :
    readPath ns text = .ok r ↔
      ∃ p, ItemPath.parse ns (String.ofList (stem text.toList).1) = .ok p ∧
        .path p (stem text.toList).2 = r := by
  unfold readPath stem
  dsimp only
  cases ['*', '/'].isPrefixOf text.toList.reverse with
  | false =>
    simp only [Bool.false_eq_true, if_false, Bool.false_and]
    cases ItemPath.parse ns (String.ofList text.toList) <;> simp
  | true =>
    simp only [if_true, Bool.true_and]
    generalize (if (text.toList.take (text.toList.length - 2)).isEmpty then ['/']
      else text.toList.take (text.toList.length - 2)) = above
    cases ItemPath.parse ns (String.ofList above) <;> simp

/-- The prefixes of the text of a constraint. -/
def prefixes (type : PropertyType) (s : List Char) : List String :=
  match type with
  | .name | .reference => [prefixOf s]
  | .path => ItemPath.prefixes (stem s).1
  | _ => []

theorem mentions_readRequirement (type : PropertyType) (text : String) :
    Mentions (fun ns r => readRequirement ns type text = .ok r) (prefixes type text.toList)
      Requirement.names := by
  have hname : Mentions (fun ns n => readName ns text = .ok n) [prefixOf text.toList] fun n => [n] :=
    (mentions_resolve text).map (f := id) (fun _ _ h => h) (fun _ _ => by simp [readName_eq_ok])
      fun _ => rfl
  cases type with
  | string | undefined =>
    refine .const (fun _ _ _ h => h) fun ns r h => ?_
    simp only [readRequirement, readPattern] at h
    split at h
    · rw [← Except.ok.inj h]
      rfl
    · simp at h
  | binary | long | double | boolean | date =>
    refine .const (fun _ _ _ h => h) fun ns r h => ?_
    obtain ⟨i, -, rfl⟩ := map_eq_ok.1 h
    rfl
  | name =>
    exact hname.map (f := Requirement.name) (fun a b h => Requirement.name.inj h)
      (fun ns r => map_eq_ok) fun _ => rfl
  | reference =>
    exact hname.map (f := Requirement.nodeType) (fun a b h => Requirement.nodeType.inj h)
      (fun ns r => map_eq_ok) fun _ => rfl
  | path =>
    have hpath := ItemPath.mentions_parse (String.ofList (stem text.toList).1)
    rw [String.toList_ofList] at hpath
    refine hpath.map (f := fun p => Requirement.path p (stem text.toList).2)
      (fun a b h => (Requirement.path.inj h).1) (fun ns r => readPath_eq_ok) fun _ => rfl

theorem read_eq_ok {ns : Namespaces} {type : PropertyType} {text : String} {c : Constraint} :
    read ns type text = .ok c ↔ ∃ r, readRequirement ns type text = .ok r ∧ ⟨text, type, r⟩ = c := by
  rw [read]
  cases readRequirement ns type text <;> simp

/-- A constraint is read by the prefixes of its text, and asks for their names. -/
theorem mentions_read (type : PropertyType) (text : String) :
    Mentions (fun ns c => read ns type text = .ok c) (prefixes type text.toList)
      fun c => c.requirement.names :=
  (mentions_readRequirement type text).map (f := Constraint.mk text type)
    (fun _ _ h => (Constraint.mk.inj h).2.2) (fun _ _ => read_eq_ok) fun _ => rfl

theorem definition_of_read {ns : Namespaces} {type : PropertyType} {text : String} {c : Constraint}
    (h : read ns type text = .ok c) : c.definition = text := by
  obtain ⟨r, -, rfl⟩ := read_eq_ok.1 h
  rfl

theorem type_of_read {ns : Namespaces} {type : PropertyType} {text : String} {c : Constraint}
    (h : read ns type text = .ok c) : c.type = type := by
  obtain ⟨r, -, rfl⟩ := read_eq_ok.1 h
  rfl

theorem requirement_of_read {ns : Namespaces} {type : PropertyType} {text : String} {c : Constraint}
    (h : read ns type text = .ok c) : readRequirement ns type text = .ok c.requirement := by
  obtain ⟨r, hr, rfl⟩ := read_eq_ok.1 h
  exact hr

end Constraint

end Cnd
