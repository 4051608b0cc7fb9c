import Cnd.Proofs.Text.Digit
import Cnd.Schema.Basic
import Cnd.Yaml.Document

/-!
Positions in a tree, and the source map of a tree.

A position is the steps from the root to a node. In a tree whose mappings have different texts as
keys, the path under which a node is recorded determines its position (`pointer_injective`), so that
each node is found at its path (`find?_places`) and nothing is found elsewhere.
-/

namespace Cnd.Yaml

/-! ## Escaped keys -/

def escaped (s : List Char) : List Char := s.flatMap escapeKeyChar

theorem toList_escapeKey (key : String) : (escapeKey key).toList = escaped key.toList := by
  simp [escapeKey, escaped]

theorem slash_not_mem_escaped (s : List Char) : '/' ∉ escaped s := by
  intro h
  obtain ⟨c, -, hc⟩ := List.mem_flatMap.1 h
  unfold escapeKeyChar at hc
  split at hc
  · simp at hc
  split at hc
  · simp at hc
  · rename_i hslash
    simp only [List.mem_singleton] at hc
    simp [← hc] at hslash

/-- No escaped character begins another one. -/
theorem escapeKeyChar_append {c d : Char} {s t : List Char}
    (h : escapeKeyChar c ++ s = escapeKeyChar d ++ t) : c = d ∧ s = t := by
  unfold escapeKeyChar at h
  grind

theorem escaped_injective {s t : List Char} (h : escaped s = escaped t) : s = t := by
  have hne : ∀ c, escapeKeyChar c ≠ [] := fun c => by
    unfold escapeKeyChar
    grind
  induction s generalizing t with
  | nil =>
    cases t with
    | nil => rfl
    | cons d t => simp [escaped, hne] at h
  | cons c s ih =>
    cases t with
    | nil => simp [escaped, hne] at h
    | cons d t =>
      obtain ⟨rfl, hrest⟩ := escapeKeyChar_append (by simpa [escaped] using h)
      rw [ih hrest]

theorem length_le_escaped (s : List Char) : s.length ≤ (escaped s).length := by
  induction s with
  | nil => exact Nat.le_refl _
  | cons c s ih =>
    have hc : 0 < (escapeKeyChar c).length := by
      unfold escapeKeyChar
      grind
    simp only [escaped, List.flatMap_cons, List.length_append, List.length_cons] at ih ⊢
    omega

/-- A text without tildes and slashes is its own escape, and no other text is. -/
theorem escaped_eq_self_iff {s : List Char} : escaped s = s ↔ '~' ∉ s ∧ '/' ∉ s := by
  induction s with
  | nil => simp [escaped]
  | cons c s ih =>
    rw [escaped, List.flatMap_cons, ← escaped, List.mem_cons, List.mem_cons]
    unfold escapeKeyChar
    split
    · rename_i hc
      have hne : '0' :: escaped s ≠ s := fun h => by
        have := congrArg List.length h
        have := length_le_escaped s
        simp only [List.length_cons] at *
        omega
      simp [hne, eq_of_beq hc]
    · split
      · rename_i hc
        simp [eq_of_beq hc]
      · rename_i ht hs
        have ht : '~' ≠ c := fun h => ht (by simp [← h])
        have hs : '/' ≠ c := fun h => hs (by simp [← h])
        simp [ih, ht, hs]

/-! ## Paths -/

/-- The path of the node that some steps lead to, from a path on. -/
def pointerFrom (path : String) (steps : List PathStep) : String :=
  steps.foldl (fun p s => childPath p s.text) path

def pointer (steps : List PathStep) : String := pointerFrom "" steps

/-- What the steps add to a path. -/
def trail (texts : List String) : List Char := texts.flatMap fun t => '/' :: escaped t.toList

theorem toList_pointerFrom (path : String) (steps : List PathStep) :
    (pointerFrom path steps).toList = path.toList ++ trail (steps.map PathStep.text) := by
  unfold pointerFrom
  induction steps generalizing path with
  | nil => simp [trail]
  | cons s steps ih =>
    rw [List.foldl_cons, ih]
    simp [childPath, toList_escapeKey, trail]

theorem trail_injective {texts texts' : List String} (h : trail texts = trail texts') :
    texts = texts' := by
  -- the slashes of a trail are those between its parts
  have hcut : ∀ (t : String) (more : List String),
      (escaped t.toList ++ trail more).takeWhile (· != '/') = escaped t.toList := by
    intro t more
    rw [List.takeWhile_append_of_pos fun c hc => ?_]
    · cases more <;> simp [trail]
    · simpa using fun heq => slash_not_mem_escaped _ (heq ▸ hc)
  induction texts generalizing texts' with
  | nil =>
    cases texts' with
    | nil => rfl
    | cons t' texts' => simp [trail] at h
  | cons t texts ih =>
    cases texts' with
    | nil => simp [trail] at h
    | cons t' texts' =>
      have h : escaped t.toList ++ trail texts = escaped t'.toList ++ trail texts' := by
        simpa [trail] using h
      have hhead : escaped t.toList = escaped t'.toList := by
        rw [← hcut t texts, h, hcut]
      rw [hhead, List.append_cancel_left_eq] at h
      rw [ih h, String.toList_inj.1 (escaped_injective hhead)]

/-! ## Positions -/

namespace Node

/-- The node that a step leads to: the value at a key, or the item at an index. -/
def child? : Node → PathStep → Option Node
  | .mapping _ entries _, .key (.text s) =>
    (entries.find? fun e => e.1.keyText? == some s).map (·.2)
  | .sequence _ items _, .index i => items[i]?
  | _, _ => none

/-- The node that steps lead to. -/
def at? (n : Node) : List PathStep → Option Node
  | [] => some n
  | s :: rest => (n.child? s).bind fun m => m.at? rest

/-- All keys of a tree are scalars of some tags, and no mapping has two keys of one text. -/
inductive KeyedBy (ok : Tag → Prop) : Node → Prop
  | scalar (tag : Tag) (text : String) (m : Mark) : KeyedBy ok (.scalar tag text m)
  | sequence (tag : Tag) (items : List Node) (m : Mark) (all : ∀ x ∈ items, KeyedBy ok x) :
      KeyedBy ok (.sequence tag items m)
  | mapping (tag : Tag) (entries : List (Node × Node)) (m : Mark)
      (keys : ∀ e ∈ entries, ∃ t text mark, e.1 = .scalar t text mark ∧ ok t)
      (distinct : (entries.map (·.1.keyText?)).Nodup) (values : ∀ e ∈ entries, KeyedBy ok e.2) :
      KeyedBy ok (.mapping tag entries m)

theorem itemMarks_eq (path : String) (k : Nat) (items : List Node) :
    itemMarks path k items =
      (items.zipIdx k).flatMap fun x => marks (childPath path (Text.decimal x.2)) x.1 := by
  induction items generalizing k with
  | nil => rfl
  | cons x items ih => rw [itemMarks, ih, List.zipIdx_cons, List.flatMap_cons]

/-- What an entry of a mapping adds to what is recorded. -/
def entryMark (path : String) (e : Node × Node) : List (String × Mark) :=
  match e.1.keyText? with
  | some key => marks (childPath path key) e.2
  | none => []

theorem entryMarks_eq (path : String) (entries : List (Node × Node)) :
    entryMarks path entries = entries.flatMap (entryMark path) := by
  induction entries with
  | nil => rfl
  | cons e entries ih =>
    rw [entryMarks, ih, List.flatMap_cons]
    rfl

@[simp] theorem child?_scalar (tag : Tag) (text : String) (m : Mark) (s : PathStep) :
    (scalar tag text m).child? s = none := by
  cases s <;> rfl

theorem child?_sequence {tag : Tag} {items : List Node} {m : Mark} {s : PathStep} {x : Node} :
    (sequence tag items m).child? s = some x ↔ ∃ i, s = .index i ∧ items[i]? = some x := by
  cases s with
  | index i => simp [child?]
  | key k => cases k <;> simp [child?]

/-- Of keys with different texts, the one of a text is the first one. -/
theorem find?_entry {entries : List (Node × Node)} (h : (entries.map (·.1.keyText?)).Nodup)
    {key : String} {e : Node × Node} :
    entries.find? (·.1.keyText? == some key) = some e ↔ e ∈ entries ∧ e.1.keyText? = some key := by
  induction entries with
  | nil => simp
  | cons d entries ih =>
    rw [List.map_cons, List.nodup_cons] at h
    rw [List.find?_cons, List.mem_cons]
    by_cases hd : d.1.keyText? = some key
    · have hother : ∀ x ∈ entries, x.1.keyText? ≠ some key := fun x hx hkey =>
        h.1 (List.mem_map.2 ⟨x, hx, hkey.trans hd.symm⟩)
      rw [hd, beq_self_eq_true, Option.some.injEq]
      constructor
      · rintro rfl
        exact ⟨.inl rfl, hd⟩
      · rintro ⟨rfl | he, hkey⟩
        · rfl
        · exact absurd hkey (hother e he)
    · rw [beq_false_of_ne hd, ih h.2]
      refine and_congr_left fun hkey => (or_iff_right ?_).symm
      rintro rfl
      exact hd hkey

theorem child?_mapping {tag : Tag} {entries : List (Node × Node)} {m : Mark}
    (h : (entries.map (·.1.keyText?)).Nodup) {s : PathStep} {x : Node} :
    (mapping tag entries m).child? s = some x ↔
      ∃ key e, s = .key (.text key) ∧ e ∈ entries ∧ e.1.keyText? = some key ∧ e.2 = x := by
  cases s with
  | index i => simp [child?]
  | key k =>
    cases k
    case text key =>
      simp only [child?, Option.map_eq_some_iff, find?_entry h, PathStep.key.injEq, Data.text.injEq]
      constructor
      · rintro ⟨e, ⟨he, hkey⟩, hx⟩
        exact ⟨key, e, rfl, he, hkey, hx⟩
      · rintro ⟨_, e, rfl, he, hkey, hx⟩
        exact ⟨e, ⟨he, hkey⟩, hx⟩
    all_goals simp [child?]

/-- What holds of a node whenever it holds of all nodes one step from it. -/
theorem KeyedBy.step_induction {ok : Tag → Prop} {motive : Node → Prop}
    (step : ∀ n, n.KeyedBy ok → (∀ s x, n.child? s = some x → motive x) → motive n) {n : Node}
    (h : n.KeyedBy ok) : motive n := by
  induction h with
  | scalar tag text m =>
    refine step _ (.scalar tag text m) fun s x hx => ?_
    simp at hx
  | sequence tag items m all ih =>
    refine step _ (.sequence tag items m all) fun s x hx => ?_
    obtain ⟨i, -, hi⟩ := child?_sequence.1 hx
    exact ih x (List.mem_of_getElem? hi)
  | mapping tag entries m keys distinct values ih =>
    refine step _ (.mapping tag entries m keys distinct values) fun s x hx => ?_
    obtain ⟨key, e, -, he, -, rfl⟩ := (child?_mapping distinct).1 hx
    exact ih e he

/-- What is recorded of a node: its own mark, and what is recorded of the nodes one step from it. -/
theorem mem_marks_iff_child {ok : Tag → Prop} {n : Node} (h : n.KeyedBy ok) {path p : String}
    {m : Mark} : (p, m) ∈ n.marks path ↔ (p = path ∧ m = n.mark) ∨
      ∃ s x, n.child? s = some x ∧ (p, m) ∈ x.marks (childPath path s.text) := by
  cases h with
  | scalar tag text mark =>
    rw [marks, List.mem_singleton, Prod.mk.injEq]
    refine (or_iff_left ?_).symm
    rintro ⟨s, x, hx, -⟩
    simp at hx
  | sequence tag items mark _ =>
    rw [marks, List.mem_cons, itemMarks_eq, List.mem_flatMap, Prod.mk.injEq]
    refine or_congr_right ?_
    constructor
    · rintro ⟨⟨x, i⟩, hx, hp⟩
      exact ⟨.index i, x, child?_sequence.2 ⟨i, rfl, List.mem_zipIdx_iff_getElem?.1 hx⟩, hp⟩
    · rintro ⟨s, x, hx, hp⟩
      obtain ⟨i, rfl, hi⟩ := child?_sequence.1 hx
      exact ⟨(x, i), List.mem_zipIdx_iff_getElem?.2 hi, hp⟩
  | mapping tag entries mark keys distinct values =>
    rw [marks, List.mem_cons, entryMarks_eq, List.mem_flatMap, Prod.mk.injEq]
    refine or_congr_right ?_
    constructor
    · rintro ⟨e, he, hp⟩
      unfold entryMark at hp
      split at hp
      · rename_i key hkey
        exact ⟨.key (.text key), e.2, (child?_mapping distinct).2 ⟨key, e, rfl, he, hkey, rfl⟩, hp⟩
      · simp at hp
    · rintro ⟨s, x, hx, hp⟩
      obtain ⟨key, e, rfl, he, hkey, rfl⟩ := (child?_mapping distinct).1 hx
      refine ⟨e, he, ?_⟩
      rw [entryMark, hkey]
      exact hp

/-- What is recorded of a tree: each node, with the path of its position. -/
theorem mem_marks {ok : Tag → Prop} {n : Node} (h : n.KeyedBy ok) : ∀ (path p : String) (m : Mark),
    (p, m) ∈ n.marks path ↔
      ∃ steps x, n.at? steps = some x ∧ p = pointerFrom path steps ∧ x.mark = m := by
  refine KeyedBy.step_induction (motive := fun n => ∀ path p m, (p, m) ∈ n.marks path ↔
    ∃ steps x, n.at? steps = some x ∧ p = pointerFrom path steps ∧ x.mark = m) ?_ h
  intro n h ih path p m
  rw [mem_marks_iff_child h]
  constructor
  · rintro (⟨rfl, rfl⟩ | ⟨s, x, hx, hp⟩)
    · exact ⟨[], n, rfl, rfl, rfl⟩
    · obtain ⟨steps, y, hy, rfl, rfl⟩ := (ih s x hx _ _ _).1 hp
      exact ⟨s :: steps, y, by rw [at?, hx]; exact hy, rfl, rfl⟩
  · rintro ⟨steps, y, hy, rfl, rfl⟩
    cases steps with
    | nil =>
      obtain rfl := Option.some.inj hy
      exact .inl ⟨rfl, rfl⟩
    | cons s steps =>
      obtain ⟨x, hx, hy⟩ := Option.bind_eq_some_iff.1 hy
      exact .inr ⟨s, x, hx, (ih s x hx _ _ _).2 ⟨steps, y, hy, rfl, rfl⟩⟩

/-- The texts of two steps from one node tell them apart. -/
theorem step_injective {n x x' : Node} {s s' : PathStep} (h : n.child? s = some x)
    (h' : n.child? s' = some x') (ht : s.text = s'.text) : s = s' := by
  cases n with
  | scalar => simp at h
  | sequence tag items m =>
    obtain ⟨i, rfl, -⟩ := child?_sequence.1 h
    obtain ⟨j, rfl, -⟩ := child?_sequence.1 h'
    have hdigits : Nat.toDigits 10 i = Nat.toDigits 10 j := by
      simpa [PathStep.text, Text.decimal] using congrArg String.toList ht
    rw [← Text.digitsValue_toDigits i, hdigits, Text.digitsValue_toDigits]
  | mapping tag entries m =>
    unfold child? at h h'
    split at h
    · split at h'
      · rename_i heq
        rw [Node.mapping.injEq] at heq
        simpa [PathStep.text, Data.bare] using ht
      · simp_all
      · simp at h'
    · simp_all
    · simp at h

/-- The texts of two positions in one tree tell them apart. -/
theorem steps_injective {n x x' : Node} {steps steps' : List PathStep} (h : n.at? steps = some x)
    (h' : n.at? steps' = some x') (ht : steps.map PathStep.text = steps'.map PathStep.text) :
    steps = steps' := by
  induction steps generalizing n steps' with
  | nil => exact (List.map_eq_nil_iff.1 ht.symm).symm
  | cons s steps ih =>
    cases steps' with
    | nil => simp at ht
    | cons s' steps' =>
      obtain ⟨hs, htail⟩ := List.cons.inj ht
      obtain ⟨y, hy, h⟩ := Option.bind_eq_some_iff.1 h
      obtain ⟨y', hy', h'⟩ := Option.bind_eq_some_iff.1 h'
      obtain rfl := step_injective hy hy' hs
      obtain rfl := Option.some.inj (hy.symm.trans hy')
      rw [ih h h' htail]

end Node

/-- **The path of a node determines its position.** -/
theorem pointer_injective {n x x' : Node} {steps steps' : List PathStep} (hx : n.at? steps = some x)
    (hx' : n.at? steps' = some x') (hp : pointer steps = pointer steps') : steps = steps' := by
  have htrail := congrArg String.toList hp
  rw [pointer, pointer, toList_pointerFrom, toList_pointerFrom, List.append_cancel_left_eq] at htrail
  exact Node.steps_injective hx hx' (trail_injective htrail)

/-! ## The source map -/

/-- The line and column of a mark, counted from one. -/
def lineColumn (m : Mark) : Option Int × Option Int := (some (m.line + 1), some (m.column + 1))

theorem find?_setPlace (path p : String) (m : Mark) (map : SourceMap) :
    (setPlace path m map).find? (·.1 == p) =
      if path = p then some (path, lineColumn m) else map.find? (·.1 == p) := by
  induction map with
  | nil =>
    by_cases h : path = p <;> simp [setPlace, lineColumn, h]
  | cons e map ih =>
    obtain ⟨q, place⟩ := e
    rw [setPlace]
    by_cases hq : q = path
    · rw [if_pos (by simp [hq])]
      by_cases h : path = p <;> simp [hq, lineColumn, h]
    · rw [if_neg (by simpa using hq), List.find?_cons, List.find?_cons, ih]
      by_cases h : path = p
      · have hne : (q == p) = false := by simpa [← h] using hq
        simp [hne, h]
      · simp [h]

/-- The map with all that is recorded put into it, one after the other. -/
def setPlaces (marks : List (String × Mark)) (map : SourceMap) : SourceMap :=
  marks.foldl (fun map e => setPlace e.1 e.2 map) map

theorem find?_setPlaces_of_not_mem {marks : List (String × Mark)} {p : String}
    (h : ∀ m, (p, m) ∉ marks) (map : SourceMap) :
    (setPlaces marks map).find? (·.1 == p) = map.find? (·.1 == p) := by
  induction marks generalizing map with
  | nil => rfl
  | cons e marks ih =>
    have he : e.1 ≠ p := fun he => h e.2 (by rw [← he]; exact List.mem_cons_self)
    rw [setPlaces, List.foldl_cons, ← setPlaces,
      ih fun m hm => h m (List.mem_cons_of_mem _ hm), find?_setPlace, if_neg he]

theorem find?_setPlaces {marks : List (String × Mark)} {p : String} {m : Mark}
    (h : (p, m) ∈ marks) (hu : ∀ m', (p, m') ∈ marks → m' = m) (map : SourceMap) :
    (setPlaces marks map).find? (·.1 == p) = some (p, lineColumn m) := by
  induction marks generalizing map with
  | nil => simp at h
  | cons e marks ih =>
    rw [setPlaces, List.foldl_cons, ← setPlaces]
    by_cases hm : (p, m) ∈ marks
    · exact ih hm (fun m' hm' => hu m' (List.mem_cons_of_mem _ hm')) _
    · have he : e = (p, m) := ((List.mem_cons.1 h).resolve_right hm).symm
      have hnone : ∀ m', (p, m') ∉ marks := fun m' hm' =>
        hm (hu m' (List.mem_cons_of_mem _ hm') ▸ hm')
      rw [find?_setPlaces_of_not_mem hnone, find?_setPlace, he, if_pos rfl]

/-- **Each node is found at its path.** -/
theorem find?_places {ok : Tag → Prop} {n x : Node} (h : n.KeyedBy ok) {steps : List PathStep}
    (hx : n.at? steps = some x) :
    n.places.find? (·.1 == pointer steps) = some (pointer steps, lineColumn x.mark) := by
  refine find?_setPlaces ((Node.mem_marks h _ _ _).2 ⟨steps, x, hx, rfl, rfl⟩) (fun m' hm' => ?_) []
  obtain ⟨steps', x', hx', hp, rfl⟩ := (Node.mem_marks h _ _ _).1 hm'
  obtain rfl := pointer_injective hx hx' hp
  rw [Option.some.inj (hx.symm.trans hx')]

/-- Nothing is found at a path that is that of no node. -/
theorem find?_places_eq_none {ok : Tag → Prop} {n : Node} (h : n.KeyedBy ok) {p : String}
    (hp : ∀ steps x, n.at? steps = some x → p ≠ pointer steps) :
    n.places.find? (·.1 == p) = none := by
  refine find?_setPlaces_of_not_mem (fun m hm => ?_) []
  obtain ⟨steps, x, hx, heq, -⟩ := (Node.mem_marks h _ _ _).1 hm
  exact hp steps x hx heq

end Cnd.Yaml
