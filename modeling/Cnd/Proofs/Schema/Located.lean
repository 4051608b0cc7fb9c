import Cnd.Proofs.Yaml.Document
import Cnd.Proofs.Yaml.Steps
import Cnd.Schema.Documents
import Mathlib

/-!
Where the issues of a document are.

The path of an issue leads to a node of the tree of the document (`exists_at?_of_mem_issues`). In a
message the steps of a path are joined as they are, whereas the source map escapes tildes and
slashes. So an issue is found at the place of its node just if no key on the way holds one of the
two (`Document.place_of_issue`).
-/

namespace Cnd

open Yaml

namespace Schema

/-! ## The paths of issues -/

section
variable {d : Data} {i : SchemaIssue}

theorem path_of_mem_kindIssues {kinds : List DataKind} (h : i ∈ kindIssues kinds d) :
    i.path = [] := by
  unfold kindIssues at h
  split at h
  · simp at h
  · rw [List.mem_singleton.1 h, SchemaIssue.here]

theorem path_of_mem_requiredIssues {names : List String} (h : i ∈ requiredIssues names d) :
    i.path = [] := by
  unfold requiredIssues at h
  split at h
  · obtain ⟨n, -, rfl⟩ := List.mem_map.1 h
    rfl
  · simp at h

theorem path_of_mem_closedIssues {known : List String} (h : i ∈ closedIssues known d) :
    i.path = [] := by
  unfold closedIssues at h
  split at h
  · dsimp only at h
    split at h
    · simp at h
    · rw [List.mem_singleton.1 h, SchemaIssue.here]
  · simp at h

theorem path_of_mem_nonEmptyIssues (h : i ∈ nonEmptyIssues d) : i.path = [] := by
  unfold nonEmptyIssues at h
  split at h
  · rw [List.mem_singleton.1 h, SchemaIssue.here]
  · simp at h

theorem path_of_mem_oneOfIssues {texts : List String} (h : i ∈ oneOfIssues texts d) :
    i.path = [] := by
  unfold oneOfIssues at h
  split at h
  · simp at h
  · rw [List.mem_singleton.1 h, SchemaIssue.here]

theorem path_of_mem_formIssues {f : TextForm} (h : i ∈ formIssues f d) : i.path = [] := by
  unfold formIssues at h
  split at h
  · split at h
    · simp at h
    · rw [List.mem_singleton.1 h, SchemaIssue.here]
  · simp at h

end

/-- A path of an issue is empty, or begins with a step to a member, a key or an item. -/
theorem path_induction {P : Data → List PathStep → Prop} (here : ∀ d, P d [])
    (known : ∀ d name x path, d.member? name = some x → P x path → P d (.key (.text name) :: path))
    (other : ∀ es e path, e ∈ es → P e.2 path → P (.map es) (PathStep.ofKey e.1 ++ path))
    (key : ∀ es e path, e ∈ es → P e.1 path → P (.map es) path)
    (item : ∀ xs i x path, xs[i]? = some x → P x path → P (.list xs) (.index i :: path))
    (s : Schema) (d : Data) : ∀ i ∈ s.issues d, P d i.path := by
  refine issues.induct (fun s d => ∀ i ∈ s.issues d, P d i.path)
    (fun rules d => ∀ i ∈ allIssues rules d, P d i.path)
    (fun known d => ∀ i ∈ memberIssues known d, P d i.path)
    ?kind ?required ?members ?closed ?others ?keys ?items ?nonEmpty ?oneOf ?form ?all
    ?others_else ?keys_else ?items_else ?members_nil ?members_cons ?all_nil ?all_cons s d
  case kind =>
    intro kinds d i hi
    rw [issues] at hi
    exact path_of_mem_kindIssues hi ▸ here d
  case required =>
    intro names d i hi
    rw [issues] at hi
    exact path_of_mem_requiredIssues hi ▸ here d
  case members =>
    intro known d ih
    rw [issues]
    exact ih
  case closed =>
    intro known d i hi
    rw [issues] at hi
    exact path_of_mem_closedIssues hi ▸ here d
  case others =>
    intro known schema es ih i hi
    rw [issues] at hi
    obtain ⟨e, he, hi⟩ := List.mem_flatMap.1 hi
    obtain ⟨j, hj, rfl⟩ := List.mem_map.1 hi
    exact other es e j.path (List.mem_of_mem_filter he) (ih e j hj)
  case keys =>
    intro schema es ih i hi
    rw [issues] at hi
    obtain ⟨e, he, hi⟩ := List.mem_flatMap.1 hi
    exact key es e i.path he (ih e i hi)
  case items =>
    intro schema xs ih i hi
    rw [issues] at hi
    obtain ⟨x, hx, hi⟩ := List.mem_flatMap.1 hi
    obtain ⟨j, hj, rfl⟩ := List.mem_map.1 hi
    exact item xs x.2 x.1 j.path (List.mem_zipIdx_iff_getElem?.1 hx) (ih x j hj)
  case nonEmpty =>
    intro d i hi
    rw [issues] at hi
    exact path_of_mem_nonEmptyIssues hi ▸ here d
  case oneOf =>
    intro texts d i hi
    rw [issues] at hi
    exact path_of_mem_oneOfIssues hi ▸ here d
  case form =>
    intro f d i hi
    rw [issues] at hi
    exact path_of_mem_formIssues hi ▸ here d
  case all =>
    intro rules d ih
    rw [issues]
    exact ih
  case others_else | keys_else | items_else =>
    intros
    simp_all [issues]
  case members_nil | all_nil =>
    intro d i hi
    simp [memberIssues, allIssues] at hi
  case members_cons =>
    intro name schema rest d ihvalue ihrest i hi
    rw [memberIssues, List.mem_append] at hi
    rcases hi with hi | hi
    · split at hi
      · rename_i x hx
        obtain ⟨j, hj, rfl⟩ := List.mem_map.1 hi
        exact known d name x j.path hx (ihvalue x j hj)
      · simp at hi
    · exact ihrest i hi
  case all_cons =>
    intro rule rest d ihrule ihrest i hi
    rw [allIssues, List.mem_append] at hi
    exact hi.elim (ihrule i) (ihrest i)

/-- A value without members and items. -/
def Childless (d : Data) : Prop := (∀ es, d = .map es → es = []) ∧ ∀ xs, d = .list xs → xs = []

theorem Childless.of_isLeaf {d : Data} (h : IsLeaf d) : Childless d :=
  ⟨fun es he => absurd he (h.1 es), fun xs hx => absurd hx (h.2 xs)⟩

theorem childless_text (s : String) : Childless (.text s) := .of_isLeaf (by simp [IsLeaf])

/-- Steps from a value are steps to a node from each node that means the value; a childless value has
none. -/
structure Leads (d : Data) (path : List PathStep) : Prop where
  eq_nil : Childless d → path = []
  exists_at? : ∀ (n : Node) (depth : Nat), n.KeyedBy (· = .str) → n.meaning depth = .ok d →
    ∃ x, n.at? path = some x

theorem Leads.known {d x : Data} {name : String} {path : List PathStep}
    (hx : d.member? name = some x) (h : Leads x path) : Leads d (.key (.text name) :: path) := by
  cases d with
  | map es =>
    refine ⟨fun hc => ?_, fun n depth hk hn => ?_⟩
    · rw [hc.1 es rfl] at hx
      simp [Data.member?, Data.lookup] at hx
    · obtain ⟨ms, rfl, hms⟩ := Node.members_of_meaning hk hn
      rw [Data.member?, Data.lookup_named] at hx
      have hmem : (name, x) ∈ ms := by
        obtain ⟨before, after, rfl, -⟩ := List.lookup_eq_some_iff.1 hx
        simp
      obtain ⟨y, hy, hky, hvalue⟩ := hms (name, x) hmem
      obtain ⟨z, hz⟩ := h.exists_at? y _ hky hvalue
      exact ⟨z, by rw [Node.at?, hy]; exact hz⟩
  | _ => simp [Data.member?] at hx

theorem Leads.other {es : List (Data × Data)} {e : Data × Data} {path : List PathStep}
    (he : e ∈ es) (h : Leads e.2 path) : Leads (.map es) (PathStep.ofKey e.1 ++ path) := by
  refine ⟨fun hc => ?_, fun n depth hk hn => ?_⟩
  · rw [hc.1 es rfl] at he
    simp at he
  · obtain ⟨ms, rfl, hms⟩ := Node.members_of_meaning hk hn
    obtain ⟨m, hm, rfl⟩ := List.mem_map.1 he
    obtain ⟨y, hy, hky, hvalue⟩ := hms m hm
    obtain ⟨z, hz⟩ := h.exists_at? y _ hky hvalue
    exact ⟨z, by rw [PathStep.ofKey, List.singleton_append, Node.at?, hy]; exact hz; simp⟩

/-- A key is a text, which is childless. -/
theorem Leads.key {es : List (Data × Data)} {e : Data × Data} {path : List PathStep}
    (he : e ∈ es) (h : Leads e.1 path) : Leads (.map es) path := by
  refine ⟨fun hc => ?_, fun n depth hk hn => ?_⟩
  · rw [hc.1 es rfl] at he
    simp at he
  · obtain ⟨ms, rfl, -⟩ := Node.members_of_meaning hk hn
    obtain ⟨m, -, rfl⟩ := List.mem_map.1 he
    exact ⟨n, by rw [h.eq_nil (childless_text m.1)]; rfl⟩

theorem Leads.item {xs : List Data} {i : Nat} {x : Data} {path : List PathStep}
    (hx : xs[i]? = some x) (h : Leads x path) : Leads (.list xs) (.index i :: path) := by
  refine ⟨fun hc => ?_, fun n depth hk hn => ?_⟩
  · rw [hc.2 xs rfl] at hx
    simp at hx
  · obtain ⟨y, hy, hky, hvalue | hleaf⟩ := Node.items_of_meaning hk hn hx
    · obtain ⟨z, hz⟩ := h.exists_at? y _ hky hvalue
      exact ⟨z, by rw [Node.at?, hy]; exact hz⟩
    · refine ⟨y, ?_⟩
      rw [h.eq_nil (.of_isLeaf hleaf), Node.at?, hy]
      rfl

/-- The path of an issue with a value leads somewhere from a node that means the value. -/
theorem leads_of_mem_issues {s : Schema} {d : Data} : ∀ i ∈ s.issues d, Leads d i.path :=
  path_induction (fun _ => ⟨fun _ => rfl, fun n _ _ _ => ⟨n, rfl⟩⟩) (fun _ _ _ _ => .known)
    (fun _ _ _ => .other) (fun _ _ _ => .key) (fun _ _ _ _ => .item) s d

end Schema

/-! ## The places of issues -/

/-- A step whose text is its own escape. -/
def PathStep.IsBare (s : PathStep) : Prop := '~' ∉ s.text.toList ∧ '/' ∉ s.text.toList

/-- What the steps of an issue add to its path. -/
def plainTrail (texts : List String) : List Char := texts.flatMap fun t => '/' :: t.toList

theorem toList_pathText (i : SchemaIssue) : i.pathText.toList = plainTrail i.pathTexts := by
  rw [SchemaIssue.pathText, plainTrail]
  induction i.pathTexts with
  | nil => rfl
  | cons t ts ih => simp [ih]

theorem plainTrail_eq_trail_iff {texts : List String} :
    plainTrail texts = trail texts ↔ ∀ t ∈ texts, '~' ∉ t.toList ∧ '/' ∉ t.toList := by
  have hlonger : ∀ ts, (plainTrail ts).length ≤ (trail ts).length := fun ts => by
    induction ts with
    | nil => exact Nat.le_refl _
    | cons t ts ih =>
      have := length_le_escaped t.toList
      simp only [plainTrail, trail, List.flatMap_cons, List.length_append, List.length_cons] at ih ⊢
      omega
  induction texts with
  | nil => simp [plainTrail, trail]
  | cons t ts ih =>
    have hcons : plainTrail (t :: ts) = trail (t :: ts) ↔
        t.toList ++ plainTrail ts = escaped t.toList ++ trail ts := by
      simp [plainTrail, trail]
    rw [hcons, List.forall_mem_cons]
    refine Iff.trans ?_ (and_congr escaped_eq_self_iff ih)
    constructor
    · intro h
      -- no side is shorter than the other, neither in front nor behind
      have hlen := congrArg List.length h
      have hfront := length_le_escaped t.toList
      have hbehind := hlonger ts
      rw [List.length_append, List.length_append] at hlen
      obtain ⟨ht, hts⟩ := List.append_inj h (by omega)
      exact ⟨ht.symm, hts⟩
    · rintro ⟨ht, hts⟩
      rw [ht, hts]

theorem pathText_eq_pointer_iff {i : SchemaIssue} :
    i.pathText = pointer i.path ↔ ∀ s ∈ i.path, s.IsBare := by
  rw [← String.toList_inj, toList_pathText, pointer, toList_pointerFrom, String.toList_empty,
    List.nil_append, SchemaIssue.pathTexts, plainTrail_eq_trail_iff, List.forall_mem_map]
  rfl

/-- The place of a node in a file, called by a path. -/
def Yaml.Node.placeIn (n : Node) (file : Option FilePath) (path : String) : Location :=
  ⟨file, some (n.mark.line + 1), some (n.mark.column + 1), some path⟩

theorem locate_of_at? {n x : Node} (h : n.KeyedBy (· = .str)) {steps : List PathStep}
    (hx : n.at? steps = some x) (file : Option FilePath) :
    n.places.locate (some (pointer steps)) file = x.placeIn file (pointer steps) := by
  rw [SourceMap.locate, find?_places h hx]
  rfl

/-- A path that is looked up gives the place of a node of that path, if there is one. -/
theorem locate_cases {n : Node} (h : n.KeyedBy (· = .str)) (path : String)
    (file : Option FilePath) :
    n.places.locate (some path) file = ⟨file, none, none, some path⟩ ∨
      ∃ steps x, n.at? steps = some x ∧ path = pointer steps ∧
        n.places.locate (some path) file = x.placeIn file path := by
  by_cases hp : ∃ steps x, n.at? steps = some x ∧ path = pointer steps
  · obtain ⟨steps, x, hx, rfl⟩ := hp
    exact .inr ⟨steps, x, hx, rfl, locate_of_at? h hx file⟩
  · refine .inl ?_
    rw [SourceMap.locate, find?_places_eq_none h fun steps x hx heq => hp ⟨steps, x, hx, heq⟩]

/-- The path of each issue with a document leads to a node. -/
theorem exists_at?_of_mem_issues {n : Node} (hk : n.KeyedBy (· = .str)) {d : Data}
    (hmeans : n.meaning 0 = .ok d) {data : Data} (hdata : data = d ∨ data = .map []) {s : Schema}
    {i : SchemaIssue} (hi : i ∈ s.issues data) : ∃ x, n.at? i.path = some x := by
  have hleads := Schema.leads_of_mem_issues i hi
  rcases hdata with rfl | rfl
  · exact hleads.exists_at? n 0 hk hmeans
  · have hchildless : Schema.Childless (.map []) :=
      ⟨fun es he => (Data.map.inj he).symm, fun xs hx => by simp at hx⟩
    rw [hleads.eq_nil hchildless]
    exact ⟨n, rfl⟩

/-- **An issue is found at the place of its node, unless a key on the way has to be escaped.** The
path of each issue with a document of text keys leads to a node. If no text on the way holds a tilde
or a slash, the place of the issue is that of the node. Else it is none, or that of another node. -/
theorem Yaml.Document.place_of_issue {text : List Char} {n : Node} {document : Document}
    (hn : Node.ofText text = .ok (some n)) (hk : n.KeyedBy (· = .str))
    (hd : Document.ofText text = .ok document) {s : Schema} {i : SchemaIssue}
    (hi : i ∈ s.check document.data) (file : Option FilePath) :
    ∃ x, n.at? i.path = some x ∧
      ((∀ step ∈ i.path, step.IsBare) →
        document.places.locate (some i.pathText) file = x.placeIn file i.pathText) ∧
      (¬ (∀ step ∈ i.path, step.IsBare) →
        document.places.locate (some i.pathText) file = ⟨file, none, none, some i.pathText⟩ ∨
        ∃ steps y, steps ≠ i.path ∧ n.at? steps = some y ∧
          document.places.locate (some i.pathText) file = y.placeIn file i.pathText) := by
  obtain ⟨hnone, -⟩ | ⟨n', d, hn', hmeans, hplaces, hdata⟩ := ofText_eq_ok hd
  · rw [hn] at hnone
    simp at hnone
  obtain rfl := Option.some.inj (Except.ok.inj (hn.symm.trans hn'))
  obtain ⟨x, hx⟩ := exists_at?_of_mem_issues hk hmeans hdata (List.mem_mergeSort.1 hi)
  rw [hplaces]
  refine ⟨x, hx, fun hbare => ?_, fun hbare => ?_⟩
  · rw [pathText_eq_pointer_iff.2 hbare]
    exact locate_of_at? hk hx file
  · rcases locate_cases hk i.pathText file with hnone | ⟨steps, y, hy, hpath, hplace⟩
    · exact .inl hnone
    · refine .inr ⟨steps, y, ?_, hy, hplace⟩
      rintro rfl
      exact hbare (pathText_eq_pointer_iff.1 hpath)

/-- A mapping with a key `a/b` beside a key `a` that has a member `b`. -/
def slashText : String := "\x7bnamespaces: \x7ba: \x7bb: 1\x7d, a/b: 2\x7d\x7d"

def slashTokens : List Yaml.Token :=
  [(.openMap, 0, 1), (.key, 1, 1), (.scalar "namespaces" true, 1, 11), (.value, 11, 12),
   (.openMap, 13, 14), (.key, 14, 14), (.scalar "a" true, 14, 15), (.value, 15, 16),
   (.openMap, 17, 18), (.key, 18, 18), (.scalar "b" true, 18, 19), (.value, 19, 20),
   (.scalar "1" true, 21, 22), (.closeMap, 22, 23), (.comma, 23, 24), (.key, 25, 25),
   (.scalar "a/b" true, 25, 28), (.value, 28, 29), (.scalar "2" true, 30, 31), (.closeMap, 31, 32),
   (.closeMap, 32, 33), (.textEnd, 33, 33)].map fun (l, start, stop) => ⟨l, ⟨0, start⟩, ⟨0, stop⟩⟩

def slashTree : Node :=
  .mapping .map
    [(.scalar .str "namespaces" ⟨0, 1⟩,
      .mapping .map
        [(.scalar .str "a" ⟨0, 14⟩,
          .mapping .map [(.scalar .str "b" ⟨0, 18⟩, .scalar .int "1" ⟨0, 21⟩)] ⟨0, 17⟩),
         (.scalar .str "a/b" ⟨0, 25⟩, .scalar .int "2" ⟨0, 30⟩)] ⟨0, 13⟩)] ⟨0, 0⟩

def slashData : Data :=
  .map [(.text "namespaces", .map [(.text "a", .map [(.text "b", .int 1)]), (.text "a/b", .int 2)])]

/-- The issue with the value of `a/b`. It gets the place of the value of `b`, whose path is its own
one. -/
def slashIssue : SchemaIssue :=
  ⟨"2 is not of type 'string'", [.int 2], [.key (.text "namespaces"), .key (.text "a/b")]⟩

theorem ofText_slash : Node.ofText slashText.toList = .ok (some slashTree) := by
  have htokens : Tokens.ofText slashText.toList = ⟨slashTokens, none⟩ :=
    Tokens.ofText_of_complete (by decide) rfl (by decide) (by decide)
      (by decide)
  rw [Node.ofText, htokens]
  rfl

theorem toData_slash : slashTree.toData = .ok slashData := by cbv

theorem issues_slash : (Schema.seedFile.issues slashData)[2]? = some slashIssue := by
  with_unfolding_all rfl

theorem keyedBy_slash : slashTree.KeyedBy (· = .str) := by
  refine .mapping _ _ _ (by simp) (by simp) ?_
  simp only [List.forall_mem_singleton]
  refine .mapping _ _ _ (by simp) (by simp [Node.keyText?]) ?_
  simp only [List.forall_mem_cons]
  exact ⟨.mapping _ _ _ (by simp) (by simp) (by simpa using .scalar ..), .scalar .., by simp⟩

theorem Yaml.Document.place_of_issue_slash :
    Node.ofText slashText.toList = .ok (some slashTree) ∧
    slashTree.KeyedBy (· = .str) ∧
    Document.ofText slashText.toList = .ok ⟨slashData, slashTree.places⟩ ∧
    slashIssue ∈ Schema.seedFile.check slashData ∧
    (¬ ∀ step ∈ slashIssue.path, step.IsBare) ∧
    ∃ x, slashTree.at? slashIssue.path = some x ∧
      x.placeIn none slashIssue.pathText = ⟨none, some 1, some 31, some "/namespaces/a/b"⟩ ∧
      slashTree.places.locate (some slashIssue.pathText) none =
        ⟨none, some 1, some 22, some "/namespaces/a/b"⟩ ∧
      ∃ steps y, steps ≠ slashIssue.path ∧ slashTree.at? steps = some y ∧
        slashTree.places.locate (some slashIssue.pathText) none =
          y.placeIn none slashIssue.pathText := by
  have hd : Document.ofText slashText.toList = .ok ⟨slashData, slashTree.places⟩ := by
    rw [Document.ofText, readTree, ofText_slash]
    simp only [toData_slash]
    rfl
  have hi : slashIssue ∈ Schema.seedFile.check slashData :=
    List.mem_mergeSort.2 (List.mem_of_getElem? issues_slash)
  have hslash : ¬ ∀ step ∈ slashIssue.path, step.IsBare := fun h => by
    have hstep := h (.key (.text "a/b")) (by simp [slashIssue])
    exact absurd hstep.2 (by decide)
  have hpath : slashIssue.pathText = "/namespaces/a/b" := by decide
  -- the path is that of the value of `b`
  have hplace : slashTree.places.locate (some slashIssue.pathText) none =
      ⟨none, some 1, some 22, some "/namespaces/a/b"⟩ := by
    have hb : slashTree.at? [.key (.text "namespaces"), .key (.text "a"), .key (.text "b")] =
        some (.scalar .int "1" ⟨0, 21⟩) := by rfl
    have hpointer : slashIssue.pathText =
        pointer [.key (.text "namespaces"), .key (.text "a"), .key (.text "b")] := by decide
    rw [hpointer, locate_of_at? keyedBy_slash hb, ← hpointer, hpath]
    rfl
  obtain ⟨x, hx, -, hother⟩ := Yaml.Document.place_of_issue ofText_slash keyedBy_slash hd hi none
  refine ⟨ofText_slash, keyedBy_slash, hd, hi, hslash, x, hx, ?_, hplace, (hother hslash).resolve_left ?_⟩
  · have hx' : slashTree.at? slashIssue.path = some (.scalar .int "2" ⟨0, 30⟩) := by rfl
    rw [Option.some.inj (hx.symm.trans hx'), hpath]
    rfl
  · rw [hplace]
    simp

end Cnd
