import Cnd.Lint.Files
import Cnd.Proofs.Reading.WellFormed

/-!
What linting warns of.

The names that a list repeats are those that it holds twice or more, in the order of their first
places (`areRepeated_repeated`). Linting what was read warns of each repeated node type, and for each
node type in turn of what is repeated in it and of the type as its own supertype, of nothing else and
of nothing twice (`warnings_of_readWith`).
-/

namespace Cnd.Lint

/-! ## Repeated names -/

/-- The names that a list holds twice or more, each once, in the order of their first places. -/
structure AreRepeated (names repeats : List Name) : Prop where
  mem_iff : ∀ n, n ∈ repeats ↔ 2 ≤ names.count n
  ordered : repeats.Pairwise fun a b => names.idxOf a < names.idxOf b

def withoutWildcard (names : List Name) : List Name := names.filter (!·.isWildcard)

theorem withoutWildcard_eq_self {names : List Name} (h : ∀ n ∈ names, n ≠ .wildcard) :
    withoutWildcard names = names := by
  refine List.filter_eq_self.2 fun n hn => ?_
  simpa [Name.isWildcard] using h n hn

/-- Leaving out other elements keeps the order of first places. -/
theorem idxOf_filter_lt_iff {α : Type} [BEq α] [LawfulBEq α] {p : α → Bool} {a b : α}
    (ha : p a = true) (hb : p b = true) (names : List α) :
    (names.filter p).idxOf a < (names.filter p).idxOf b ↔ names.idxOf a < names.idxOf b := by
  induction names with
  | nil => simp
  | cons c names ih =>
    by_cases hc : p c = true
    · rw [List.filter_cons_of_pos hc]
      simp only [List.idxOf_cons, Bool.cond_eq_ite]
      split <;> split <;> simp [ih]
    · have hca : (c == a) = false := beq_eq_false_iff_ne.2 fun h => hc (h ▸ ha)
      have hcb : (c == b) = false := beq_eq_false_iff_ne.2 fun h => hc (h ▸ hb)
      rw [List.filter_cons_of_neg hc, ih]
      simp [List.idxOf_cons, hca, hcb]

theorem ordered_eraseDups {α : Type} [BEq α] [LawfulBEq α] : ∀ names : List α,
    names.eraseDups.Pairwise fun a b => names.idxOf a < names.idxOf b
  | [] => by simp
  | c :: names => by
    have hother : ∀ a ∈ (names.filter fun b => !b == c).eraseDups, (!a == c) = true := fun a ha =>
      (List.mem_filter.1 (List.mem_eraseDups.1 ha)).2
    have hbehind : ∀ a ∈ (names.filter fun b => !b == c).eraseDups,
        (c :: names).idxOf a = names.idxOf a + 1 := fun a ha =>
      List.idxOf_cons_ne names fun he => by simpa [he] using hother a ha
    rw [List.eraseDups_cons, List.pairwise_cons]
    constructor
    · intro a ha
      rw [List.idxOf_cons_self, hbehind a ha]
      omega
    · refine (ordered_eraseDups (names.filter fun b => !b == c)).imp_of_mem fun {a b} ha hb hlt => ?_
      rw [idxOf_filter_lt_iff (p := fun b => !b == c) (hother a ha) (hother b hb)] at hlt
      rw [hbehind a ha, hbehind b hb]
      omega
termination_by names => names.length
decreasing_by exact Nat.lt_succ_of_le (List.length_filter_le _ _)

theorem nodup_eraseDups {α : Type} [BEq α] [LawfulBEq α] (l : List α) : l.eraseDups.Nodup :=
  (ordered_eraseDups l).imp fun hlt he => by rw [he] at hlt; exact Nat.lt_irrefl _ hlt

theorem count_withoutWildcard (names : List Name) (n : Name) :
    (withoutWildcard names).count n = if n.isWildcard then 0 else names.count n := by
  by_cases hn : n.isWildcard = true
  · rw [if_pos hn]
    refine List.count_eq_zero.2 fun hmem => ?_
    simpa [hn] using (List.mem_filter.1 hmem).2
  · rw [if_neg hn]
    exact List.count_filter (by simpa using hn)

theorem areRepeated_repeated (names : List Name) :
    AreRepeated (withoutWildcard names) (repeated names) where
  mem_iff n := by
    have hmem : 1 < names.count n → n ∈ names := fun h => List.count_pos_iff.1 (by omega)
    rw [count_withoutWildcard]
    by_cases hn : n.isWildcard = true
    · simp [repeated, hn]
    · simp only [repeated, List.mem_filter, List.mem_eraseDups, hn, Bool.not_false, Bool.and_true,
        decide_eq_true_eq, Bool.false_eq_true, if_false]
      exact and_iff_right_of_imp hmem
  ordered := by
    refine ((ordered_eraseDups names).filter _).imp_of_mem fun {a b} ha hb hlt => ?_
    have hproper : ∀ {n}, n ∈ repeated names → (!n.isWildcard) = true := fun h =>
      (Bool.and_eq_true_iff.1 (List.mem_filter.1 h).2).2
    exact (idxOf_filter_lt_iff (p := fun n => !n.isWildcard) (hproper ha) (hproper hb) names).2 hlt

theorem AreRepeated.eq_nil_iff {names repeats : List Name} (h : AreRepeated names repeats) :
    repeats = [] ↔ names.Nodup := by
  rw [List.eq_nil_iff_forall_not_mem, List.nodup_iff_count_le_one]
  refine forall_congr' fun n => ?_
  rw [h.mem_iff]
  omega

/-! ## Suspicious node types -/

/-- What is suspicious about a node type: the supertypes that it repeats, the type itself as a
supertype, and the names, the wildcard apart, that its properties repeat and its child nodes repeat. -/
def Suspects (t : NodeType) (found : List Suspicion) : Prop :=
  ∃ supertypes properties children,
    AreRepeated t.supertypes supertypes ∧
    AreRepeated (withoutWildcard (t.properties.map (·.name))) properties ∧
    AreRepeated (withoutWildcard (t.children.map (·.name))) children ∧
    found = supertypes.map (.repeatedSupertype t.name) ++
      (if t.name ∈ t.supertypes then [.ownSupertype t.name] else []) ++
      properties.map (.repeatedProperty t.name) ++ children.map (.repeatedChild t.name)

/-- A node type that repeats nothing and is no supertype of itself. -/
structure IsSound (t : NodeType) : Prop where
  supertypes : t.supertypes.Nodup
  own : t.name ∉ t.supertypes
  properties : (withoutWildcard (t.properties.map (·.name))).Nodup
  children : (withoutWildcard (t.children.map (·.name))).Nodup

theorem suspects_ofType {t : NodeType} (h : ∀ n ∈ t.supertypes, n ≠ .wildcard) :
    Suspects t (ofType t) := by
  have hsupertypes := areRepeated_repeated t.supertypes
  rw [withoutWildcard_eq_self h] at hsupertypes
  refine ⟨_, _, _, hsupertypes, areRepeated_repeated _, areRepeated_repeated _, ?_⟩
  simp only [ofType, List.contains_eq_mem, decide_eq_true_eq]

theorem Suspects.eq_nil_iff {t : NodeType} {found : List Suspicion} (h : Suspects t found) :
    found = [] ↔ IsSound t := by
  obtain ⟨supertypes, properties, children, hs, hp, hc, rfl⟩ := h
  have hown : (if t.name ∈ t.supertypes then [Suspicion.ownSupertype t.name] else []) = [] ↔
      t.name ∉ t.supertypes := by
    split <;> simp_all
  simp only [List.append_eq_nil_iff, List.map_eq_nil_iff, hs.eq_nil_iff, hp.eq_nil_iff,
    hc.eq_nil_iff, hown]
  exact ⟨fun ⟨⟨⟨h₁, h₂⟩, h₃⟩, h₄⟩ => ⟨h₁, h₂, h₃, h₄⟩, fun ⟨h₁, h₂, h₃, h₄⟩ => ⟨⟨⟨h₁, h₂⟩, h₃⟩, h₄⟩⟩

/-- **Linting warns of just what is suspicious.** The report on definitions that were read holds no
error. Its warnings are one for each node type that is defined twice or more, and behind these, node
type by node type, one for each suspicious thing about it; so there are none exactly if no type is
defined twice and every type is sound. A file with these definitions has this report. -/
theorem warnings_of_readWith {source : String} {policy : ConflictPolicy}
    {seed : Option Namespaces} {text : String} {d : Definitions}
    (h : (Definitions.readWith source policy seed text).outcome = .ok d) (p : FilePath) :
    (reportOn p d).errors = [] ∧
    (∃ types found, AreRepeated (d.types.map (·.name)) types ∧
      List.Forall₂ Suspects d.types found ∧
      (reportOn p d).warnings = (types.map Suspicion.repeatedType ++ found.flatten).map
        fun s => ⟨s.message d.namespaces, none, none⟩) ∧
    ((reportOn p d).warnings = [] ↔ (d.types.map (·.name)).Nodup ∧ ∀ t ∈ d.types, IsSound t) ∧
    ∀ tree, (Definitions.tryLoad tree policy seed p).outcome = .ok d →
      (lintFile tree policy seed p).outcome = .ok (reportOn p d) := by
  obtain ⟨hwell, -⟩ := Definitions.wellFormed_of_readWith h
  have hnames : ∀ n ∈ d.types.map (·.name), n ≠ .wildcard := by
    simp only [List.mem_map, forall_exists_index, and_imp, forall_apply_eq_imp_iff₂]
    exact fun t ht => (hwell t ht).name.1
  have htypes := areRepeated_repeated (d.types.map (·.name))
  rw [withoutWildcard_eq_self hnames] at htypes
  have hfound : List.Forall₂ Suspects d.types (d.types.map ofType) :=
    forall₂_map_self fun t ht => suspects_ofType fun n hn => ((hwell t ht).supertypes n hn).1
  refine ⟨rfl, ⟨_, _, htypes, hfound, ?_⟩, ?_, ?_⟩
  · rw [← List.flatMap_def]
    rfl
  · have hsound : ∀ t ∈ d.types, ofType t = [] ↔ IsSound t := fun t ht =>
      (suspects_ofType fun n hn => ((hwell t ht).supertypes n hn).1).eq_nil_iff
    simp only [reportOn, suspicions, List.map_eq_nil_iff, List.append_eq_nil_iff,
      htypes.eq_nil_iff, List.flatMap_eq_nil_iff]
    exact and_congr_right fun _ => forall₂_congr hsound
  · intro tree hd
    simp only [lintFile, hd]

/-- Node types of one name: the first repeats a supertype, a property and a child node, and has two
properties without a name of their own; the second is its own supertype. -/
def repeatingTypes : List NodeType :=
  let a : Name := ⟨"", "a"⟩
  let property (name : Name) (type : PropertyType) : PropertyDefinition := ⟨name, a, type, [], [], {}⟩
  let child : ChildDefinition := ⟨⟨"", "c"⟩, a, [.base], none, {}⟩
  [⟨a, [⟨"", "b"⟩, ⟨"", "b"⟩], false, false, none,
      [property ⟨"", "p"⟩ .string, property ⟨"", "p"⟩ .long, property .wildcard .string,
        property .wildcard .string],
      [child, child]⟩,
    ⟨a, [a], false, false, none, [], []⟩]

def repeatingOutline : Definitions.Outlined
    "[a] > b, b - p - p (Long) - * - * + c + c [a] > a" where
  outline :=
    ⟨[.nodeType ⟨⟨.text "a" false, ⟨1, 2⟩⟩,
        [⟨.text "b" false, ⟨1, 7⟩⟩, ⟨.text "b" false, ⟨1, 10⟩⟩], false, false,
        [.property ⟨.named ⟨.text "p" false, ⟨1, 14⟩⟩, .string, [], [], []⟩,
          .property ⟨.named ⟨.text "p" false, ⟨1, 18⟩⟩, .long, [], [], []⟩,
          .property ⟨.wildcard, .string, [], [], []⟩, .property ⟨.wildcard, .string, [], [], []⟩,
          .child ⟨.named ⟨.text "c" false, ⟨1, 37⟩⟩, none, none, []⟩,
          .child ⟨.named ⟨.text "c" false, ⟨1, 41⟩⟩, none, none, []⟩]⟩,
      .nodeType ⟨⟨.text "a" false, ⟨1, 44⟩⟩, [⟨.text "a" false, ⟨1, 49⟩⟩], false, false, []⟩],
      .complete⟩
  eq := by decide +kernel

theorem warnings_of_readWith_repeating :
    let text := "[a] > b, b - p - p (Long) - * - * + c + c [a] > a"
    let r := reportOn ⟨"", ["a.cnd"]⟩ ⟨repeatingTypes, .builtin⟩
    (Definitions.readWith "a.cnd" .error none text).outcome = .ok ⟨repeatingTypes, .builtin⟩ ∧
      r.errors = [] ∧
      r.warnings.map (·.message) =
        ["Node type 'a' is defined more than once",
          "Node type 'a' lists supertype 'b' more than once",
          "Node type 'a' defines property 'p' more than once",
          "Node type 'a' defines child node 'c' more than once",
          "Node type 'a' lists itself as a supertype"] ∧
      ¬((repeatingTypes.map (·.name)).Nodup ∧ ∀ t ∈ repeatingTypes, IsSound t) := by
  intro text r
  have h : (Definitions.readWith "a.cnd" .error none text).outcome =
      .ok ⟨repeatingTypes, .builtin⟩ :=
    Definitions.readWith_of_outline repeatingOutline rfl
  have hmessages : r.warnings.map (·.message) =
        ["Node type 'a' is defined more than once",
          "Node type 'a' lists supertype 'b' more than once",
          "Node type 'a' defines property 'p' more than once",
          "Node type 'a' defines child node 'c' more than once",
          "Node type 'a' lists itself as a supertype"] := by
    decide
  obtain ⟨herrors, -, hiff, -⟩ := warnings_of_readWith h ⟨"", ["a.cnd"]⟩
  refine ⟨h, herrors, hmessages, fun hsound => ?_⟩
  rw [hiff.2 hsound] at hmessages
  simp at hmessages

end Cnd.Lint
