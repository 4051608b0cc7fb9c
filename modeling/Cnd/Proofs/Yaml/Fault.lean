import Cnd.Proofs.Data
import Cnd.Proofs.Except
import Cnd.Proofs.Yaml.Meaning
import Mathlib.Logic.Relation
import Mathlib.Order.WellFounded

/-!
Where the faults and the values of a tree come from.

A mapping is made of pairs of a key and a value, which may be those of mappings that are merged into
it (`readsIn_of_mem_table`). So each value that a mapping holds is the meaning of a node in it
(`meaning_of_mem`), and a fault is one of the form of the tree or that of a part whose text has no
value (`hasFault_of_meaning`).
-/

namespace Cnd.Yaml

namespace Meaning

theorem both_eq_error {α β : Type} {a : Meaning α} {b : Meaning β} {e : Nat × ValueFault}
    (h : both a b = .error e) : a = .error e ∨ b = .error e := by
  cases a <;> cases b <;> simp only [both, reduceCtorEq] at h
  · split at h
    · exact .inr (by rw [Except.error.inj h])
    · exact .inl (by rw [Except.error.inj h])
  · exact .inl (by rw [Except.error.inj h])
  · exact .inr (by rw [Except.error.inj h])

theorem all_eq_error {α : Type} {l : List (Meaning α)} {e : Nat × ValueFault}
    (h : all l = .error e) : .error e ∈ l := by
  induction l with
  | nil => simp [all] at h
  | cons a l ih =>
    rw [all, map_eq_error] at h
    rcases both_eq_error h with h | h
    · exact h ▸ List.mem_cons_self
    · exact List.mem_cons_of_mem a (ih h)

end Meaning

/-- The tags of truth values, numbers and dates, which not all texts are. -/
def Tag.isChecked : Tag → Bool
  | .bool | .int | .float | .timestamp => true
  | _ => false

/-! ## Texts without a value -/

namespace Scalar

variable {s : List Char} {f : ValueFault}

theorem truth_eq_error (h : truth s = .error f) : f ≠ .misplaced := by
  unfold truth at h
  dsimp only at h
  split at h
  · simp at h
  · split at h
    · simp at h
    · simp [← Except.error.inj h]

theorem inBase_eq_error {base : Nat} (h : inBase base s = .error f) : f ≠ .misplaced := by
  unfold inBase at h
  split at h
  · simp at h
  · simp [← Except.error.inj h]

theorem inTen_eq_error (h : inTen s = .error f) : f ≠ .misplaced := by
  unfold inTen at h
  dsimp only at h
  split at h
  · simp [← Except.error.inj h]
  · split at h
    · simp [← Except.error.inj h]
    · simp at h

theorem unsigned_eq_error (h : unsigned s = .error f) : f ≠ .misplaced := by
  unfold unsigned at h
  split at h
  · simp [← Except.error.inj h]
  iterate 3
    · exact inBase_eq_error h
  · split at h
    · obtain ⟨_, part, _, _, _, _, hpart⟩ := mapM_eq_error.1 (map_eq_error.1 h)
      exact inTen_eq_error hpart
    · exact inTen_eq_error h

theorem signed_eq_error (h : signed s = .error f) : f ≠ .misplaced := by
  unfold signed at h
  split at h
  · simp [← Except.error.inj h]
  all_goals simp at h

theorem integer_eq_error (h : integer s = .error f) : f ≠ .misplaced := by
  unfold integer at h
  rcases bind_eq_error.1 h with h | ⟨⟨negative, body⟩, -, h⟩
  · exact signed_eq_error h
  · rcases bind_eq_error.1 h with h | ⟨n, -, h⟩
    · exact unsigned_eq_error h
    · exact absurd h pure_ne_error

theorem decimal_eq_error (h : decimal s = .error f) : f ≠ .misplaced := by
  unfold decimal at h
  dsimp only at h
  split at h
  · simp at h
  · split at h
    · simp at h
    · split at h
      · simp at h
      · simp [← Except.error.inj h]

theorem sixtiesFrom_eq_error {parts : List Binary64} {worth : Nat} {sum : Binary64}
    (h : sixtiesFrom worth sum parts = .error f) : f ≠ .misplaced := by
  induction parts generalizing worth sum with
  | nil => simp [sixtiesFrom] at h
  | cons x parts ih =>
    rw [sixtiesFrom] at h
    split at h
    · simp [← Except.error.inj h]
    · exact ih h

/-- What is done with a number behind its sign does not fail. -/
theorem bind_pure_eq_error {x : Except ValueFault Binary64} {g : Binary64 → Binary64}
    (h : (x >>= fun y => pure (g y)) = .error f) : x = .error f :=
  (bind_eq_error.1 h).resolve_right fun ⟨_, _, h⟩ => pure_ne_error h

theorem float_eq_error (h : float s = .error f) : f ≠ .misplaced := by
  unfold float at h
  rcases bind_eq_error.1 h with h | ⟨⟨negative, body⟩, -, h⟩
  · exact signed_eq_error h
  · dsimp only at h
    split at h
    · exact absurd (bind_pure_eq_error h) pure_ne_error
    · split at h
      · exact absurd (bind_pure_eq_error h) pure_ne_error
      · split at h
        · rcases bind_eq_error.1 h with h | ⟨parts, -, h⟩
          · obtain ⟨_, part, _, _, _, _, hpart⟩ := mapM_eq_error.1 h
            exact decimal_eq_error hpart
          · exact sixtiesFrom_eq_error (bind_pure_eq_error h)
        · exact decimal_eq_error (bind_pure_eq_error h)

theorem stamp_eq_error (h : stamp s = .error f) : f ≠ .misplaced := by
  unfold stamp at h
  split at h
  · simp [← Except.error.inj h]
  · split at h
    · simp at h
    · simp [← Except.error.inj h]
  · split at h
    · simp [← Except.error.inj h]
    · split at h
      · simp at h
      · simp [← Except.error.inj h]

/-- A text that is none of its tag has a fault of its own, if the tag is one of those that are
checked. -/
theorem value_eq_error {tag : Tag} {text : String} (h : value tag text = .error f) :
    f ≠ .misplaced ↔ tag.isChecked = true := by
  cases tag with
  | bool => exact iff_of_true (truth_eq_error (map_eq_error.1 h)) rfl
  | int => exact iff_of_true (integer_eq_error (map_eq_error.1 h)) rfl
  | float => exact iff_of_true (float_eq_error (map_eq_error.1 h)) rfl
  | timestamp => exact iff_of_true (stamp_eq_error h) rfl
  | null | str => simp [value] at h
  | binary =>
    unfold value at h
    dsimp only at h
    split at h
    · simp at h
    · simp [← Except.error.inj h, Tag.isChecked]
  | _ => simp [← Except.error.inj h, Tag.isChecked]

end Scalar

namespace Node

/-! ## The nodes of a tree -/

/-- A node has another one as an item, a key or a value. -/
inductive Holds : Node → Node → Prop
  | item {tag : Tag} {items : List Node} {mark : Mark} {x : Node} (hx : x ∈ items) :
      Holds (.sequence tag items mark) x
  | key {tag : Tag} {entries : List (Node × Node)} {mark : Mark} {e : Node × Node}
      (he : e ∈ entries) : Holds (.mapping tag entries mark) e.1
  | value {tag : Tag} {entries : List (Node × Node)} {mark : Mark} {e : Node × Node}
      (he : e ∈ entries) : Holds (.mapping tag entries mark) e.2

theorem sizeOf_entry_lt {tag : Tag} {entries : List (Node × Node)} {mark : Mark} {e : Node × Node}
    (he : e ∈ entries) : sizeOf e.1 + sizeOf e.2 < sizeOf (mapping tag entries mark) := by
  have hmem := List.sizeOf_lt_of_mem he
  have hpair : sizeOf e = 1 + sizeOf e.1 + sizeOf e.2 := rfl
  simp only [mapping.sizeOf_spec]
  omega

theorem Holds.sizeOf_lt {n x : Node} (h : n.Holds x) : sizeOf x < sizeOf n := by
  cases h with
  | item hx =>
    have hmem := List.sizeOf_lt_of_mem hx
    simp only [sequence.sizeOf_spec]
    omega
  | key he => exact Nat.lt_of_le_of_lt (Nat.le_add_right _ _) (sizeOf_entry_lt he)
  | value he => exact Nat.lt_of_le_of_lt (Nat.le_add_left _ _) (sizeOf_entry_lt he)

/-- A node is in another one, at any depth. -/
def IsIn (x n : Node) : Prop := Relation.TransGen Holds n x

theorem IsIn.trans {x y n : Node} (h : x.IsIn y) (hy : y.IsIn n) : x.IsIn n :=
  Relation.TransGen.trans hy h

theorem isIn_wellFounded : WellFounded IsIn := by
  have hsize : ∀ x n : Node, x.IsIn n → sizeOf x < sizeOf n := fun x n h => by
    induction h with
    | single h => exact h.sizeOf_lt
    | tail _ h ih => exact Nat.lt_trans h.sizeOf_lt ih
  exact Subrelation.wf (hsize _ _) (measure (sizeOf : Node → Nat)).wf

/-! ## The entries of a mapping -/

/-- What is read of an entry. -/
def entryMeaning (depth : Nat) (k v : Node) : Meaning (Data × Data) :=
  Meaning.both (key depth k) (meaning depth v)

/-- What is read of an entry somewhere in a node. -/
def ReadsIn (depth : Nat) (n : Node) (m : Meaning (Data × Data)) : Prop :=
  ∃ k v, k.IsIn n ∧ v.IsIn n ∧ m = entryMeaning depth k v

theorem ReadsIn.of_holds {depth : Nat} {n x : Node} {m : Meaning (Data × Data)}
    (h : ReadsIn depth x m) (hx : n.Holds x) : ReadsIn depth n m := by
  obtain ⟨k, v, hk, hv, rfl⟩ := h
  exact ⟨k, v, hk.trans (.single hx), hv.trans (.single hx), rfl⟩

theorem readsIn_of_mem_own {depth : Nat} {entries : List (Node × Node)}
    {m : Meaning (Data × Data)} (hm : m ∈ own depth entries) (tag : Tag) (mark : Mark) :
    ReadsIn depth (.mapping tag entries mark) m := by
  have hentry : ∃ e ∈ entries, m = entryMeaning depth e.1 e.2 := by
    induction entries with
    | nil => simp [own] at hm
    | cons e entries ih =>
      obtain ⟨k, v⟩ := e
      rw [own] at hm
      split at hm
      · obtain ⟨e, he, rfl⟩ := ih hm
        exact ⟨e, List.mem_cons_of_mem _ he, rfl⟩
      · rcases List.mem_cons.1 hm with rfl | hm
        · exact ⟨(k, v), List.mem_cons_self, rfl⟩
        · obtain ⟨e, he, rfl⟩ := ih hm
          exact ⟨e, List.mem_cons_of_mem _ he, rfl⟩
  obtain ⟨e, he, rfl⟩ := hentry
  exact ⟨e.1, e.2, .single (.key he), .single (.value he), rfl⟩

theorem merge_mapping {depth : Nat} {entries : List (Node × Node)}
    {front : List (Meaning (Data × Data))} (h : merged depth entries = some front) (tag : Tag)
    (mark : Mark) :
    merge depth (.mapping tag entries mark) = some (front ++ own depth entries) := by
  rw [merge, h]
  rfl

-- A merged mapping may merge others, so the entries can be at any depth of the value of a merge.
mutual
/-- What is merged into a mapping is read of entries in its values. -/
theorem readsIn_of_mem_merged {depth : Nat} {l : List (Meaning (Data × Data))} :
    ∀ {entries : List (Node × Node)}, merged depth entries = some l →
      ∀ m ∈ l, ∃ e ∈ entries, ReadsIn depth e.2 m
  | [], h, m, hm => by
    rw [merged] at h
    rw [← Option.some.inj h] at hm
    simp at hm
  | (k, v) :: rest, h, m, hm => by
    rw [merged] at h
    split at h
    · simp only [Option.bind_eq_bind, Option.bind_eq_some_iff] at h
      obtain ⟨front, hfront, behind, hbehind, hl⟩ := h
      rw [← Option.some.inj hl] at hm
      rcases List.mem_append.1 hm with hm | hm
      · exact ⟨(k, v), List.mem_cons_self, readsIn_of_mem_merge hfront m hm⟩
      · obtain ⟨e, he, hread⟩ := readsIn_of_mem_merged hbehind m hm
        exact ⟨e, List.mem_cons_of_mem _ he, hread⟩
    · obtain ⟨e, he, hread⟩ := readsIn_of_mem_merged h m hm
      exact ⟨e, List.mem_cons_of_mem _ he, hread⟩

theorem readsIn_of_mem_merge {depth : Nat} {l : List (Meaning (Data × Data))} :
    ∀ {n : Node}, merge depth n = some l → ∀ m ∈ l, ReadsIn depth n m
  | .scalar .., h, m, hm => by simp [merge] at h
  | .sequence tag items mark, h, m, hm => by
    rw [merge] at h
    obtain ⟨x, hx, hread⟩ := readsIn_of_mem_merges h m hm
    exact hread.of_holds (.item hx)
  | .mapping tag entries mark, h, m, hm => by
    rw [merge] at h
    simp only [Option.bind_eq_bind, Option.bind_eq_some_iff] at h
    obtain ⟨front, hfront, hl⟩ := h
    rw [← Option.some.inj hl] at hm
    rcases List.mem_append.1 hm with hm | hm
    · obtain ⟨e, he, hread⟩ := readsIn_of_mem_merged hfront m hm
      exact hread.of_holds (.value he)
    · exact readsIn_of_mem_own hm tag mark

theorem readsIn_of_mem_merges {depth : Nat} {l : List (Meaning (Data × Data))} :
    ∀ {items : List Node}, merges depth items = some l →
      ∀ m ∈ l, ∃ x ∈ items, ReadsIn depth x m
  | [], h, m, hm => by
    rw [merges] at h
    rw [← Option.some.inj h] at hm
    simp at hm
  | .mapping tag entries mark :: rest, h, m, hm => by
    rw [merges] at h
    simp only [Option.bind_eq_bind, Option.bind_eq_some_iff] at h
    obtain ⟨front, hfront, behind, hbehind, hl⟩ := h
    rw [← Option.some.inj hl] at hm
    rcases List.mem_append.1 hm with hm | hm
    · obtain ⟨x, hx, hread⟩ := readsIn_of_mem_merges hbehind m hm
      exact ⟨x, List.mem_cons_of_mem _ hx, hread⟩
    · exact ⟨_, List.mem_cons_self, readsIn_of_mem_merge (merge_mapping hfront tag mark) m hm⟩
  | .scalar .. :: rest, h, m, hm => by simp [merges] at h
  | .sequence .. :: rest, h, m, hm => by simp [merges] at h
end

/-- What goes into the table of a mapping is read of entries in the mapping. -/
theorem readsIn_of_mem_table {depth : Nat} {entries : List (Node × Node)}
    {front : List (Meaning (Data × Data))} (h : merged depth entries = some front) (tag : Tag)
    (mark : Mark) : ∀ m ∈ front ++ own depth entries, ReadsIn depth (.mapping tag entries mark) m :=
  readsIn_of_mem_merge (merge_mapping h tag mark)

/-! ## Faults -/

/-- A node has no value, for its text is at odds with its tag, or it is a collection where a date
should be. -/
inductive Faulty : Node → ValueFault → Prop
  | scalar {tag : Tag} {text : String} {mark : Mark} {f : ValueFault}
      (h : Scalar.value tag text = .error f) : Faulty (.scalar tag text mark) f
  | standIn {tag : Tag} {entries : List (Node × Node)} {mark : Mark} {text : String} {f : ValueFault}
      (ht : tag ≠ .timestamp) (hs : (mapping tag entries mark).standIn? = some text)
      (h : Scalar.value tag text = .error f) : Faulty (.mapping tag entries mark) f
  | stamp {entries : List (Node × Node)} {mark : Mark} {text : String}
      (hs : (mapping .timestamp entries mark).standIn? = some text) :
      Faulty (.mapping .timestamp entries mark) .stampOfCollection

/-- Of the faults of nodes just those under a checked tag are none of the form of the tree. -/
theorem Faulty.isChecked_iff {x : Node} {f : ValueFault} (h : x.Faulty f) :
    f ≠ .misplaced ↔ x.tag.isChecked = true := by
  cases h with
  | scalar h => exact Scalar.value_eq_error h
  | standIn _ _ h => exact Scalar.value_eq_error h
  | stamp _ => exact iff_of_true (by simp) rfl

/-- A node is another one or in it. -/
def IsPart (x n : Node) : Prop := Relation.ReflTransGen Holds n x

theorem IsPart.of_isIn {x y n : Node} (h : x.IsPart y) (hy : y.IsIn n) : x.IsPart n :=
  Relation.ReflTransGen.trans hy.to_reflTransGen h

/-- Some part of a node is at fault. -/
def HasFault (n : Node) (f : ValueFault) : Prop := ∃ x : Node, x.IsPart n ∧ x.Faulty f

theorem HasFault.of_isIn {x n : Node} {f : ValueFault} (h : x.HasFault f) (hx : x.IsIn n) :
    n.HasFault f := by
  obtain ⟨y, hy, hfault⟩ := h
  exact ⟨y, hy.of_isIn hx, hfault⟩

theorem Faulty.hasFault {n : Node} {f : ValueFault} (h : n.Faulty f) : n.HasFault f :=
  ⟨n, .refl, h⟩

variable {depth : Nat} {e : Nat × ValueFault}

theorem ofValue_eq_error {x : Except ValueFault Data}
    (h : Meaning.ofValue depth x = .error e) : x = .error e.2 := by
  cases x with
  | ok a => simp [Meaning.ofValue] at h
  | error f => rw [← Except.error.inj h]

theorem fail_eq_error {α : Type} (h : (Meaning.fail depth : Meaning α) = .error e) :
    e.2 = .misplaced := by
  rw [← Except.error.inj h]

/-- A key fails for its form, or for what the node of the key fails for. -/
theorem key_eq_error {k : Node} (h : key depth k = .error e) :
    e.2 = .misplaced ∨ k.meaning depth = .error e := by
  unfold key at h
  split at h
  · simp at h
  · split at h
    · split at h
      · simp at h
      · exact .inl (fail_eq_error h)
    · split at h
      · exact .inl (fail_eq_error h)
      · exact .inr h

/-- Items that should be pairs fail for one that is none, or for the key or the value of one. -/
theorem pairings_eq_error {items : List Node} (h : .error e ∈ pairings depth items) :
    e.2 = .misplaced ∨ ∃ x ∈ items, ∃ y, x.Holds y ∧ y.meaning depth = .error e := by
  induction items with
  | nil => simp [pairings] at h
  | cons x items ih =>
    have hrest : .error e ∈ pairings depth items → e.2 = .misplaced ∨
        ∃ x' ∈ x :: items, ∃ y, x'.Holds y ∧ y.meaning depth = .error e := by
      intro h
      rcases ih h with h | ⟨x', hx', hy⟩
      · exact .inl h
      · exact .inr ⟨x', List.mem_cons_of_mem x hx', hy⟩
    unfold pairings at h
    split at h
    · simp_all
    · rename_i tag k v mark rest heq
      obtain ⟨rfl, rfl⟩ := List.cons.inj heq
      rcases List.mem_cons.1 h with h | h
      · refine .inr ⟨_, List.mem_cons_self, ?_⟩
        rcases Meaning.both_eq_error (map_eq_error.1 h.symm) with h | h
        · exact ⟨k, .key (List.mem_singleton.2 rfl), h⟩
        · exact ⟨v, .value (List.mem_singleton.2 rfl), h⟩
      · exact hrest h
    · rename_i heq
      obtain ⟨rfl, rfl⟩ := List.cons.inj heq
      rcases List.mem_cons.1 h with h | h
      · exact .inl (fail_eq_error h.symm)
      · exact hrest h

theorem mem_meanings {items : List Node} {m : Meaning Data} (h : m ∈ meanings depth items) :
    ∃ x ∈ items, m = x.meaning depth := by
  induction items with
  | nil => simp [meanings] at h
  | cons x items ih =>
    rw [meanings] at h
    rcases List.mem_cons.1 h with rfl | h
    · exact ⟨x, List.mem_cons_self, rfl⟩
    · obtain ⟨y, hy, rfl⟩ := ih h
      exact ⟨y, List.mem_cons_of_mem x hy, rfl⟩

/-- The table of a mapping fails for a merge of something else, or for a key or a value in it. -/
theorem table_eq_error {entries : List (Node × Node)} (h : table depth entries = .error e) (tag : Tag)
    (mark : Mark) : e.2 = .misplaced ∨
      ∃ x : Node, x.IsIn (.mapping tag entries mark) ∧ x.meaning depth = .error e := by
  rw [table] at h
  split at h
  · exact .inl (fail_eq_error h)
  · rename_i front hfront
    have hmem := Meaning.all_eq_error (map_eq_error.1 h)
    obtain ⟨k, v, hk, hv, hentry⟩ := readsIn_of_mem_table hfront tag mark _ hmem
    rcases Meaning.both_eq_error hentry.symm with h | h
    · exact (key_eq_error h).imp_right fun h => ⟨k, hk, h⟩
    · exact .inr ⟨v, hv, h⟩

/-- Why a node has no value: the form of the tree, a fault of its own, or that of a node in it. -/
inductive FailsFor (n : Node) (e : Nat × ValueFault) : Prop
  | form (h : e.2 = .misplaced)
  | own (h : n.Faulty e.2)
  | inner {x : Node} {depth : Nat} (hx : x.IsIn n) (h : x.meaning depth = .error e)

theorem failsFor_scalar {tag : Tag} {text : String} {mark : Mark}
    (h : (scalar tag text mark).meaning depth = .error e) : FailsFor (scalar tag text mark) e := by
  rw [meaning] at h
  split at h
  · exact .form (fail_eq_error h)
  · exact .own (.scalar (ofValue_eq_error h))

theorem failsFor_sequence {tag : Tag} {items : List Node} {mark : Mark}
    (h : (sequence tag items mark).meaning depth = .error e) :
    FailsFor (sequence tag items mark) e := by
  have hpairs : Meaning.all (pairings (depth + 1) items) = .error e →
      FailsFor (sequence tag items mark) e := by
    intro h
    rcases pairings_eq_error (Meaning.all_eq_error h) with h | ⟨x, hx, y, hy, h⟩
    · exact .form h
    · exact .inner (.tail (.single (.item hx)) hy) h
  unfold meaning at h
  split at h
  · obtain ⟨x, hx, heq⟩ := mem_meanings (Meaning.all_eq_error (map_eq_error.1 h))
    exact .inner (.single (.item hx)) heq.symm
  · exact hpairs (map_eq_error.1 h)
  · exact hpairs (map_eq_error.1 h)
  all_goals exact .form (fail_eq_error h)

theorem failsFor_mapping {tag : Tag} {entries : List (Node × Node)} {mark : Mark}
    (h : (mapping tag entries mark).meaning depth = .error e) :
    FailsFor (mapping tag entries mark) e := by
  have htable : table (depth + 1) entries = .error e → FailsFor (mapping tag entries mark) e := by
    intro h
    rcases table_eq_error h tag mark with h | ⟨x, hx, h⟩
    · exact .form h
    · exact .inner hx h
  unfold meaning at h
  split at h
  · exact htable (map_eq_error.1 h)
  · exact htable (map_eq_error.1 h)
  iterate 3
    · exact .form (fail_eq_error h)
  · split at h
    · exact .form (fail_eq_error h)
    · rename_i text hs
      split at h
      · rename_i htag
        obtain rfl := beq_iff_eq.1 htag
        rw [← Except.error.inj h]
        exact .own (.stamp hs)
      · rename_i htag
        exact .own (.standIn (by simpa using htag) hs (ofValue_eq_error h))

theorem failsFor_of_meaning {n : Node} (h : n.meaning depth = .error e) : n.FailsFor e := by
  cases n with
  | scalar tag text mark => exact failsFor_scalar h
  | sequence tag items mark => exact failsFor_sequence h
  | mapping tag entries mark => exact failsFor_mapping h

/-- **A fault that is not one of the form of the tree is that of a part of it.** -/
theorem hasFault_of_meaning {n : Node} (h : n.meaning depth = .error e) (he : e.2 ≠ .misplaced) :
    n.HasFault e.2 := by
  -- not on the structure: what is merged into a mapping is read of nodes deeper in it
  induction n using isIn_wellFounded.induction generalizing depth with
  | _ n ih =>
    cases failsFor_of_meaning h with
    | form hform => exact absurd hform he
    | own hfault => exact hfault.hasFault
    | inner hx hinner => exact (ih _ hx hinner).of_isIn hx

/-! ## Values -/

/-- A mapping is made of pairs, each of which is read of an entry in its node. -/
theorem exists_of_meaning_map {n : Node} {es : List (Data × Data)}
    (h : n.meaning depth = .ok (.map es)) :
    ∃ xs : List (Data × Data), es = xs.foldl (fun t x => Data.insert t x.1 x.2) [] ∧
      ∀ x ∈ xs, ReadsIn (depth + 1) n (.ok x) := by
  cases n with
  | scalar tag text mark => exact absurd rfl ((meaning_scalar h).1 es)
  | sequence tag items mark =>
    obtain ⟨xs, hxs, -⟩ := meaning_sequence h
    simp at hxs
  | mapping tag entries mark =>
    unfold meaning at h
    split at h
    · obtain ⟨es', htable, hes⟩ := map_eq_ok.1 h
      obtain rfl := Data.map.inj hes
      rw [table] at htable
      split at htable
      · simp [Meaning.fail] at htable
      · rename_i front hfront
        obtain ⟨xs, hall, rfl⟩ := map_eq_ok.1 htable
        refine ⟨xs, rfl, fun x hx => ?_⟩
        obtain ⟨m, hm, rfl⟩ := exists_of_forall₂ (Meaning.all_eq_ok.1 hall) hx
        exact readsIn_of_mem_table hfront _ mark _ hm
    · obtain ⟨es', -, hes⟩ := map_eq_ok.1 h
      simp at hes
    iterate 3
      · simp [Meaning.fail] at h
    · split at h
      · simp [Meaning.fail] at h
      · split at h
        · simp at h
        · exact absurd rfl ((isLeaf_ofValue h).1 es)

/-- The mappings that a node means have different keys. -/
theorem hasDistinctKeys_of_meaning {n : Node} {d : Data} (h : n.meaning depth = .ok d) :
    d.HasDistinctKeys := by
  cases d with
  | map es =>
    obtain ⟨xs, rfl, -⟩ := exists_of_meaning_map h
    exact (Data.foldl_insert List.Pairwise.nil xs).1
  | _ => trivial

/-- Each value that a node holds is the meaning of a node in it. -/
theorem meaning_of_mem {n : Node} {es : List (Data × Data)} {e : Data × Data}
    (h : n.meaning depth = .ok (.map es)) (he : e ∈ es) :
    ∃ x : Node, x.IsIn n ∧ x.meaning (depth + 1) = .ok e.2 := by
  obtain ⟨xs, rfl, hreads⟩ := exists_of_meaning_map h
  rcases (Data.foldl_insert List.Pairwise.nil xs).2 e he with he | ⟨x, hx, hvalue⟩
  · simp at he
  · obtain ⟨k, v, -, hv, hentry⟩ := hreads x hx
    exact ⟨v, hv, by rw [hvalue]; exact (Meaning.both_eq_ok.1 hentry.symm).2⟩

end Node

end Cnd.Yaml
