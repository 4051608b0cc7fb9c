import Cnd.Proofs.FileTree
import Cnd.Proofs.FileTree.Write
import Mathlib.Data.List.Induction

/-!
What stands below a directory.

In a tree in which every entry stands in a directory, the names of what stands below a directory lead
there from it (`follow_below`). So a path with these names behind it leads to what stands there, as long
as it is no longer than a path may be (`find?_below`).
-/

namespace Cnd.FileTree

/-- A tree as it can be on disk: names are such as a path leads through, and every entry stands in a
directory. -/
structure IsProper (t : FileTree) : Prop where
  named : ∀ x ∈ t.entries, ∀ n ∈ x.1, n ≠ ".." ∧ '\x00' ∉ n.toList ∧ n.utf8ByteSize ≤ nameLimit
  nested : ∀ x ∈ t.entries, t.isDirectory x.1.dropLast = true

/-- What stands at some depth below the directory that a path leads to, and the path that has its
names behind that one. -/
def StandsBelow (t : FileTree) (d p : FilePath) (e : FileEntry) : Prop :=
  ∃ here names, t.locate d = .ok here ∧ t.isDirectory here = true ∧ names ≠ [] ∧
    p = ⟨d.root, d.names ++ names⟩ ∧ t.entry? (here ++ names) = some e

/-! ## Entries -/

theorem isDirectory_iff {t : FileTree} {names : List String} :
    t.isDirectory names = true ↔ t.entry? names = some .directory := by
  unfold isDirectory
  split <;> simp_all

theorem mem_entries {t : FileTree} {names : List String} {e : FileEntry} (hne : names ≠ [])
    (h : t.entry? names = some e) : (names, e) ∈ t.entries := by
  unfold entry? at h
  rw [if_neg (by simpa using hne)] at h
  obtain ⟨l₁, l₂, hentries, -⟩ := List.lookup_eq_some_iff.1 h
  rw [hentries]
  simp

theorem exists_entry_iff {t : FileTree} {names : List String} (hne : names ≠ []) :
    (∃ e, t.entry? names = some e) ↔ names ∈ t.entries.map (·.1) := by
  constructor
  · rintro ⟨e, he⟩
    exact List.mem_map.2 ⟨_, mem_entries hne he, rfl⟩
  · intro h
    obtain ⟨x, hx, rfl⟩ := List.mem_map.1 h
    rw [← Option.isSome_iff_exists, entry?, if_neg (by simpa using hne), List.lookup_isSome_iff]
    exact ⟨x, hx, beq_self_eq_true _⟩

theorem mem_below_iff {t : FileTree} {here names : List String} :
    names ∈ t.below here ↔ names ≠ [] ∧ ∃ e, t.entry? (here ++ names) = some e := by
  have hmem : names ∈ t.below here ↔ names ≠ [] ∧ here ++ names ∈ t.entries.map (·.1) := by
    simp only [below, List.mem_filterMap, Option.ite_none_right_eq_some, Bool.and_eq_true,
      List.isPrefixOf_iff_prefix, decide_eq_true_eq, Option.some.injEq]
    constructor
    · rintro ⟨_, hx, ⟨⟨rest, rfl⟩, hlt⟩, rfl⟩
      rw [List.drop_left]
      rw [List.length_append] at hlt
      exact ⟨List.ne_nil_of_length_pos (by omega), hx⟩
    · rintro ⟨hne, hx⟩
      have hpos := List.length_pos_of_ne_nil hne
      exact ⟨_, hx, ⟨List.prefix_append _ _, by rw [List.length_append]; omega⟩, List.drop_left⟩
  rw [hmem]
  exact and_congr_right fun hne => (exists_entry_iff (by simp [hne])).symm

/-! ## Paths to what stands below -/

variable {t : FileTree} {d p : FilePath} {here names : List String} {e : FileEntry}

theorem IsProper.isDirectory_dropLast (h : t.IsProper) (hne : names ≠ [])
    (he : t.entry? names = some e) : t.isDirectory names.dropLast = true :=
  h.nested _ (mem_entries hne he)

/-- The names of what stands somewhere lead there from each directory above it. -/
theorem follow_below (h : t.IsProper) (he : t.entry? (here ++ names) = some e) :
    t.follow here names = .ok (here ++ names) := by
  induction names using List.reverseRecOn generalizing e with
  | nil => rw [List.append_nil]; rfl
  | append_singleton names n ih =>
    rw [← List.append_assoc] at he ⊢
    have hdirectory : t.isDirectory (here ++ names) = true := by
      simpa using h.isDirectory_dropLast (by simp) he
    obtain ⟨hup, -, hlength⟩ := h.named _ (mem_entries (by simp) he) n (by simp)
    rw [follow_append, ih (isDirectory_iff.1 hdirectory)]
    exact follow_name hdirectory hup (Nat.not_lt.2 hlength) he

theorem null_not_mem_of_checkText {text : String} (h : checkText text = .ok ()) :
    '\x00' ∉ text.toList := by
  intro hmem
  rw [checkText, String.contains_char_eq, if_pos (decide_eq_true hmem)] at h
  simp at h

/-- A path has only one place, whatever stands there. -/
theorem StandsBelow.follow (h : t.IsProper) (hb : t.StandsBelow d p e) :
    ∃ place, t.follow [] p.names = .ok place ∧ t.entry? place = some e := by
  obtain ⟨here, names, hlocate, -, -, rfl, he⟩ := hb
  obtain ⟨-, -, hfollow⟩ := locate_eq_ok_iff.1 hlocate
  refine ⟨here ++ names, ?_, he⟩
  rw [follow_append, hfollow]
  exact follow_below h he

theorem StandsBelow.root_eq (hb : t.StandsBelow d p e) : p.root = "" := by
  obtain ⟨here, names, hlocate, -, -, rfl, -⟩ := hb
  exact (locate_eq_ok_iff.1 hlocate).2.1

/-- No path to what stands below a directory holds a null character. -/
theorem StandsBelow.null_not_mem (h : t.IsProper) (hb : t.StandsBelow d p e) :
    '\x00' ∉ p.text.toList := by
  obtain ⟨here, names, hlocate, -, hne, rfl, he⟩ := hb
  obtain ⟨hcheck, hroot, -⟩ := locate_eq_ok_iff.1 hlocate
  have hnull := null_not_mem_of_checkText hcheck
  have hrooted : '\x00' ∉ d.root.toList := by simp [hroot]
  rw [FilePath.mem_text (by decide) (by decide) hrooted] at hnull
  rw [FilePath.mem_text (p := ⟨d.root, d.names ++ names⟩) (by decide) (by decide) hrooted]
  rintro ⟨n, hn, hc⟩
  rcases List.mem_append.1 hn with hn | hn
  · exact hnull ⟨n, hn, hc⟩
  · have hmem := mem_entries (t := t) (by simp [hne]) he
    exact (h.named _ hmem n (List.mem_append_right _ hn)).2.1 hc

/-- A path to what stands below a directory leads there, unless it is too long. -/
theorem find?_below (h : t.IsProper) (hb : t.StandsBelow d p e) :
    t.find? p =
      if pathLimit ≤ p.text.utf8ByteSize then .error ⟨.tooLong, p.text⟩ else .ok (some e) := by
  obtain ⟨place, hfollow, he⟩ := hb.follow h
  split
  · rename_i hlong
    have hlocate : t.locate p = .error .tooLong := by
      rw [locate, checkText_eq _ (hb.null_not_mem h), if_pos hlong]
      rfl
    rw [find?, hlocate]
  · rename_i hshort
    exact find?_eq_ok_some_iff.2 ⟨place, locate_of_follow (hb.null_not_mem h) (Nat.lt_of_not_le hshort)
      hb.root_eq hfollow, he⟩

end Cnd.FileTree
