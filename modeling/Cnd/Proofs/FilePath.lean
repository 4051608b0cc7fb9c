import Cnd.FilePath
import Mathlib.Data.List.Basic

/-!
A text as a path: the pieces between its slashes, and the characters of the path that is read.
-/

namespace Cnd

theorem Text.endsWith_eq (s part : String) :
    s.endsWith part = decide (part.toList <:+ s.toList) := by
  rw [Bool.eq_iff_iff, String.endsWith_eq_endsWith_toSlice, String.Slice.endsWith_string_iff,
    String.copy_toSlice, decide_eq_true_iff]

namespace FilePath

/-! ## Pieces between slashes -/

theorem splitSlash_nil : splitSlash [] = [[]] := rfl

theorem splitSlash_cons {s piece : List Char} {pieces : List (List Char)}
    (h : splitSlash s = piece :: pieces) (c : Char) :
    splitSlash (c :: s) =
      if c == '/' then [] :: piece :: pieces else (c :: piece) :: pieces := by
  rw [splitSlash, h]

theorem splitSlash_ne_nil (s : List Char) : splitSlash s ≠ [] := by
  induction s with
  | nil => simp [splitSlash_nil]
  | cons c s ih =>
    obtain ⟨piece, pieces, hs⟩ := List.exists_cons_of_ne_nil ih
    rw [splitSlash_cons hs]
    split <;> simp

theorem splitSlash_of_not_mem {s : List Char} (h : '/' ∉ s) : splitSlash s = [s] := by
  induction s with
  | nil => rfl
  | cons c s ih =>
    have hc : (c == '/') = false := by
      rw [beq_eq_false_iff_ne]
      rintro rfl
      exact h List.mem_cons_self
    have hs : splitSlash s = [s] := ih fun hm => h (List.mem_cons_of_mem _ hm)
    simp [splitSlash_cons hs, hc]

theorem splitSlash_append {s : List Char} (h : '/' ∉ s) (t : List Char) :
    splitSlash (s ++ '/' :: t) = s :: splitSlash t := by
  induction s with
  | nil =>
    obtain ⟨piece, pieces, ht⟩ := List.exists_cons_of_ne_nil (splitSlash_ne_nil t)
    simp [splitSlash_cons ht, ht]
  | cons c s ih =>
    have hc : (c == '/') = false := by
      rw [beq_eq_false_iff_ne]
      rintro rfl
      exact h List.mem_cons_self
    have hs : splitSlash (s ++ '/' :: t) = s :: splitSlash t :=
      ih fun hm => h (List.mem_cons_of_mem _ hm)
    rw [List.cons_append, splitSlash_cons hs]
    simp [hc]

/-- Pieces without slashes are found again between the slashes that join them. -/
theorem splitSlash_intercalate {pieces : List (List Char)} (hne : pieces ≠ [])
    (h : ∀ s ∈ pieces, '/' ∉ s) : splitSlash (['/'].intercalate pieces) = pieces := by
  induction pieces with
  | nil => exact absurd rfl hne
  | cons s pieces ih =>
    have hs := h s List.mem_cons_self
    cases pieces with
    | nil => rw [List.intercalate_singleton, splitSlash_of_not_mem hs]
    | cons t pieces =>
      rw [List.intercalate_cons_cons, List.append_assoc, List.singleton_append,
        splitSlash_append hs, ih (by simp) fun u hu => h u (List.mem_cons_of_mem _ hu)]

/-- Nothing but the slashes is lost between the pieces. -/
theorem intercalate_splitSlash (s : List Char) : ['/'].intercalate (splitSlash s) = s := by
  induction s with
  | nil => rfl
  | cons c s ih =>
    obtain ⟨piece, pieces, hs⟩ := List.exists_cons_of_ne_nil (splitSlash_ne_nil s)
    rw [hs] at ih
    rw [splitSlash_cons hs]
    by_cases hc : c = '/'
    · rw [if_pos (by simpa using hc), List.intercalate_cons_cons, ih, hc]
      rfl
    · rw [if_neg (by simpa using hc)]
      cases pieces with
      | nil =>
        rw [List.intercalate_singleton] at ih ⊢
        rw [ih]
      | cons t pieces =>
        rw [List.intercalate_cons_cons] at ih ⊢
        rw [← ih]
        rfl

/-! ## Characters of a path -/

theorem mem_splitSlash {c : Char} (hc : c ≠ '/') {s : List Char} :
    (∃ piece ∈ splitSlash s, c ∈ piece) ↔ c ∈ s := by
  induction s with
  | nil => simp [splitSlash_nil]
  | cons d s ih =>
    obtain ⟨piece, pieces, hs⟩ := List.exists_cons_of_ne_nil (splitSlash_ne_nil s)
    rw [splitSlash_cons hs, List.mem_cons, ← ih, hs]
    split
    · rename_i hd
      have hne : c ≠ d := by
        rw [beq_iff_eq.1 hd]
        exact hc
      simp [hne]
    · simp [or_assoc]

theorem mem_intercalate {c : Char} (hc : c ≠ '/') {names : List String} :
    c ∈ ("/".intercalate names).toList ↔ ∃ n ∈ names, c ∈ n.toList := by
  induction names with
  | nil => simp
  | cons n names ih =>
    cases names with
    | nil => simp
    | cons m names =>
      rw [String.intercalate_cons_cons]
      simp only [String.toList_append, List.mem_append, ih, List.mem_cons, exists_eq_or_imp]
      simp [hc]

theorem not_mem_rootOf {c : Char} (hc : c ≠ '/') (s : List Char) : c ∉ (rootOf s).toList := by
  unfold rootOf
  split <;> simp [hc]

theorem mem_text {c : Char} (hs : c ≠ '/') (hd : c ≠ '.') {p : FilePath}
    (hr : c ∉ p.root.toList) : c ∈ p.text.toList ↔ ∃ n ∈ p.names, c ∈ n.toList := by
  unfold text
  simp only
  split
  · rename_i he
    have hn : p.names = [] := List.isEmpty_iff.1 (Bool.and_eq_true_iff.1 he).2
    simp [hn, hd]
  · rw [String.toList_append, List.mem_append, mem_intercalate hs]
    exact or_iff_right hr

/-- Reading a text as a path drops slashes and dots only. -/
theorem mem_text_ofString {c : Char} (hs : c ≠ '/') (hd : c ≠ '.') {s : String} :
    c ∈ (ofString s).text.toList ↔ c ∈ s.toList := by
  rw [mem_text hs hd (not_mem_rootOf hs _), ← mem_splitSlash hs]
  simp only [ofString, List.mem_filter, List.mem_map]
  constructor
  · rintro ⟨n, ⟨⟨piece, hp, rfl⟩, -⟩, hc⟩
    exact ⟨piece, hp, by simpa using hc⟩
  · rintro ⟨piece, hp, hc⟩
    refine ⟨String.ofList piece, ⟨⟨piece, hp, rfl⟩, ?_⟩, by simpa using hc⟩
    have hne : ∀ t : String, c ∉ t.toList → String.ofList piece ≠ t := by
      rintro t ht rfl
      exact ht (by simpa using hc)
    simp [hne "" (by simp), hne "." (by simpa using hd)]

/-! ## Names -/

/-- A text without slashes is a path of one name, unless it is empty or a dot. -/
theorem ofString_name {name : String} (hslash : '/' ∉ name.toList) (hne : name ≠ "")
    (hdot : name ≠ ".") : ofString name = ⟨"", [name]⟩ := by
  have hroot : rootOf name.toList = "" := by
    unfold rootOf
    split
    all_goals simp_all
  simp [ofString, hroot, splitSlash_of_not_mem hslash, hne, hdot]

theorem text_name (name : String) : (FilePath.mk "" [name]).text = name := by
  simp [text]

end FilePath

end Cnd
