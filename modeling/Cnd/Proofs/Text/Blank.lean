import Cnd.Text.Alphanumeric
import Cnd.Text.Blank

/-!
No blank character is a letter, a digit or another number.
-/

namespace Cnd.Text

/-- What a set holds lies in one of its runs. -/
theorem Ranges.exists_of_contains {rs : Ranges} {n : Nat} (h : rs.contains n = true) :
    ∃ r ∈ rs, n ∈ List.range' r.1 (r.2 + 1 - r.1) := by
  induction rs with
  | nil => simp [Ranges.contains] at h
  | cons r rs ih =>
    obtain ⟨first, last⟩ := r
    rw [Ranges.contains] at h
    by_cases hf : n < first
    · simp [hf] at h
    · by_cases hl : n ≤ last
      · refine ⟨(first, last), List.mem_cons_self, ?_⟩
        rw [List.mem_range'_1]
        omega
      · rw [if_neg hf, if_neg hl] at h
        obtain ⟨r, hr, hn⟩ := ih h
        exact ⟨r, List.mem_cons_of_mem _ hr, hn⟩

set_option maxRecDepth 4000 in
theorem not_isAlphanumeric_of_isBlank {c : Char} (h : isBlank c = true) :
    isAlphanumeric c = false := by
  obtain ⟨r, hr, hn⟩ := Ranges.exists_of_contains h
  have hall : ∀ r ∈ blankRanges, ∀ n ∈ List.range' r.1 (r.2 + 1 - r.1),
      alphanumericRanges.contains n = false := by decide
  exact hall r hr c.toNat hn

end Cnd.Text
