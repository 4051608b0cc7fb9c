/-!
The parts of a text around the first place of a separating character.
-/

namespace Cnd.Text

variable {sep : Char}

theorem takeWhile_dropWhile_ne {s : List Char} (h : sep ∈ s) :
    s.takeWhile (· != sep) ++ sep :: (s.dropWhile (· != sep)).drop 1 = s := by
  have hsplit : s.takeWhile (· != sep) ++ s.dropWhile (· != sep) = s :=
    List.takeWhile_append_dropWhile
  have hhead := List.head?_dropWhile_not (· != sep) s
  cases hd : s.dropWhile (· != sep) with
  | nil =>
    rw [hd, List.append_nil] at hsplit
    rw [← hsplit] at h
    exact absurd (List.all_eq_true.1 List.all_takeWhile _ h) (by simp)
  | cons c rest =>
    rw [hd] at hhead hsplit
    have hc : c = sep := by simpa using hhead
    rw [hc] at hsplit
    exact hsplit

theorem not_mem_takeWhile_ne (s : List Char) : sep ∉ s.takeWhile (· != sep) := by
  intro h
  exact absurd (List.all_eq_true.1 List.all_takeWhile _ h) (by simp)

theorem takeWhile_ne_append {s : List Char} (h : sep ∉ s) (rest : List Char) :
    (s ++ sep :: rest).takeWhile (· != sep) = s := by
  have hall : ∀ c ∈ s, (c != sep) = true := fun c hc => bne_iff_ne.2 (ne_of_mem_of_not_mem hc h)
  rw [List.takeWhile_append_of_pos hall]
  simp

theorem dropWhile_ne_append {s : List Char} (h : sep ∉ s) (rest : List Char) :
    (s ++ sep :: rest).dropWhile (· != sep) = sep :: rest := by
  have hall : ∀ c ∈ s, (c != sep) = true := fun c hc => bne_iff_ne.2 (ne_of_mem_of_not_mem hc h)
  rw [List.dropWhile_append_of_pos hall]
  simp

end Cnd.Text
