import Cnd.Token.Scan

/-!
The tokens of a text one by one, and the ending behind them.

A scan is taken apart by its first step (`tokensFrom_step`); `scan_eq_complete_iff` says when it has
come to the end of the text.
-/

namespace Cnd

namespace Scan

/-! ## Steps -/

/-- A scan is its first step, and the scan from there on. -/
theorem tokensFrom_step (p : Position) (s : List Char) :
    tokensFrom p s =
      match next p s with
      | .error e => ([], .error e)
      | .ok (.inl q) => ([], .ok q)
      | .ok (.inr (t, q, r)) => (t :: (tokensFrom q r).1, (tokensFrom q r).2) := by
  rw [tokensFrom]
  split
  all_goals
    rename_i h
    rw [h]

theorem tokensFrom_of_error {p : Position} {s : List Char} {e : ScanError}
    (h : next p s = .error e) : tokensFrom p s = ([], .error e) := by
  rw [tokensFrom_step, h]

theorem tokensFrom_of_end {p q : Position} {s : List Char} (h : next p s = .ok (.inl q)) :
    tokensFrom p s = ([], .ok q) := by
  rw [tokensFrom_step, h]

theorem tokensFrom_of_token {p q : Position} {s r : List Char} {t : Token}
    (h : next p s = .ok (.inr (t, q, r))) :
    tokensFrom p s = (t :: (tokensFrom q r).1, (tokensFrom q r).2) := by
  rw [tokensFrom_step, h]

theorem tokensFrom_congr {p q : Position} {s r : List Char} (h : next p s = next q r) :
    tokensFrom p s = tokensFrom q r := by
  rw [tokensFrom_step p s, h, ← tokensFrom_step]

/-! ## The ending -/

theorem not_ending_of_token {p q : Position} {s r : List Char} {t : Token}
    (h : token p s = .ok (some (t, q, r))) : t.isEnding = false := by
  cases s with
  | nil => simp [token] at h
  | cons c rest =>
    simp only [token] at h
    split at h
    · simp only [Except.ok.injEq, Option.some.injEq, Prod.mk.injEq] at h
      rw [← h.1]
      rfl
    · split at h
      · split at h
        · simp at h
        · simp only [Except.ok.injEq, Option.some.injEq, Prod.mk.injEq] at h
          rw [← h.1]
          rfl
      · split at h
        · simp only [Except.ok.injEq, Option.some.injEq, Prod.mk.injEq] at h
          rw [← h.1]
          rfl
        · simp at h

theorem not_ending_of_next {p q : Position} {s r : List Char} {t : Token}
    (h : next p s = .ok (.inr (t, q, r))) : t.isEnding = false := by
  simp only [next] at h
  split at h
  · simp at h
  · split at h
    · simp at h
    · simp at h
    · rename_i ht
      simp only [Except.ok.injEq, Sum.inr.injEq] at h
      subst h
      exact not_ending_of_token ht

/-- Only `Token.scan` gives an ending. -/
theorem not_ending_of_mem {p : Position} {s : List Char} :
    ∀ t ∈ (tokensFrom p s).1, t.isEnding = false := by
  fun_induction tokensFrom p s with
  | case1 => simp
  | case2 => simp
  | case3 p s t q r hn ts stop heq ih =>
    intro u hu
    rcases List.mem_cons.1 hu with rfl | hu
    · exact not_ending_of_next hn
    · exact ih u (by rw [heq]; exact hu)

end Scan

/-- A scan without a fault ends with the only ending. -/
theorem scan_eq_complete_iff {text : List Char} {ts : List Token} {stop : Position} :
    Token.scan text = ⟨ts ++ [⟨.ending, stop⟩], none⟩ ↔
      Scan.tokensFrom .start text = (ts, .ok stop) := by
  unfold Token.scan
  split
  · rename_i ts' q hs
    simp only [Scanned.mk.injEq, and_true, hs, Prod.mk.injEq, Except.ok.injEq]
    constructor
    · intro h
      obtain ⟨hts, hq⟩ := List.append_inj' h rfl
      simpa [hts] using hq
    · rintro ⟨rfl, rfl⟩
      rfl
  · rename_i hs
    simp [hs]

theorem not_ending_of_scan {text : List Char} {ts : List Token} {stop : Position}
    (h : Token.scan text = ⟨ts ++ [⟨.ending, stop⟩], none⟩) : ∀ t ∈ ts, t.isEnding = false := by
  have hs := scan_eq_complete_iff.1 h
  have := Scan.not_ending_of_mem (p := .start) (s := text)
  rwa [hs] at this

/-- A scan with a fault has no ending. -/
theorem not_ending_of_fault {text : List Char} {e : ScanError}
    (h : (Token.scan text).fault = some e) : ∀ t ∈ (Token.scan text).tokens, t.isEnding = false := by
  unfold Token.scan at h ⊢
  split at h
  · simp at h
  · rename_i hs
    have := Scan.not_ending_of_mem (p := .start) (s := text)
    rw [hs] at this
    exact this

theorem scan_complete_or_fault (text : List Char) :
    (∃ ts stop, Token.scan text = ⟨ts ++ [⟨.ending, stop⟩], none⟩) ∨
      ∃ e, (Token.scan text).fault = some e := by
  unfold Token.scan
  split
  · rename_i ts q _
    exact .inl ⟨ts, q, rfl⟩
  · rename_i ts e _
    exact .inr ⟨e, rfl⟩

end Cnd
