import Cnd.Proofs.Except
import Cnd.Proofs.FilePath
import Cnd.Proofs.Text.Utf8
import Cnd.TextFile

/-!
Which paths are refused for a null character: those whose text holds one, whatever is in the tree. And
where a path leads that is not refused, and what is read there.
-/

namespace Cnd

namespace FileTree

theorem follow_ne_nullChar {t : FileTree} {here names : List String} :
    t.follow here names ≠ .error .nullChar := by
  fun_induction follow t here names <;> simp_all

theorem locate_nullChar_iff {t : FileTree} {s : String} :
    t.locate (.ofString s) = .error .nullChar ↔ '\x00' ∈ s.toList := by
  have hmem : (FilePath.ofString s).text.contains '\x00' = decide ('\x00' ∈ s.toList) := by
    simp only [String.contains_char_eq, FilePath.mem_text_ofString (c := '\x00') (by decide)
      (by decide)]
  unfold locate checkText
  rw [hmem]
  by_cases hc : '\x00' ∈ s.toList
  · simp [hc, bind, Except.bind]
  · simp only [hc, decide_false, Bool.false_eq_true, if_false, iff_false]
    split
    · simp [bind, Except.bind]
    · simp only [bind, Except.bind]
      split
      · exact follow_ne_nullChar
      · simp

/-- A path is refused for a null character just if its text holds one. -/
theorem readChars_nullChar_iff {t : FileTree} {p : FilePath} :
    (∃ shown, t.readChars p = .error (.file ⟨.nullChar, shown⟩)) ↔ '\x00' ∈ p.text.toList := by
  rw [← locate_nullChar_iff (t := t)]
  unfold readChars read readText
  by_cases he : p.text.isEmpty = true
  · have hn : '\x00' ∉ p.text.toList := by simp [String.isEmpty_iff.1 he]
    rw [← locate_nullChar_iff (t := t)] at hn
    simp [he, hn]
  · cases hl : t.locate (.ofString p.text) with
    | error f => simp [he]
    | ok names =>
      simp only [he, Bool.false_eq_true, if_false, reduceCtorEq, iff_false, not_exists]
      intro shown
      split
      · rename_i e hread
        split at hread
        · split at hread
          · rw [← Except.error.inj hread]
            simp
          · simp at hread
        · rw [← Except.error.inj hread]
          simp
        · rw [← Except.error.inj hread]
          simp
      · split <;> simp

/-! ## Paths that lead somewhere -/

section
variable {t : FileTree} {p : FilePath} {names : List String} {e : FileEntry}

theorem locate_eq_ok_iff : t.locate p = .ok names ↔
    checkText p.text = .ok () ∧ p.root = "" ∧ t.follow [] p.names = .ok names := by
  unfold locate
  rw [bind_eq_ok]
  constructor
  · rintro ⟨_, hcheck, h⟩
    split at h
    · rename_i hroot
      exact ⟨hcheck, String.isEmpty_iff.1 hroot, h⟩
    · simp at h
  · rintro ⟨hcheck, hroot, h⟩
    exact ⟨_, hcheck, by rw [hroot]; exact h⟩

theorem checkText_eq (text : String) (h : '\x00' ∉ text.toList) :
    checkText text = if pathLimit ≤ text.utf8ByteSize then .error .tooLong else .ok () := by
  have hnull : text.contains '\x00' = false := by
    rw [String.contains_char_eq]
    exact decide_eq_false h
  rw [checkText, hnull]
  rfl

theorem locate_of_follow (hnull : '\x00' ∉ p.text.toList) (hshort : p.text.utf8ByteSize < pathLimit)
    (hroot : p.root = "") (h : t.follow [] p.names = .ok names) : t.locate p = .ok names :=
  locate_eq_ok_iff.2 ⟨by rw [checkText_eq _ hnull, if_neg (Nat.not_le.2 hshort)], hroot, h⟩

theorem find?_eq_ok_some_iff : t.find? p = .ok (some e) ↔
    ∃ place, t.locate p = .ok place ∧ t.entry? place = some e := by
  unfold find?
  split
  · rename_i names hlocate
    simp [hlocate]
  · rename_i hlocate
    simp [hlocate]
  · rename_i f hne hlocate
    simp [hlocate]

/-- A text without carriage returns is read from its bytes as it is. -/
theorem readChars_of_read {text : String} (h : t.read p = .ok text.toUTF8)
    (hbreaks : '\r' ∉ text.toList) : t.readChars p = .ok text.toList := by
  rw [readChars, h]
  simp only [Text.ofBytes_toUTF8, Text.unifyLineBreaks_eq_self hbreaks]

end

end FileTree

end Cnd
