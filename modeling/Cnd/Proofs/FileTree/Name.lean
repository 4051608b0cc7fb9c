import Cnd.Proofs.FileTree
import Cnd.Proofs.FileTree.Write
import Mathlib.Data.List.TakeWhile

/-!
Paths that are one name.

A name leads to the entry of that name at the root (`IsEntryName.locate`). So a file there is read
by its name (`IsEntryName.read`), and where no directory has the name, a file can be written
(`IsEntryName.writeText`).
-/

namespace Cnd.FileTree

/-- A text that is the name of the entry that it leads to. -/
structure IsEntryName (name : String) : Prop where
  slash : '/' ∉ name.toList
  null : '\x00' ∉ name.toList
  named : name ≠ "" ∧ name ≠ "." ∧ name ≠ ".."
  short : name.utf8ByteSize ≤ nameLimit

namespace IsEntryName

variable {t : FileTree} {name : String} {e : FileEntry} {bytes : ByteArray}

theorem ofString (h : IsEntryName name) : FilePath.ofString name = ⟨"", [name]⟩ :=
  FilePath.ofString_name h.slash h.named.1 h.named.2.1

theorem lt_pathLimit (h : IsEntryName name) : name.utf8ByteSize < pathLimit :=
  Nat.lt_of_le_of_lt h.short (by decide)

theorem endsAsDirectory (h : IsEntryName name) : endsAsDirectory name = false := by
  have hends : ∀ part : String, '/' ∈ part.toList → name.endsWith part = false := by
    intro part hpart
    rw [Text.endsWith_eq]
    exact decide_eq_false fun hsuffix => h.slash (hsuffix.subset hpart)
  rw [FileTree.endsAsDirectory, hends _ (by decide), hends _ (by decide)]
  rfl

/-! ## Reading -/

theorem locate (h : IsEntryName name) (he : t.entry? [name] = some e) :
    t.locate ⟨"", [name]⟩ = .ok [name] := by
  have hfollow : t.follow [] [name] = .ok [name] :=
    follow_name rfl h.named.2.2 (Nat.not_lt.2 h.short) he
  refine locate_of_follow ?_ ?_ rfl hfollow
  · rw [FilePath.text_name]
    exact h.null
  · rw [FilePath.text_name]
    exact h.lt_pathLimit

theorem find? (h : IsEntryName name) (he : t.entry? [name] = some e) :
    t.find? ⟨"", [name]⟩ = .ok (some e) :=
  find?_eq_ok_some_iff.2 ⟨_, h.locate he, he⟩

theorem read (h : IsEntryName name) (he : t.entry? [name] = some (.file bytes)) :
    t.read ⟨"", [name]⟩ = .ok bytes := by
  rw [FileTree.read, FilePath.text_name, readText, if_neg (mt String.isEmpty_iff.1 h.named.1),
    h.ofString, h.locate he]
  simp only [he, h.endsAsDirectory, Bool.false_eq_true, if_false]

theorem readChars {text : String} (h : IsEntryName name)
    (he : t.entry? [name] = some (.file text.toUTF8)) (hbreaks : '\r' ∉ text.toList) :
    t.readChars ⟨"", [name]⟩ = .ok text.toList :=
  readChars_of_read (h.read he) hbreaks

/-! ## Writing -/

theorem place (h : IsEntryName name) : t.place (.ofString name) = .ok [name] := by
  have hroot : t.isDirectory [] = true := rfl
  rw [h.ofString, FileTree.place, FilePath.text_name, checkText_eq _ h.null,
    if_neg (Nat.not_le.2 h.lt_pathLimit)]
  simp [FilePath.name, h.named.2.2, hroot, follow, Nat.not_lt.2 h.short, bind, Except.bind, pure,
    Except.pure]

/-- No directory stands above a name, so none is made. -/
theorem makeParents (h : IsEntryName name) : t.makeParents name = .ok t := by
  have hall : ∀ c ∈ name.toList.reverse, (c != '/') = true := by
    intro c hc
    rw [bne_iff_ne]
    rintro rfl
    exact h.slash (List.mem_reverse.1 hc)
  rw [FileTree.makeParents, parentText, List.dropWhile_eq_nil_iff.2 hall]
  rfl

theorem writeText (h : IsEntryName name) (hd : t.isDirectory [name] = false) :
    t.writeText name bytes = .ok (t.put [name] (.file bytes)) := by
  rw [FileTree.writeText, if_neg (mt String.isEmpty_iff.1 h.named.1), h.place]
  simp [hd, h.endsAsDirectory]

end IsEntryName

end Cnd.FileTree
