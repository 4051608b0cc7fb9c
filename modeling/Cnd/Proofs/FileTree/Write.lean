import Cnd.FileTree
import Cnd.Proofs.Except

/-!
What a path leads to after something was written: a file that was written holds what was written to it
(`readText_writeText`).

A path is followed through directories only. What is written takes the place of no directory, so a
path is followed in the new tree as in the old one (`follow_mono`).
-/

namespace Cnd.FileTree

/-! ## Putting an entry -/

theorem lookup_map_put {entries : List (List String × FileEntry)} {names : List String}
    {e : FileEntry} (h : (entries.lookup names).isSome) :
    (entries.map fun x => if x.1 == names then (names, e) else x).lookup names = some e := by
  induction entries with
  | nil => simp at h
  | cons x entries ih =>
    by_cases hx : names = x.1
    · simp [← hx]
    · have hne : (names == x.1) = false := by simpa using hx
      have hne' : (x.1 == names) = false := by simpa using Ne.symm hx
      rw [List.lookup_cons, hne] at h
      rw [List.map_cons, hne', if_neg Bool.false_ne_true, List.lookup_cons, hne]
      exact ih h

theorem lookup_map_put_of_ne {entries : List (List String × FileEntry)} {names other : List String}
    {e : FileEntry} (h : other ≠ names) :
    (entries.map fun x => if x.1 == names then (names, e) else x).lookup other =
      entries.lookup other := by
  induction entries with
  | nil => rfl
  | cons x entries ih =>
    have hne : (other == names) = false := by simpa using h
    rw [List.map_cons]
    split
    · rename_i hx
      rw [List.lookup_cons, List.lookup_cons, ih, eq_of_beq hx, hne]
    · rw [List.lookup_cons, List.lookup_cons, ih]

theorem entry?_put {t : FileTree} {names : List String} (hn : names ≠ []) (e : FileEntry) :
    entry? (t.put names e) names = some e := by
  have hempty : ¬ names.isEmpty = true := by simpa using hn
  rw [put, if_neg hempty, entry?, if_neg hempty]
  split
  · rename_i h
    exact lookup_map_put h
  · rename_i h
    rw [Option.not_isSome_iff_eq_none] at h
    simp [List.lookup_append, h]

theorem entry?_put_of_ne {t : FileTree} {names other : List String} (h : other ≠ names)
    (e : FileEntry) : entry? (t.put names e) other = t.entry? other := by
  have hne : (other == names) = false := by simpa using h
  unfold put entry?
  split
  · rfl
  · split
    · rfl
    split
    · exact lookup_map_put_of_ne h
    · simp [List.lookup_append, List.lookup_cons, hne]

theorem isDirectory_put {t : FileTree} {names other : List String} {e : FileEntry}
    (hn : t.isDirectory names = false) (h : t.isDirectory other = true) :
    (t.put names e).isDirectory other = true := by
  have hne : other ≠ names := by
    rintro rfl
    rw [hn] at h
    exact Bool.false_ne_true h
  rw [isDirectory, entry?_put_of_ne hne]
  exact h

/-! ## Following a path -/

theorem entry?_isSome_of_isDirectory {t : FileTree} {names : List String}
    (h : t.isDirectory names = true) : (t.entry? names).isSome = true := by
  unfold isDirectory at h
  split at h <;> simp_all

/-- A path that leads to a directory starts at one. -/
theorem isDirectory_of_follow {t : FileTree} {here names place : List String}
    (h : t.follow here names = .ok place) (hp : t.isDirectory place = true) :
    t.isDirectory here = true := by
  cases names with
  | nil =>
    obtain rfl : here = place := Except.ok.inj h
    exact hp
  | cons name rest =>
    rw [follow] at h
    split at h
    · simp at h
    · rename_i hd
      simpa using hd

/-- Where a path leads to a directory, it leads there in each tree that has all the directories. -/
theorem follow_mono {t t' : FileTree} (ht : ∀ x, t.isDirectory x = true → t'.isDirectory x = true)
    {here names place : List String} (h : t.follow here names = .ok place)
    (hp : t.isDirectory place = true) : t'.follow here names = .ok place := by
  fun_induction follow t here names with
  | case1 here => exact h
  | case2 | case3 | case5 | case6 => simp at h
  | case4 here name rest hd hname hempty ih =>
    have hd' := ht here (by simpa using hd)
    rw [follow, hd', if_neg (by simp), if_pos hname, if_neg hempty]
    exact ih h
  | case7 here name rest hd hname hlen e he ih =>
    have hd' := ht here (by simpa using hd)
    have hentry := entry?_isSome_of_isDirectory (ht _ (isDirectory_of_follow h hp))
    obtain ⟨e', he'⟩ := Option.isSome_iff_exists.1 hentry
    rw [follow, hd', if_neg (by simp), if_neg hname, if_neg hlen, he']
    exact ih h

/-- One name behind a directory. -/
theorem follow_name {t : FileTree} {here : List String} {name : String}
    (hd : t.isDirectory here = true) (hname : name ≠ "..") (hlen : ¬ nameLimit < name.utf8ByteSize)
    {e : FileEntry} (he : t.entry? (here ++ [name]) = some e) :
    t.follow here [name] = .ok (here ++ [name]) := by
  rw [follow, hd, if_neg (by simp), if_neg (by simpa using hname), if_neg hlen, he]
  rfl

/-- What lies above a place that a path leads to is a directory. -/
theorem isDirectory_above {t : FileTree} {here names place : List String}
    (h : t.follow here names = .ok place)
    (hh : ∀ up, up <+: here → up ≠ here → t.isDirectory up = true) :
    ∀ up, up <+: place → up ≠ place → t.isDirectory up = true := by
  fun_induction follow t here names with
  | case1 here =>
    obtain rfl : here = place := Except.ok.inj h
    exact hh
  | case2 | case3 | case5 | case6 => simp at h
  | case4 here name rest hd hname hempty ih =>
    refine ih h fun up hup hne => ?_
    refine hh up (hup.trans (List.dropLast_prefix here)) ?_
    rintro rfl
    have hlen := hup.length_le
    have hpos := List.length_pos_of_ne_nil (mt List.isEmpty_iff.2 hempty)
    rw [List.length_dropLast] at hlen
    omega
  | case7 here name rest hd hname hlen e he ih =>
    refine ih h fun up hup hne => ?_
    rcases List.prefix_concat_iff.1 hup with heq | hup
    · exact absurd heq hne
    · by_cases heq : up = here
      · rw [heq]
        simpa using hd
      · exact hh up hup heq

/-- Two dots lead to a directory. -/
theorem isDirectory_of_follow_up {t : FileTree} {names place : List String}
    (h : t.follow [] (names ++ [".."]) = .ok place) : t.isDirectory place = true := by
  rw [follow_append, bind_eq_ok] at h
  obtain ⟨here, hhere, h⟩ := h
  rw [follow] at h
  split at h
  · simp at h
  split at h
  · split at h
    · simp at h
    rename_i hempty
    obtain rfl : here.dropLast = place := Except.ok.inj h
    have hne : here ≠ [] := mt List.isEmpty_iff.2 hempty
    refine isDirectory_above hhere (fun up hup hne => absurd (List.prefix_nil.1 hup) hne) _
      (List.dropLast_prefix here) fun heq => ?_
    have hlen := congrArg List.length heq
    have hpos := List.length_pos_of_ne_nil hne
    rw [List.length_dropLast] at hlen
    omega
  · rename_i hname
    exact absurd rfl hname

/-! ## Writing -/

/-- A place that holds no directory is one name behind a directory. -/
theorem place_eq_ok {t : FileTree} {p : FilePath} {names : List String}
    (h : t.place p = .ok names) (hn : t.isDirectory names = false) :
    checkText p.text = .ok () ∧ p.root.isEmpty = true ∧
      ∃ above name parent, p.names = above ++ [name] ∧ t.follow [] above = .ok parent ∧
        t.isDirectory parent = true ∧ name ≠ ".." ∧ ¬ nameLimit < name.utf8ByteSize ∧
        names = parent ++ [name] := by
  unfold place at h
  rw [bind_eq_ok] at h
  obtain ⟨_, hcheck, h⟩ := h
  refine ⟨hcheck, ?_⟩
  split at h
  · simp at h
  rename_i hroot
  refine ⟨by simpa using hroot, ?_⟩
  rcases List.eq_nil_or_concat p.names with hnil | ⟨above, name, hnames⟩
  · -- the root itself is a directory
    rw [hnil, List.isEmpty_nil, Bool.true_or, if_pos rfl] at h
    obtain rfl : [] = names := Except.ok.inj h
    simp [isDirectory, entry?] at hn
  rw [List.concat_eq_append] at hnames
  have hlast : p.name = name := by simp [FilePath.name, hnames]
  split at h
  · rename_i hup
    have hup : name = ".." := by simpa [hnames, hlast] using hup
    rw [hnames, hup] at h
    rw [isDirectory_of_follow_up h] at hn
    simp at hn
  rename_i hup
  rw [hnames, List.dropLast_concat, bind_eq_ok] at h
  obtain ⟨parent, hparent, h⟩ := h
  split at h
  · simp at h
  rename_i hd
  split at h
  · simp at h
  rename_i hlen
  rw [hlast] at hlen h
  have hnot : name ≠ ".." := fun heq => hup (by simp [hlast, heq])
  exact ⟨above, name, parent, hnames, hparent, by simpa using hd, hnot, hlen, (Except.ok.inj h).symm⟩

/-- **A file that was written holds what was written to it.** -/
theorem readText_writeText {t t' : FileTree} {path : String} {bytes : ByteArray}
    (h : t.writeText path bytes = .ok t') : t'.readText path = .ok bytes := by
  unfold writeText at h
  split at h
  · simp at h
  rename_i hempty
  split at h
  · simp at h
  rename_i names hplace
  split at h
  · simp at h
  rename_i hd
  split at h
  · simp at h
  rename_i hends
  obtain rfl := Except.ok.inj h
  rw [Bool.not_eq_true] at hd
  obtain ⟨hcheck, hroot, above, name, parent, hnames, hparent, hpd, hup, hlen, hplaced⟩ :=
    place_eq_ok hplace hd
  have hkept : ∀ x, t.isDirectory x = true →
      (t.put names (.file bytes)).isDirectory x = true := fun x => isDirectory_put hd
  have hentry : entry? (t.put names (.file bytes)) names = some (.file bytes) :=
    entry?_put (by simp [hplaced]) _
  have hlocate : (t.put names (.file bytes)).locate (.ofString path) = .ok names := by
    rw [locate, hcheck, hroot, hnames]
    simp only [bind, Except.bind, if_true, follow_append, follow_mono hkept hparent hpd]
    rw [hplaced] at hentry ⊢
    exact follow_name (hplaced ▸ hkept parent hpd) hup hlen hentry
  rw [readText, if_neg hempty, hlocate]
  simp only [hentry, if_neg hends]

end Cnd.FileTree
