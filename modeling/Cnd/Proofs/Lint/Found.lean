import Cnd.Proofs.FileTree.Below
import Cnd.Proofs.Lint.Suspicion
import Cnd.Proofs.Schema.Order
import Cnd.Proofs.Text.Separator

/-!
Which files are found.

A given file is taken by its extension, which needs something in front of it; below a given directory
everything is taken whose name ends as that of a definition file, directories and a file that has no
other name too (`mem_found_iff`). What is found comes in the order of the paths, nothing twice
(`pairwise_found`), and is just the definition files if no such entry stands below a given directory
(`found_of_find`).
-/

namespace Cnd

/-! ## Endings of names -/

namespace FilePath

variable {name stem ending : List Char}

/-- A name ends in all behind its last dot, unless that is nothing or nothing stands in front of it. -/
theorem suffixOf_append (hdot : '.' ∉ ending) :
    suffixOf (stem ++ '.' :: ending) = if ending = [] ∨ stem = [] then [] else '.' :: ending := by
  have htail : ((stem ++ '.' :: ending).reverse.takeWhile (· != '.')).reverse = ending := by
    rw [List.reverse_append, List.reverse_cons, List.append_assoc, List.singleton_append,
      Text.takeWhile_ne_append (by simpa using hdot), List.reverse_reverse]
  unfold suffixOf
  dsimp only
  rw [htail]
  have hfront : (stem ++ '.' :: ending).length - ending.length < 2 ↔ stem = [] := by
    rw [List.length_append, List.length_cons, ← List.length_eq_zero_iff]
    omega
  simp only [Bool.or_eq_true, List.isEmpty_iff, decide_eq_true_eq, hfront]

theorem suffixOf_of_not_mem (hdot : '.' ∉ name) : suffixOf name = [] := by
  have hall : ∀ c ∈ name.reverse, (c != '.') = true := fun c hc =>
    bne_iff_ne.2 (ne_of_mem_of_not_mem (List.mem_reverse.1 hc) hdot)
  simp [suffixOf, List.takeWhile_eq_self_iff.2 hall]

theorem exists_last_dot (hdot : '.' ∈ name) :
    ∃ stem ending, '.' ∉ ending ∧ name = stem ++ '.' :: ending := by
  obtain ⟨before, behind, hname, hbefore⟩ := List.eq_append_cons_of_mem (List.mem_reverse.2 hdot)
  refine ⟨behind.reverse, before.reverse, by simpa using hbefore, ?_⟩
  rw [← List.reverse_reverse name, hname]
  simp

/-- The ending of a name, if it has one: something stands in front of the last dot. -/
theorem suffixOf_eq_iff (hne : ending ≠ []) (hdot : '.' ∉ ending) :
    suffixOf name = '.' :: ending ↔ ∃ stem, stem ≠ [] ∧ name = stem ++ '.' :: ending := by
  constructor
  · intro h
    by_cases hname : '.' ∈ name
    · obtain ⟨stem, last, hlast, rfl⟩ := exists_last_dot hname
      rw [suffixOf_append hlast] at h
      split at h
      · simp at h
      · rename_i hparts
        rw [← (List.cons.inj h).2]
        exact ⟨stem, fun hstem => hparts (.inr hstem), rfl⟩
    · simp [suffixOf_of_not_mem hname] at h
  · rintro ⟨stem, hstem, rfl⟩
    rw [suffixOf_append hdot, if_neg (by simp [hne, hstem])]

end FilePath

namespace Lint

/-! ## Names of definition files -/

/-- The name of a path ends as that of a definition file. -/
def EndsInExtension (p : FilePath) : Prop := extension.toList <:+ p.name.toList

/-- The name of a path ends as that of a definition file, and something stands in front of the ending. -/
def HasExtension (p : FilePath) : Prop :=
  ∃ stem, stem ≠ [] ∧ p.name.toList = stem ++ extension.toList

theorem HasExtension.ends {p : FilePath} (h : HasExtension p) : EndsInExtension p := by
  obtain ⟨stem, -, hname⟩ := h
  exact ⟨stem, hname.symm⟩

theorem suffix_eq_extension_iff {p : FilePath} : p.suffix = extension ↔ HasExtension p := by
  have hextension : extension.toList = '.' :: ['c', 'n', 'd'] := by decide
  rw [HasExtension, hextension, ← FilePath.suffixOf_eq_iff (by simp) (by simp), ← hextension,
    FilePath.suffix]
  constructor
  · intro h
    rw [← h, String.toList_ofList]
  · intro h
    rw [h, String.ofList_toList]

/-! ## What one path contributes -/

variable {tree : FileTree} {p q : FilePath}

theorem find?_eq_directory_iff : tree.find? p = .ok (some .directory) ↔
    ∃ here, tree.locate p = .ok here ∧ tree.isDirectory here = true := by
  simp only [FileTree.find?_eq_ok_some_iff, FileTree.isDirectory_iff]

theorem find?_of_standsBelow {e : FileEntry} (h : tree.StandsBelow p q e) :
    tree.find? p = .ok (some .directory) := by
  obtain ⟨here, -, hlocate, hdirectory, -⟩ := h
  exact find?_eq_directory_iff.2 ⟨here, hlocate, hdirectory⟩

theorem name_child {names : List String} (hne : names ≠ []) :
    (FilePath.mk p.root (p.names ++ names)).name = names.getLastD "" := by
  simp only [FilePath.name, List.getLastD_eq_getLast?, List.getLast?_append]
  cases h : names.getLast? with
  | none => exact absurd (List.getLast?_eq_none_iff.1 h) hne
  | some n => rfl

theorem mem_pathsBelow_iff : q ∈ pathsBelow tree p ↔
    (∃ here names, tree.locate p = .ok here ∧ names ≠ [] ∧ q = ⟨p.root, p.names ++ names⟩ ∧
      ∃ e, tree.entry? (here ++ names) = some e) ∧ EndsInExtension q := by
  unfold pathsBelow
  cases tree.locate p with
  | error f => simp
  | ok here =>
    have hends : ∀ names : List String, names ≠ [] → ((names.getLastD "").endsWith extension = true ↔
        EndsInExtension ⟨p.root, p.names ++ names⟩) := by
      intro names hne
      rw [EndsInExtension, name_child hne, Text.endsWith_eq, decide_eq_true_iff]
    simp only [List.mem_map, List.mem_filter, FileTree.mem_below_iff, Except.ok.injEq]
    constructor
    · rintro ⟨names, ⟨⟨hne, he⟩, hend⟩, rfl⟩
      exact ⟨⟨here, names, rfl, hne, rfl, he⟩, (hends names hne).1 hend⟩
    · rintro ⟨⟨_, names, rfl, hne, rfl, he⟩, hend⟩
      exact ⟨names, ⟨⟨hne, he⟩, (hends names hne).2 hend⟩, rfl⟩

/-- What a given path contributes: the path itself, if it leads to a file with the extension, or a path
below it with the ending, whatever stands there. -/
def Contributes (tree : FileTree) (p q : FilePath) : Prop :=
  (q = p ∧ (∃ bytes, tree.find? p = .ok (some (.file bytes))) ∧ HasExtension p) ∨
    (∃ e, tree.StandsBelow p q e) ∧ EndsInExtension q

/-- The path can be looked up, and if it leads to a directory, all directories below can be searched. -/
def IsSearchable (tree : FileTree) (p : FilePath) : Prop :=
  (∃ e, tree.find? p = .ok e) ∧
    ∀ q, tree.StandsBelow p q .directory → q.text.utf8ByteSize < FileTree.pathLimit

theorem unsearchable?_eq_none_iff (h : tree.find? p = .ok (some .directory)) :
    unsearchable? tree p = none ↔
      ∀ q, tree.StandsBelow p q .directory → q.text.utf8ByteSize < FileTree.pathLimit := by
  obtain ⟨here, hlocate, hdirectory⟩ := find?_eq_directory_iff.1 h
  simp only [unsearchable?, hlocate, List.find?_eq_none, List.mem_map, List.mem_filter,
    FileTree.mem_below_iff, FileTree.isDirectory_iff, decide_eq_true_eq, Nat.not_le]
  constructor
  · rintro hall q ⟨here', names, hlocate', -, hne, rfl, he⟩
    obtain rfl := Except.ok.inj (hlocate.symm.trans hlocate')
    exact hall _ ⟨names, ⟨⟨hne, _, he⟩, he⟩, rfl⟩
  · rintro hall _ ⟨names, ⟨⟨hne, -⟩, he⟩, rfl⟩
    exact hall _ ⟨here, names, hlocate, hdirectory, hne, rfl, he⟩

theorem exists_findAt_iff : (∃ r, findAt tree p = .ok r) ↔ IsSearchable tree p := by
  have hbelow : tree.find? p ≠ .ok (some .directory) → ∀ q e, ¬tree.StandsBelow p q e :=
    fun hne q e hb => hne (find?_of_standsBelow hb)
  unfold findAt IsSearchable
  cases h : tree.find? p with
  | error e => simp
  | ok found =>
    rw [h] at hbelow
    match found with
    | none =>
      simp [fun q => hbelow (by simp) q]
    | some (.file bytes) =>
      simp only [Except.ok.injEq, exists_eq', true_and]
      constructor
      · exact fun _ q hb => absurd hb (hbelow (by simp) q _)
      · intro _
        split <;> exact ⟨_, rfl⟩
    | some .directory =>
      dsimp only
      rw [← unsearchable?_eq_none_iff h]
      cases unsearchable? tree p <;> simp

theorem mem_of_findAt {warnings : List PathWarning} {found : List FilePath}
    (h : findAt tree p = .ok (warnings, found)) : q ∈ found ↔ Contributes tree p q := by
  have hbelow : tree.find? p ≠ .ok (some .directory) → ∀ e, ¬tree.StandsBelow p q e :=
    fun hne e hb => hne (find?_of_standsBelow hb)
  unfold findAt at h
  unfold Contributes
  split at h
  · simp at h
  · rename_i hfind
    obtain ⟨-, rfl⟩ := Prod.mk.inj (Except.ok.inj h)
    simp [hfind, hbelow (by simp [hfind])]
  · rename_i bytes hfind
    have hnone := hbelow (by simp [hfind])
    split at h
    · rename_i hsuffix
      obtain ⟨-, rfl⟩ := Prod.mk.inj (Except.ok.inj h)
      simp [hfind, hnone, suffix_eq_extension_iff.1 (beq_iff_eq.1 hsuffix)]
    · rename_i hsuffix
      obtain ⟨-, rfl⟩ := Prod.mk.inj (Except.ok.inj h)
      have hno : ¬HasExtension p := fun he => hsuffix (beq_iff_eq.2 (suffix_eq_extension_iff.2 he))
      simp [hnone, hno]
  · rename_i hfind
    split at h
    · simp at h
    obtain ⟨-, rfl⟩ := Prod.mk.inj (Except.ok.inj h)
    obtain ⟨here, hlocate, hdirectory⟩ := find?_eq_directory_iff.1 hfind
    rw [mem_pathsBelow_iff]
    constructor
    · rintro ⟨⟨here, names, hlocate', hne, rfl, e, he⟩, hends⟩
      obtain rfl := Except.ok.inj (hlocate.symm.trans hlocate')
      exact .inr ⟨⟨e, here, names, hlocate, hdirectory, hne, rfl, he⟩, hends⟩
    · rintro (⟨-, ⟨bytes, hfile⟩, -⟩ | ⟨⟨e, here, names, hlocate, -, hne, rfl, he⟩, hends⟩)
      · rw [hfind] at hfile
        simp at hfile
      · exact ⟨⟨here, names, hlocate, hne, rfl, e, he⟩, hends⟩

theorem Contributes.root_eq (h : Contributes tree p q) : q.root = "" := by
  rcases h with ⟨rfl, ⟨bytes, hfile⟩, -⟩ | ⟨⟨e, hb⟩, -⟩
  · obtain ⟨place, hlocate, -⟩ := FileTree.find?_eq_ok_some_iff.1 hfile
    exact (FileTree.locate_eq_ok_iff.1 hlocate).2.1
  · exact hb.root_eq

/-! ## What all paths contribute -/

variable {paths found : List FilePath}

theorem collect_cons (tree : FileTree) (p : FilePath) (paths : List FilePath) :
    collect tree (p :: paths) =
      match findAt tree p with
      | .error e => ([], .error e)
      | .ok (warnings, found) =>
        let (more, others) := collect tree paths
        (warnings ++ more, others.map (found ++ ·)) := rfl

theorem exists_collect_iff :
    (∃ found, (collect tree paths).2 = .ok found) ↔ ∀ p ∈ paths, IsSearchable tree p := by
  simp only [← exists_findAt_iff]
  induction paths with
  | nil => exact ⟨by simp, fun _ => ⟨[], rfl⟩⟩
  | cons p paths ih =>
    rw [List.forall_mem_cons, ← ih, collect_cons]
    cases findAt tree p with
    | error e => simp
    | ok r => simp [map_eq_ok]

theorem mem_collect (h : (collect tree paths).2 = .ok found) :
    q ∈ found ↔ ∃ p ∈ paths, Contributes tree p q := by
  induction paths generalizing found with
  | nil =>
    obtain rfl : [] = found := Except.ok.inj h
    simp
  | cons p paths ih =>
    rw [collect_cons] at h
    split at h
    · simp at h
    rename_i hfind
    obtain ⟨others, hothers, rfl⟩ := map_eq_ok.1 h
    rw [List.mem_append, mem_of_findAt hfind, ih hothers, List.exists_mem_cons_iff]

theorem find_eq_ok_iff : (find tree paths).2 = .ok found ↔
    ∃ all, (collect tree paths).2 = .ok all ∧ all.eraseDups.mergeSort FilePath.le = found := by
  rw [find]
  exact map_eq_ok

/-- What one path contributes, each path of it once and in order. -/
theorem find_singleton {warnings : List PathWarning}
    (h : findAt tree p = .ok (warnings, found)) :
    find tree [p] = (warnings, .ok (found.eraseDups.mergeSort FilePath.le)) := by
  have hnone : collect tree [] = ([], .ok []) := rfl
  simp only [find, collect_cons, h, hnone, Except.map, List.append_nil]

/-- A file with the extension is found where it is given itself. -/
theorem find_file {bytes : ByteArray} (h : tree.find? p = .ok (some (.file bytes)))
    (hsuffix : p.suffix = extension) : find tree [p] = ([], .ok [p]) := by
  have hat : findAt tree p = .ok ([], [p]) := by
    simp only [findAt, h, beq_iff_eq.2 hsuffix, if_true]
  rw [find_singleton hat]
  simp [List.eraseDups_cons]

theorem exists_found_iff :
    (∃ found, (find tree paths).2 = .ok found) ↔ ∀ p ∈ paths, IsSearchable tree p := by
  simp only [find_eq_ok_iff, ← exists_collect_iff]
  exact ⟨fun ⟨_, all, h, _⟩ => ⟨all, h⟩, fun ⟨all, h⟩ => ⟨_, all, h, rfl⟩⟩

theorem mem_found_iff (h : (find tree paths).2 = .ok found) :
    q ∈ found ↔ ∃ p ∈ paths, Contributes tree p q := by
  obtain ⟨all, hall, rfl⟩ := find_eq_ok_iff.1 h
  rw [List.mem_mergeSort, List.mem_eraseDups, mem_collect hall]

/-- What is found comes in the order of the paths, nothing twice. -/
theorem pairwise_found (h : (find tree paths).2 = .ok found) :
    found.Pairwise fun p q => p.sortKey < q.sortKey := by
  have hroot : ∀ p ∈ found, p.root = "" := fun p hp => by
    obtain ⟨_, -, hc⟩ := (mem_found_iff h).1 hp
    exact hc.root_eq
  obtain ⟨all, -, rfl⟩ := find_eq_ok_iff.1 h
  have hsorted : (all.eraseDups.mergeSort FilePath.le).Pairwise fun p q => FilePath.le p q = true :=
    List.pairwise_mergeSort (fun _ q _ => Text.listLe_trans (b := q.sortKey))
      (fun p q => Text.listLe_total p.sortKey q.sortKey) all.eraseDups
  have hnodup : (all.eraseDups.mergeSort FilePath.le).Nodup :=
    (List.mergeSort_perm _ _).nodup_iff.2 (nodup_eraseDups all)
  refine (hsorted.and hnodup).imp_of_mem fun {p q} hp hq ⟨hle, hne⟩ => Text.lt_of_listLe hle ?_
  -- without roots the keys are the names
  intro hkeys
  obtain ⟨root, names⟩ := p
  obtain ⟨root', names'⟩ := q
  obtain rfl : root = "" := hroot _ hp
  obtain rfl : root' = "" := hroot _ hq
  exact hne (by rw [show names = names' from hkeys])

/-! ## Definition files -/

/-- A regular file with the extension that is given itself, or stands at some depth below a given
directory. -/
def IsDefinitionFile (tree : FileTree) (paths : List FilePath) (p : FilePath) : Prop :=
  HasExtension p ∧
    ((p ∈ paths ∧ ∃ bytes, tree.find? p = .ok (some (.file bytes))) ∨
      ∃ d ∈ paths, ∃ bytes, tree.StandsBelow d p (.file bytes))

/-- Below the given directories no directory has a name that ends as that of a definition file, and no
file is named by the ending alone. -/
def HasNoStray (tree : FileTree) (paths : List FilePath) : Prop :=
  ∀ d ∈ paths, ∀ p e, tree.StandsBelow d p e → EndsInExtension p →
    HasExtension p ∧ ∃ bytes, e = .file bytes

section
variable {d : FilePath} {e e' : FileEntry}

theorem standsBelow_unique (h : tree.IsProper) (hb : tree.StandsBelow d p e)
    (hb' : tree.StandsBelow q p e') : e = e' := by
  obtain ⟨place, hfollow, he⟩ := hb.follow h
  obtain ⟨place', hfollow', he'⟩ := hb'.follow h
  obtain rfl := Except.ok.inj (hfollow.symm.trans hfollow')
  exact Option.some.inj (he.symm.trans he')

theorem standsBelow_of_find? (h : tree.IsProper) (hb : tree.StandsBelow d p e) :
    tree.find? p = .ok (some e') ↔ e = e' ∧ p.text.utf8ByteSize < FileTree.pathLimit := by
  rw [FileTree.find?_below h hb]
  split
  · rename_i hlong
    simp [Nat.not_lt.2 hlong]
  · rename_i hshort
    simp [Nat.lt_of_not_le hshort]

theorem not_standsBelow_self : ¬tree.StandsBelow p p e := by
  rintro ⟨here, names, -, -, hne, hself, -⟩
  have hlength := congrArg (fun q : FilePath => q.names.length) hself
  have hpos := List.length_pos_of_ne_nil hne
  simp only [List.length_append] at hlength
  omega

/-- What stands below a directory is taken when it is given itself, if it is a file with the extension
and its path is not too long. -/
theorem find_self_iff (h : tree.IsProper) (hb : tree.StandsBelow d p e) :
    find tree [p] = ([], .ok [p]) ↔
      HasExtension p ∧ (∃ bytes, e = .file bytes) ∧ p.text.utf8ByteSize < FileTree.pathLimit := by
  constructor
  · intro hfind
    obtain ⟨p', hp', hc⟩ := (mem_found_iff (congrArg Prod.snd hfind)).1 (List.mem_singleton_self p)
    obtain rfl := List.mem_singleton.1 hp'
    rcases hc with ⟨-, ⟨bytes, hfile⟩, hextension⟩ | ⟨⟨e', hself⟩, -⟩
    · obtain ⟨rfl, hshort⟩ := (standsBelow_of_find? h hb).1 hfile
      exact ⟨hextension, ⟨bytes, rfl⟩, hshort⟩
    · exact absurd hself not_standsBelow_self
  · rintro ⟨hextension, ⟨bytes, rfl⟩, hshort⟩
    exact find_file ((standsBelow_of_find? h hb).2 ⟨rfl, hshort⟩)
      (suffix_eq_extension_iff.2 hextension)

end

theorem isDefinitionFile_iff (h : tree.IsProper) (hfound : (find tree paths).2 = .ok found) :
    (∀ p, p ∈ found ↔ IsDefinitionFile tree paths p) ↔ HasNoStray tree paths := by
  simp only [mem_found_iff hfound]
  constructor
  · intro hall d hd p e hb hends
    obtain ⟨hextension, hfile⟩ := (hall p).1 ⟨d, hd, .inr ⟨⟨e, hb⟩, hends⟩⟩
    refine ⟨hextension, ?_⟩
    rcases hfile with ⟨-, bytes, hfile⟩ | ⟨d', -, bytes, hfile⟩
    · exact ⟨bytes, ((standsBelow_of_find? h hb).1 hfile).1⟩
    · exact ⟨bytes, standsBelow_unique h hb hfile⟩
  · intro hstray p
    constructor
    · rintro ⟨d, hd, ⟨rfl, hfile, hextension⟩ | ⟨⟨e, hb⟩, hends⟩⟩
      · exact ⟨hextension, .inl ⟨hd, hfile⟩⟩
      · obtain ⟨hextension, bytes, rfl⟩ := hstray d hd p e hb hends
        exact ⟨hextension, .inr ⟨d, hd, bytes, hb⟩⟩
    · rintro ⟨hextension, ⟨hp, hfile⟩ | ⟨d, hd, bytes, hb⟩⟩
      · exact ⟨p, hp, .inl ⟨rfl, hfile, hextension⟩⟩
      · exact ⟨d, hd, .inr ⟨⟨_, hb⟩, hextension.ends⟩⟩

/-- A file that is named by the ending alone, and a directory that is named as a definition file, with
such a file in it. -/
def strayTree : FileTree :=
  ⟨[([".cnd"], .file .empty), (["d.cnd"], .directory), (["d.cnd", "a.cnd"], .file .empty)]⟩

theorem isProper_strayTree : strayTree.IsProper where
  named := by decide
  nested := by decide

theorem locate_strayTree : strayTree.locate ⟨"", []⟩ = .ok [] :=
  FileTree.locate_of_follow (by decide) (by decide) rfl rfl

theorem find_strayTree : (find strayTree [⟨"", []⟩]).2 =
    .ok [⟨"", [".cnd"]⟩, ⟨"", ["d.cnd"]⟩, ⟨"", ["d.cnd", "a.cnd"]⟩] := by
  have hfind : strayTree.find? ⟨"", []⟩ = .ok (some .directory) :=
    find?_eq_directory_iff.2 ⟨[], locate_strayTree, rfl⟩
  have hsearchable : unsearchable? strayTree ⟨"", []⟩ = none := by
    rw [unsearchable?, locate_strayTree]
    decide
  have hbelow : pathsBelow strayTree ⟨"", []⟩ =
      [⟨"", [".cnd"]⟩, ⟨"", ["d.cnd"]⟩, ⟨"", ["d.cnd", "a.cnd"]⟩] := by
    rw [pathsBelow, locate_strayTree]
    simp only [Text.endsWith_eq]
    decide
  have hat : findAt strayTree ⟨"", []⟩ = .ok ([], pathsBelow strayTree ⟨"", []⟩) := by
    simp only [findAt, hfind, hsearchable]
  have hdups : (pathsBelow strayTree ⟨"", []⟩).eraseDups = pathsBelow strayTree ⟨"", []⟩ := by
    rw [hbelow]
    decide
  have hsorted : (pathsBelow strayTree ⟨"", []⟩).mergeSort FilePath.le =
      pathsBelow strayTree ⟨"", []⟩ := by
    rw [hbelow]
    exact List.mergeSort_of_pairwise (by decide)
  rw [find_singleton hat, hdups, hsorted, hbelow]

end Lint

end Cnd
