import Cnd.Proofs.FileTree.Name
import Cnd.Proofs.Yaml.Steps
import Cnd.Yaml.Loader
import Mathlib.Data.List.Induction

/-!
What a loader gives after a history of changed files, loads and clearings.

For each path a loader that keeps documents is in one of two states (`Remembers`): no load of the
path has succeeded since the last clearing, or what the file held at the earliest of those that did
is kept. Each step preserves this (`Remembers.after`), and so what a load gives can be told from the
history (`outcome_of_history`).
-/

namespace Cnd.Yaml.Loader

/-! ## Histories -/

/-- What may happen to a loader and to the files. -/
inductive Step where
  /-- Files are written or removed. -/
  | change (f : FileTree → FileTree)
  | load (p : FilePath)
  | clear

namespace Step

def write (names : List String) (bytes : ByteArray) : Step :=
  .change (·.putDeep names (.file bytes))

def remove (names : List String) : Step := .change (·.remove names)

/-- Whether a step is no load of another path. -/
def concerns (p : FilePath) : Step → Bool
  | .load q => q == p
  | _ => true

end Step

/-- A loader, and the files as they are. -/
structure Stage where
  loader : Loader
  files : FileTree

namespace Stage

def after (s : Stage) : Step → Stage
  | .change f => { s with files := f s.files }
  | .load p => { s with loader := (s.loader.load s.files p).1 }
  | .clear => { s with loader := s.loader.clear.1 }

/-- What loading a path gives. -/
def outcome (s : Stage) (p : FilePath) : Except LoadError Document := (s.loader.load s.files p).2.2

/-- What a new loader and the files have become after some steps. -/
def past (caching : Bool) (files : FileTree) (steps : List Step) : Stage :=
  steps.foldl after ⟨.new caching, files⟩

theorem past_concat (caching : Bool) (files : FileTree) (steps : List Step) (x : Step) :
    past caching files (steps ++ [x]) = (past caching files steps).after x := by
  simp [past]

end Stage

def IsFile (t : FileTree) (p : FilePath) : Prop := ∃ bytes, t.find? p = .ok (some (.file bytes))

/-- What a path stands for in a tree, whatever has been kept of it. -/
def contents (t : FileTree) (p : FilePath) : Except LoadError Document :=
  match t.find? p with
  | .error e => .error (.path e)
  | .ok none => .error (.missing p)
  | .ok (some .directory) => .error (.noFile p)
  | .ok (some (.file _)) => readFile t p

/-! ## One load -/

section

variable {l : Loader} {t : FileTree} {p q : FilePath} {d : Document}

/-- What a load may do: the loader after it, and what it gives. -/
inductive Loads (l : Loader) (t : FileTree) (p : FilePath) :
    Loader → Except LoadError Document → Prop
  | refused {e : LoadError} (h : ¬ IsFile t p) (he : contents t p = .error e) :
      Loads l t p l (.error e)
  | kept {d : Document} (h : IsFile t p) (hk : l.kept? p = some d) : Loads l t p l (.ok d)
  | failed {e : LoadError} (h : IsFile t p) (hk : l.kept? p = none)
      (he : contents t p = .error e) : Loads l t p l (.error e)
  | read {d : Document} (h : IsFile t p) (hk : l.kept? p = none) (hd : contents t p = .ok d) :
      Loads l t p (l.keep p d) (.ok d)

theorem loads (l : Loader) (t : FileTree) (p : FilePath) :
    Loads l t p (l.load t p).1 (l.load t p).2.2 := by
  rw [load]
  cases hfind : t.find? p with
  | error e => exact .refused (by simp [IsFile, hfind]) (by rw [contents, hfind])
  | ok entry =>
    rcases entry with _ | ⟨bytes⟩ | _
    · exact .refused (by simp [IsFile, hfind]) (by rw [contents, hfind])
    · have hfile : IsFile t p := ⟨bytes, hfind⟩
      have hcontents : contents t p = readFile t p := by rw [contents, hfind]
      cases hk : l.kept? p with
      | some d => exact .kept hfile hk
      | none =>
        cases hr : readFile t p with
        | error e => exact .failed hfile hk (hcontents.trans hr)
        | ok d => exact .read hfile hk (hcontents.trans hr)
    · exact .refused (by simp [IsFile, hfind]) (by rw [contents, hfind])

theorem kept?_keep_self (l : Loader) (p : FilePath) (d : Document) :
    (l.keep p d).kept? p = if l.caching then some d else none := by
  cases hc : l.caching <;> simp [kept?, keep, hc]

theorem kept?_keep_of_ne (h : p ≠ q) (d : Document) : (l.keep q d).kept? p = l.kept? p := by
  have hne : (p == q) = false := by simpa using h
  cases hc : l.caching <;> simp [kept?, keep, hc, List.lookup_cons, hne]

theorem kept?_clear (l : Loader) (p : FilePath) : l.clear.1.kept? p = none := by
  cases hc : l.caching <;> simp [kept?, clear, hc]

variable {l' : Loader} {r : Except LoadError Document}

theorem Loads.caching_eq (h : Loads l t p l' r) : l'.caching = l.caching := by
  cases h with
  | refused | kept | failed => rfl
  | read =>
    unfold keep
    split <;> rfl

/-- Loads of other paths leave alone what is kept of a path. -/
theorem Loads.kept?_of_ne (h : Loads l t q l' r) (hne : p ≠ q) : l'.kept? p = l.kept? p := by
  cases h with
  | refused | kept | failed => rfl
  | read => exact kept?_keep_of_ne hne _

/-- A load that fails leaves the loader as it is. -/
theorem Loads.eq_of_error {e : LoadError} (h : Loads l t p l' (.error e)) : l' = l := by
  cases h with
  | refused | failed => rfl

theorem Loads.refuses (h : Loads l t p l' r) (hfile : ¬ IsFile t p) :
    r = contents t p ∧ ∃ e, r = .error e := by
  cases h with
  | refused _ he => exact ⟨he.symm, _, rfl⟩
  | kept h | failed h | read h => exact absurd h hfile

theorem Loads.eq_contents (h : Loads l t p l' r) (hk : l.kept? p = none) : r = contents t p := by
  cases h with
  | refused _ he | failed _ _ he | read _ _ he => exact he.symm
  | kept _ hk' => simp [hk] at hk'

theorem Loads.eq_kept (h : Loads l t p l' r) (hfile : IsFile t p) (hk : l.kept? p = some d) :
    r = .ok d := by
  cases h with
  | refused h => exact absurd hfile h
  | kept _ hk' => rw [Option.some.inj (hk'.symm.trans hk)]
  | failed _ hk' | read _ hk' => simp [hk] at hk'

/-- Only what is kept of a path itself matters to a load of it. -/
theorem Loads.congr {m m' : Loader} {r' : Except LoadError Document} (h : Loads l t p l' r)
    (h' : Loads m t p m' r') (hc : l.caching = m.caching) (hk : l.kept? p = m.kept? p) :
    r = r' ∧ l'.kept? p = m'.kept? p := by
  cases h with
  | refused hfile he => cases h' <;> simp_all
  | kept hfile hkept => cases h' <;> simp_all
  | failed hfile hkept he => cases h' <;> simp_all
  | read hfile hkept hd => cases h' <;> simp_all [kept?_keep_self]

end

/-! ## Loads of other paths -/

namespace Stage

variable {p : FilePath} {s s' : Stage}

/-- Two stages that no load of a path can tell apart. -/
structure Alike (p : FilePath) (s s' : Stage) : Prop where
  files : s.files = s'.files
  caching : s.loader.caching = s'.loader.caching
  kept : s.loader.kept? p = s'.loader.kept? p

theorem Alike.outcome_eq (h : Alike p s s') : s.outcome p = s'.outcome p := by
  have hl := loads s.loader s.files p
  rw [h.files] at hl
  rw [outcome, h.files]
  exact (hl.congr (loads s'.loader s'.files p) h.caching h.kept).1

theorem Alike.after (h : Alike p s s') (x : Step) : Alike p (s.after x) (s'.after x) := by
  cases x with
  | change f => exact ⟨congrArg f h.files, h.caching, h.kept⟩
  | clear => exact ⟨h.files, h.caching, by simp [Stage.after, kept?_clear]⟩
  | load q =>
    have hl := loads s.loader s.files q
    have hl' := loads s'.loader s'.files q
    refine ⟨h.files, by rw [Stage.after, Stage.after, hl.caching_eq, hl'.caching_eq, h.caching], ?_⟩
    by_cases hq : p = q
    · subst hq
      rw [h.files] at hl
      rw [Stage.after, h.files]
      exact (hl.congr hl' h.caching h.kept).2
    · rw [Stage.after, Stage.after, hl.kept?_of_ne hq, hl'.kept?_of_ne hq, h.kept]

/-- A load of another path makes no difference to a path. -/
theorem Alike.after_of_not_concerns {x : Step} (hx : x.concerns p = false) (h : Alike p s s') :
    Alike p (s.after x) s' := by
  cases x with
  | change | clear => simp [Step.concerns] at hx
  | load q =>
    have hq : p ≠ q := by
      rintro rfl
      simp [Step.concerns] at hx
    have hl := loads s.loader s.files q
    exact ⟨h.files, hl.caching_eq.trans h.caching, (hl.kept?_of_ne hq).trans h.kept⟩

theorem Alike.foldl (h : Alike p s s') (steps : List Step) :
    Alike p (steps.foldl Stage.after s) ((steps.filter (·.concerns p)).foldl Stage.after s') := by
  induction steps generalizing s s' with
  | nil => exact h
  | cons x steps ih =>
    cases hx : x.concerns p with
    | false =>
      rw [List.filter_cons_of_neg (by simp [hx]), List.foldl_cons]
      exact ih (h.after_of_not_concerns hx)
    | true =>
      rw [List.filter_cons_of_pos hx, List.foldl_cons, List.foldl_cons]
      exact ih (h.after x)

end Stage

/-! ## What is remembered -/

section

open Stage (past past_concat)

variable {caching : Bool} {files : FileTree} {steps front : List Step} {p : FilePath} {x : Step}

/-- Behind the front of a history comes a load of a path that succeeds, and since then nothing is
cleared. -/
structure Succeeds (caching : Bool) (files : FileTree) (steps : List Step) (p : FilePath)
    (front : List Step) : Prop where
  succeeds : ∃ d, (past caching files front).outcome p = .ok d
  since : ∃ back, steps = front ++ .load p :: back ∧ .clear ∉ back

/-- Of these loads, the one that comes first. -/
structure Earliest (caching : Bool) (files : FileTree) (steps : List Step) (p : FilePath)
    (front : List Step) : Prop extends Succeeds caching files steps p front where
  first : ∀ other, Succeeds caching files steps p other → front.length ≤ other.length

theorem Succeeds.length_lt (h : Succeeds caching files steps p front) :
    front.length < steps.length := by
  obtain ⟨back, rfl, -⟩ := h.since
  simp

theorem succeeds_concat : Succeeds caching files (steps ++ [x]) p front ↔
    x ≠ .clear ∧ Succeeds caching files steps p front ∨
      x = .load p ∧ front = steps ∧ ∃ d, (past caching files steps).outcome p = .ok d := by
  constructor
  · rintro ⟨hd, back, hsteps, hback⟩
    rcases List.eq_nil_or_concat back with rfl | ⟨back, y, rfl⟩
    · obtain ⟨rfl, hx⟩ := List.append_inj' hsteps rfl
      exact .inr ⟨List.singleton_inj.1 hx, rfl, hd⟩
    · have hsteps : steps ++ [x] = (front ++ .load p :: back) ++ [y] := by simpa using hsteps
      obtain ⟨rfl, hx⟩ := List.append_inj' hsteps rfl
      obtain rfl := List.singleton_inj.1 hx
      rw [List.concat_eq_append, List.mem_append, List.mem_singleton, not_or] at hback
      exact .inl ⟨Ne.symm hback.2, hd, back, rfl, hback.1⟩
  · rintro (⟨hx, hd, back, rfl, hback⟩ | ⟨rfl, rfl, hd⟩)
    · exact ⟨hd, back ++ [x], by simp, by simp [hback, hx.symm]⟩
    · exact ⟨hd, [], rfl, by simp⟩

/-- What a loader has kept of a path behind a history. -/
inductive Remembers (files : FileTree) (steps : List Step) (p : FilePath) : Option Document → Prop
  | nothing (h : ∀ front, ¬ Succeeds true files steps p front) : Remembers files steps p none
  | document {front : List Step} {d : Document} (h : Earliest true files steps p front)
      (hd : contents (past true files front).files p = .ok d) : Remembers files steps p (some d)

theorem Remembers.congr {steps' : List Step} {kept : Option Document}
    (h : Remembers files steps p kept)
    (hs : ∀ front, Succeeds true files steps' p front ↔ Succeeds true files steps p front) :
    Remembers files steps' p kept := by
  cases h with
  | nothing h => exact .nothing fun front hfront => h front ((hs front).1 hfront)
  | document h hd =>
    exact .document ⟨(hs _).2 h.toSucceeds, fun other ho => h.first other ((hs other).1 ho)⟩ hd

/-- An earliest load stays the earliest one, whatever is loaded afterwards. -/
theorem Earliest.concat (h : Earliest caching files steps p front) (hx : x ≠ .clear) :
    Earliest caching files (steps ++ [x]) p front := by
  refine ⟨succeeds_concat.2 (.inl ⟨hx, h.toSucceeds⟩), fun other ho => ?_⟩
  rcases succeeds_concat.1 ho with ⟨-, ho⟩ | ⟨-, rfl, -⟩
  · exact h.first other ho
  · exact Nat.le_of_lt h.length_lt

/-- A load that fails is not remembered. -/
theorem succeeds_of_error {e : LoadError} (he : (past caching files steps).outcome p = .error e) :
    Succeeds caching files (steps ++ [.load p]) p front ↔ Succeeds caching files steps p front := by
  simp [succeeds_concat, he]

theorem Remembers.load {l' : Loader} {r : Except LoadError Document}
    (h : Remembers files steps p ((past true files steps).loader.kept? p))
    (hc : (past true files steps).loader.caching = true)
    (hl : Loads (past true files steps).loader (past true files steps).files p l' r)
    (hr : (past true files steps).outcome p = r) :
    Remembers files (steps ++ [.load p]) p (l'.kept? p) := by
  cases hl with
  | refused | failed => exact h.congr fun front => succeeds_of_error hr
  | kept hfile hk =>
    rw [hk] at h ⊢
    cases h with
    | document h hd => exact .document (h.concat (by simp)) hd
  | read hfile hk hd =>
    rw [hk] at h
    rw [kept?_keep_self, hc, if_pos rfl]
    cases h with
    | nothing h =>
      refine .document ⟨succeeds_concat.2 (.inr ⟨rfl, rfl, _, hr⟩), fun other ho => ?_⟩ hd
      rcases succeeds_concat.1 ho with ⟨-, ho⟩ | ⟨-, rfl, -⟩
      · exact absurd ho (h other)
      · exact Nat.le_refl _

/-- Each step preserves what is remembered. -/
theorem Remembers.after (h : Remembers files steps p ((past true files steps).loader.kept? p))
    (hc : (past true files steps).loader.caching = true) (x : Step) :
    Remembers files (steps ++ [x]) p (((past true files steps).after x).loader.kept? p) := by
  cases x with
  | change f => exact h.congr fun front => by simp [succeeds_concat]
  | clear =>
    rw [Stage.after, kept?_clear]
    exact .nothing fun front hfront => by simp [succeeds_concat] at hfront
  | load q =>
    have hl := loads (past true files steps).loader (past true files steps).files q
    by_cases hq : q = p
    · subst hq
      exact h.load hc hl rfl
    · rw [Stage.after, hl.kept?_of_ne (Ne.symm hq)]
      exact h.congr fun front => by simp [succeeds_concat, hq]

theorem caching_past (caching : Bool) (files : FileTree) (steps : List Step) :
    (past caching files steps).loader.caching = caching := by
  induction steps using List.reverseRecOn with
  | nil => rfl
  | append_singleton steps x ih =>
    rw [past_concat]
    refine Eq.trans ?_ ih
    cases x with
    | change | clear => rfl
    | load q => exact (loads _ _ q).caching_eq

/-- **Behind every history a loader remembers of a path what the earliest load gave that
succeeded.** -/
theorem remembers_past (files : FileTree) (steps : List Step) (p : FilePath) :
    Remembers files steps p ((past true files steps).loader.kept? p) := by
  induction steps using List.reverseRecOn with
  | nil =>
    refine .nothing fun front hfront => ?_
    exact absurd hfront.length_lt (Nat.not_lt_zero _)
  | append_singleton steps x ih =>
    rw [past_concat]
    exact ih.after (caching_past true files steps) x

theorem past_of_error {q : FilePath} {back : List Step} {e : LoadError}
    (he : (past caching files front).outcome q = .error e) :
    past caching files (front ++ .load q :: back) = past caching files (front ++ back) := by
  have hl := loads (past caching files front).loader (past caching files front).files q
  rw [Stage.outcome] at he
  rw [he] at hl
  have hafter : (past caching files front).after (.load q) = past caching files front := by
    rw [Stage.after, hl.eq_of_error]
  unfold past at hafter ⊢
  rw [List.foldl_append, List.foldl_cons, hafter, List.foldl_append]

/-- **What a load of a path gives after a history.** A loader that does not keep documents gives
what the path stands for now. One that does gives an error if there is no file now, and else what
the file held at the earliest load of the path that has succeeded since the last clearing, or what
it holds now if there was none. A load that fails changes nothing, and loads of other paths do not
matter. -/
theorem outcome_of_history (caching : Bool) (files : FileTree) (steps : List Step) (p : FilePath) :
    let now := past caching files steps
    (caching = false → now.outcome p = contents now.files p) ∧
    (caching = true →
      (¬ IsFile now.files p →
        now.outcome p = contents now.files p ∧ ∃ e, now.outcome p = .error e) ∧
      (IsFile now.files p →
        (∃ front d, Earliest caching files steps p front ∧
          contents (past caching files front).files p = .ok d ∧ now.outcome p = .ok d) ∨
        (∀ front, ¬ Succeeds caching files steps p front) ∧
          now.outcome p = contents now.files p)) ∧
    (∀ front q back e, steps = front ++ .load q :: back →
      (past caching files front).outcome q = .error e → now = past caching files (front ++ back)) ∧
    now.outcome p = (past caching files (steps.filter (·.concerns p))).outcome p := by
  intro now
  have hl := loads now.loader now.files p
  refine ⟨?_, ?_, ?_, ?_⟩
  · rintro rfl
    have hnone : now.loader.kept? p = none := by simp [kept?, now, caching_past]
    exact hl.eq_contents hnone
  · rintro rfl
    refine ⟨hl.refuses, fun hfile => ?_⟩
    have hr := remembers_past files steps p
    cases hk : now.loader.kept? p with
    | none =>
      rw [hk] at hr
      cases hr with
      | nothing h => exact .inr ⟨h, hl.eq_contents hk⟩
    | some d =>
      rw [hk] at hr
      cases hr with
      | document h hd => exact .inl ⟨_, d, h, hd, hl.eq_kept hfile hk⟩
  · rintro front q back e rfl he
    exact past_of_error he
  · exact (Stage.Alike.foldl ⟨rfl, rfl, rfl⟩ steps).outcome_eq

/-- Files of which the only one is a list, and later is empty. -/
def listFile (text : String) : FileTree := ⟨[(["a.yaml"], .file text.toUTF8)]⟩

def listPath : FilePath := ⟨"", ["a.yaml"]⟩

def emptyList : Document := ⟨.list [], [("", some 1, some 1)]⟩

theorem ofText_empty : Document.ofText "".toList = .ok ⟨.map [], []⟩ := by
  have htokens : Tokens.ofText "".toList = ⟨[⟨.textEnd, ⟨0, 0⟩, ⟨0, 0⟩⟩], none⟩ :=
    Tokens.ofText_of_complete (by decide) rfl (by decide) (by decide)
      (by decide)
  rw [Document.ofText, readTree, Node.ofText, htokens]
  rfl

theorem ofText_emptyList : Document.ofText "[]".toList = .ok emptyList := by
  have htokens : Tokens.ofText "[]".toList =
      ⟨[⟨.openList, ⟨0, 0⟩, ⟨0, 1⟩⟩, ⟨.closeList, ⟨0, 1⟩, ⟨0, 2⟩⟩, ⟨.textEnd, ⟨0, 2⟩, ⟨0, 2⟩⟩],
        none⟩ :=
    Tokens.ofText_of_complete (by decide) rfl (by decide) (by decide)
      (by decide)
  have htree : Node.ofText "[]".toList = .ok (some (.sequence .seq [] ⟨0, 0⟩)) := by
    rw [Node.ofText, htokens]
    rfl
  have hdata : (Node.sequence .seq [] ⟨0, 0⟩).toData = .ok (.list []) := by
    simp [Node.toData, Node.meaning, Node.meanings, Meaning.all, Except.map]
  simp only [Document.ofText, readTree, htree, hdata]
  rfl

theorem isEntryName_list : FileTree.IsEntryName "a.yaml" :=
  ⟨by decide, by decide, by decide, by decide⟩

theorem find_listFile (text : String) :
    (listFile text).find? listPath = .ok (some (.file text.toUTF8)) :=
  isEntryName_list.find? rfl

theorem contents_listFile {text : String} {d : Document} (hbreaks : '\r' ∉ text.toList)
    (hd : Document.ofText text.toList = .ok d) : contents (listFile text) listPath = .ok d := by
  have hchars : (listFile text).readChars listPath = .ok text.toList :=
    isEntryName_list.readChars rfl hbreaks
  rw [contents, find_listFile]
  simp only [readFile, hchars, hd]

/-- A list is written and loaded, then the file is emptied. -/
def emptied : List Step :=
  [.write ["a.yaml"] "[]".toUTF8, .load listPath, .write ["a.yaml"] "".toUTF8]

theorem outcome_of_history_emptied :
    IsFile (past true .empty emptied).files listPath ∧
    contents (past true .empty emptied).files listPath = .ok ⟨.map [], []⟩ ∧
    (past true .empty emptied).outcome listPath = .ok emptyList ∧
    (past false .empty emptied).outcome listPath = .ok ⟨.map [], []⟩ := by
  have hfile : IsFile (past true .empty emptied).files listPath := ⟨_, find_listFile ""⟩
  have hnow : contents (listFile "") listPath = .ok ⟨.map [], []⟩ :=
    contents_listFile (by decide) ofText_empty
  have hthen : contents (listFile "[]") listPath = .ok emptyList :=
    contents_listFile (by decide) ofText_emptyList
  refine ⟨hfile, hnow, ?_, ((outcome_of_history false .empty emptied listPath).1 rfl).trans hnow⟩
  -- the load behind the first step is the only one
  have hload : Succeeds true .empty emptied listPath (emptied.take 1) := by
    refine ⟨⟨emptyList, ?_⟩, [.write ["a.yaml"] "".toUTF8], rfl, by simp [Step.write]⟩
    have hl := loads (.new true) (listFile "[]") listPath
    exact (hl.eq_contents rfl).trans hthen
  rcases ((outcome_of_history true .empty emptied listPath).2.1 rfl).2 hfile with
    ⟨front, d, hfront, hd, hr⟩ | ⟨hnone, -⟩
  · obtain ⟨back, hsteps, -⟩ := hfront.since
    have hlen := hfront.first _ hload
    rw [hr]
    rcases front with _ | ⟨x, _ | ⟨y, more⟩⟩
    · simp [emptied, Step.write] at hsteps
    · obtain ⟨rfl, -⟩ := List.cons.inj hsteps
      rw [← hthen, ← hd]
      rfl
    · simp [emptied] at hlen
  · exact absurd hload (hnone _)

end

end Cnd.Yaml.Loader
