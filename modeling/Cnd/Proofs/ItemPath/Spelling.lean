import Cnd.ItemPath
import Cnd.Proofs.Except
import Cnd.Proofs.FilePath
import Cnd.Proofs.Namespaces.Resolve
import Cnd.Proofs.Numeral
import Mathlib.Data.List.TakeWhile

/-!
How paths are written.

A segment is written as one of the two special segments, or as the text of a name with or without
the digits of an index in brackets behind it (`Spelling`). A text between slashes stands for a
segment just if it is so written (`ofText_eq_ok_iff`), and a text stands for a path just if it is
such spellings between slashes, behind one if the path is absolute (`parse_eq_ok_iff`). There is one
way to take a text apart (`Spells.unique`).
-/

namespace Cnd

open Namespaces (LegalLocal LegalPrefix prefixed)

namespace PathSegment

/-! ## Indexes -/

/-- The digits of an index: not too many of them, and of a number that is not zero. -/
structure IsIndex (digits : List Char) (i : Nat) : Prop where
  ne_nil : digits ≠ []
  all_digits : ∀ c ∈ digits, Text.isDigit c = true
  length_le : digits.length ≤ Numeral.maxDigits
  value : Text.digitsValue digits = i
  pos : 0 < i

theorem IsIndex.of_toDigits {i : Nat} (hpos : 0 < i) (hlt : i < 10 ^ Numeral.maxDigits) :
    IsIndex (Nat.toDigits 10 i) i where
  ne_nil := Nat.toDigits_ne_nil
  all_digits _ hc := Text.isDigit_of_written (Text.mem_toDigits hc)
  length_le := Text.toDigits_length_le (by decide) hlt
  value := Text.digitsValue_toDigits i
  pos := hpos

theorem splitIndex?_indexed {name digits : List Char} (hne : name ≠ []) (hn : '\n' ∉ name)
    (hd : digits ≠ []) (hdigits : ∀ c ∈ digits, Text.isDigit c = true) :
    splitIndex? (name ++ '[' :: digits ++ [']']) = some (name, digits) := by
  have hopen : '[' ∉ digits.reverse := fun hc =>
    absurd (hdigits _ (List.mem_reverse.1 hc)) (by decide)
  have hrev : (name ++ '[' :: digits ++ [']']).reverse =
      ']' :: (digits.reverse ++ '[' :: name.reverse) := by simp
  have htake : (digits.reverse ++ '[' :: name.reverse).takeWhile (· != '[') = digits.reverse :=
    Text.takeWhile_ne_append hopen _
  have hdrop : (digits.reverse ++ '[' :: name.reverse).dropWhile (· != '[') =
      '[' :: name.reverse := Text.dropWhile_ne_append hopen _
  have hall : digits.all Text.isDigit = true := List.all_eq_true.2 hdigits
  unfold splitIndex?
  rw [hrev]
  simp only [htake, hdrop, List.drop_succ_cons, List.drop_zero, List.reverse_reverse]
  rw [if_pos]
  simp [hd, hne, hn, hall]

theorem eq_of_splitIndex? {s name digits : List Char} (h : splitIndex? s = some (name, digits)) :
    s = name ++ '[' :: digits ++ [']'] ∧ digits ≠ [] ∧ ∀ c ∈ digits, Text.isDigit c = true := by
  unfold splitIndex? at h
  split at h
  · rename_i rest hr
    simp only [Option.ite_none_right_eq_some, Bool.and_eq_true, Bool.not_eq_true',
      List.isEmpty_eq_false_iff, Option.some.injEq, Prod.mk.injEq] at h
    obtain ⟨⟨⟨⟨hd, hall⟩, hne⟩, -⟩, rfl, rfl⟩ := h
    have hopen : '[' ∈ rest := by
      by_contra hn
      have hdrop : rest.dropWhile (· != '[') = [] :=
        List.dropWhile_eq_nil_iff.2 fun c hc => bne_iff_ne.2 (ne_of_mem_of_not_mem hc hn)
      exact hne (by rw [hdrop]; rfl)
    refine ⟨?_, hd, List.all_eq_true.1 hall⟩
    rw [← List.reverse_reverse s, hr]
    conv_lhs => rw [← Text.takeWhile_dropWhile_ne hopen]
    simp
  · simp at h

theorem splitIndex?_of_not_mem {s : List Char} (h : ']' ∉ s) : splitIndex? s = none := by
  cases hsplit : splitIndex? s with
  | none => rfl
  | some p =>
    obtain ⟨name, digits⟩ := p
    rw [(eq_of_splitIndex? hsplit).1] at h
    exact absurd (List.mem_append_right _ (List.mem_singleton_self _)) h

/-! ## Texts of names -/

/-- What may not be in the text of a name is in neither of its parts. -/
theorem not_mem_prefixed {pfx : String} {cs : List Char} (hp : LegalPrefix pfx)
    (h : LegalLocal cs) {c : Char} (hpart : Namespaces.isPrefixPart c = false) (hcolon : c ≠ ':')
    (hlocal : Namespaces.isIllegalInLocal c = true) : c ∉ prefixed pfx cs := by
  have hcs : c ∉ cs := by
    intro hm
    have := h.legal c hm
    rw [hlocal] at this
    exact absurd this (by simp)
  unfold prefixed
  split
  · exact hcs
  · rename_i hne
    intro hm
    rcases List.mem_append.1 hm with hm | hm
    · have := Namespaces.isPrefixPart_of_mem (hp hne) hm
      rw [hpart] at this
      exact absurd this (by simp)
    · rcases List.mem_cons.1 hm with hm | hm
      · exact hcolon hm
      · exact hcs hm

theorem prefixed_ne_dots (pfx : String) {cs : List Char} (h : LegalLocal cs) :
    prefixed pfx cs ≠ ['.'] ∧ prefixed pfx cs ≠ ['.', '.'] := by
  unfold prefixed
  split
  · exact ⟨h.ne_dot, h.ne_dots⟩
  · refine ⟨fun he => ?_, fun he => ?_⟩
    · have hc : ':' ∈ ['.'] := he ▸ by simp
      exact absurd hc (by decide)
    · have hc : ':' ∈ ['.', '.'] := he ▸ by simp
      exact absurd hc (by decide)

section
variable {ns : Namespaces} {text : String} {n : Name} (h : ns.resolve text = .ok n)

include h

theorem ne_nil_of_resolve : text.toList ≠ [] := by
  obtain ⟨hlegal, pfx, -, -, htext⟩ := Namespaces.resolve_eq_ok_iff.1 h
  exact htext ▸ Namespaces.prefixed_ne_nil hlegal

theorem ne_dots_of_resolve : text.toList ≠ ['.'] ∧ text.toList ≠ ['.', '.'] := by
  obtain ⟨hlegal, pfx, -, -, htext⟩ := Namespaces.resolve_eq_ok_iff.1 h
  exact htext ▸ prefixed_ne_dots pfx hlegal

theorem not_mem_of_resolve {c : Char} (hpart : Namespaces.isPrefixPart c = false) (hcolon : c ≠ ':')
    (hlocal : Namespaces.isIllegalInLocal c = true) : c ∉ text.toList := by
  obtain ⟨hlegal, pfx, hp, -, htext⟩ := Namespaces.resolve_eq_ok_iff.1 h
  exact htext ▸ not_mem_prefixed hp hlegal hpart hcolon hlocal

end

/-! ## Spellings of segments -/

/-- A segment as it is written. -/
inductive Spelling where
  | current
  | parent
  /-- The text of a name, and the digits in brackets behind it if there are any. -/
  | item (name : String) (digits : Option (List Char))
  deriving DecidableEq

namespace Spelling

def text : Spelling → List Char
  | .current => ['.']
  | .parent => ['.', '.']
  | .item name none => name.toList
  | .item name (some digits) => name.toList ++ '[' :: digits ++ [']']

@[simp]
theorem text_current : text .current = ['.'] := rfl

@[simp]
theorem text_parent : text .parent = ['.', '.'] := rfl

@[simp]
theorem text_name (name : String) : text (.item name none) = name.toList := rfl

@[simp]
theorem text_indexed (name : String) (digits : List Char) :
    text (.item name (some digits)) = name.toList ++ '[' :: digits ++ [']'] := rfl

/-- The segment that a spelling stands for. -/
inductive Reads (ns : Namespaces) : Spelling → PathSegment → Prop where
  | current : Reads ns .current .current
  | parent : Reads ns .parent .parent
  | name {text : String} {n : Name} (h : ns.resolve text = .ok n) :
    Reads ns (.item text none) (.item n none)
  | indexed {text : String} {n : Name} {digits : List Char} {i : Nat}
    (h : ns.resolve text = .ok n) (hi : IsIndex digits i) :
    Reads ns (.item text (some digits)) (.item n (some i))

/-- The spelling that a text is. -/
def ofText (s : List Char) : Spelling :=
  if s = ['.'] then .current
  else if s = ['.', '.'] then .parent
  else match splitIndex? s with
    | none => .item (String.ofList s) none
    | some (name, digits) => .item (String.ofList name) (some digits)

theorem text_ofText (s : List Char) : (ofText s).text = s := by
  unfold ofText
  split
  · rename_i hs
    exact hs.symm
  split
  · rename_i hs
    exact hs.symm
  split
  · exact String.toList_ofList
  · rename_i hsplit
    simp only [text_indexed, String.toList_ofList]
    exact (eq_of_splitIndex? hsplit).1.symm

/-- A spelling that stands for a segment is the one that its text is. -/
theorem Reads.ofText_text {ns : Namespaces} {w : Spelling} {g : PathSegment} (h : w.Reads ns g) :
    ofText w.text = w := by
  cases h with
  | current => rfl
  | parent => rfl
  | @name t n h =>
    have hclose : ']' ∉ t.toList := not_mem_of_resolve h (by decide) (by decide) (by decide)
    obtain ⟨hdot, hdots⟩ := ne_dots_of_resolve h
    simp only [text_name, ofText, if_neg hdot, if_neg hdots, splitIndex?_of_not_mem hclose,
      String.ofList_toList]
  | @indexed t n digits i h hi =>
    have hline : '\n' ∉ t.toList := not_mem_of_resolve h (by decide) (by decide) (by decide)
    have hne : ∀ s : List Char, ']' ∉ s → t.toList ++ '[' :: digits ++ [']'] ≠ s := by
      intro s hs he
      exact hs (he ▸ by simp)
    simp only [text_indexed, ofText, if_neg (hne ['.'] (by decide)),
      if_neg (hne ['.', '.'] (by decide)),
      splitIndex?_indexed (ne_nil_of_resolve h) hline hi.ne_nil hi.all_digits, String.ofList_toList]

/-- What is written for a segment has no slash and is not empty. -/
theorem Reads.text_proper {ns : Namespaces} {w : Spelling} {g : PathSegment} (h : w.Reads ns g) :
    '/' ∉ w.text ∧ w.text ≠ [] := by
  have hname : ∀ {t : String} {n : Name}, ns.resolve t = .ok n → '/' ∉ t.toList := fun h =>
    not_mem_of_resolve h (by decide) (by decide) (by decide)
  cases h with
  | current => exact ⟨by decide, by decide⟩
  | parent => exact ⟨by decide, by decide⟩
  | name h => exact ⟨hname h, ne_nil_of_resolve h⟩
  | @indexed t n digits i h hi =>
    have hdigits : '/' ∉ digits := fun hm => absurd (hi.all_digits _ hm) (by decide)
    exact ⟨by simp [hname h, hdigits], by simp⟩

end Spelling

section
variable {ns : Namespaces} {path : String} {g : PathSegment}

/-- What has no index stands for the name that it resolves to. -/
theorem ofText_eq_ok_iff_of_name {s : List Char} (hempty : s ≠ []) (hdot : s ≠ ['.'])
    (hdots : s ≠ ['.', '.']) (hsplit : splitIndex? s = none) :
    ofText ns path s = .ok g ↔ (Spelling.item (String.ofList s) none).Reads ns g := by
  unfold ofText
  rw [if_neg (by simpa using hempty), if_neg (by simpa using hdot), if_neg (by simpa using hdots),
    hsplit]
  dsimp only
  constructor
  · intro h
    split at h
    · simp at h
    · rename_i n hr
      rw [← Except.ok.inj h]
      exact .name hr
  · intro h
    cases h with
    | name hr => rw [hr]

/-- What has an index stands for the name in front of it and the number that its digits denote. -/
theorem ofText_eq_ok_iff_of_index {s name digits : List Char} (hempty : s ≠ []) (hdot : s ≠ ['.'])
    (hdots : s ≠ ['.', '.']) (hsplit : splitIndex? s = some (name, digits)) :
    ofText ns path s = .ok g ↔ (Spelling.item (String.ofList name) (some digits)).Reads ns g := by
  unfold ofText
  rw [if_neg (by simpa using hempty), if_neg (by simpa using hdot), if_neg (by simpa using hdots),
    hsplit]
  dsimp only
  constructor
  · intro h
    split at h
    · simp at h
    rename_i i hindex
    split at h
    · simp at h
    rename_i hpos
    split at h
    · simp at h
    rename_i n hr
    obtain ⟨-, hne, hall⟩ := eq_of_splitIndex? hsplit
    obtain ⟨hlength, hvalue⟩ := Numeral.ofDigits_eq_ok_iff.1 hindex
    rw [← Except.ok.inj h]
    exact .indexed hr ⟨hne, hall, hlength, hvalue, by omega⟩
  · intro h
    cases h with
    | indexed hr hi =>
      have hpos := hi.pos
      rw [Numeral.ofDigits_eq_ok_iff.2 ⟨hi.length_le, hi.value⟩]
      dsimp only
      rw [if_neg (by omega), hr]

/-- Reading a segment is taking its text apart and asking what each part stands for. -/
theorem ofText_eq_ok_iff {s : List Char} :
    ofText ns path s = .ok g ↔ (Spelling.ofText s).Reads ns g := by
  by_cases hempty : s = []
  · subst hempty
    have hname : Spelling.ofText [] = .item "" none := rfl
    rw [hname]
    refine ⟨fun h => by simp [ofText] at h, fun h => ?_⟩
    cases h with
    | name h => exact absurd rfl (ne_nil_of_resolve h)
  by_cases hdot : s = ['.']
  · subst hdot
    exact ⟨fun h => Except.ok.inj h ▸ .current, fun h => by cases h; rfl⟩
  by_cases hdots : s = ['.', '.']
  · subst hdots
    exact ⟨fun h => Except.ok.inj h ▸ .parent, fun h => by cases h; rfl⟩
  rw [Spelling.ofText, if_neg hdot, if_neg hdots]
  cases hsplit : splitIndex? s with
  | none => exact ofText_eq_ok_iff_of_name hempty hdot hdots hsplit
  | some parts => exact ofText_eq_ok_iff_of_index hempty hdot hdots hsplit

end

theorem Spelling.Reads.ofText {ns : Namespaces} {w : Spelling} {g : PathSegment}
    (h : w.Reads ns g) (path : String) : PathSegment.ofText ns path w.text = .ok g :=
  ofText_eq_ok_iff.2 (h.ofText_text.symm ▸ h)

end PathSegment

namespace ItemPath

open PathSegment (Spelling)

/-! ## Spellings of paths -/

/-- A text is made of these spellings of the segments of a path, one slash between two of them, and
one in front if the path is absolute. -/
structure Spells (ns : Namespaces) (ws : List Spelling) (p : ItemPath) (text : String) : Prop where
  text_eq : text.toList =
    (if p.absolute then ['/'] else []) ++ ['/'].intercalate (ws.map Spelling.text)
  reads : List.Forall₂ (Spelling.Reads ns) ws p.segments
  rooted : ws = [] → p.absolute = true

theorem segmentsOf_eq_ok_iff {ns : Namespaces} {path : String} {texts : List (List Char)}
    {gs : List PathSegment} :
    segmentsOf ns path texts = .ok gs ↔
      List.Forall₂ (fun s g => PathSegment.ofText ns path s = .ok g) texts gs := by
  induction texts generalizing gs with
  | nil =>
    rw [segmentsOf, Except.ok.injEq, List.forall₂_nil_left_iff]
    exact eq_comm
  | cons s texts ih =>
    rw [segmentsOf, List.forall₂_cons_left_iff]
    cases hs : PathSegment.ofText ns path s with
    | error e => simp
    | ok g =>
      cases hmore : segmentsOf ns path texts with
      | error e =>
        simp only [reduceCtorEq, false_iff]
        rintro ⟨g', more, -, h, -⟩
        rw [← ih, hmore] at h
        simp at h
      | ok more =>
        simp only [Except.ok.injEq, ← ih, hmore]
        constructor
        · rintro rfl
          exact ⟨g, more, rfl, rfl, rfl⟩
        · rintro ⟨g', more', rfl, rfl, rfl⟩
          rfl

/-- Pieces that stand for segments are spelled as such. -/
theorem exists_spellings {ns : Namespaces} {path : String} {pieces : List (List Char)}
    {gs : List PathSegment} (h : segmentsOf ns path pieces = .ok gs) :
    ∃ ws : List Spelling, ws.map Spelling.text = pieces ∧
      List.Forall₂ (Spelling.Reads ns) ws gs := by
  refine ⟨pieces.map Spelling.ofText, ?_, ?_⟩
  · rw [List.map_map]
    exact (List.map_congr_left fun s _ => Spelling.text_ofText s).trans (List.map_id _)
  · rw [List.forall₂_map_left_iff]
    exact (segmentsOf_eq_ok_iff.1 h).imp fun s g hg => PathSegment.ofText_eq_ok_iff.1 hg

theorem exists_spells_of_parse {ns : Namespaces} {text : String} {p : ItemPath}
    (h : parse ns text = .ok p) : ∃ ws, Spells ns ws p text := by
  -- What stands behind the slash in front, if there is one, is the pieces between the slashes.
  have hpieces : ∀ (absolute : Bool) {s : List Char},
      text.toList = (if absolute then ['/'] else []) ++ s →
      (segmentsOf ns text (FilePath.splitSlash s)).map (⟨absolute, ·⟩) = .ok p →
      ∃ ws, Spells ns ws p text := by
    intro absolute s htext hs
    obtain ⟨gs, hgs, rfl⟩ := map_eq_ok.1 hs
    obtain ⟨ws, htexts, hreads⟩ := exists_spellings hgs
    refine ⟨ws, ?_, hreads, fun he => ?_⟩
    · rw [htexts, FilePath.intercalate_splitSlash, htext]
    · rw [he, List.map_nil] at htexts
      exact absurd htexts.symm (FilePath.splitSlash_ne_nil s)
  unfold parse at h
  split at h
  · simp at h
  · rename_i htext
    rw [← Except.ok.inj h]
    exact ⟨[], by rw [htext]; rfl, .nil, fun _ => rfl⟩
  · rename_i htext
    exact hpieces true htext h
  · exact hpieces false rfl h

namespace Spells

variable {ns : Namespaces} {ws : List Spelling} {p : ItemPath} {text : String}

/-- The pieces of what is spelled, if the path has segments. -/
theorem splitSlash_body (h : Spells ns ws p text) (hne : ws ≠ []) :
    FilePath.splitSlash (['/'].intercalate (ws.map Spelling.text)) = ws.map Spelling.text := by
  refine FilePath.splitSlash_intercalate (by simpa using hne) fun s hs => ?_
  obtain ⟨w, hw, rfl⟩ := List.mem_map.1 hs
  obtain ⟨g, -, hg⟩ := exists_of_forall₂ h.reads.flip hw
  exact hg.text_proper.1

/-- What is spelled does not begin with a slash, the one of an absolute path apart. -/
theorem exists_body (h : Spells ns ws p text) (hne : ws ≠ []) :
    ∃ c rest, c ≠ '/' ∧ ['/'].intercalate (ws.map Spelling.text) = c :: rest := by
  obtain ⟨w, more, rfl⟩ := List.exists_cons_of_ne_nil hne
  obtain ⟨g, gs, hg, -, -⟩ := List.forall₂_cons_left_iff.1 h.reads
  obtain ⟨hslash, htext⟩ := hg.text_proper
  obtain ⟨c, rest, hw⟩ := List.exists_cons_of_ne_nil htext
  have hc : c ≠ '/' := by
    rintro rfl
    exact hslash (hw ▸ List.mem_cons_self)
  cases more with
  | nil => exact ⟨c, rest, hc, by rw [List.map_singleton, List.intercalate_singleton, hw]⟩
  | cons w' more =>
    rw [List.map_cons, List.map_cons, List.intercalate_cons_cons, hw]
    exact ⟨c, _, hc, rfl⟩

theorem parse_eq (h : Spells ns ws p text) : parse ns text = .ok p := by
  have htext := h.text_eq
  have hreads := h.reads
  obtain ⟨absolute, gs⟩ := p
  by_cases hne : ws = []
  · obtain rfl : absolute = true := h.rooted hne
    obtain rfl : gs = [] := by
      rw [hne] at hreads
      exact List.forall₂_nil_left_iff.1 hreads
    rw [hne] at htext
    rw [parse, htext]
    rfl
  · have hread : segmentsOf ns text (ws.map Spelling.text) = .ok gs := by
      rw [segmentsOf_eq_ok_iff, List.forall₂_map_left_iff]
      exact hreads.imp fun w g hg => hg.ofText text
    rw [← h.splitSlash_body hne] at hread
    obtain ⟨c, rest, hc, hbody⟩ := h.exists_body hne
    rw [hbody] at hread htext
    unfold parse
    cases absolute with
    | true =>
      rw [show text.toList = '/' :: c :: rest from htext]
      simp only [hread]
      rfl
    | false =>
      rw [show text.toList = c :: rest from htext]
      split
      · rename_i he
        simp at he
      · rename_i he
        exact absurd (List.cons.inj he).1 hc
      · rename_i he
        exact absurd (List.cons.inj he).1 hc
      · rw [hread]
        rfl

/-- There is one way to take a text apart. -/
theorem unique (h : Spells ns ws p text) {ws' : List Spelling} (h' : Spells ns ws' p text) :
    ws = ws' := by
  have hbody : ['/'].intercalate (ws.map Spelling.text) =
      ['/'].intercalate (ws'.map Spelling.text) :=
    List.append_cancel_left (h.text_eq.symm.trans h'.text_eq)
  have hlength : ws.length = ws'.length := h.reads.length_eq.trans h'.reads.length_eq.symm
  have htexts : ws.map Spelling.text = ws'.map Spelling.text := by
    by_cases hne : ws = []
    · rw [hne, List.length_nil] at hlength
      rw [hne, List.eq_nil_of_length_eq_zero hlength.symm]
    · have hne' : ws' ≠ [] := by
        rintro rfl
        exact hne (List.eq_nil_of_length_eq_zero hlength)
      rw [← h.splitSlash_body hne, hbody, h'.splitSlash_body hne']
  have hread : ∀ {vs : List Spelling}, List.Forall₂ (Spelling.Reads ns) vs p.segments →
      (vs.map Spelling.text).map Spelling.ofText = vs := by
    intro vs hvs
    rw [List.map_map]
    refine (List.map_congr_left fun w hw => ?_).trans (List.map_id _)
    obtain ⟨g, -, hg⟩ := exists_of_forall₂ hvs.flip hw
    exact hg.ofText_text
  rw [← hread h.reads, htexts, hread h'.reads]

end Spells

/-- A text stands for the paths that it spells. -/
theorem parse_eq_ok_iff {ns : Namespaces} {text : String} {p : ItemPath} :
    parse ns text = .ok p ↔ ∃ ws, Spells ns ws p text :=
  ⟨exists_spells_of_parse, fun ⟨_, h⟩ => h.parse_eq⟩

end ItemPath

end Cnd
