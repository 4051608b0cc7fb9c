import Cnd.Proofs.Namespaces.Index
import Cnd.Proofs.Text.Blank
import Cnd.Proofs.Text.Separator

/-!
Names and the texts that stand for them.

A text stands for a name just if it is a legal local part, behind a prefix and a colon unless the
prefix is empty, and the prefix is bound to the URI of the name (`resolve_eq_ok_iff`). A table
renders each name that it knows to such a text, so rendering and resolving gives the name back
(`resolve_render`), whichever prefix it was written with at first.
-/

namespace Cnd.Namespaces

/-! ## Local parts and prefixes -/

/-- The texts that a local name may be. -/
structure LegalLocal (cs : List Char) : Prop where
  ne_nil : cs ≠ []
  ne_dot : cs ≠ ['.']
  ne_dots : cs ≠ ['.', '.']
  legal : ∀ c ∈ cs, isIllegalInLocal c = false

theorem checkLocal_eq_ok {cs : List Char} {text : String} :
    checkLocal cs text = .ok () ↔ LegalLocal cs := by
  unfold checkLocal
  constructor
  · intro h
    split at h
    · simp at h
    rename_i hne
    split at h
    · simp at h
    rename_i hdots
    split at h
    · simp at h
    rename_i hfind
    simp only [Bool.or_eq_true, beq_iff_eq, not_or] at hdots
    refine ⟨by simpa using hne, hdots.1, hdots.2, ?_⟩
    intro c hc
    simpa using List.find?_eq_none.1 hfind c hc
  · intro h
    have hne : cs.isEmpty = false := by simpa using h.ne_nil
    have hdots : (cs == ['.'] || cs == ['.', '.']) = false := by
      simpa using ⟨h.ne_dot, h.ne_dots⟩
    have hfind : cs.find? isIllegalInLocal = none := by
      rw [List.find?_eq_none]
      intro c hc
      simp [h.legal c hc]
    simp [hne, hdots, hfind]

theorem LegalLocal.not_isBlank {cs : List Char} (h : LegalLocal cs) {c : Char} (hc : c ∈ cs) :
    Text.isBlank c = false := by
  have := h.legal c hc
  simp only [isIllegalInLocal, Bool.or_eq_false_iff] at this
  exact this.2

/-- None of the characters that mean something in names and paths is in a local name. -/
theorem LegalLocal.not_mem {cs : List Char} (h : LegalLocal cs) {c : Char}
    (hc : c ∈ ['/', ':', '[', ']', '*', '|', '\'', '"']) : c ∉ cs := by
  intro hm
  have := h.legal c hm
  simp only [isIllegalInLocal, Bool.or_eq_false_iff] at this
  exact absurd (List.contains_iff_mem.2 hc) (by simp only [this.1, Bool.false_eq_true, not_false_iff])

theorem LegalLocal.ne_wildcard {n : Name} (h : LegalLocal n.localName.toList) : n ≠ .wildcard := by
  rintro rfl
  exact h.not_mem (c := '*') (by decide) (by decide)

theorem not_isBlank_of_isPrefixStart {c : Char} (h : isPrefixStart c = true) :
    Text.isBlank c = false := by
  cases hb : Text.isBlank c with
  | false => rfl
  | true =>
    have ha := Text.not_isAlphanumeric_of_isBlank hb
    have hline : c ≠ '_' := by
      rintro rfl
      exact absurd hb (by decide)
    simp [isPrefixStart, ha, hline] at h

/-- A character of a prefix is none of those that mean something in names and paths. -/
theorem isPrefixPart_of_mem {pfx : List Char} (h : isPrefixText pfx = true) {c : Char}
    (hc : c ∈ pfx) : isPrefixPart c = true := by
  cases pfx with
  | nil => simp at hc
  | cons d rest =>
    simp only [isPrefixText, Bool.and_eq_true] at h
    rcases List.mem_cons.1 hc with rfl | hc
    · have hs := h.1
      simp only [isPrefixStart, Bool.and_eq_true, Bool.or_eq_true] at hs
      simp only [isPrefixPart, Bool.or_eq_true]
      exact .inl (.inl hs.1)
    · exact List.all_eq_true.1 h.2 c hc

/-! ## Texts of names -/

/-- A local part behind its prefix; an empty prefix is not written. -/
def prefixed (pfx : String) (cs : List Char) : List Char :=
  if pfx = "" then cs else pfx.toList ++ ':' :: cs

/-- A prefix that may be bound. -/
def LegalPrefix (pfx : String) : Prop := pfx ≠ "" → isPrefixText pfx.toList = true

theorem prefixed_ne_nil {pfx : String} {cs : List Char} (h : LegalLocal cs) :
    prefixed pfx cs ≠ [] := by
  unfold prefixed
  split
  · exact h.ne_nil
  · simp

theorem trim_eq_self {s : List Char} (hh : ∀ c ∈ s.head?, Text.isBlank c = false)
    (hl : ∀ c ∈ s.getLast?, Text.isBlank c = false) : Text.trim s = s := by
  have hstart : ∀ {t : List Char}, (∀ c ∈ t.head?, Text.isBlank c = false) →
      Text.trimStart t = t := by
    intro t ht
    cases t with
    | nil => rfl
    | cons c t => simp [Text.trimStart, ht c rfl]
  rw [Text.trim, hstart hh, hstart (by simpa using hl), List.reverse_reverse]

theorem trim_prefixed {pfx : String} {cs : List Char} (hp : LegalPrefix pfx) (h : LegalLocal cs) :
    Text.trim (prefixed pfx cs) = prefixed pfx cs := by
  have hlast : ∀ c ∈ cs.getLast?, Text.isBlank c = false :=
    fun c hc => h.not_isBlank (List.mem_of_getLast? hc)
  unfold prefixed
  split
  · exact trim_eq_self (fun c hc => h.not_isBlank (List.mem_of_head? hc)) hlast
  · rename_i hne
    refine trim_eq_self ?_ ?_
    · have htext := hp hne
      cases hpfx : pfx.toList with
      | nil => simp [hpfx, isPrefixText] at htext
      | cons d rest =>
        intro c hc
        obtain rfl : d = c := by simpa using hc
        rw [hpfx, isPrefixText, Bool.and_eq_true] at htext
        exact not_isBlank_of_isPrefixStart htext.1
    · obtain ⟨d, rest, rfl⟩ := List.exists_cons_of_ne_nil h.ne_nil
      intro c hc
      refine hlast c ?_
      simpa [List.getLast?_append, List.getLast?_cons_cons] using hc

theorem colon_not_mem_prefix {pfx : List Char} (h : isPrefixText pfx = true) : ':' ∉ pfx :=
  fun hm => absurd (isPrefixPart_of_mem h hm) (by decide)

theorem prefixed_of_splitName {text pfx : String} {cs : List Char}
    (h : splitName text = .ok (pfx, cs)) : LegalPrefix pfx ∧ text.toList = prefixed pfx cs := by
  unfold splitName at h
  simp only at h
  split at h
  · rename_i hc
    split at h
    · simp at h
    rename_i hne
    split at h
    · simp at h
    rename_i htext
    simp only [Except.ok.injEq, Prod.mk.injEq] at h
    obtain ⟨rfl, rfl⟩ := h
    have hne : String.ofList (text.toList.takeWhile (· != ':')) ≠ "" := by simpa using hne
    refine ⟨fun _ => by simpa using htext, ?_⟩
    rw [prefixed, if_neg hne, String.toList_ofList,
      Text.takeWhile_dropWhile_ne (List.contains_iff_mem.1 hc)]
  · simp only [Except.ok.injEq, Prod.mk.injEq] at h
    obtain ⟨rfl, rfl⟩ := h
    exact ⟨fun hne => absurd rfl hne, by rw [prefixed, if_pos rfl]⟩

theorem splitName_of_prefixed {text pfx : String} {cs : List Char} (hp : LegalPrefix pfx)
    (h : LegalLocal cs) (htext : text.toList = prefixed pfx cs) :
    splitName text = .ok (pfx, cs) := by
  unfold splitName prefixed at *
  by_cases he : pfx = ""
  · rw [if_pos he] at htext
    have hno : ¬ text.toList.contains ':' = true := by
      rw [htext, List.contains_iff_mem]
      exact h.not_mem (by decide)
    simp only [if_neg hno]
    rw [htext, he]
  · rw [if_neg he] at htext
    have hcolon := colon_not_mem_prefix (hp he)
    have htake : text.toList.takeWhile (· != ':') = pfx.toList := by
      rw [htext, Text.takeWhile_ne_append hcolon]
    have hdrop : text.toList.dropWhile (· != ':') = ':' :: cs := by
      rw [htext, Text.dropWhile_ne_append hcolon]
    have hcontains : text.toList.contains ':' = true := by
      rw [htext, List.contains_iff_mem]
      simp
    simp only [if_pos hcontains, htake, hdrop, String.ofList_toList]
    rw [if_neg (by simpa using he), if_neg (by simp [hp he])]
    rfl

/-! ## Resolving -/

/-- A text stands for a name: a local part that is legal behind a prefix of its URI. -/
theorem resolve_eq_ok_iff {ns : Namespaces} {text : String} {n : Name} :
    ns.resolve text = .ok n ↔
      LegalLocal n.localName.toList ∧ ∃ pfx, LegalPrefix pfx ∧ ns.uri? pfx = some n.uri ∧
        text.toList = prefixed pfx n.localName.toList := by
  unfold resolve
  constructor
  · intro h
    split at h
    · simp at h
    split at h
    · simp at h
    split at h
    · simp at h
    rename_i pfx cs hsplit
    split at h
    · simp at h
    rename_i hlocal
    split at h
    · simp at h
    rename_i uri huri
    obtain rfl := Except.ok.inj h
    have hlegal := checkLocal_eq_ok.1 hlocal
    obtain ⟨hp, htext⟩ := prefixed_of_splitName hsplit
    simp only [String.toList_ofList]
    exact ⟨hlegal, pfx, hp, huri, htext⟩
  · rintro ⟨hlegal, pfx, hp, huri, htext⟩
    have hne : text.isEmpty = false := by
      have : text.toList ≠ [] := htext ▸ prefixed_ne_nil hlegal
      simpa using this
    have htrim : Text.trim text.toList = text.toList := by rw [htext, trim_prefixed hp hlegal]
    rw [if_neg (by simp [hne]), if_neg (by simp [htrim]),
      splitName_of_prefixed hp hlegal htext]
    simp only [checkLocal_eq_ok.2 hlegal, huri, String.ofList_toList]

/-! ## Rendering -/

/-- The names that some text may stand for in a table. -/
structure Knows (ns : Namespaces) (n : Name) : Prop where
  legal : LegalLocal n.localName.toList
  bound : ∃ pfx, ns.uri? pfx = some n.uri

theorem knows_of_resolve {ns : Namespaces} {text : String} {n : Name}
    (h : ns.resolve text = .ok n) : ns.Knows n := by
  obtain ⟨hlegal, pfx, -, huri, -⟩ := resolve_eq_ok_iff.1 h
  exact ⟨hlegal, pfx, huri⟩

theorem Knows.not_isWildcard {ns : Namespaces} {n : Name} (h : ns.Knows n) :
    n.isWildcard = false := by
  rw [Name.isWildcard, beq_eq_false_iff_ne]
  exact h.legal.ne_wildcard

theorem Indexed.legalPrefix {ns : Namespaces} (h : Indexed ns) {pfx uri : String}
    (hu : ns.uri? pfx = some uri) : LegalPrefix pfx :=
  fun hne => (h.wellFormed _ (h.mem_bindings.2 hu) hne).1

/-- A bound URI has a canonical prefix, which is bound to it. -/
theorem Indexed.exists_canonical {ns : Namespaces} (h : Indexed ns) {uri : String}
    (hb : ∃ pfx, ns.uri? pfx = some uri) :
    ∃ pfx, ns.canonical? uri = some pfx ∧ ns.uri? pfx = some uri := by
  obtain ⟨p, hp⟩ := hb
  rw [h.first uri]
  cases hf : firstPrefix? ns.bindings uri with
  | none => exact absurd rfl (firstPrefix?_eq_none_iff.1 hf _ (h.mem_bindings.2 hp))
  | some pfx => exact ⟨pfx, rfl, h.mem_bindings.1 (mem_of_firstPrefix? hf)⟩

theorem toList_render {ns : Namespaces} {n : Name} {pfx : String} (hn : n.isWildcard = false)
    (hc : ns.canonical? n.uri = some pfx) :
    (ns.render n).toList = prefixed pfx n.localName.toList := by
  have hp : ns.toPrefixed n =
      .ok (if pfx.isEmpty then n.localName else pfx ++ ":" ++ n.localName) := by
    simp [toPrefixed, hn, getCanonical, hc]
  rw [render, hp, prefixed]
  by_cases he : pfx = ""
  · simp [he]
  · simp [he]

/-- A name that a table knows is rendered with a prefix of its URI. -/
theorem Knows.exists_prefixed {ns : Namespaces} (hi : Indexed ns) {n : Name} (h : ns.Knows n) :
    ∃ pfx, LegalPrefix pfx ∧ ns.uri? pfx = some n.uri ∧
      (ns.render n).toList = prefixed pfx n.localName.toList := by
  obtain ⟨pfx, hc, hu⟩ := hi.exists_canonical h.bound
  exact ⟨pfx, hi.legalPrefix hu, hu, toList_render h.not_isWildcard hc⟩

theorem resolve_render {ns : Namespaces} (hi : Indexed ns) {n : Name} (h : ns.Knows n) :
    ns.resolve (ns.render n) = .ok n :=
  resolve_eq_ok_iff.2 ⟨h.legal, h.exists_prefixed hi⟩

end Cnd.Namespaces
