import Cnd.Proofs.ItemPath
import Cnd.Proofs.Namespaces.Render

/-!
Which texts of paths a table would write itself.

A text that stands for a path is the one that the path is rendered to just if each of its names
stands behind the canonical prefix and each index is in plain digits (`parse_spells`). Both are
asked of the spellings that the text is made of, segment by segment.
-/

namespace Cnd

open Namespaces (Indexed Reachable Written)

namespace Namespaces

/-- The text of a name with the prefix that the table itself would write. -/
def IsCanonicalText (ns : Namespaces) (text : String) : Prop :=
  ∃ pfx localName uri, Written pfx localName text ∧ ns.uri? pfx = some uri ∧
    ns.canonical? uri = some pfx

theorem render_eq_self_iff {ns : Namespaces} (hi : Indexed ns) {text : String} {n : Name}
    (h : ns.resolve text = .ok n) : ns.render n = text ↔ ns.IsCanonicalText text := by
  obtain ⟨pfx, hw, hu⟩ := resolve_eq_ok_iff_written.1 h
  have hknows : ns.Knows n := knows_of_resolve h
  have hiff := toPrefixed_eq_ok_iff hi hknows hw
  rw [toPrefixed_of_knows hi hknows, Except.ok.injEq] at hiff
  rw [hiff]
  constructor
  · intro hc
    exact ⟨pfx, n.localName, n.uri, hw, hu, hc⟩
  · rintro ⟨pfx', localName, uri, hw', hu', hc⟩
    obtain ⟨rfl, -⟩ := hw.unique hw'
    rw [hu, Option.some.injEq] at hu'
    rw [hu', hc]

end Namespaces

namespace PathSegment

/-- The digits of an index in the form that numbers are written in. -/
def IsPlainIndex (digits : List Char) : Prop :=
  (∀ c ∈ digits, c ∈ Text.writtenDigits) ∧ digits.head? ≠ some '0'

theorem IsIndex.toDigits_eq_iff {digits : List Char} {i : Nat} (h : IsIndex digits i) :
    Nat.toDigits 10 i = digits ↔ IsPlainIndex digits := by
  constructor
  · rintro rfl
    exact ⟨fun c hc => Text.mem_toDigits hc, Text.head?_toDigits_ne_zero h.pos⟩
  · rintro ⟨hdigits, hzero⟩
    rw [← h.value, Text.toDigits_digitsValue h.ne_nil hdigits hzero]

namespace Spelling

/-- The name behind its canonical prefix, and the index in plain digits. -/
def IsCanonical (ns : Namespaces) : Spelling → Prop
  | .current | .parent => True
  | .item name digits => ns.IsCanonicalText name ∧ ∀ ds ∈ digits, IsPlainIndex ds

theorem Reads.spelling_eq_iff {ns : Namespaces} (hi : Indexed ns) {w : Spelling} {g : PathSegment}
    (h : w.Reads ns g) : g.spelling ns = w ↔ w.IsCanonical ns := by
  cases h with
  | current => simp [spelling, IsCanonical]
  | parent => simp [spelling, IsCanonical]
  | name h => simp [spelling, IsCanonical, Namespaces.render_eq_self_iff hi h]
  | indexed h hindex =>
    simp [spelling, IsCanonical, Namespaces.render_eq_self_iff hi h, hindex.toDigits_eq_iff]

theorem map_spelling_eq_iff {ns : Namespaces} (hi : Indexed ns) {ws : List Spelling}
    {gs : List PathSegment} (h : List.Forall₂ (Reads ns) ws gs) :
    gs.map (PathSegment.spelling ns) = ws ↔ ∀ w ∈ ws, w.IsCanonical ns := by
  induction h with
  | nil => simp
  | cons hw _ ih =>
    rw [List.map_cons, List.cons.injEq, ih, hw.spelling_eq_iff hi, List.forall_mem_cons]

end Spelling

end PathSegment

namespace ItemPath

open PathSegment (Spelling)

theorem Spells.text_unique {ns : Namespaces} {ws : List Spelling} {p : ItemPath} {text text' : String}
    (h : Spells ns ws p text) (h' : Spells ns ws p text') : text = text' := by
  rw [← String.toList_inj, h.text_eq, h'.text_eq]

/-- **Reading paths is exact, and inverse to rendering.** In a table in use, a text stands for a path
just if it spells the segments of the path, in order, between slashes. Rendering the path gives a
text that stands for the path again, and gives the text itself just if every name in it has its
canonical prefix and every index is written in plain digits without a zero in front. -/
theorem parse_spells {ns : Namespaces} (hns : Reachable ns) (text : String) :
    (∀ p, parse ns text = .ok p ↔ ∃ ws, Spells ns ws p text) ∧
    ∀ p ws, Spells ns ws p text →
      parse ns (p.render ns) = .ok p ∧ (p.render ns = text ↔ ∀ w ∈ ws, w.IsCanonical ns) := by
  refine ⟨fun p => parse_eq_ok_iff, fun p ws hws => ?_⟩
  have hknown : p.Known ns := known_of_parse hws.parse_eq
  refine ⟨parse_render hns.indexed hknown, ?_⟩
  have hrender := spells_render hns.indexed hknown
  rw [← Spelling.map_spelling_eq_iff hns.indexed hws.reads]
  constructor
  · intro htext
    rw [htext] at hrender
    exact hrender.unique hws
  · intro he
    rw [he] at hrender
    exact hrender.text_unique hws

/-- A path whose first name has another prefix than the canonical one, and an index in digits of
another script: it is read, and written otherwise. -/
theorem parse_spells_otherwise :
    let ns : Namespaces := ⟨[("", "u"), ("a", "u")], [("u", "")]⟩
    let p : ItemPath := ⟨true, [.item ⟨"u", "x"⟩ (some 3), .parent, .item ⟨"u", "y"⟩ none]⟩
    Reachable ns ∧ parse ns "/a:x[\u0663]/../y" = .ok p ∧ parse ns (p.render ns) = .ok p ∧
      p.render ns ≠ "/a:x[\u0663]/../y" := by
  intro ns p
  have hmade : Namespaces.ofPairs false [(.text "", .text "u"), (.text "a", .text "u")] = .ok ns := by
    rfl
  have hns : Reachable ns := Namespaces.reachable_of_ofPairs hmade
  have hindex : PathSegment.IsIndex ['\u0663'] 3 :=
    ⟨by decide, fun c hc => List.mem_singleton.1 hc ▸ by decide, by decide, by decide, by decide⟩
  have hspells : Spells ns [.item "a:x" (some ['\u0663']), .parent, .item "y" none] p
      "/a:x[\u0663]/../y" :=
    ⟨by rfl, .cons (.indexed (by rfl) hindex) (.cons .parent (.cons (.name (by rfl)) .nil)), by simp⟩
  obtain ⟨hread, hwrite⟩ := parse_spells hns "/a:x[\u0663]/../y"
  obtain ⟨hagain, hiff⟩ := hwrite p _ hspells
  refine ⟨hns, (hread p).2 ⟨_, hspells⟩, hagain, fun he => ?_⟩
  have hplain := (hiff.1 he (.item "a:x" (some ['\u0663'])) (by simp)).2 ['\u0663'] rfl
  exact absurd (hplain.1 '\u0663' (by simp)) (by decide)

end ItemPath

end Cnd
