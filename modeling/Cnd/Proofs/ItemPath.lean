import Cnd.Proofs.ItemPath.Spelling

/-!
Paths and their texts.

`Known` says which segments and paths some text stands for in a table: the names are known, an index
is positive and not too long, and only the root has no segments. A table writes such a path with
known spellings (`spells_render`), so the text is read back as the path (`parse_render`); and reading
gives no others (`known_of_parse`).
-/

namespace Cnd

open Namespaces (Indexed)

namespace PathSegment

/-! ## Segments -/

/-- The segments that some text stands for in a table. -/
def Known (ns : Namespaces) : PathSegment → Prop
  | .item n none => ns.Knows n
  | .item n (some i) => ns.Knows n ∧ 0 < i ∧ i < 10 ^ Numeral.maxDigits
  | .current | .parent => True

theorem Spelling.Reads.known {ns : Namespaces} {w : Spelling} {g : PathSegment} (h : w.Reads ns g) :
    g.Known ns := by
  cases h with
  | current => trivial
  | parent => trivial
  | name h => exact Namespaces.knows_of_resolve h
  | indexed h hi =>
    refine ⟨Namespaces.knows_of_resolve h, hi.pos, ?_⟩
    exact Numeral.lt_pow_of_ofDigits (Numeral.ofDigits_eq_ok_iff.2 ⟨hi.length_le, hi.value⟩)

/-- How a table writes a segment. -/
def spelling (ns : Namespaces) : PathSegment → Spelling
  | .current => .current
  | .parent => .parent
  | .item n index => .item (ns.render n) (index.map (Nat.toDigits 10))

theorem toList_render (ns : Namespaces) (g : PathSegment) :
    (g.render ns).toList = (g.spelling ns).text := by
  cases g with
  | current => simp [render, spelling]
  | parent => simp [render, spelling]
  | item n index =>
    cases index with
    | none => rfl
    | some i => simp [render, spelling, Text.decimal]

theorem Known.reads {ns : Namespaces} (hi : Indexed ns) {g : PathSegment} (h : g.Known ns) :
    (g.spelling ns).Reads ns g := by
  cases g with
  | current => exact .current
  | parent => exact .parent
  | item n index =>
    cases index with
    | none => exact .name (Namespaces.resolve_render hi h)
    | some i =>
      obtain ⟨hn, hpos, hlt⟩ := h
      exact .indexed (Namespaces.resolve_render hi hn) (.of_toDigits hpos hlt)

end PathSegment

namespace ItemPath

/-! ## Paths -/

/-- The paths that some text stands for in a table. -/
structure Known (ns : Namespaces) (p : ItemPath) : Prop where
  segments : ∀ g ∈ p.segments, g.Known ns
  rooted : p.segments = [] → p.absolute = true

theorem known_of_parse {ns : Namespaces} {text : String} {p : ItemPath}
    (h : parse ns text = .ok p) : p.Known ns := by
  obtain ⟨ws, hws⟩ := parse_eq_ok_iff.1 h
  constructor
  · intro g hg
    obtain ⟨w, -, hw⟩ := exists_of_forall₂ hws.reads hg
    exact hw.known
  · intro he
    have hreads := hws.reads
    rw [he, List.forall₂_nil_right_iff] at hreads
    exact hws.rooted hreads

/-- A path is rendered in the spellings of its segments. -/
theorem spells_render {ns : Namespaces} (hi : Indexed ns) {p : ItemPath} (h : p.Known ns) :
    Spells ns (p.segments.map (PathSegment.spelling ns)) p (p.render ns) where
  text_eq := by
    have hbody : ("/".intercalate (p.segments.map (PathSegment.render ns))).toList =
        ['/'].intercalate ((p.segments.map (PathSegment.spelling ns)).map
          PathSegment.Spelling.text) := by
      rw [String.toList_intercalate, List.map_map, List.map_map]
      exact congrArg _ (List.map_congr_left fun g _ => PathSegment.toList_render ns g)
    rw [render]
    cases p.absolute with
    | true =>
      rw [if_pos rfl, if_pos rfl, String.toList_append, hbody]
      rfl
    | false =>
      rw [if_neg Bool.false_ne_true, if_neg Bool.false_ne_true, hbody]
      rfl
  reads := List.forall₂_map_left_iff.2 (List.forall₂_same.2 fun g hg => (h.segments g hg).reads hi)
  rooted he := h.rooted (List.map_eq_nil_iff.1 he)

/-- **Rendering a path and reading it** gives the path back. -/
theorem parse_render {ns : Namespaces} (hi : Indexed ns) {p : ItemPath} (h : p.Known ns) :
    parse ns (p.render ns) = .ok p :=
  (spells_render hi h).parse_eq

end ItemPath

end Cnd
