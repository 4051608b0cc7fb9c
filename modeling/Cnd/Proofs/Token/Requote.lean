import Cnd.Proofs.Token.Bare
import Cnd.Proofs.Token.Print

/-!
A text with every text in it put between quotes.

A word or a quoted text is printed in quotes, with a backslash in front of the quotes and the
backslashes in it, and all else stays. Both texts are cut into the same segments but for the quotes
(`Segmentation.requote`), so their scans give the same tokens but for the quotes and the places
(`scan_requoted`).
-/

namespace Cnd

namespace Scan

/-- A segment with its text between quotes. -/
def Segment.requote (s : Segment) : Segment :=
  match s.lexeme with
  | some (.text t _) => ⟨'\'' :: escape t.toList ++ ['\''], some (.text t true)⟩
  | _ => s

/-- The second text is the first one with every text in it between quotes. -/
def Requoted (text text' : List Char) : Prop :=
  ∃ segs, text = charsOf segs ∧ Segmentation [] segs [] ∧ text' = charsOf (segs.map Segment.requote)

/-! ## Segments -/

/-- How a text begins, as far as it matters to a comment in front of it. -/
def EndsLine (rest : List Char) : Prop := rest = [] ∨ ∃ more, rest = '\n' :: more

/-- Where a line comment may end is not changed. -/
theorem Segment.Fits.endsLine_requote {front rest more more' : List Char} {s : Segment}
    (h : s.Fits front rest) (he : EndsLine (s.chars ++ more)) :
    EndsLine (s.requote.chars ++ more') := by
  obtain ⟨c, cs, hs⟩ := List.exists_cons_of_ne_nil h.chars_ne_nil
  obtain rfl : c = '\n' := by
    rcases he with he | ⟨_, he⟩ <;> rw [hs] at he
    · simp at he
    · exact (List.cons.inj he).1
  -- a segment that begins with a line break is that line break
  cases h with
  | blank | symbol => exact .inr ⟨more', by rw [(List.cons.inj hs).1]; rfl⟩
  | lineComment | blockComment | quoted => simp at hs
  | word _ hw =>
    obtain rfl := hs
    exact absurd (hw '\n' List.mem_cons_self) (by decide)

theorem Segment.Fits.requote {front front' rest rest' : List Char} {s : Segment}
    (h : s.Fits front rest) (hr : EndsLine rest → EndsLine rest') : s.requote.Fits front' rest' := by
  have hquoted (t : List Char) : Segment.Fits front'
      ⟨'\'' :: escape (String.ofList t).toList ++ ['\''], some (.text (String.ofList t) true)⟩
      rest' := by
    have hfits : Segment.Fits front' _ rest' := .quoted (decodes_escape t)
    rwa [String.toList_ofList]
  cases h with
  | blank hb => exact .blank hb
  | lineComment hn hl => exact .lineComment hn (hr hl)
  | blockComment hn => exact .blockComment hn
  | symbol hs => exact .symbol hs
  | word => exact hquoted _
  | quoted => exact hquoted _

theorem Segmentation.endsLine_requote {front : List Char} {segs : List Segment}
    (h : Segmentation front segs []) (he : EndsLine (charsOf segs ++ [])) :
    EndsLine (charsOf (segs.map Segment.requote) ++ []) := by
  cases h with
  | nil => exact .inl rfl
  | cons hs _ =>
    rw [List.append_nil] at he ⊢
    exact hs.endsLine_requote he

/-- Segments fit one behind the other as they did, whatever the text in front of them. -/
theorem Segmentation.requote {front : List Char} {segs : List Segment}
    (h : Segmentation front segs []) (front' : List Char) :
    Segmentation front' (segs.map Segment.requote) [] := by
  induction segs generalizing front front' with
  | nil => exact .nil
  | cons s more ih =>
    cases h with
    | cons hs hmore => exact .cons (hs.requote hmore.endsLine_requote) (ih hmore _)

/-! ## Lexemes and tokens -/

theorem bare_requote (s : Segment) : s.requote.lexeme.map Lexeme.bare = s.lexeme.map Lexeme.bare := by
  unfold Segment.requote
  split
  · rename_i t q hl
    rw [hl]
    rfl
  · rfl

theorem bare_filterMap_requote (segs : List Segment) :
    ((segs.map Segment.requote).filterMap Segment.lexeme).map Lexeme.bare =
      (segs.filterMap Segment.lexeme).map Lexeme.bare := by
  rw [List.map_filterMap, List.map_filterMap, List.filterMap_map]
  exact List.filterMap_congr fun s _ => bare_requote s

theorem map_bare_tokensOf (front : List Char) (segs : List Segment) :
    (tokensOf front segs).map Token.bare =
      ((segs.filterMap Segment.lexeme).map Lexeme.bare).map fun l => ⟨l, .start⟩ := by
  rw [← lexeme_tokensOf front, List.map_map, List.map_map]
  rfl

/-- What is put between quotes is scanned to the same tokens, but for the quotes and the places. -/
theorem scan_requoted {text text' : List Char} (h : Requoted text text') :
    ∃ ts ts' stop stop', Token.scan text = ⟨ts ++ [⟨.ending, stop⟩], none⟩ ∧
      Token.scan text' = ⟨ts' ++ [⟨.ending, stop'⟩], none⟩ ∧
      ts'.map Token.bare = ts.map Token.bare := by
  obtain ⟨segs, rfl, hsegs, rfl⟩ := h
  refine ⟨_, _, _, _, hsegs.scan_eq, (hsegs.requote []).scan_eq, ?_⟩
  rw [map_bare_tokensOf, map_bare_tokensOf, bare_filterMap_requote]

/-- A text without a fault can be put between quotes. -/
theorem exists_requoted {text : List Char} (h : (Token.scan text).fault = none) :
    ∃ text', Requoted text text' := by
  obtain ⟨segs, rest, htext, hsegs, ⟨rfl, -⟩ | ⟨fault, -, hscan⟩⟩ := scan_eq text
  · rw [List.append_nil] at htext
    exact ⟨_, segs, htext, hsegs, rfl⟩
  · rw [hscan] at h
    exact absurd h (by simp)

end Scan

end Cnd
