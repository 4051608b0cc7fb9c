import Cnd.Proofs.Token.Segment

/-!
Scanning two texts as one.

A line break ends whatever a text ends with, so the segments of a text, the line break and the
segments of a second text stand one behind the other (`Segmentation.join`). Where a text begins
shows only in the positions of its tokens (`tokensOf_below`).
-/

namespace Cnd

namespace Position

/-- The position a number of lines below. -/
def below (k : Nat) (p : Position) : Position := ⟨p.line + k, p.column⟩

theorem after_below (k : Nat) (p : Position) (c : Char) :
    (p.below k).after c = (p.after c).below k := by
  unfold after below
  split
  · simp only [Position.mk.injEq, and_true]
    omega
  · rfl

theorem afterAll_below (k : Nat) (p : Position) (cs : List Char) :
    (p.below k).afterAll cs = (p.afterAll cs).below k := by
  induction cs generalizing p with
  | nil => rfl
  | cons c cs ih =>
    simp only [afterAll, List.foldl_cons] at ih ⊢
    rw [after_below, ih]

/-- Behind a line break the first line begins again, as many lines below as there are by then. -/
theorem after_newline (p : Position) : p.after '\n' = start.below p.line := by
  simp only [after, below, start, beq_self_eq_true, if_true, Position.mk.injEq, and_true]
  omega

theorem behind_newline (a cs : List Char) :
    behind (a ++ '\n' :: cs) = (behind cs).below (behind a).line := by
  have hstart : behind cs = start.afterAll cs := behind_append [] cs
  rw [behind_append, hstart, ← afterAll_below, ← after_newline]
  rfl

end Position

/-- The token a number of lines below. -/
def Token.below (k : Nat) (t : Token) : Token := ⟨t.lexeme, t.position.below k⟩

namespace Scan

/-! ## Segments beside a line break -/

theorem Segment.Fits.append_newline {front rest : List Char} {s : Segment} (h : s.Fits front rest)
    (b : List Char) : s.Fits front (rest ++ '\n' :: b) := by
  cases h with
  | blank hb => exact .blank hb
  | lineComment hn hr =>
    refine .lineComment hn (.inr ?_)
    rcases hr with rfl | ⟨more, rfl⟩
    · exact ⟨b, rfl⟩
    · exact ⟨more ++ '\n' :: b, rfl⟩
  | blockComment hn => exact .blockComment hn
  | symbol hs => exact .symbol hs
  | word hne hw hl hr =>
    refine .word hne hw hl fun c hc => ?_
    cases rest with
    | nil =>
      obtain rfl : '\n' = c := by simpa using hc
      decide
    | cons d rest => exact hr c hc
  | quoted hd => exact .quoted hd

theorem Segment.Fits.behind_newline {front rest : List Char} {s : Segment} (h : s.Fits front rest)
    (a : List Char) : s.Fits (a ++ '\n' :: front) rest := by
  cases h with
  | blank hb => exact .blank hb
  | lineComment hn hr => exact .lineComment hn hr
  | blockComment hn => exact .blockComment hn
  | symbol hs => exact .symbol hs
  | word hne hw hl hr =>
    refine .word hne hw (fun c hc => ?_) hr
    rcases List.eq_nil_or_concat front with rfl | ⟨front, d, rfl⟩
    · obtain rfl : '\n' = c := by simpa using hc
      decide
    · rw [List.concat_eq_append, ← List.cons_append, ← List.append_assoc,
        List.getLast?_concat] at hc
      exact hl c (by rwa [List.concat_eq_append, List.getLast?_concat])
  | quoted hd => exact .quoted hd

theorem Segmentation.append_newline {front rest : List Char} {segs : List Segment}
    (h : Segmentation front segs rest) (b : List Char) :
    Segmentation front segs (rest ++ '\n' :: b) := by
  induction h with
  | nil => exact .nil
  | cons hfits _ ih =>
    have hnew := hfits.append_newline b
    rw [List.append_assoc] at hnew
    exact .cons hnew ih

theorem Segmentation.behind_newline {front rest : List Char} {segs : List Segment}
    (h : Segmentation front segs rest) (a : List Char) :
    Segmentation (a ++ '\n' :: front) segs rest := by
  induction h with
  | nil => exact .nil
  | cons hfits _ ih =>
    rw [← List.cons_append, ← List.append_assoc] at ih
    exact .cons (hfits.behind_newline a) ih

/-- Segments of a text, a line break, and segments of a second text. -/
theorem Segmentation.join {segs segs' : List Segment} (h : Segmentation [] segs [])
    (h' : Segmentation [] segs' []) : Segmentation [] (segs ++ ⟨['\n'], none⟩ :: segs') [] := by
  have hfirst := h.append_newline (charsOf segs')
  have hbreak : Segment.Fits (charsOf segs) ⟨['\n'], none⟩ (charsOf segs' ++ []) :=
    .blank (by decide)
  rw [List.nil_append, ← List.append_nil (_ :: _)] at hfirst
  exact segmentation_append.2 ⟨hfirst, .cons hbreak (h'.behind_newline (charsOf segs))⟩

/-! ## Their tokens -/

theorem tokensOf_append (front : List Char) (a b : List Segment) :
    tokensOf front (a ++ b) = tokensOf front a ++ tokensOf (front ++ charsOf a) b := by
  induction a generalizing front with
  | nil => simp [tokensOf, charsOf]
  | cons s more ih =>
    have hchars : charsOf (s :: more) = s.chars ++ charsOf more := rfl
    rw [List.cons_append, tokensOf, tokensOf, ih, hchars, List.append_assoc, List.append_assoc]

/-- Behind a text and a line break the tokens are the same, so many lines below. -/
theorem tokensOf_below (a front : List Char) (segs : List Segment) :
    tokensOf (a ++ '\n' :: front) segs =
      (tokensOf front segs).map (.below (Position.behind a).line) := by
  induction segs generalizing front with
  | nil => rfl
  | cons s more ih =>
    rw [tokensOf, tokensOf, List.map_append, Position.behind_newline, List.append_assoc,
      List.cons_append, ih]
    cases s.lexeme <;> rfl

theorem segmentation_of_scan {text : List Char} {ts : List Token} {stop : Position}
    (h : Token.scan text = ⟨ts ++ [⟨.ending, stop⟩], none⟩) :
    ∃ segs, text = charsOf segs ∧ Segmentation [] segs [] ∧ ts = tokensOf [] segs ∧
      stop = .behind text := by
  obtain ⟨segs, rest, htext, hsegs, hscan⟩ := scan_eq text
  rcases hscan with ⟨rfl, hscan⟩ | ⟨fault, -, hscan⟩ <;> rw [hscan] at h
  · simp only [Scanned.mk.injEq, and_true] at h
    obtain ⟨rfl, hstop⟩ := List.append_inj' h rfl
    rw [List.append_nil] at htext
    exact ⟨segs, htext, hsegs, rfl, by simpa using hstop.symm⟩
  · simp at h

end Scan

open Scan in
/-- The tokens of a text, and then those of a second text on the lines below it. -/
theorem scan_join {a b : List Char} {ts us : List Token} {stop stop' : Position}
    (ha : Token.scan a = ⟨ts ++ [⟨.ending, stop⟩], none⟩)
    (hb : Token.scan b = ⟨us ++ [⟨.ending, stop'⟩], none⟩) :
    Token.scan (a ++ '\n' :: b) =
      ⟨(ts ++ us.map (.below stop.line)) ++ [⟨.ending, stop'.below stop.line⟩], none⟩ := by
  obtain ⟨segs, rfl, hsegs, rfl, rfl⟩ := segmentation_of_scan ha
  obtain ⟨segs', rfl, hsegs', rfl, rfl⟩ := segmentation_of_scan hb
  have hrun := (hsegs.join hsegs').tokensFrom_eq
  have hchars : charsOf (segs ++ ⟨['\n'], none⟩ :: segs') = charsOf segs ++ '\n' :: charsOf segs' :=
    charsOf_append _ _
  rw [hchars, List.nil_append, tokensOf_append] at hrun
  rw [scan_eq_complete_iff, ← Position.behind_newline, ← tokensOf_below]
  exact hrun

end Cnd
