import Cnd.Proofs.Token.Segment
import Mathlib.Data.List.Chain

/-!
Tokens printed for a scan.

A sign and a word are printed as they are, and any text in quotes, with a backslash in front of the
quotes and the backslashes in it. Between the printed tokens may stand blanks and closed comments,
and between two words something has to. A scan of what is printed gives the tokens back
(`scan_printed`): whatever stands between them, printed tokens fit one behind the other
(`segmentation_of_isChain`).
-/

namespace Cnd

namespace Scan

/-- A text as it stands between quotes. -/
def escape : List Char → List Char
  | [] => []
  | c :: cs => if c = '\'' ∨ c = '\\' then '\\' :: c :: escape cs else c :: escape cs

theorem decodes_escape (cs : List Char) : Decodes (escape cs) cs := by
  induction cs with
  | nil => exact .nil
  | cons c cs ih =>
    rw [escape]
    split
    · rename_i hc
      have hself : unescape c = c := by rcases hc with rfl | rfl <;> rfl
      have := Decodes.escaped (c := c) ih
      rwa [hself] at this
    · rename_i hc
      exact .plain (fun h => hc (.inl h)) (fun h => hc (.inr h)) ih

/-- What a printed text is made of: separators, each closed, and tokens other than the ending. -/
inductive Piece where
  | blank (c : Char) (h : Text.isBlank c = true)
  | lineComment (body : List Char) (h : '\n' ∉ body)
  | blockComment (body : List Char) (h : ¬ blockEnd <:+: body)
  | symbol (c : Char) (h : c ∈ symbols)
  | word (s : String) (hne : s ≠ "") (h : ∀ c ∈ s.toList, isWordChar c = true)
  | quoted (s : String)

namespace Piece

/-- How a piece is printed. -/
def chars : Piece → List Char
  | blank c _ => [c]
  | lineComment body _ => '/' :: '/' :: body ++ ['\n']
  | blockComment body _ => '/' :: '*' :: body ++ blockEnd
  | symbol c _ => [c]
  | word s _ _ => s.toList
  | quoted s => '\'' :: escape s.toList ++ ['\'']

/-- What a piece is to be read as. -/
def lexeme? : Piece → Option Lexeme
  | blank _ _ => none
  | lineComment _ _ => none
  | blockComment _ _ => none
  | symbol c _ => some (.symbol c)
  | word s _ _ => some (.text s false)
  | quoted s => some (.text s true)

def isWord : Piece → Bool
  | word _ _ _ => true
  | _ => false

/-- The segments of a printed piece. A comment to the end of the line leaves the line break. -/
def segments : Piece → List Segment
  | lineComment body _ => [⟨'/' :: '/' :: body, none⟩, ⟨['\n'], none⟩]
  | p => [⟨p.chars, p.lexeme?⟩]

theorem charsOf_segments (p : Piece) : charsOf p.segments = p.chars := by
  cases p <;> simp [charsOf, segments, chars]

theorem filterMap_segments (p : Piece) :
    p.segments.filterMap Segment.lexeme = p.lexeme?.toList := by
  cases p <;> rfl

/-- Only words begin with a character of a word. -/
theorem isWordChar_head {p : Piece} (h : p.isWord = false) (rest : List Char) :
    ∀ c ∈ (p.chars ++ rest).head?, isWordChar c = false := by
  intro c hc
  cases p with
  | blank d hd =>
    obtain rfl : d = c := Option.some.inj hc
    exact isWordChar_of_isBlank hd
  | symbol d hd =>
    obtain rfl : d = c := Option.some.inj hc
    exact isWordChar_of_mem_symbols hd
  | lineComment | blockComment =>
    obtain rfl : '/' = c := Option.some.inj hc
    decide
  | quoted =>
    obtain rfl : '\'' = c := Option.some.inj hc
    decide
  | word => exact absurd h (by simp [isWord])

/-- Only words end with a character of a word. -/
theorem isWordChar_getLast {p : Piece} (h : p.isWord = false) (front : List Char) :
    ∀ c ∈ (front ++ p.chars).getLast?, isWordChar c = false := by
  intro c hc
  cases p with
  | blank d hd =>
    obtain rfl : d = c := by simpa [chars] using hc
    exact isWordChar_of_isBlank hd
  | symbol d hd =>
    obtain rfl : d = c := by simpa [chars] using hc
    exact isWordChar_of_mem_symbols hd
  | lineComment =>
    obtain rfl : '\n' = c := by simpa [chars, List.getLast?_cons] using hc
    decide
  | blockComment =>
    obtain rfl : '/' = c := by simpa [chars, blockEnd, List.getLast?_cons] using hc
    decide
  | quoted =>
    obtain rfl : '\'' = c := by simpa [chars, List.getLast?_cons] using hc
    decide
  | word => exact absurd h (by simp [isWord])

/-- A star behind a text that closes no comment closes none either. -/
theorem not_blockEnd_infix_star {body : List Char} (h : ¬ blockEnd <:+: body) :
    ¬ blockEnd <:+: body ++ ['*'] := by
  rw [List.infix_concat_iff]
  rintro (hs | hi)
  · obtain ⟨front, hf⟩ := hs
    have hlast := congrArg List.getLast? hf
    simp [blockEnd] at hlast
  · exact h hi

/-- A printed piece fits where it stands, a word if it touches no other word. -/
theorem segmentation {p : Piece} {front rest : List Char}
    (hl : p.isWord = true → ∀ c ∈ front.getLast?, isWordChar c = false)
    (hr : p.isWord = true → ∀ c ∈ rest.head?, isWordChar c = false) :
    Segmentation front p.segments rest := by
  cases p with
  | blank c h => exact .cons (.blank h) .nil
  | lineComment body h =>
    exact .cons (.lineComment h (.inr ⟨rest, rfl⟩)) (.cons (.blank (by decide)) .nil)
  | blockComment body h => exact .cons (.blockComment (not_blockEnd_infix_star h)) .nil
  | symbol c h => exact .cons (.symbol h) .nil
  | word s hne h =>
    have hs : s.toList ≠ [] := fun hs => hne (String.toList_eq_nil_iff.1 hs)
    have hfits := Segment.Fits.word hs h (hl rfl) (hr rfl)
    rw [String.ofList_toList] at hfits
    exact .cons hfits .nil
  | quoted s =>
    have hfits : Segment.Fits front _ rest := .quoted (decodes_escape s.toList)
    rw [String.ofList_toList] at hfits
    exact .cons hfits .nil

end Piece

/-! ## Pieces one behind the other -/

/-- The printed pieces. -/
def printed (pieces : List Piece) : List Char := pieces.flatMap Piece.chars

theorem charsOf_flatMap_segments (pieces : List Piece) :
    charsOf (pieces.flatMap Piece.segments) = printed pieces := by
  rw [charsOf, List.flatMap_assoc]
  exact List.flatMap_congr fun p _ => p.charsOf_segments

/-- Pieces fit one behind the other if no word stands behind a word. -/
theorem segmentation_of_isChain {front : List Char} {pieces : List Piece}
    (h : pieces.IsChain fun p q => ¬ (p.isWord = true ∧ q.isWord = true))
    (hfront : ∀ p ∈ pieces.head?, p.isWord = true → ∀ c ∈ front.getLast?, isWordChar c = false) :
    Segmentation front (pieces.flatMap Piece.segments) [] := by
  induction pieces generalizing front with
  | nil => exact .nil
  | cons p more ih =>
    obtain ⟨hp, hmore⟩ := List.isChain_cons.1 h
    rw [List.flatMap_cons]
    refine segmentation_append.2 ⟨Piece.segmentation (hfront p rfl) fun hword => ?_, ih hmore ?_⟩
    · -- what stands behind a word is no word
      rw [charsOf_flatMap_segments, List.append_nil]
      cases more with
      | nil => simp [printed]
      | cons q more =>
        have hq : q.isWord = false := by simpa [hword] using hp q rfl
        exact Piece.isWordChar_head hq _
    · intro q hq hword
      have hp : p.isWord = false := by simpa [hword] using hp q hq
      rw [p.charsOf_segments]
      exact Piece.isWordChar_getLast hp front

theorem lexeme_tokensOf (front : List Char) (segs : List Segment) :
    (tokensOf front segs).map Token.lexeme = segs.filterMap Segment.lexeme := by
  induction segs generalizing front with
  | nil => rfl
  | cons s more ih =>
    rw [tokensOf, List.map_append, ih, List.filterMap_cons]
    cases s.lexeme <;> rfl

theorem filterMap_flatMap_segments (pieces : List Piece) :
    (pieces.flatMap Piece.segments).filterMap Segment.lexeme = pieces.filterMap Piece.lexeme? := by
  rw [List.filterMap_flatMap, List.filterMap_eq_flatMap_toList]
  exact List.flatMap_congr fun p _ => p.filterMap_segments

end Scan

open Scan in
/-- **A scan gives back what was printed.** It has no fault, and its lexemes are those of the
pieces in their order, however they are separated, and then the ending. -/
theorem scan_printed (pieces : List Piece)
    (h : pieces.IsChain fun p q => ¬ (p.isWord = true ∧ q.isWord = true)) :
    (Token.scan (printed pieces)).fault = none ∧
      (Token.scan (printed pieces)).tokens.map Token.lexeme =
        pieces.filterMap Piece.lexeme? ++ [.ending] := by
  have hsegs : Segmentation [] (pieces.flatMap Piece.segments) [] :=
    segmentation_of_isChain h fun _ _ _ c hc => by simp at hc
  have hrun := hsegs.tokensFrom_eq
  rw [charsOf_flatMap_segments, List.nil_append] at hrun
  have hscan := scan_eq_complete_iff.2 hrun
  rw [hscan]
  refine ⟨rfl, ?_⟩
  rw [List.map_append, lexeme_tokensOf, filterMap_flatMap_segments]
  rfl

open Scan in
/-- Words parted by a comment with a quote in it, signs and quoted texts with nothing between them,
and a comment sign, a quote and a backslash in a quoted text. -/
theorem scan_printed_touching :
    (Token.scan "a/*'*/b<'/* \\'\\\\'\'\'//x\n".toList).fault = none ∧
      (Token.scan "a/*'*/b<'/* \\'\\\\'\'\'//x\n".toList).tokens.map Token.lexeme =
        [.text "a" false, .text "b" false, .symbol '<', .text "/* '\\" true, .text "" true,
          .ending] :=
  scan_printed [.word "a" (by decide) (List.all_eq_true.1 rfl), .blockComment ['\''] (by decide),
    .word "b" (by decide) (List.all_eq_true.1 rfl), .symbol '<' (by decide), .quoted "/* '\\",
    .quoted "", .lineComment ['x'] (by decide)] (by decide)

end Cnd
