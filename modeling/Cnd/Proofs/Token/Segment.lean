import Cnd.Proofs.Text.Blank
import Cnd.Proofs.Token.Scan

/-!
A text as the segments that its scan cuts it into.

A segment is a separator or a token: some characters that fit between what is in front of them and
what follows. `Segmentation` puts segments one after the other, and `tokensOf` reads off their
tokens, each at the line and the column that the characters in front of it give (`Position.behind`).
A segment that fits is taken (`Segment.Fits.tokensFrom_eq`), and one step of a scan takes a segment
or meets a fault (`step_of_apart`). So a scan segments the whole text, or what is in front of its
fault (`scan_segmentation`), and segments that fit are what it gives
(`Segmentation.tokensFrom_eq`).
-/

namespace Cnd

namespace Position

/-- The position behind a text: one line for each line break in it, and one column for each
character behind the last of these. -/
def behind (cs : List Char) : Position :=
  ⟨1 + cs.count '\n', 1 + (cs.reverse.takeWhile (· != '\n')).length⟩

theorem behind_concat (cs : List Char) (c : Char) : behind (cs ++ [c]) = (behind cs).after c := by
  by_cases hc : c = '\n'
  · subst hc
    simp only [behind, after, List.count_append, List.count_singleton_self, List.reverse_append,
      List.reverse_singleton, List.singleton_append, List.takeWhile_cons, bne_self_eq_false,
      Bool.false_eq_true, if_false, List.length_nil, beq_self_eq_true, if_true, Position.mk.injEq,
      and_true]
    omega
  · have hb : (c == '\n') = false := by simpa using hc
    have hn : (c != '\n') = true := by simpa using hc
    simp only [behind, after, List.count_append, List.count_singleton, hb, Bool.false_eq_true,
      if_false, Nat.add_zero, List.reverse_append, List.reverse_singleton, List.singleton_append,
      List.takeWhile_cons, hn, if_true, List.length_cons, Position.mk.injEq, true_and]
    omega

/-- Going on from a position is the same as counting from the start. -/
theorem behind_append (cs ds : List Char) : behind (cs ++ ds) = (behind cs).afterAll ds := by
  induction ds generalizing cs with
  | nil => simp [afterAll]
  | cons d ds ih =>
    rw [List.append_cons, ih, behind_concat]
    rfl

end Position

namespace Scan

/-! ## Segments -/

/-- Some characters of a text, and the lexeme that they are; separators are none. -/
structure Segment where
  chars : List Char
  lexeme : Option Lexeme

/-- What the characters between two quotes stand for: themselves, and behind a backslash the
character that it lets through or the control character that it names. -/
inductive Decodes : List Char → List Char → Prop
  | nil : Decodes [] []
  | plain {c : Char} {raw body : List Char} (hq : c ≠ '\'') (hb : c ≠ '\\')
      (h : Decodes raw body) : Decodes (c :: raw) (c :: body)
  | escaped {c : Char} {raw body : List Char} (h : Decodes raw body) :
      Decodes ('\\' :: c :: raw) (unescape c :: body)

/-- The sign that ends a block comment. -/
def blockEnd : List Char := ['*', '/']

/-- The segments that can stand between a text in front and a text behind. A comment to the end of
the line takes all of it but the line break, a block comment ends where it first can, and a word is
all of the word characters that stand together. -/
inductive Segment.Fits (front : List Char) : Segment → List Char → Prop
  | blank {c : Char} {rest : List Char} (h : Text.isBlank c = true) : Fits front ⟨[c], none⟩ rest
  | lineComment {body rest : List Char} (h : '\n' ∉ body)
      (hr : rest = [] ∨ ∃ more, rest = '\n' :: more) :
      Fits front ⟨'/' :: '/' :: body, none⟩ rest
  | blockComment {body rest : List Char} (h : ¬ blockEnd <:+: body ++ ['*']) :
      Fits front ⟨'/' :: '*' :: body ++ blockEnd, none⟩ rest
  | symbol {c : Char} {rest : List Char} (h : c ∈ symbols) : Fits front ⟨[c], some (.symbol c)⟩ rest
  | word {w rest : List Char} (hne : w ≠ []) (h : ∀ c ∈ w, isWordChar c = true)
      (hl : ∀ c ∈ front.getLast?, isWordChar c = false)
      (hr : ∀ c ∈ rest.head?, isWordChar c = false) :
      Fits front ⟨w, some (.text (String.ofList w) false)⟩ rest
  | quoted {raw body rest : List Char} (h : Decodes raw body) :
      Fits front ⟨'\'' :: raw ++ ['\''], some (.text (String.ofList body) true)⟩ rest

/-- A word, by conditions that can be evaluated. -/
theorem Segment.Fits.word_of_all {front w rest : List Char} (hne : w ≠ [])
    (h : w.all isWordChar = true) (hl : front.getLast?.all (!isWordChar ·) = true)
    (hr : rest.head?.all (!isWordChar ·) = true) :
    Fits front ⟨w, some (.text (String.ofList w) false)⟩ rest := by
  simp only [Option.all_eq_true, Bool.not_eq_true'] at hl hr
  exact .word hne (List.all_eq_true.1 h) hl hr

/-- The characters of segments. -/
def charsOf (segments : List Segment) : List Char := segments.flatMap Segment.chars

/-- Segments one after the other, with a text in front of them and a text behind. -/
inductive Segmentation : List Char → List Segment → List Char → Prop
  | nil {front rest : List Char} : Segmentation front [] rest
  | cons {front rest : List Char} {s : Segment} {more : List Segment}
      (h : s.Fits front (charsOf more ++ rest)) (hs : Segmentation (front ++ s.chars) more rest) :
      Segmentation front (s :: more) rest

/-- The tokens among segments that follow a text, each where its characters begin. -/
def tokensOf (front : List Char) : List Segment → List Token
  | [] => []
  | s :: more =>
    (s.lexeme.map fun l => (⟨l, .behind front⟩ : Token)).toList ++ tokensOf (front ++ s.chars) more

theorem tokensOf_singleton (front : List Char) (s : Segment) :
    tokensOf front [s] = (s.lexeme.map fun l => (⟨l, .behind front⟩ : Token)).toList :=
  List.append_nil _

/-- What a text begins with if no segment can be cut from it. -/
inductive BeginsFault : ScanFault → List Char → Prop
  | openComment {body : List Char} (h : ¬ blockEnd <:+: body) :
      BeginsFault .openComment ('/' :: '*' :: body)
  | openQuote {text : List Char} (h : ∀ raw body rest, Decodes raw body → text ≠ raw ++ '\'' :: rest) :
      BeginsFault .openQuote ('\'' :: text)
  | illegal {c : Char} {rest : List Char} (hb : Text.isBlank c = false) (hs : c ∉ symbols)
      (hq : c ≠ '\'') (hw : isWordChar c = false)
      (hc : c = '/' → ∀ d ∈ rest.head?, d ≠ '/' ∧ d ≠ '*') : BeginsFault (.illegal c) (c :: rest)

/-- Between two texts no word is cut in two. -/
def Apart (front rest : List Char) : Prop :=
  ∀ c ∈ front.getLast?, ∀ d ∈ rest.head?, isWordChar c = true → isWordChar d = false

theorem isWordChar_of_isBlank {c : Char} (h : Text.isBlank c = true) : isWordChar c = false := by
  have ha := Text.not_isAlphanumeric_of_isBlank h
  have hcolon : c ≠ ':' := by
    rintro rfl
    exact absurd h (by decide)
  have hline : c ≠ '_' := by
    rintro rfl
    exact absurd h (by decide)
  simp [isWordChar, ha, hcolon, hline]

theorem isWordChar_of_mem_symbols {c : Char} (h : c ∈ symbols) : isWordChar c = false := by
  have hall : symbols.all (!isWordChar ·) = true := by decide
  simpa using List.all_eq_true.1 hall c h

/-- A word that is cut off is cut off from what follows it. -/
theorem Segment.Fits.apart {front rest : List Char} {s : Segment} (h : s.Fits front rest) :
    Apart (front ++ s.chars) rest := by
  have hlast : ∀ (cs : List Char) (d : Char), isWordChar d = false → s.chars = cs ++ [d] →
      Apart (front ++ s.chars) rest := by
    intro cs d hd hs c hc e _ hw
    rw [hs, ← List.append_assoc, List.getLast?_concat, Option.mem_some_iff] at hc
    rw [hc, hw] at hd
    exact absurd hd (by simp)
  cases h with
  | blank hb => exact hlast [] _ (isWordChar_of_isBlank hb) rfl
  | @lineComment body _ hn hr =>
    intro c _ d hd _
    rcases hr with rfl | ⟨more, rfl⟩
    · simp at hd
    · rw [List.head?_cons, Option.mem_some_iff] at hd
      subst hd
      decide
  | @blockComment body _ hn =>
    exact hlast ('/' :: '*' :: body ++ ['*']) '/' (by decide) (by simp [blockEnd])
  | symbol hs => exact hlast [] _ (isWordChar_of_mem_symbols hs) rfl
  | word _ _ _ hr => exact fun c _ d hd _ => hr d hd
  | @quoted raw body _ hd =>
    exact hlast ('\'' :: raw) '\'' (by decide) rfl

/-! ## Segments put together -/

theorem charsOf_append (a b : List Segment) : charsOf (a ++ b) = charsOf a ++ charsOf b :=
  List.flatMap_append

theorem segmentation_append {front rest : List Char} {a b : List Segment} :
    Segmentation front (a ++ b) rest ↔
      Segmentation front a (charsOf b ++ rest) ∧ Segmentation (front ++ charsOf a) b rest := by
  induction a generalizing front with
  | nil => simp [charsOf, Segmentation.nil]
  | cons s more ih =>
    have hfront : front ++ charsOf (s :: more) = front ++ s.chars ++ charsOf more :=
      (List.append_assoc _ _ _).symm
    have hrest : charsOf (more ++ b) ++ rest = charsOf more ++ (charsOf b ++ rest) := by
      rw [charsOf_append, List.append_assoc]
    rw [hfront, List.cons_append]
    constructor
    · rintro (_ | ⟨hfits, hmore⟩)
      rw [hrest] at hfits
      exact ⟨.cons hfits (ih.1 hmore).1, (ih.1 hmore).2⟩
    · rintro ⟨_ | ⟨hfits, hmore⟩, hb⟩
      rw [← hrest] at hfits
      exact .cons hfits (ih.2 ⟨hmore, hb⟩)

/-! ## Characters that are skipped -/

theorem skip_open_cons {c : Char} {rest : List Char}
    (hline : ∀ r, c = '/' → rest = '/' :: r → False)
    (hblock : ∀ r, c = '/' → rest = '*' :: r → False) (p : Position) :
    skip .open p (c :: rest) =
      if Text.isBlank c then skip .open (p.after c) rest else .ok (p, c :: rest) := by
  rw [skip]
  · exact hline
  · exact hblock

theorem skip_blank {c : Char} (h : Text.isBlank c = true) (p : Position) (rest : List Char) :
    skip .open p (c :: rest) = skip .open (p.after c) rest := by
  have hc : c ≠ '/' := by
    rintro rfl
    exact absurd h (by decide)
  rw [skip_open_cons (fun _ h _ => hc h) (fun _ h _ => hc h), if_pos h]

theorem skip_line_cons (p : Position) (c : Char) (rest : List Char) :
    skip .line p (c :: rest) = skip (if c == '\n' then .open else .line) (p.after c) rest := rfl

theorem skip_block_cons {c : Char} {rest : List Char}
    (h : ∀ r, c = '*' → rest = '/' :: r → False) (start p : Position) :
    skip (.block start) p (c :: rest) = skip (.block start) (p.after c) rest := by
  rw [skip]
  exact h

/-! ## Comments -/

/-- A comment to the end of the line is skipped up to the line break. -/
theorem skip_line (p : Position) (s : List Char) :
    skip .line p s =
      skip .open (p.afterAll (s.takeWhile (· != '\n'))) (s.dropWhile (· != '\n')) := by
  induction s generalizing p with
  | nil => rfl
  | cons c s ih =>
    by_cases hc : c = '\n'
    · subst hc
      have hb : Text.isBlank '\n' = true := by decide
      simp [skip_line_cons, skip_blank hb, Position.afterAll]
    · have hb : (c == '\n') = false := by simpa using hc
      have hn : (c != '\n') = true := by simpa using hc
      rw [skip_line_cons, hb, if_neg Bool.false_ne_true, ih, List.takeWhile_cons,
        List.dropWhile_cons, if_pos hn, if_pos hn]
      rfl

/-- A text has no end of a block comment, or a first one. -/
theorem blockEnd_cases (s : List Char) :
    ¬ blockEnd <:+: s ∨
      ∃ body rest, s = body ++ blockEnd ++ rest ∧ ¬ blockEnd <:+: body ++ ['*'] := by
  induction s with
  | nil => exact .inl (by simp [blockEnd])
  | cons c s ih =>
    by_cases hp : blockEnd <+: c :: s
    · obtain ⟨rest, hr⟩ := hp
      refine .inr ⟨[], rest, hr.symm, ?_⟩
      decide
    · rcases ih with hno | ⟨body, rest, rfl, hfirst⟩
      · refine .inl fun h => ?_
        rcases List.infix_cons_iff.1 h with h | h
        · exact hp h
        · exact hno h
      · refine .inr ⟨c :: body, rest, rfl, fun h => ?_⟩
        rcases List.infix_cons_iff.1 h with ⟨more, hm⟩ | h
        · -- the two characters at the front are those of the whole text
          refine hp ⟨more ++ '/' :: rest, ?_⟩
          rw [← List.append_assoc, hm]
          simp [blockEnd]
        · exact hfirst h

/-- A block comment is skipped up to its first end. -/
theorem skip_block_of_end {body : List Char} (h : ¬ blockEnd <:+: body ++ ['*'])
    (start p : Position) (rest : List Char) :
    skip (.block start) p (body ++ blockEnd ++ rest) =
      skip .open (p.afterAll (body ++ blockEnd)) rest := by
  induction body generalizing p with
  | nil => rfl
  | cons c body ih =>
    have hbody : ¬ blockEnd <:+: body ++ ['*'] := fun hi => h (List.infix_cons hi)
    have hc : ∀ r, c = '*' → body ++ blockEnd ++ rest = '/' :: r → False := by
      rintro r rfl hr
      cases body with
      | nil => simp [blockEnd] at hr
      | cons d body =>
        obtain rfl := (List.cons.inj hr).1
        exact h ⟨[], body ++ ['*'], rfl⟩
    rw [List.cons_append, List.cons_append, skip_block_cons hc]
    exact ih hbody (p.after c)

theorem skip_block_of_no_end {s : List Char} (h : ¬ blockEnd <:+: s) (start p : Position) :
    skip (.block start) p s = .error ⟨.openComment, start⟩ := by
  induction s generalizing p with
  | nil => rfl
  | cons c s ih =>
    have hs : ¬ blockEnd <:+: s := fun hi => h (List.infix_cons hi)
    have hc : ∀ r, c = '*' → s = '/' :: r → False := by
      rintro r rfl rfl
      exact h ⟨[], r, rfl⟩
    rw [skip_block_cons hc]
    exact ih hs (p.after c)

/-! ## Quoted texts -/

theorem quotedBody_of_decodes {raw body : List Char} (h : Decodes raw body) (p : Position)
    (rest : List Char) :
    quotedBody p (raw ++ '\'' :: rest) = some (body, p.afterAll (raw ++ ['\'']), rest) := by
  induction h generalizing p with
  | nil => rfl
  | @plain c raw body hq hb _ ih =>
    rw [List.cons_append, quotedBody]
    · rw [ih]
      rfl
    · exact hq
    · exact fun h _ => hb h
    · exact fun _ _ h _ => hb h
  | @escaped c raw body _ ih =>
    have hstep : quotedBody p ('\\' :: c :: (raw ++ '\'' :: rest)) =
        (quotedBody ((p.after '\\').after c) (raw ++ '\'' :: rest)).map
          fun found => (unescape c :: found.1, found.2) := rfl
    rw [List.cons_append, List.cons_append, hstep, ih]
    rfl

theorem decodes_of_quotedBody {p q : Position} {s body rest : List Char}
    (h : quotedBody p s = some (body, q, rest)) :
    ∃ raw, s = raw ++ '\'' :: rest ∧ Decodes raw body := by
  fun_induction quotedBody p s generalizing body with
  | case1 => simp at h
  | case2 p rest' =>
    simp only [Option.some.injEq, Prod.mk.injEq] at h
    obtain ⟨rfl, -, rfl⟩ := h
    exact ⟨[], rfl, .nil⟩
  | case3 => simp at h
  | case4 p c rest' ih =>
    obtain ⟨⟨body', q', r'⟩, hb, he⟩ := Option.map_eq_some_iff.1 h
    simp only [Prod.mk.injEq] at he
    obtain ⟨rfl, rfl, rfl⟩ := he
    obtain ⟨raw, rfl, hd⟩ := ih hb
    exact ⟨'\\' :: c :: raw, rfl, .escaped hd⟩
  | case5 p c rest' hquote hlast hescape ih =>
    obtain ⟨⟨body', q', r'⟩, hb, he⟩ := Option.map_eq_some_iff.1 h
    simp only [Prod.mk.injEq] at he
    obtain ⟨rfl, rfl, rfl⟩ := he
    obtain ⟨raw, rfl, hd⟩ := ih hb
    have hc : c ≠ '\\' := by
      rintro rfl
      cases raw with
      | nil => exact hescape _ _ rfl rfl
      | cons d raw => exact hescape _ _ rfl rfl
    exact ⟨c :: raw, rfl, .plain hquote hc hd⟩

/-! ## One segment -/

/-- A character that begins no separator in front of the given text. -/
structure Starts (c : Char) (rest : List Char) : Prop where
  blank : Text.isBlank c = false
  line : ∀ r, c :: rest ≠ '/' :: '/' :: r
  block : ∀ r, c :: rest ≠ '/' :: '*' :: r

theorem Starts.of_ne {c : Char} {rest : List Char} (hb : Text.isBlank c = false) (hc : c ≠ '/') :
    Starts c rest :=
  ⟨hb, fun _ h => hc (List.cons.inj h).1, fun _ h => hc (List.cons.inj h).1⟩

theorem Starts.of_mem_symbols {c : Char} {rest : List Char} (h : c ∈ symbols) : Starts c rest := by
  have hall : symbols.all (fun d => !Text.isBlank d && d != '/') = true := by decide
  have hc := List.all_eq_true.1 hall c h
  simp only [Bool.and_eq_true, Bool.not_eq_true', bne_iff_ne, ne_eq] at hc
  exact .of_ne hc.1 hc.2

theorem Starts.of_isWordChar {c : Char} {rest : List Char} (h : isWordChar c = true) :
    Starts c rest := by
  refine .of_ne ?_ ?_
  · cases hb : Text.isBlank c with
    | false => rfl
    | true =>
      rw [isWordChar_of_isBlank hb] at h
      exact absurd h Bool.false_ne_true
  · rintro rfl
    exact absurd h (by decide)

theorem Starts.skip_eq {c : Char} {rest : List Char} (h : Starts c rest) (p : Position) :
    skip .open p (c :: rest) = .ok (p, c :: rest) := by
  have hline : ∀ r, c = '/' → rest = '/' :: r → False := by
    rintro r rfl rfl
    exact h.line r rfl
  have hblock : ∀ r, c = '/' → rest = '*' :: r → False := by
    rintro r rfl rfl
    exact h.block r rfl
  rw [skip_open_cons hline hblock, if_neg (by simp [h.blank])]

theorem Starts.next_of_token {c : Char} {rest r : List Char} {p q : Position} {t : Token}
    (h : Starts c rest) (ht : token p (c :: rest) = .ok (some (t, q, r))) :
    next p (c :: rest) = .ok (.inr (t, q, r)) := by
  simp only [next, h.skip_eq p, ht]

theorem Starts.next_of_error {c : Char} {rest : List Char} {p : Position} {e : ScanError}
    (h : Starts c rest) (ht : token p (c :: rest) = .error e) : next p (c :: rest) = .error e := by
  simp only [next, h.skip_eq p, ht]

theorem tokensFrom_of_skip {front rest : List Char} {seg : Segment} (hl : seg.lexeme = none)
    (hskip : skip .open (.behind front) (seg.chars ++ rest) =
      skip .open ((Position.behind front).afterAll seg.chars) rest) :
    tokensFrom (.behind front) (seg.chars ++ rest) =
      (tokensOf front [seg] ++ (tokensFrom (.behind (front ++ seg.chars)) rest).1,
        (tokensFrom (.behind (front ++ seg.chars)) rest).2) := by
  have hnext : next (.behind front) (seg.chars ++ rest) =
      next (.behind (front ++ seg.chars)) rest := by
    simp only [next, hskip, Position.behind_append]
  rw [tokensFrom_congr hnext, tokensOf_singleton, hl]
  rfl

theorem tokensFrom_of_next {front rest : List Char} {seg : Segment} {l : Lexeme}
    (hl : seg.lexeme = some l)
    (hnext : next (.behind front) (seg.chars ++ rest) =
      .ok (.inr (⟨l, .behind front⟩, (Position.behind front).afterAll seg.chars, rest))) :
    tokensFrom (.behind front) (seg.chars ++ rest) =
      (tokensOf front [seg] ++ (tokensFrom (.behind (front ++ seg.chars)) rest).1,
        (tokensFrom (.behind (front ++ seg.chars)) rest).2) := by
  rw [tokensFrom_of_token hnext, Position.behind_append, tokensOf_singleton, hl]
  rfl

theorem skip_lineComment {body rest : List Char} (h : '\n' ∉ body)
    (hr : rest = [] ∨ ∃ more, rest = '\n' :: more) (p : Position) :
    skip .open p ('/' :: '/' :: body ++ rest) =
      skip .open (p.afterAll ('/' :: '/' :: body)) rest := by
  have hbody : ∀ c ∈ body, (c != '\n') = true := by
    intro c hc
    rw [bne_iff_ne]
    rintro rfl
    exact h hc
  have htake : (body ++ rest).takeWhile (· != '\n') = body := by
    rw [List.takeWhile_append_of_pos hbody]
    rcases hr with rfl | ⟨more, rfl⟩ <;> simp
  have hdrop : (body ++ rest).dropWhile (· != '\n') = rest := by
    rw [List.dropWhile_append_of_pos hbody]
    rcases hr with rfl | ⟨more, rfl⟩ <;> simp
  have hline := skip_line ((p.after '/').after '/') (body ++ rest)
  rw [htake, hdrop] at hline
  exact hline

theorem token_word {c : Char} {w rest : List Char} (h : ∀ d ∈ c :: w, isWordChar d = true)
    (hr : ∀ d ∈ rest.head?, isWordChar d = false) (p : Position) :
    token p (c :: w ++ rest) =
      .ok (some (⟨.text (String.ofList (c :: w)) false, p⟩, p.afterAll (c :: w), rest)) := by
  have hc := h c List.mem_cons_self
  have hw : ∀ d ∈ w, isWordChar d = true := fun d hd => h d (List.mem_cons_of_mem _ hd)
  have hs : ¬ symbols.contains c = true := by
    intro hs
    rw [isWordChar_of_mem_symbols (List.contains_iff_mem.1 hs)] at hc
    exact absurd hc Bool.false_ne_true
  have hq : ¬ (c == '\'') = true := by
    intro hq
    rw [eq_of_beq hq] at hc
    exact absurd hc (by decide)
  have htake : (w ++ rest).takeWhile isWordChar = w := by
    rw [List.takeWhile_append_of_pos hw]
    cases rest with
    | nil => simp
    | cons d rest => simp [hr d rfl]
  have hdrop : (w ++ rest).dropWhile isWordChar = rest := by
    rw [List.dropWhile_append_of_pos hw]
    cases rest with
    | nil => simp
    | cons d rest => simp [hr d rfl]
  rw [List.cons_append, token, if_neg hs, if_neg hq, if_pos hc, htake, hdrop]

/-- A segment that fits is taken: its token comes first, and the scan goes on behind it. -/
theorem Segment.Fits.tokensFrom_eq {front rest : List Char} {s : Segment} (h : s.Fits front rest) :
    tokensFrom (.behind front) (s.chars ++ rest) =
      (tokensOf front [s] ++ (tokensFrom (.behind (front ++ s.chars)) rest).1,
        (tokensFrom (.behind (front ++ s.chars)) rest).2) := by
  cases h with
  | blank hb => exact tokensFrom_of_skip rfl (skip_blank hb _ rest)
  | lineComment hn hr => exact tokensFrom_of_skip rfl (skip_lineComment hn hr _)
  | blockComment hn => exact tokensFrom_of_skip rfl (skip_block_of_end hn _ _ rest)
  | symbol hs =>
    refine tokensFrom_of_next rfl ((Starts.of_mem_symbols hs).next_of_token ?_)
    rw [token, if_pos (List.contains_iff_mem.2 hs)]
    rfl
  | @word w _ hne hw _ hr =>
    obtain ⟨c, w, rfl⟩ := List.exists_cons_of_ne_nil hne
    have hstarts : Starts c (w ++ rest) := .of_isWordChar (hw c List.mem_cons_self)
    exact tokensFrom_of_next rfl (hstarts.next_of_token (token_word hw hr _))
  | @quoted raw body _ hd =>
    have hstarts : Starts '\'' (raw ++ ['\''] ++ rest) := .of_ne (by decide) (by decide)
    have hbody := quotedBody_of_decodes hd ((Position.behind front).after '\'') rest
    refine tokensFrom_of_next rfl (hstarts.next_of_token ?_)
    rw [token, if_neg (by decide), if_pos (beq_self_eq_true _), List.append_assoc,
      List.singleton_append, hbody]
    rfl

theorem Segment.Fits.chars_ne_nil {front rest : List Char} {s : Segment} (h : s.Fits front rest) :
    s.chars ≠ [] := by
  cases h with
  | word hne => exact hne
  | blank | lineComment | blockComment | symbol | quoted => exact List.cons_ne_nil _ _

/-! ## One step -/

/-- What a text gives from a position on: one segment more, or a fault. -/
inductive Step (front s : List Char) : Prop
  | segment (seg : Segment) (rest : List Char) (hs : s = seg.chars ++ rest) (hne : seg.chars ≠ [])
      (h : seg.Fits front rest)
      (ht : tokensFrom (.behind front) s =
        (tokensOf front [seg] ++ (tokensFrom (.behind (front ++ seg.chars)) rest).1,
          (tokensFrom (.behind (front ++ seg.chars)) rest).2))
  | fault (f : ScanFault) (h : BeginsFault f s)
      (ht : tokensFrom (.behind front) s = ([], .error ⟨f, .behind front⟩))

theorem Step.of_fits {front rest : List Char} {seg : Segment} (h : seg.Fits front rest) :
    Step front (seg.chars ++ rest) :=
  .segment seg rest rfl h.chars_ne_nil h h.tokensFrom_eq

theorem Step.of_lineComment {front : List Char} (r : List Char) :
    Step front ('/' :: '/' :: r) := by
  have hsplit : '/' :: '/' :: r.takeWhile (· != '\n') ++ r.dropWhile (· != '\n') =
      '/' :: '/' :: r := by
    rw [List.cons_append, List.cons_append, List.takeWhile_append_dropWhile]
  have hbody : '\n' ∉ r.takeWhile (· != '\n') := by
    intro h
    exact absurd (List.all_eq_true.1 List.all_takeWhile _ h) (by decide)
  have hrest : r.dropWhile (· != '\n') = [] ∨ ∃ more, r.dropWhile (· != '\n') = '\n' :: more := by
    have hhead := List.head?_dropWhile_not (· != '\n') r
    cases hd : r.dropWhile (· != '\n') with
    | nil => exact .inl rfl
    | cons c more =>
      rw [hd] at hhead
      have hc : c = '\n' := by simpa using hhead
      exact .inr ⟨more, by rw [hc]⟩
  rw [← hsplit]
  exact Step.of_fits (.lineComment hbody hrest)

theorem Step.of_blockComment {front : List Char} (r : List Char) :
    Step front ('/' :: '*' :: r) := by
  rcases blockEnd_cases r with hno | ⟨body, rest, rfl, hfirst⟩
  · refine .fault .openComment (.openComment hno) (tokensFrom_of_error ?_)
    have hskip : skip .open (.behind front) ('/' :: '*' :: r) =
        .error ⟨.openComment, .behind front⟩ := skip_block_of_no_end hno _ _
    simp only [next, hskip]
  · exact Step.of_fits (.blockComment hfirst)

theorem Step.of_quote {front : List Char} (rest : List Char) : Step front ('\'' :: rest) := by
  have hstarts : Starts '\'' rest := .of_ne (by decide) (by decide)
  cases hbody : quotedBody ((Position.behind front).after '\'') rest with
  | none =>
    refine .fault .openQuote (.openQuote ?_) (tokensFrom_of_error (hstarts.next_of_error ?_))
    · rintro raw body more hd rfl
      rw [quotedBody_of_decodes hd] at hbody
      exact absurd hbody (by simp)
    · rw [token, if_neg (by decide), if_pos (beq_self_eq_true _), hbody]
  | some found =>
    obtain ⟨body, q, more⟩ := found
    obtain ⟨raw, rfl, hd⟩ := decodes_of_quotedBody hbody
    have hsplit : '\'' :: raw ++ ['\''] ++ more = '\'' :: (raw ++ '\'' :: more) := by simp
    rw [← hsplit]
    exact Step.of_fits (.quoted hd)

theorem Step.of_isWordChar {front rest : List Char} {c : Char} (hap : Apart front (c :: rest))
    (hw : isWordChar c = true) : Step front (c :: rest) := by
  have hsplit : (c :: rest.takeWhile isWordChar) ++ rest.dropWhile isWordChar = c :: rest := by
    rw [List.cons_append, List.takeWhile_append_dropWhile]
  have hword : ∀ d ∈ c :: rest.takeWhile isWordChar, isWordChar d = true := by
    intro d hd
    rcases List.mem_cons.1 hd with rfl | hd
    · exact hw
    · exact List.all_eq_true.1 List.all_takeWhile d hd
  have hleft : ∀ d ∈ front.getLast?, isWordChar d = false := by
    intro d hd
    cases hwd : isWordChar d with
    | false => rfl
    | true =>
      rw [hap d hd c rfl hwd] at hw
      exact absurd hw Bool.false_ne_true
  have hright : ∀ d ∈ (rest.dropWhile isWordChar).head?, isWordChar d = false := by
    intro d hd
    have := List.head?_dropWhile_not isWordChar rest
    rw [Option.mem_def.1 hd] at this
    exact this
  rw [← hsplit]
  exact Step.of_fits (.word (List.cons_ne_nil _ _) hword hleft hright)

theorem Starts.step_illegal {front rest : List Char} {c : Char} (h : Starts c rest)
    (hs : ¬ symbols.contains c = true) (hq : c ≠ '\'') (hw : isWordChar c = false) :
    Step front (c :: rest) := by
  have hnext : c = '/' → ∀ d ∈ rest.head?, d ≠ '/' ∧ d ≠ '*' := by
    rintro rfl d hd
    cases rest with
    | nil => simp at hd
    | cons e rest =>
      obtain rfl : e = d := by simpa using hd
      refine ⟨?_, ?_⟩
      · rintro rfl
        exact h.line rest rfl
      · rintro rfl
        exact h.block rest rfl
  have hs' : c ∉ symbols := fun hm => hs (List.contains_iff_mem.2 hm)
  refine .fault (.illegal c) (.illegal h.blank hs' hq hw hnext)
    (tokensFrom_of_error (h.next_of_error ?_))
  rw [token, if_neg hs, if_neg (by simpa using hq), if_neg (by simp [hw])]

/-- A scan takes one segment from a text, or meets a fault where it is. -/
theorem step_of_apart {front s : List Char} (hne : s ≠ []) (hap : Apart front s) :
    Step front s := by
  obtain ⟨c, rest, rfl⟩ := List.exists_cons_of_ne_nil hne
  by_cases hline : ∃ r, c :: rest = '/' :: '/' :: r
  · obtain ⟨r, hr⟩ := hline
    rw [hr]
    exact Step.of_lineComment r
  by_cases hblock : ∃ r, c :: rest = '/' :: '*' :: r
  · obtain ⟨r, hr⟩ := hblock
    rw [hr]
    exact Step.of_blockComment r
  cases hb : Text.isBlank c with
  | true => exact Step.of_fits (.blank hb)
  | false =>
    by_cases hs : symbols.contains c = true
    · exact Step.of_fits (.symbol (List.contains_iff_mem.1 hs))
    by_cases hq : c = '\''
    · subst hq
      exact Step.of_quote rest
    cases hw : isWordChar c with
    | true => exact Step.of_isWordChar hap hw
    | false =>
      have hstarts : Starts c rest := ⟨hb, not_exists.1 hline, not_exists.1 hblock⟩
      exact hstarts.step_illegal hs hq hw

/-! ## The run -/

/-- A scan from behind a text segments all that follows, or what is in front of its fault. -/
theorem tokensFrom_segmentation (front s : List Char) (hap : Apart front s) :
    ∃ segs rest, s = charsOf segs ++ rest ∧ Segmentation front segs rest ∧
      (tokensFrom (.behind front) s).1 = tokensOf front segs ∧
      ((rest = [] ∧ (tokensFrom (.behind front) s).2 = .ok (.behind (front ++ s))) ∨
        ∃ fault, BeginsFault fault rest ∧
          (tokensFrom (.behind front) s).2 = .error ⟨fault, .behind (front ++ charsOf segs)⟩) := by
  by_cases hne : s = []
  · subst hne
    have hend : tokensFrom (.behind front) [] = ([], .ok (.behind front)) :=
      tokensFrom_of_end rfl
    exact ⟨[], [], rfl, .nil, by rw [hend]; rfl, .inl ⟨rfl, by rw [hend, List.append_nil]⟩⟩
  cases step_of_apart hne hap with
  | fault f h ht =>
    refine ⟨[], s, rfl, .nil, by rw [ht]; rfl, .inr ⟨f, h, ?_⟩⟩
    rw [ht, charsOf, List.flatMap_nil, List.append_nil]
  | segment seg rest hs hn h ht =>
    have hshorter : rest.length < s.length := by
      have := List.length_pos_iff.2 hn
      rw [hs, List.length_append]
      omega
    obtain ⟨segs, last, hrest, hsegs, htokens, hstop⟩ :=
      tokensFrom_segmentation (front ++ seg.chars) rest h.apart
    have hchars : charsOf (seg :: segs) = seg.chars ++ charsOf segs := rfl
    refine ⟨seg :: segs, last, ?_, .cons (hrest ▸ h) hsegs, ?_, ?_⟩
    · rw [hs, hrest, hchars, List.append_assoc]
    · rw [ht, htokens]
      simp [tokensOf]
    · rw [ht, hs, hchars, ← List.append_assoc, ← List.append_assoc]
      exact hstop
termination_by s.length

/-- Segments that fit give their tokens: the scan of the text that they are has no fault. -/
theorem Segmentation.tokensFrom_eq {front : List Char} {segs : List Segment}
    (h : Segmentation front segs []) :
    tokensFrom (.behind front) (charsOf segs) =
      (tokensOf front segs, .ok (.behind (front ++ charsOf segs))) := by
  induction segs generalizing front with
  | nil =>
    rw [charsOf, List.flatMap_nil, List.append_nil]
    exact tokensFrom_of_end rfl
  | cons s more ih =>
    cases h with
    | cons hfits hmore =>
      rw [List.append_nil] at hfits
      have hchars : charsOf (s :: more) = s.chars ++ charsOf more := rfl
      rw [hchars, hfits.tokensFrom_eq, ih hmore, ← List.append_assoc]
      simp [tokensOf]

theorem Segmentation.scan_eq {segs : List Segment} (h : Segmentation [] segs []) :
    Token.scan (charsOf segs) = ⟨tokensOf [] segs ++ [⟨.ending, .behind (charsOf segs)⟩], none⟩ :=
  scan_eq_complete_iff.2 h.tokensFrom_eq

/-- The scan of a text, by the segments up to its end or up to the fault. -/
theorem scan_eq (text : List Char) :
    ∃ segs rest, text = charsOf segs ++ rest ∧ Segmentation [] segs rest ∧
      ((rest = [] ∧ Token.scan text = ⟨tokensOf [] segs ++ [⟨.ending, .behind text⟩], none⟩) ∨
        ∃ fault, BeginsFault fault rest ∧
          Token.scan text = ⟨tokensOf [] segs, some ⟨fault, .behind (charsOf segs)⟩⟩) := by
  obtain ⟨segs, rest, htext, hsegs, htokens, hstop⟩ :=
    tokensFrom_segmentation [] text (fun c hc => by simp at hc)
  have hstart : Position.behind [] = .start := rfl
  rw [hstart] at htokens hstop
  refine ⟨segs, rest, htext, hsegs, ?_⟩
  rcases hstop with ⟨hrest, hend⟩ | ⟨fault, hfault, herror⟩
  · exact .inl ⟨hrest, scan_eq_complete_iff.2 (Prod.ext htokens hend)⟩
  · refine .inr ⟨fault, hfault, ?_⟩
    have hrun : tokensFrom .start text = (tokensOf [] segs, .error ⟨fault, .behind (charsOf segs)⟩) :=
      Prod.ext htokens herror
    simp only [Token.scan, hrun]

/-! ## Where tokens and faults stand -/

/-- A token that a text holds: one of its segments, at the line and the column that the segments in
front of it give, or the ending behind all of them. -/
inductive StandsIn (text : List Char) : Token → Prop
  | segment {front behind : List Segment} {s : Segment} {l : Lexeme} {rest : List Char}
      (ht : text = charsOf (front ++ s :: behind) ++ rest)
      (hs : Segmentation [] (front ++ s :: behind) rest) (hl : s.lexeme = some l) :
      StandsIn text ⟨l, .behind (charsOf front)⟩
  | ending {segs : List Segment} (ht : text = charsOf segs) (hs : Segmentation [] segs []) :
      StandsIn text ⟨.ending, .behind text⟩

theorem exists_of_mem_tokensOf {front : List Char} {segs : List Segment} {t : Token}
    (h : t ∈ tokensOf front segs) :
    ∃ a s b l, segs = a ++ s :: b ∧ s.lexeme = some l ∧ t = ⟨l, .behind (front ++ charsOf a)⟩ := by
  induction segs generalizing front with
  | nil => simp [tokensOf] at h
  | cons s more ih =>
    rw [tokensOf, List.mem_append] at h
    rcases h with h | h
    · obtain ⟨l, hl, rfl⟩ : ∃ l, s.lexeme = some l ∧ (⟨l, .behind front⟩ : Token) = t := by
        simpa using h
      exact ⟨[], s, more, l, rfl, hl, by rw [charsOf, List.flatMap_nil, List.append_nil]⟩
    · obtain ⟨a, u, b, l, rfl, hl, rfl⟩ := ih h
      exact ⟨s :: a, u, b, l, rfl, hl, by rw [List.append_assoc]; rfl⟩

theorem standsIn_of_scan {text : List Char} {t : Token} (h : t ∈ (Token.scan text).tokens) :
    StandsIn text t := by
  obtain ⟨segs, rest, htext, hsegs, hscan⟩ := scan_eq text
  have hsegment : t ∈ tokensOf [] segs → StandsIn text t := by
    intro ht
    obtain ⟨a, s, b, l, rfl, hl, rfl⟩ := exists_of_mem_tokensOf ht
    exact .segment htext hsegs hl
  rcases hscan with ⟨rfl, hscan⟩ | ⟨fault, -, hscan⟩ <;> rw [hscan] at h
  · rcases List.mem_append.1 h with ht | ht
    · exact hsegment ht
    · rw [List.append_nil] at htext
      obtain rfl := List.mem_singleton.1 ht
      exact .ending htext hsegs
  · exact hsegment h

/-- A fault is where no segment begins. -/
theorem beginsFault_of_scan {text : List Char} {e : ScanError}
    (h : (Token.scan text).fault = some e) :
    ∃ segs rest, text = charsOf segs ++ rest ∧ Segmentation [] segs rest ∧
      BeginsFault e.fault rest ∧ e.position = .behind (charsOf segs) := by
  obtain ⟨segs, rest, htext, hsegs, hscan⟩ := scan_eq text
  rcases hscan with ⟨rfl, hscan⟩ | ⟨fault, hfault, hscan⟩ <;> rw [hscan] at h
  · simp at h
  · obtain rfl := Option.some.inj h
    exact ⟨segs, rest, htext, hsegs, hfault, rfl⟩

end Scan

open Scan in
/-- **A scan segments its text.** Without a fault the whole text is separators and the characters of
its tokens, and the ending stands behind it; with a fault that is what is in front of the fault,
where no segment begins. Each token, the ending and the fault are at the line and the column that
the text in front of them gives. -/
theorem scan_segmentation (text : List Char) :
    (∃ segs, text = charsOf segs ∧ Segmentation [] segs [] ∧
      Token.scan text = ⟨tokensOf [] segs ++ [⟨.ending, .behind text⟩], none⟩) ∨
    ∃ segs rest fault, text = charsOf segs ++ rest ∧ Segmentation [] segs rest ∧
      BeginsFault fault rest ∧
      Token.scan text = ⟨tokensOf [] segs, some ⟨fault, .behind (charsOf segs)⟩⟩ := by
  obtain ⟨segs, rest, htext, hsegs, hscan⟩ := scan_eq text
  rcases hscan with ⟨rfl, hscan⟩ | ⟨fault, hfault, hscan⟩
  · rw [List.append_nil] at htext
    exact .inl ⟨segs, htext, hsegs, hscan⟩
  · exact .inr ⟨segs, rest, fault, htext, hsegs, hfault, hscan⟩

end Cnd
