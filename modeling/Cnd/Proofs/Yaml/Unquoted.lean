import Cnd.Proofs.Yaml.Heard
import Cnd.Proofs.Yaml.Quoted

/-!
A text without quotes is read as it was (`plain_plain`).

Such a text is words with blanks between them, and where it is written a new line may stand for a
blank between two words (`Wrapped`). A word is read up to the gap behind it: no colon in it stands
before a gap, and no hash at its start.
-/

namespace Cnd.Yaml.Scalar

variable {indent : Nat} {split : Bool} {c c' : Cursor} {s t u w : List Char} {ch : Char}

/-! ## How a text is written -/

/-- A text and the same text over several lines. -/
inductive Wrapped (indent : Nat) : List Char → List Char → Prop
  | word (w : List Char) (hne : w ≠ []) (hw : ' ' ∉ w) : Wrapped indent w w
  | blanks (w : List Char) (hne : w ≠ []) (hw : ' ' ∉ w) (k : Nat) {s t : List Char}
      (more : Wrapped indent s t) (hs : s.head? ≠ some ' ') :
      Wrapped indent (w ++ (Write.blanks (k + 1) ++ s)) (w ++ (Write.blanks (k + 1) ++ t))
  | line (w : List Char) (hne : w ≠ []) (hw : ' ' ∉ w) {s t : List Char}
      (more : Wrapped indent s t) (hs : s.head? ≠ some ' ') :
      Wrapped indent (w ++ (' ' :: s)) (w ++ (Write.newLine indent ++ t))

/-- The rest of a text behind a part of a word, and behind a word and blanks; a text of its own. -/
structure Wraps (indent : Nat) (split : Bool) (s : List Char) : Prop where
  behindWord : ∀ (w : List Char) (column : Nat), w ≠ [] → ' ' ∉ w →
    Wrapped indent (w ++ s) (w ++ Write.plain indent split column w.getLast? s)
  behindBlanks : ∀ (w : List Char) (k column : Nat), w ≠ [] → ' ' ∉ w → s ≠ [] →
    Wrapped indent (w ++ (Write.blanks (k + 1) ++ s))
      (w ++ (Write.blanks (k + 1) ++ Write.plain indent split column (some ' ') s))
  whole : ∀ (column : Nat) (previous : Option Char), s ≠ [] → s.head? ≠ some ' ' →
    Wrapped indent s (Write.plain indent split column previous s)

theorem plain_cons (hch : ch ≠ ' ') (column : Nat) (previous : Option Char) :
    Write.plain indent split column previous (ch :: s) =
      ch :: Write.plain indent split (column + 1) (some ch) s := by
  rw [Write.plain, if_neg (by simp [hch])]

theorem blanks_append_cons (k : Nat) (s : List Char) :
    Write.blanks k ++ ' ' :: s = Write.blanks (k + 1) ++ s := by
  rw [Write.blanks, Write.blanks, List.replicate_succ', List.append_assoc, List.singleton_append]

theorem wraps_of_getLast? (hlast : s.getLast? ≠ some ' ') : Wraps indent split s := by
  induction s with
  | nil =>
    refine ⟨fun w _ hne hw => ?_, fun _ _ _ _ _ h => absurd rfl h, fun _ _ h => absurd rfl h⟩
    simpa [Write.plain] using Wrapped.word w hne hw
  | cons ch s ih =>
    have hs : Wraps indent split s := ih (by cases s <;> simp_all)
    by_cases hch : ch = ' '
    · subst hch
      have hne : s ≠ [] := by
        rintro rfl
        simp at hlast
      refine ⟨fun w column hw hword => ?_, fun w k column hw hword _ => ?_, fun _ _ _ h => absurd rfl h⟩
      · rw [Write.plain]
        split
        · rename_i hends
          have halone : s.head? ≠ some ' ' := fun h => by simp [h] at hends
          exact .line w hw hword (hs.whole _ _ hne halone) halone
        · exact hs.behindBlanks w 0 _ hw hword hne
      · rw [Write.plain, if_neg (by simp), blanks_append_cons, blanks_append_cons]
        exact hs.behindBlanks w (k + 1) _ hw hword hne
    · have hblank : ' ' ∉ [ch] := by simpa using Ne.symm hch
      have hwhole : ∀ (column : Nat) (previous : Option Char),
          Wrapped indent (ch :: s) (Write.plain indent split column previous (ch :: s)) :=
        fun column previous => by
          rw [plain_cons hch]
          exact hs.behindWord [ch] _ (by simp) hblank
      refine ⟨fun w column _ hword => ?_, fun w k column hw hword _ => ?_, fun _ _ _ _ => hwhole _ _⟩
      · have hmore := hs.behindWord (w ++ [ch]) (column + 1) (by simp) (by simp [hword, Ne.symm hch])
        rw [List.getLast?_concat, List.append_assoc, List.append_assoc] at hmore
        rw [plain_cons hch]
        exact hmore
      · exact .blanks w hw hword k (hwhole _ _) (by simpa using hch)

/-! ## How it is read -/

/-- A word is read up to what stands behind it in the document, as its marks are in the text. -/
theorem plainRun_word (hw : ∀ ch ∈ w, IsInk ch) {previous : Char}
    (hm : Write.holdsMark previous (w ++ s) = false) (hs : Write.gapAhead s = true) :
    plainRun false (w ++ u) = w.length + plainRun false u := by
  induction w generalizing previous with
  | nil => simp
  | cons ch w ih =>
    obtain ⟨hch, hrest⟩ := List.forall_mem_cons.1 hw
    simp only [List.cons_append, Write.holdsMark, Bool.or_eq_false_iff] at hm
    have hstays : endsPlain false ch (w ++ u) = false := by
      have hcolon : ch = ':' → isGap ((w ++ u).headD endChar) = false := by
        rintro rfl
        cases w with
        | nil => simp [hs] at hm
        | cons d w => exact (hrest d (List.mem_cons_self ..)).not_isGap
      simp only [endsPlain, hch.not_isGap, Bool.false_and, Bool.or_false, Bool.false_or,
        Bool.and_eq_false_imp, beq_iff_eq]
      exact hcolon
    rw [List.cons_append, plainRun, hstays, if_neg Bool.false_ne_true, ih hrest hm.2, List.length_cons]
    omega

theorem holdsMark_append {previous : Char} (h : Write.holdsMark previous (w ++ ' ' :: s) = false) :
    Write.holdsMark ' ' s = false := by
  induction w generalizing previous with
  | nil =>
    simp only [List.nil_append, Write.holdsMark, Bool.or_eq_false_iff] at h
    exact h.2
  | cons ch w ih =>
    simp only [List.cons_append, Write.holdsMark, Bool.or_eq_false_iff] at h
    exact ih h.2

/-- A plain text from a place on, whether a line break follows it, and the place behind that. -/
def ReadsPlain (least : Int) (c : Cursor) (text : List Char) (crossed : Bool) (c' : Cursor) : Prop :=
  ∀ fuel before acc, c.rest.length ≤ fuel →
    plainFrom false least fuel c before acc = (acc ++ text, crossed, c')

/-- A word, up to the gap behind it. -/
theorem plainFrom_word {least : Int} {fuel : Nat} {before : Bool} {acc : List Char} (hne : w ≠ [])
    (h : c.rest = w ++ u) (hhash : w.head? ≠ some '#') (hlen : plainRun false (w ++ u) = w.length) :
    let gap := plainGap (c.advance w.length)
    plainFrom false least (fuel + 1) c before acc =
      if gap.text.isEmpty || gap.behind.peek == '#' || decide (gap.behind.column < least) ||
          plainRun false gap.behind.rest == 0 then (acc ++ w, gap.crossed, gap.behind)
      else plainFrom false least fuel gap.behind gap.crossed (acc ++ w ++ gap.text) := by
  intro gap
  have hpeek : (c.peek == '#') = false := by
    obtain ⟨ch, w, rfl⟩ := List.exists_cons_of_ne_nil hne
    rw [Cursor.peek_cons h, beq_eq_false_iff_ne]
    simpa using hhash
  have hzero : (w.length == 0) = false := by simpa using hne
  rw [plainFrom, h]
  simp only [hlen, hpeek, hzero, Bool.or_self, Bool.false_eq_true, if_false, List.take_left,
    Bool.not_false, Bool.true_and, gap]
  grind

theorem plainGap_blanks {k : Nat} (h : c.rest = Write.blanks k ++ t) (ht : StopsAt isGap t) :
    plainGap c = ⟨Write.blanks k, false, c.advance k⟩ := by
  have hspace : StopsAt (· == ' ') t := ht.imp fun d hd => by simp [isGap, beq_iff_eq.1 hd]
  have hbreak : StopsAt isBreak (c.advance k).rest := by
    rw [Cursor.rest_advance_blanks h]
    exact ht.imp fun d hd => by simp [isGap, isBreakOrEnd, hd]
  rw [plainGap, Cursor.run_blanks h hspace, Cursor.skipSpaces_blanks h hspace]
  simp only [Cursor.lineBreak?_eq_none hbreak]
  rfl

theorem blankLines_blanks {k fuel : Nat} (hk : k ≤ fuel) (h : c.rest = Write.blanks k ++ t)
    (hspace : StopsAt (· == ' ') t) (hbreak : StopsAt isBreak t) (bs : List Char) :
    blankLines fuel c bs = some (bs.reverse, c.advance k) := by
  induction k generalizing c fuel with
  | zero =>
    cases fuel with
    | zero => rfl
    | succ fuel =>
      have hpeek : (c.peek == ' ') = false := by
        cases ht : c.rest with
        | nil =>
          rw [Cursor.peek_nil ht]
          rfl
        | cons d t' =>
          rw [Cursor.peek_cons ht]
          exact hspace d (by rw [← show c.rest = t from h, ht]; rfl)
      rw [blankLines, hpeek, Cursor.lineBreak?_eq_none (by rwa [show c.rest = t from h])]
      rfl
  | succ k ih =>
    obtain ⟨fuel, rfl⟩ : ∃ f, fuel = f + 1 := ⟨fuel - 1, by omega⟩
    have hfirst : c.rest = ' ' :: (Write.blanks k ++ t) := h
    rw [blankLines, Cursor.peek_cons hfirst, if_pos (beq_self_eq_true _)]
    exact ih (Nat.le_of_succ_le_succ hk) (Cursor.rest_next_cons h)

/-- A new line is passed. What it is read as matters only where the text goes on. -/
theorem plainGap_newLine {k : Nat} (h : c.rest = Write.newLine k ++ t) (hspace : StopsAt (· == ' ') t)
    (hbreak : StopsAt isBreak t) :
    (plainGap c).crossed = true ∧ (plainGap c).behind = c.advance (k + 1) ∧
      (0 < k → (plainGap c).text = [' ']) := by
  have h : c.rest = '\n' :: (Write.blanks k ++ t) := h
  have hskip : c.skipSpaces = c := Cursor.skip_eq_self (by rw [h]; exact .cons rfl _)
  have hnext := Cursor.rest_next_cons h
  have hlines : blankLines c.next.rest.length c.next [] = some ([], c.next.advance k) :=
    blankLines_blanks (by rw [hnext, Write.blanks]; simp) hnext hspace hbreak []
  rw [plainGap, hskip]
  simp only [Cursor.lineBreak?_eq_some h rfl (by decide), hlines]
  cases hboundary : c.next.atAnyBoundary with
  | false => exact ⟨rfl, rfl, fun _ => rfl⟩
  | true =>
    -- a boundary stands at the start of a line
    have hk : k = 0 := by
      cases k with
      | zero => rfl
      | succ k =>
        rw [not_atAnyBoundary (t := Write.blanks k ++ t) hnext (by decide) (by decide)] at hboundary
        cases hboundary
    subst hk
    exact ⟨rfl, rfl, fun h => absurd h (Nat.lt_irrefl 0)⟩

/-- Blanks and characters that stand for themselves. -/
def InLine (s : List Char) : Prop := ∀ ch ∈ s, ch = ' ' ∨ IsInk ch

theorem InLine.word (h : InLine (w ++ s)) (hw : ' ' ∉ w) : ∀ ch ∈ w, IsInk ch := by
  intro ch hch
  refine (h ch (List.mem_append_left _ hch)).resolve_left ?_
  rintro rfl
  exact hw hch

theorem InLine.behindWord (h : InLine (w ++ s)) : InLine s := fun ch hch =>
  h ch (List.mem_append_right _ hch)

theorem plainRun_gap (h : isGap ch = true) (t : List Char) : plainRun false (ch :: t) = 0 := by
  simp [plainRun, endsPlain, h]

/-- A word as a reader finds it, whatever stands behind it in the document. -/
structure IsWord (w : List Char) : Prop where
  ne_nil : w ≠ []
  ink : ∀ ch ∈ w, IsInk ch
  first : w.head? ≠ some '#'
  run : ∀ u, plainRun false (w ++ u) = w.length + plainRun false u

/-- A text with a word at its start: a reader goes on there. -/
structure GoesOnWith (u : List Char) : Prop where
  stops : StopsAt isGap u
  first : u.head? ≠ some '#'
  run : plainRun false u ≠ 0

theorem isWord_of_append (hne : w ≠ []) (hw : ' ' ∉ w) (hs : InLine (w ++ s))
    (hm : Write.holdsMark ' ' (w ++ s) = false) (hgap : Write.gapAhead s = true) : IsWord w where
  ne_nil := hne
  ink := hs.word hw
  first hhash := by
    obtain ⟨w, rfl⟩ := List.head?_eq_some_iff.1 hhash
    simp [Write.holdsMark, Write.isGap] at hm
  run _ := plainRun_word (hs.word hw) hm hgap

theorem IsWord.goesOnWith (h : IsWord w) (u : List Char) : GoesOnWith (w ++ u) := by
  have hrun := h.run u
  obtain ⟨ch, w, rfl⟩ := List.exists_cons_of_ne_nil h.ne_nil
  refine ⟨.cons (h.ink ch (List.mem_cons_self ..)).not_isGap _, h.first, ?_⟩
  rw [hrun, List.length_cons]
  omega

/-- A text over several lines begins with a word too. -/
theorem Wrapped.goesOnWith (h : Wrapped indent s t) (hs : InLine s) (hm : Write.holdsMark ' ' s = false)
    (u : List Char) : GoesOnWith (t ++ u) := by
  cases h with
  | word w hne hw =>
    exact (isWord_of_append (s := []) hne hw (by simpa using hs) (by simpa using hm) rfl).goesOnWith u
  | blanks w hne hw k more _ =>
    rw [List.append_assoc]
    exact (isWord_of_append hne hw hs hm rfl).goesOnWith _
  | line w hne hw more _ =>
    rw [List.append_assoc]
    exact (isWord_of_append hne hw hs hm rfl).goesOnWith _

/-- The last line of a plain text ends at a place: nothing of it is behind the gap there. -/
def EndsAt (least : Int) (e : Cursor) : Prop :=
  plainRun false e.rest = 0 ∧ ((plainGap e).text = [] ∨ (plainGap e).behind.column < least)

/-- A word and the gap behind it, where the text goes on. -/
theorem ReadsPlain.more {least : Int} {crossed : Bool} {g gap text : List Char} {gapCrossed : Bool}
    (hw : IsWord w) (h : c.rest = w ++ (gap ++ u)) (hrun : plainRun false (gap ++ u) = 0)
    (hgap : plainGap (c.advance w.length) = ⟨g, gapCrossed, (c.advance w.length).advance gap.length⟩)
    (hg : g ≠ []) (hcolumn : least ≤ ((c.advance w.length).advance gap.length).column)
    (hu : GoesOnWith u)
    (hr : ReadsPlain least ((c.advance w.length).advance gap.length) text crossed c') :
    ReadsPlain least c (w ++ (g ++ text)) crossed c' := by
  intro fuel before acc hfuel
  have hpos : 0 < w.length := List.length_pos_iff.2 hw.ne_nil
  have hrest := Cursor.rest_advance_append (Cursor.rest_advance_append h)
  have hstart : (((c.advance w.length).advance gap.length).peek == '#') = false :=
    Cursor.peek_ne (by rw [hrest]; exact hu.first) (by decide)
  have hgoes := hu.run
  rw [← hrest] at hgoes
  rw [h, List.length_append, List.length_append] at hfuel
  obtain ⟨fuel, rfl⟩ : ∃ f, fuel = f + 1 := ⟨fuel - 1, by omega⟩
  rw [plainFrom_word hw.ne_nil h hw.first (by rw [hw.run, hrun, Nat.add_zero]), hgap]
  simp only [List.isEmpty_iff, hg, hstart, Int.not_lt.2 hcolumn, decide_false, Bool.or_false,
    beq_iff_eq, hgoes, if_false, Bool.or_eq_true, or_self]
  rw [hr fuel gapCrossed _ (by rw [hrest]; omega)]
  simp [List.append_assoc]

theorem ReadsPlain.last {least : Int} (hw : IsWord w) (h : c.rest = w ++ u)
    (hend : EndsAt least (c.advance w.length)) :
    ReadsPlain least c w (plainGap (c.advance w.length)).crossed (plainGap (c.advance w.length)).behind := by
  intro fuel before acc hfuel
  have hpos : 0 < w.length := List.length_pos_iff.2 hw.ne_nil
  have hlen : plainRun false (w ++ u) = w.length := by
    have hzero := hend.1
    rw [Cursor.rest_advance_append h] at hzero
    rw [hw.run, hzero, Nat.add_zero]
  rw [h, List.length_append] at hfuel
  obtain ⟨fuel, rfl⟩ : ∃ f, fuel = f + 1 := ⟨fuel - 1, by omega⟩
  rw [plainFrom_word hw.ne_nil h hw.first hlen, if_pos]
  rcases hend.2 with htext | hcolumn
  · simp [htext]
  · simp [hcolumn]

theorem isWide_of_isInk (h : IsInk ch) : Cursor.IsWide ch := by
  have hgap := h.not_isGap
  simp only [isGap, isBreakOrEnd, Bool.or_eq_false_iff] at hgap
  refine ⟨hgap.2.2, ?_⟩
  rintro rfl
  exact absurd h.1 (by decide)

theorem column_behindBlanks {k : Nat} (hw : ∀ ch ∈ w, IsInk ch) (h : c.rest = w ++ (Write.blanks k ++ u)) :
    ((c.advance w.length).advance k).column = c.column + w.length + k := by
  have hblanks : ∀ ch ∈ Write.blanks k, Cursor.IsWide ch := fun ch hch => by
    rw [List.eq_of_mem_replicate hch]
    exact ⟨rfl, by decide⟩
  have hword := Cursor.mark_advance h fun ch hch => isWide_of_isInk (hw ch hch)
  have hmore := Cursor.mark_advance (Cursor.rest_advance_append h) hblanks
  rw [Write.blanks, List.length_replicate] at hmore
  rw [Cursor.column, hmore, Cursor.column, hword]

/-- A new line in a text is read as a blank. -/
theorem plainGap_newLine_goesOn (hindent : 0 < indent) (h : c.rest = Write.newLine indent ++ t)
    (ht : StopsAt isGap t) : plainGap c = ⟨[' '], true, c.advance (Write.newLine indent).length⟩ := by
  obtain ⟨hcrossed, hbehind, htext⟩ := plainGap_newLine h
    (ht.imp fun d hd => by simp [isGap, beq_iff_eq.1 hd])
    (ht.imp fun d hd => by simp [isGap, isBreakOrEnd, hd])
  rw [Write.newLine, List.length_cons, Write.blanks, List.length_replicate, ← htext hindent, ← hcrossed,
    ← hbehind]

/-- **A text over several lines is read as the text.** -/
theorem readsPlain_wrapped {least : Int} (hindent : 0 < indent) (hleast : least ≤ indent)
    (hwrapped : Wrapped indent s t) {tail : List Char} (hs : InLine s)
    (hm : Write.holdsMark ' ' s = false) (h : c.rest = t ++ tail) (hcolumn : least ≤ c.column + 1)
    (hend : EndsAt least (c.advance t.length)) :
    ReadsPlain least c s (plainGap (c.advance t.length)).crossed (plainGap (c.advance t.length)).behind := by
  induction hwrapped generalizing c with
  | word w hne hw =>
    exact .last (isWord_of_append (s := []) hne hw (by simpa using hs) (by simpa using hm) rfl) h hend
  | @blanks w hne hw k s t more hblank ih =>
    have hword : IsWord w := isWord_of_append hne hw hs hm rfl
    have hs' : InLine s := hs.behindWord.behindWord
    have hm' : Write.holdsMark ' ' s = false := by
      rw [← blanks_append_cons, ← List.append_assoc] at hm
      exact holdsMark_append hm
    have hmore := more.goesOnWith hs' hm' tail
    rw [List.append_assoc, List.append_assoc] at h
    have hgap := Cursor.rest_advance_append h
    have hlength : (Write.blanks (k + 1)).length = k + 1 := List.length_replicate
    have hread : plainGap (c.advance w.length) =
        ⟨Write.blanks (k + 1), false, (c.advance w.length).advance (Write.blanks (k + 1)).length⟩ := by
      rw [hlength]
      exact plainGap_blanks hgap hmore.stops
    have hcolumn' : ((c.advance w.length).advance (Write.blanks (k + 1)).length).column =
        c.column + w.length + (k + 1) := by
      rw [hlength]
      exact column_behindBlanks hword.ink h
    rw [List.length_append, List.length_append, Cursor.advance_add, Cursor.advance_add] at hend ⊢
    exact .more hword h (plainRun_gap rfl _) hread (by simp [Write.blanks]) (by omega) hmore
      (ih hs' hm' (Cursor.rest_advance_append hgap) (by omega) hend)
  | @line w hne hw s t more hblank ih =>
    have hword : IsWord w := isWord_of_append hne hw hs hm rfl
    have hs' : InLine s := fun ch hch => hs.behindWord ch (List.mem_cons_of_mem _ hch)
    have hm' : Write.holdsMark ' ' s = false := holdsMark_append hm
    have hmore := more.goesOnWith hs' hm' tail
    rw [List.append_assoc, List.append_assoc] at h
    have hline := Cursor.rest_advance_append h
    have hcolumn' : ((c.advance w.length).advance (Write.newLine indent).length).column = indent := by
      rw [Write.newLine, List.length_cons, Write.blanks, List.length_replicate, Cursor.column,
        Cursor.mark_newLine hline]
    rw [List.length_append, List.length_append, Cursor.advance_add, Cursor.advance_add] at hend ⊢
    exact .more hword h (plainRun_gap rfl _) (plainGap_newLine_goesOn hindent hline hmore.stops) (by simp)
      (by omega) hmore (ih hs' hm' (Cursor.rest_advance_append hline) (by omega) hend)

/-- A text that is read as it was without quotes, whatever it stands for. -/
structure IsPlainText (s : List Char) : Prop where
  ne_nil : s ≠ []
  first : s.head? ≠ some ' '
  last : s.getLast? ≠ some ' '
  inLine : InLine s
  opens : Write.opensOther s = false
  marks : Write.holdsMark ' ' s = false

theorem isPlainText_of_fitsPlain (h : Write.fitsPlain s = true) : IsPlainText s := by
  cases s with
  | nil => simp [Write.fitsPlain] at h
  | cons ch s =>
    obtain ⟨hsingle, hbreak, hfirst, hlast, hopens, hmark, -⟩ := fitsPlain_cons.1 h
    refine ⟨by simp, by simpa using hfirst, hlast, fun d hd => ?_, hopens, ?_⟩
    · by_cases hblank : d = ' '
      · exact .inl hblank
      · simp only [Write.fitsSingle, Bool.and_eq_true, List.all_eq_true] at hsingle
        exact .inr ⟨hsingle.1.1 d hd, hbreak d hd, hblank⟩
    · simp only [Write.opensOther, Bool.or_eq_false_iff] at hopens
      obtain ⟨⟨-, hsign⟩, hcolon⟩ := hopens
      have hhash : ch ≠ '#' := by
        rintro rfl
        exact absurd hsign (by decide)
      have hcolon : (ch == ':' && Write.gapAhead s) = false := by
        rw [Bool.and_eq_false_imp, beq_iff_eq]
        rintro rfl
        simpa using hcolon
      simp [Write.holdsMark, hcolon, hhash, hmark]

theorem IsPlainText.written_ne_nil (hs : IsPlainText s) (column : Nat) :
    Write.plain indent split column none s ≠ [] := by
  obtain ⟨hne, hfirst, -⟩ := hs
  obtain ⟨ch, s, rfl⟩ := List.exists_cons_of_ne_nil hne
  rw [plain_cons (by simpa using hfirst)]
  exact List.cons_ne_nil _ _

/-- **A plain text is read as it was**, up to the gap behind it. -/
theorem plain_plain {least : Int} (hindent : 0 < indent) (hleast : least ≤ indent) {column : Nat}
    (hs : IsPlainText s) {tail : List Char}
    (h : c.rest = Write.plain indent split column none s ++ tail) (hcolumn : least ≤ c.column + 1)
    (hend : EndsAt least (c.advance (Write.plain indent split column none s).length)) :
    plain false least c = (s, (plainGap (c.advance (Write.plain indent split column none s).length)).crossed,
      (plainGap (c.advance (Write.plain indent split column none s).length)).behind) := by
  have hwrapped : Wrapped indent s (Write.plain indent split column none s) :=
    (wraps_of_getLast? hs.last).whole column none hs.ne_nil hs.first
  exact readsPlain_wrapped hindent hleast hwrapped hs.inLine hs.marks h hcolumn hend c.rest.length false []
    (Nat.le_refl _)

end Cnd.Yaml.Scalar
