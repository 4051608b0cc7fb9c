import Cnd.Proofs.Yaml.Double
import Cnd.Proofs.Yaml.Single
import Cnd.Proofs.Yaml.Steps
import Cnd.Proofs.Yaml.Unquoted

/-!
The tokens of a document: signs, brackets and scalars.

A sign may open a block at its column (`Stands.sign`). A scalar is read from what it is written as in
any form; behind a value the line ends, and behind a key stands a colon, which puts marks in front of
the key (`Stands.scalar`, `Stands.key`).
-/

namespace Cnd.Yaml.Reading

variable {r r' : Reading} {t text : List Char} {j : Nat} {i : Int} {o : List Int} {allowed : Bool}

/-! ## Signs -/

/-- The blocks around a column, with the one that is opened there. -/
def outerAt (i : Int) (o : List Int) (j : Nat) : List Int := if i < j then i :: o else o

/-- The start of a block that is opened at a column. -/
def opensAt (i : Int) (j : Nat) (l : Lexeme) : List Lexeme := if i < j then [l] else []

theorem Stands.openBlock (h : Stands r text j i o allowed) (hij : i ≤ j) (l : Lexeme) :
    Stands (r.openBlock l) text j j (outerAt i o j) allowed ∧
      (r.openBlock l).lexemes = r.lexemes ++ opensAt i j l := by
  rw [Reading.openBlock, indentTo, h.indent, h.column, outerAt, opensAt]
  by_cases hlt : i < j
  · simp only [if_pos hlt]
    let r' : Reading := { r with indent := j, outer := i :: r.outer }.pushHere l
    have hpushed : r'.tokens = ⟨l, r.cursor.mark, r.cursor.mark⟩ :: r.tokens := rfl
    refine ⟨⟨h.rest, h.column, h.depth, rfl, ?_, h.keyAllowed, h.possible, h.sound.push hpushed rfl rfl⟩,
      lexemes_push h.sound hpushed rfl⟩
    exact congrArg (i :: ·) h.outer
  · have heq : i = j := Int.le_antisymm hij (Int.not_lt.1 hlt)
    simp only [if_neg hlt, List.append_nil, and_true]
    exact ⟨h.rest, h.column, h.depth, by rw [h.indent, heq], h.outer, h.keyAllowed, h.possible, h.sound⟩

/-- A token of one character, behind which a key may stand. -/
theorem Stands.pushChars {ch : Char} (h : Stands r (ch :: t) j i o allowed) (hch : Cursor.IsWide ch)
    (l : Lexeme) (allowed' : Bool) : Stands ((r.allowKey allowed').pushChars l 1) t (j + 1) i o allowed' ∧
      ((r.allowKey allowed').pushChars l 1).lexemes = r.lexemes ++ [l] := by
  have hmark : r.cursor.next.column = j + 1 := by
    rw [Cursor.column, Cursor.mark_next h.rest hch, h.column]
  have hpushed : ((r.allowKey allowed').pushChars l 1).tokens =
      ⟨l, r.cursor.mark, r.cursor.next.mark⟩ :: r.tokens := rfl
  exact ⟨⟨Cursor.rest_next_cons h.rest, hmark, h.depth, h.indent, h.outer, rfl, h.possible,
    h.sound.push hpushed rfl rfl⟩, lexemes_push h.sound hpushed rfl⟩

theorem dropKey_nil (hp : r.possible = []) : r.dropKey = .ok r := by
  rw [dropKey, hp]
  rfl

/-- The signs, with the tokens and the starts of blocks that they stand for. -/
inductive IsSign : Char → Lexeme → Lexeme → Prop
  | entry : IsSign '-' .entry .sequenceStart
  | key : IsSign '?' .key .mappingStart
  | value : IsSign ':' .value .mappingStart

/-- No document boundary, which goes on with one character. -/
theorem not_boundary {c : Cursor} {ch : Char} (h : c.rest = ch :: t)
    (ht : isGap (t.headD endChar) = true) : c.atBoundary "---" = false ∧ c.atBoundary "..." = false := by
  have hne : ∀ d : Char, isGap d = false → ∀ s, (d :: s).isPrefixOf t = false := by
    intro d hd s
    cases t with
    | nil => rfl
    | cons e t =>
      have hde : (d == e) = false := by
        rw [beq_eq_false_iff_ne]
        rintro rfl
        simp [hd] at ht
      rw [List.isPrefixOf_cons_cons, hde, Bool.false_and]
  have hdash : (['-', '-', '-'] : List Char).isPrefixOf (ch :: t) = false := by
    rw [List.isPrefixOf_cons_cons, hne '-' rfl, Bool.and_false]
  have hpoint : (['.', '.', '.'] : List Char).isPrefixOf (ch :: t) = false := by
    rw [List.isPrefixOf_cons_cons, hne '.' rfl, Bool.and_false]
  simp [Cursor.atBoundary, Cursor.startsWith, h, hdash, hpoint]

theorem take_sign {ch : Char} {l opening : Lexeme} (hsign : IsSign ch l opening)
    (h : Stands r (ch :: t) j i o true) (ht : isGap (t.headD endChar) = true) (hij : i ≤ j) :
    r.take = .ok (((r.openBlock opening).allowKey true).pushChars l 1) := by
  have hpeek := Cursor.peek_cons h.rest
  have hapart : isGap (r.cursor.peekAt 1) = true := by
    rw [Cursor.peekAt, h.rest]
    exact ht
  obtain ⟨hdash, hpoint⟩ := not_boundary h.rest ht
  have hflow : r.inFlow = false := by simp [inFlow, h.depth]
  obtain ⟨hopen, -⟩ := h.openBlock hij opening
  have hflow' : (r.openBlock opening).inFlow = false := by simp [inFlow, hopen.depth]
  have hdrop : ((r.openBlock opening).allowKey true).dropKey =
      .ok ((r.openBlock opening).allowKey true) := dropKey_nil hopen.possible
  cases hsign with
  | entry =>
    have htake : r.take = r.takeEntry := by simp [take, hpeek, hdash, hpoint, hapart]
    simp [htake, takeEntry, hflow, h.keyAllowed, hdrop]
  | key =>
    have htake : r.take = r.takeKey := by simp [take, hpeek, hdash, hpoint, hapart]
    simp [htake, takeKey, hflow, hflow', h.keyAllowed, hdrop]
  | value =>
    have htake : r.take = r.takeValue := by simp [take, hpeek, hdash, hpoint, hapart]
    simp [htake, takeValue, h.possible, hflow, hflow', h.keyAllowed, hdrop]

/-- **A sign and the block that it opens, if it stands deeper than the block around it.** -/
theorem Stands.sign {ch : Char} {l opening : Lexeme} (hsign : IsSign ch l opening)
    (h : Stands r (ch :: t) j i o true) (ht : isGap (t.headD endChar) = true) (hij : i ≤ j) :
    ∃ r', Comes r r' ∧ Stands r' t (j + 1) j (outerAt i o j) true ∧
      r'.lexemes = r.lexemes ++ opensAt i j opening ++ [l] := by
  obtain ⟨hopen, hopens⟩ := h.openBlock hij opening
  have hwide : Cursor.IsWide ch := by cases hsign <;> exact ⟨by decide, by decide⟩
  obtain ⟨hpush, hpushes⟩ := hopen.pushChars hwide l true
  refine ⟨_, h.comes hij (take_sign hsign h ht hij) ?_, hpush, ?_⟩
  · rw [hpush.rest]
    exact Nat.lt_succ_self _
  · rw [hpushes, hopens]

/-! ## Scalars -/

/-- The key that a token is which begins at this place, if it is one. -/
def keyHere (r : Reading) : PossibleKey := ⟨r.count, r.cursor, r.indent == r.cursor.column⟩

def possibleHere (r : Reading) : List (Nat × PossibleKey) :=
  if r.keyAllowed then [(0, r.keyHere)] else []

theorem Stands.saveKey (h : Stands r text j i o allowed) :
    r.saveKey = .ok { r with possible := r.possibleHere } := by
  have hflow : r.inFlow = false := by simp [inFlow, h.depth]
  rw [Reading.saveKey, possibleHere, keyHere]
  by_cases hk : r.keyAllowed = true
  · simp [hk, dropKey_nil h.possible, hflow, h.depth, h.possible]
  · rw [if_neg hk]
    simp only [if_neg hk]
    exact congrArg (fun l => Except.ok { r with possible := l }) h.possible

theorem mem_possibleHere {p : Nat × PossibleKey} (h : Stands r text j i o allowed)
    (hkey : allowed = true → i ≠ j) (hp : p ∈ r.possibleHere) :
    p.1 = 0 ∧ p.2.required = false ∧ p.2.place = r.cursor := by
  rw [possibleHere] at hp
  split at hp
  · rename_i hallowed
    rw [List.mem_singleton.1 hp]
    have hne : r.indent ≠ r.cursor.column := by
      rw [h.indent, h.column]
      exact hkey (by rw [← h.keyAllowed, hallowed])
    exact ⟨rfl, by simpa [keyHere] using hne, rfl⟩
  · simp at hp

/-- The scalar at a place is read up to another place. -/
def Takes (r : Reading) (l : Lexeme) (c : Cursor) (crossed : Bool) : Prop :=
  r.take = .ok (({ r with possible := r.possibleHere }.allowKey crossed).pushTo l c)

theorem takes_quoted {ch : Char} {s : List Char} {c : Cursor} (h : Stands r (ch :: t) j i o allowed)
    (hch : ch = '\'' ∨ ch = '"') (hs : Scalar.quoted r.cursor = .ok (s, c)) :
    Takes r (.scalar (String.ofList s) false) c false := by
  have hpeek := Cursor.peek_cons h.rest
  have hboundary : r.cursor.atAnyBoundary = false :=
    Scalar.not_atAnyBoundary h.rest (by rcases hch with rfl | rfl <;> decide)
      (by rcases hch with rfl | rfl <;> decide)
  simp only [Cursor.atAnyBoundary, Bool.or_eq_false_iff] at hboundary
  have htake : r.take = r.takeQuoted := by
    rcases hch with rfl | rfl <;> simp [take, hpeek, hboundary]
  rw [Takes, htake, takeQuoted, h.saveKey]
  simp only [bind, Except.bind, hs]
  rfl

section
variable {ch : Char} (h : Stands r (ch :: t) j i o allowed)
  (hsign : "#,[]\x7b\x7d&*!|>'\"%@\x60".toList.contains ch = false)
  (hapart : ch = '-' ∨ ch = '?' ∨ ch = ':' → isGap (t.headD endChar) = false)
include h hsign hapart

theorem startsPlain_of_apart (hgap : isGap ch = false) : r.startsPlain = true := by
  have hpeek := Cursor.peek_cons h.rest
  have hsecond : r.cursor.peekAt 1 = t.headD endChar := by
    rw [Cursor.peekAt, h.rest, List.drop_one, List.tail_cons]
  have hflow : r.inFlow = false := by simp [inFlow, h.depth]
  rw [startsPlain, hpeek, hsecond, hflow]
  by_cases hsigns : ch = '-' ∨ ch = '?' ∨ ch = ':'
  · rw [hapart hsigns]
    rcases hsigns with rfl | rfl | rfl <;> rfl
  · simp only [not_or] at hsigns
    simp at hsign
    simp [hgap, hsigns, hsign]

theorem take_plain (hgap : isGap ch = false)
    (hboundary : r.cursor.column = 0 → r.cursor.atAnyBoundary = false) : r.take = r.takePlain := by
  have hpeek := Cursor.peek_cons h.rest
  have hsecond : r.cursor.peekAt 1 = t.headD endChar := by
    rw [Cursor.peekAt, h.rest, List.drop_one, List.tail_cons]
  have hflow : r.inFlow = false := by simp [inFlow, h.depth]
  have hmarks : ∀ s ∈ ["---", "..."], (r.cursor.column == 0 && r.cursor.atBoundary s) = false := by
    intro s hs
    rw [Bool.and_eq_false_imp, beq_iff_eq]
    intro hzero
    have hnone := hboundary hzero
    simp only [Cursor.atAnyBoundary, Bool.or_eq_false_iff] at hnone
    simp only [List.mem_cons, List.not_mem_nil, or_false] at hs
    rcases hs with rfl | rfl
    · exact hnone.1
    · exact hnone.2
  have hmark := hmarks "---" (by simp)
  have hmark' := hmarks "..." (by simp)
  have hstarts := startsPlain_of_apart h hsign hapart hgap
  have hnot : ∀ d : Char, "#,[]\x7b\x7d&*!|>'\"%@\x60".toList.contains d = true → (ch == d) = false := by
    intro d hd
    rw [beq_eq_false_iff_ne]
    rintro rfl
    rw [hsign] at hd
    cases hd
  have hsigns : ∀ d : Char, d = '-' ∨ d = '?' ∨ d = ':' → (ch == d && isGap (t.headD endChar)) = false := by
    intro d hd
    rw [Bool.and_eq_false_imp, beq_iff_eq]
    rintro rfl
    exact hapart hd
  rw [take]
  simp only [hpeek, hsecond, hflow, hmark, hmark', Bool.false_or, hsigns '-' (by simp), hsigns '?' (by simp),
    hsigns ':' (by simp), hnot '%' rfl, hnot '[' rfl, hnot ']' rfl, hnot '\x7b' rfl, hnot '\x7d' rfl,
    hnot ',' rfl, hnot '*' rfl, hnot '&' rfl, hnot '!' rfl, hnot '|' rfl, hnot '>' rfl, hnot '\'' rfl,
    hnot '"' rfl, hstarts, Bool.false_and, Bool.or_self, Bool.false_eq_true, if_false, if_true]

end

theorem takePlain_eq {q : Reading} {s : List Char} {crossed : Bool} {c : Cursor}
    (hq : r.saveKey = .ok q)
    (hread : Scalar.plain q.inFlow (q.indent + 1) q.cursor = (s, crossed, c)) :
    r.takePlain = .ok ((q.allowKey crossed).pushTo (.scalar (String.ofList s) true) c) := by
  rw [takePlain, hq]
  simp only [bind, Except.bind, hread]
  rfl

/-- A plain text, up to the gap behind it. -/
theorem takes_plain {indent column : Nat} {split : Bool} {s tail : List Char} {e : Cursor}
    (h : Stands r (Write.plain indent split column none s ++ tail) j i o allowed) (hij : i ≤ j)
    (hindent : i < indent) (hpos : 0 < indent) (hs : Scalar.IsPlainText s)
    (hboundary : r.cursor.column = 0 → r.cursor.atAnyBoundary = false)
    (he : e = r.cursor.advance (Write.plain indent split column none s).length)
    (hend : Scalar.EndsAt (i + 1) e) :
    Takes r (.scalar (String.ofList s) true) (Scalar.plainGap e).behind (Scalar.plainGap e).crossed := by
  subst he
  have hread := Scalar.plain_plain hpos hindent hs h.rest (by rw [h.column]; omega) hend
  have hflow : r.inFlow = false := by simp [inFlow, h.depth]
  have htake : r.take = r.takePlain := by
    obtain ⟨hne, hfirst, -, hline, hopens, -⟩ := hs
    obtain ⟨ch, s, rfl⟩ := List.exists_cons_of_ne_nil hne
    have hch : ch ≠ ' ' := by simpa using hfirst
    have hink : IsInk ch := (hline ch (List.mem_cons_self ..)).resolve_left hch
    rw [Scalar.plain_cons hch] at h
    simp only [Write.opensOther, Bool.or_eq_false_iff] at hopens
    refine take_plain h hopens.1.2 (fun hsign => ?_) hink.not_isGap hboundary
    have hahead : Write.gapAhead s = false := by
      have hcolon := hopens.2
      rcases hsign with rfl | rfl | rfl <;> simpa using hcolon
    obtain ⟨d, s, rfl⟩ : ∃ d s', s = d :: s' := by
      cases s with
      | nil => simp [Write.gapAhead] at hahead
      | cons d s => exact ⟨d, s, rfl⟩
    have hd : d ≠ ' ' := by
      rintro rfl
      simp [Write.gapAhead, Write.isGap] at hahead
    rw [Scalar.plain_cons hd]
    exact ((hline d (by simp)).resolve_left hd).not_isGap
  rw [← hflow, ← h.indent] at hread
  rw [Takes, htake]
  exact takePlain_eq h.saveKey hread

/-! ## Scalars as values -/

/-- **A scalar behind which the line ends.** Nothing on the next line belongs to it. -/
theorem Stands.scalar {w next : List Char} {k : Nat} {l : Lexeme} {c : Cursor} {crossed : Bool}
    (h : Stands r (w ++ (Write.newLine k ++ next)) j i o allowed) (hij : i ≤ j) (hw : w ≠ [])
    (hkey : allowed = true → i ≠ j) (hnext : Starts next) (htakes : Takes r l c crossed)
    (hc : c = r.cursor.advance w.length ∧ crossed = false ∨
      c = (r.cursor.advance w.length).advance (k + 1) ∧ crossed = true) :
    ∃ r', Leads r r' ∧ Stands r' next k i o true ∧ r'.lexemes = r.lexemes ++ [l] := by
  let q : Reading := ({ r with possible := r.possibleHere }.allowKey crossed).pushTo l c
  have hrest := Cursor.rest_advance_append h.rest
  have hbehind : ((r.cursor.advance w.length).advance (k + 1)).rest = next :=
    Cursor.rest_advance_newLine hrest
  have hmark : ((r.cursor.advance w.length).advance (k + 1)).mark =
      ⟨(r.cursor.advance w.length).line + 1, k⟩ := Cursor.mark_newLine hrest
  have hline := Cursor.line_le_advance r.cursor w.length
  have hpushed : q.tokens = ⟨l, r.cursor.mark, c.mark⟩ :: r.tokens := rfl
  have hpossible : ∀ p ∈ q.possible, p.2.required = false ∧ p.2.place.line = r.cursor.line := by
    intro p hp
    obtain ⟨-, hrequired, hplace⟩ := mem_possibleHere h hkey hp
    exact ⟨hrequired, by rw [hplace]⟩
  -- the line end is behind the scalar, or has been passed with it
  have hsettle : q.settle = .ok { q with
      cursor := (r.cursor.advance w.length).advance (k + 1), keyAllowed := true, possible := [] } := by
    rcases hc with ⟨rfl, rfl⟩ | ⟨rfl, rfl⟩
    · refine settle_newLine (r := q) h.depth hrest hnext fun p hp => ?_
      obtain ⟨hrequired, hplace⟩ := hpossible p hp
      exact ⟨hrequired, hplace ▸ hline⟩
    · have hskip : q.skipToToken = q := hnext.skipToToken (r := q) (k := 0) hbehind
      rw [settle, hskip]
      refine dropStale_all (r := q) fun p hp => ?_
      obtain ⟨hrequired, hplace⟩ := hpossible p hp
      refine ⟨hrequired, ?_⟩
      rw [hplace, Cursor.line, Cursor.line, show q.cursor.mark = _ from hmark]
      exact Nat.lt_succ_of_le hline
  refine ⟨_, (h.comes hij htakes ?_).settles hsettle ?_, ⟨hbehind, by rw [Cursor.column, hmark], h.depth,
    h.indent, h.outer, rfl, rfl, h.sound.push hpushed rfl rfl⟩, lexemes_push h.sound hpushed rfl⟩
  · have hpos : 0 < w.length := List.length_pos_iff.2 hw
    have hlen : q.cursor.rest.length ≤ (Write.newLine k ++ next).length := by
      rcases hc with ⟨hc, -⟩ | ⟨hc, -⟩
      · rw [show q.cursor = c from rfl, hc, hrest]
      · rw [show q.cursor = c from rfl, hc, hbehind, List.length_append]
        exact Nat.le_add_left ..
    rw [List.length_append]
    exact Nat.lt_of_le_of_lt hlen (Nat.lt_add_of_pos_left hpos)
  · rcases hc with ⟨hc, -⟩ | ⟨hc, -⟩
    · rw [show q.cursor = c from rfl, hc, hrest, hbehind, List.length_append]
      exact Nat.le_add_left ..
    · rw [show q.cursor = c from rfl, hc]

/-! ## Empty collections -/

/-- The brackets of collections. -/
inductive IsPair : Char → Char → Lexeme → Lexeme → Prop
  | list : IsPair '[' ']' .openList .closeList
  | map : IsPair '\x7b' '\x7d' .openMap .closeMap

/-- The place behind an opening bracket. -/
def opened (r : Reading) (l : Lexeme) : Reading :=
  ({ r with possible := r.possibleHere, depth := r.depth + 1 }.allowKey true).pushChars l 1

/-- The place behind a closing bracket. -/
def closed (r : Reading) (l : Lexeme) : Reading :=
  ({ r with depth := r.depth - 1 }.allowKey false).pushChars l 1

section

variable {a b : Char} {opening closing : Lexeme}

theorem take_opening (hpair : IsPair a b opening closing) (h : Stands r (a :: t) j i o allowed) :
    r.take = .ok (r.opened opening) := by
  have hpeek := Cursor.peek_cons h.rest
  have hboundary : r.cursor.atAnyBoundary = false :=
    Scalar.not_atAnyBoundary h.rest (by cases hpair <;> decide) (by cases hpair <;> decide)
  simp only [Cursor.atAnyBoundary, Bool.or_eq_false_iff] at hboundary
  have htake : r.take = r.takeOpening opening := by
    cases hpair <;> simp [take, hpeek, hboundary]
  rw [htake, takeOpening, h.saveKey]
  rfl

/-- A bracket is closed where no token in it may be a key. -/
theorem take_closing (hpair : IsPair a b opening closing) (hr : r.cursor.rest = b :: t)
    (hdepth : 0 < r.depth) (hp : ∀ p ∈ r.possible, p.1 ≠ r.depth) : r.take = .ok (r.closed closing) := by
  have hpeek := Cursor.peek_cons hr
  have hboundary : r.cursor.atAnyBoundary = false :=
    Scalar.not_atAnyBoundary hr (by cases hpair <;> decide) (by cases hpair <;> decide)
  simp only [Cursor.atAnyBoundary, Bool.or_eq_false_iff] at hboundary
  have htake : r.take = r.takeClosing closing := by
    cases hpair <;> simp [take, hpeek, hboundary]
  have hdrop : r.dropKey = .ok r := by
    have hnone : r.possible.lookup r.depth = none :=
      List.lookup_eq_none_iff.2 fun p hmem => by simpa using Ne.symm (hp p hmem)
    rw [dropKey, hnone]
  rw [htake, takeClosing, hdrop]
  simp only [bind, Except.bind, inFlow, decide_eq_true hdepth, if_true]
  rfl

/-- Behind an opening bracket and before the closing one. -/
theorem Stands.opened (hpair : IsPair a b opening closing) (h : Stands r (a :: b :: t) j i o allowed)
    (hij : i ≤ j) (hkey : allowed = true → i ≠ j) :
    Leads r (r.opened opening) ∧ (r.opened opening).cursor.rest = b :: t ∧
      (r.opened opening).cursor.line = r.cursor.line ∧
      ∀ p ∈ (r.opened opening).possible, p.1 = 0 ∧ p.2.required = false ∧ p.2.place = r.cursor := by
  have hwide : Cursor.IsWide a := by cases hpair <;> exact ⟨rfl, by decide⟩
  have hrest : (r.opened opening).cursor.rest = b :: t := Cursor.rest_next_cons h.rest
  have hline : (r.opened opening).cursor.line = r.cursor.line := by
    show r.cursor.next.mark.line = _
    rw [Cursor.mark_next h.rest hwide]
  have hpossible : ∀ p ∈ (r.opened opening).possible,
      p.1 = 0 ∧ p.2.required = false ∧ p.2.place = r.cursor := fun p hp => mem_possibleHere h hkey hp
  have hsettle : (r.opened opening).settle = .ok (r.opened opening) := by
    refine settle_key ?_ fun p hp => ?_
    · rw [hrest]
      refine .cons ?_ _
      cases hpair <;> rfl
    · have hindex : (r.opened opening).cursor.index ≤ r.cursor.index + 1 := Cursor.index_advance r.cursor 1
      rw [(hpossible p hp).2.2]
      exact ⟨hline.symm, by omega⟩
  refine ⟨(h.comes hij (take_opening hpair h) ?_).settles hsettle (Nat.le_refl _), hrest, hline, hpossible⟩
  rw [hrest]
  exact Nat.lt_succ_self _

/-- **Brackets with nothing between them**, behind which the line ends. -/
theorem Stands.brackets {next : List Char} {k : Nat} (hpair : IsPair a b opening closing)
    (h : Stands r (a :: b :: (Write.newLine k ++ next)) j i o allowed) (hij : i ≤ j)
    (hkey : allowed = true → i ≠ j) (hnext : Starts next) :
    ∃ r', Leads r r' ∧ Stands r' next k i o true ∧ r'.lexemes = r.lexemes ++ [opening, closing] := by
  obtain ⟨hleads, hrest, hline, hpossible⟩ := h.opened hpair hij hkey
  let q := r.opened opening
  let q' := q.closed closing
  have hdepth : q.depth = 1 := congrArg (· + 1) h.depth
  have hwide : Cursor.IsWide b := by cases hpair <;> exact ⟨rfl, by decide⟩
  have hrest' : q'.cursor.rest = Write.newLine k ++ next := Cursor.rest_next_cons hrest
  have hline' : q'.cursor.line = r.cursor.line := by
    show q.cursor.next.mark.line = _
    rw [Cursor.mark_next hrest hwide]
    exact hline
  have hcloses : Comes q q' := by
    refine comes_of_take ?_ (take_closing hpair hrest (by rw [hdepth]; decide) fun p hp => ?_) ?_
    · rw [unwind, if_pos]
      simp [inFlow, hdepth]
    · rw [(hpossible p hp).1, hdepth]
      decide
    · rw [hrest, hrest']
      exact Nat.lt_succ_self _
  have hend : q'.settle =
      .ok { q' with cursor := q'.cursor.advance (k + 1), keyAllowed := true, possible := [] } := by
    refine settle_newLine h.depth hrest' hnext fun p hp => ?_
    obtain ⟨-, hrequired, hplace⟩ := hpossible p hp
    exact ⟨hrequired, by rw [hplace, hline']⟩
  have hbehind : (q'.cursor.advance (k + 1)).rest = next := Cursor.rest_advance_newLine hrest'
  have hcolumn : (q'.cursor.advance (k + 1)).column = k := by
    rw [Cursor.column, Cursor.mark_newLine hrest']
  have hfirst : q.tokens = ⟨opening, r.cursor.mark, q.cursor.mark⟩ :: r.tokens := rfl
  have hsecond : q'.tokens = ⟨closing, q.cursor.mark, q'.cursor.mark⟩ :: q.tokens := rfl
  have hsound : q.Sound := h.sound.push hfirst rfl rfl
  have hlexemes : q'.lexemes = r.lexemes ++ [opening, closing] := by
    rw [lexemes_push hsound hsecond rfl, lexemes_push h.sound hfirst rfl, List.append_assoc]
    rfl
  refine ⟨_, (hleads.comes hcloses).settles hend ?_, ⟨hbehind, hcolumn, h.depth, h.indent, h.outer, rfl,
    rfl, hsound.push hsecond rfl rfl⟩, hlexemes⟩
  rw [hbehind, hrest', List.length_append]
  exact Nat.le_add_left ..

end

/-! ## Scalars as keys -/

/-- What the colon behind a possible key makes of a reading. -/
def keyed (q : Reading) (k : PossibleKey) (i : Int) (o : List Int) (j : Nat) : Reading :=
  { q with
    possible := [], indent := j, outer := outerAt i o j,
    keys := ⟨k.before, decide (i < j), k.place.mark⟩ :: q.keys }

theorem takeValue_key {q : Reading} {k : PossibleKey} (hd : q.depth = 0) (hp : q.possible = [(0, k)])
    (hi : q.indent = i) (ho : q.outer = o) (hk : k.place.column = j) (hij : i ≤ j) :
    q.takeValue = .ok (((keyed q k i o j).allowKey false).pushChars .value 1) := by
  obtain ⟨c, depth, indent, outer, keyAllowed, possible, tokens, count, keys⟩ := q
  subst hd hp hi ho hk
  by_cases hlt : indent < k.place.column
  · simp [takeValue, inFlow, indentTo, keyed, outerAt, hlt, pure, Except.pure]
  · have heq : indent = k.place.column := Int.le_antisymm hij (Int.not_lt.1 hlt)
    simp [takeValue, inFlow, indentTo, keyed, outerAt, heq, pure, Except.pure]

/-- The place behind a scalar that may be a key. -/
def behindKey (r : Reading) (l : Lexeme) (e : Cursor) : Reading :=
  ({ r with possible := r.possibleHere }.allowKey false).pushTo l e

/-- The mark of a key belongs to the scalar that was read last. -/
theorem Stands.marksKey (h : Stands r text j i o true) (l : Lexeme) (e : Cursor) :
    (keyed (r.behindKey l e) r.keyHere i o j).Sound ∧
      (keyed (r.behindKey l e) r.keyHere i o j).lexemes =
        r.lexemes ++ opensAt i j .mappingStart ++ [.key, l] := by
  constructor
  · refine ⟨congrArg (· + 1) h.sound.count, fun m hm => ?_, ?_⟩
    · show m.before < r.tokens.length + 1
      rcases List.mem_cons.1 hm with rfl | hm
      · exact Nat.lt_succ_of_le (Nat.le_of_eq h.sound.count)
      · exact Nat.lt_succ_of_lt (h.sound.marks m hm)
    · refine List.pairwise_cons.2 ⟨fun m hm => ?_, h.sound.ordered⟩
      show m.before < r.count
      rw [h.sound.count]
      exact h.sound.marks m hm
  · have hconcat := map_withKeys_concat h.sound ⟨l, r.cursor.mark, e.mark⟩
      [⟨r.count, decide (i < j), r.cursor.mark⟩] (by simp [h.sound.count])
    rw [← List.reverse_cons, ← List.reverse_singleton, ← List.reverse_append] at hconcat
    refine hconcat.trans ?_
    by_cases hlt : i < j <;> simp [opensAt, hlt]

/-- Before the colon behind a scalar of one line that may be a key. -/
theorem Stands.beforeColon {w u : List Char} {l : Lexeme} (h : Stands r (w ++ ':' :: u) j i o true)
    (hij : i ≤ j) (hw : w ≠ []) (hwide : ∀ ch ∈ w, Cursor.IsWide ch) (hlen : w.length ≤ 1024)
    (htakes : Takes r l (r.cursor.advance w.length) false) :
    let q := r.behindKey l (r.cursor.advance w.length)
    Leads r q ∧ q.cursor.rest = ':' :: u ∧ q.cursor.column = j + w.length ∧
      q.possible = [(0, r.keyHere)] := by
  intro q
  have hrest : q.cursor.rest = ':' :: u := Cursor.rest_advance_append h.rest
  have hmark : q.cursor.mark = ⟨r.cursor.line, r.cursor.column + w.length⟩ :=
    Cursor.mark_advance h.rest hwide
  have hpossible : q.possible = [(0, r.keyHere)] := by
    show r.possibleHere = _
    rw [possibleHere, h.keyAllowed]
    rfl
  have hsettle : q.settle = .ok q := by
    refine settle_key (hrest ▸ .cons rfl u) fun p hp => ?_
    rw [hpossible] at hp
    rw [List.mem_singleton.1 hp]
    have hindex : q.cursor.index ≤ r.cursor.index + w.length := Cursor.index_advance r.cursor w.length
    refine ⟨?_, ?_⟩
    · rw [Cursor.line, Cursor.line, hmark]
      rfl
    · show q.cursor.index - r.cursor.index ≤ 1024
      omega
  refine ⟨(h.comes hij htakes ?_).settles hsettle (Nat.le_refl _), hrest, ?_, hpossible⟩
  · have hpos : 0 < w.length := List.length_pos_iff.2 hw
    show q.cursor.rest.length < _
    rw [hrest, List.length_append]
    omega
  · rw [Cursor.column, hmark, h.column]

/-- **A key on the line of its value**, and the mapping that it opens. -/
theorem Stands.key {w u : List Char} {l : Lexeme} (h : Stands r (w ++ ':' :: u) j i o true) (hij : i ≤ j)
    (hw : w ≠ []) (hwide : ∀ ch ∈ w, Cursor.IsWide ch) (hlen : w.length ≤ 1024)
    (hu : isGap (u.headD endChar) = true)
    (htakes : Takes r l (r.cursor.advance w.length) false) :
    ∃ r', Comes r r' ∧ Stands r' u (j + w.length + 1) j (outerAt i o j) false ∧
      r'.lexemes = r.lexemes ++ opensAt i j .mappingStart ++ [.key, l, .value] := by
  obtain ⟨hleads, hrest, hcolumn, hpossible⟩ := h.beforeColon hij hw hwide hlen htakes
  obtain ⟨hsound, hlexemes⟩ := h.marksKey l (r.cursor.advance w.length)
  let q := r.behindKey l (r.cursor.advance w.length)
  let q' : Reading := ((keyed q r.keyHere i o j).allowKey false).pushChars .value 1
  have htake : q.take = .ok q' := by
    have hpeek := Cursor.peek_cons hrest
    have hapart : isGap (q.cursor.peekAt 1) = true := by
      rw [Cursor.peekAt, hrest]
      exact hu
    obtain ⟨hdash, hpoint⟩ := not_boundary hrest hu
    have htake : q.take = q.takeValue := by simp [q, take, hpeek, hdash, hpoint, hapart]
    rw [htake]
    exact takeValue_key h.depth hpossible h.indent h.outer h.column hij
  have hstay : q.unwind q.cursor.column = q := by
    refine unwind_eq_self ?_
    rw [show q.indent = i from h.indent, hcolumn]
    omega
  have hbehind : q'.cursor.rest = u := Cursor.rest_next_cons hrest
  have hcolumn' : q'.cursor.column = j + w.length + 1 := by
    show q.cursor.next.column = _
    rw [Cursor.column, Cursor.mark_next hrest ⟨by decide, by decide⟩, hcolumn]
  have hpushed : q'.tokens = ⟨.value, q.cursor.mark, q'.cursor.mark⟩ :: (keyed q r.keyHere i o j).tokens :=
    rfl
  refine ⟨q', hleads.comes (comes_of_take hstay htake ?_), ⟨hbehind, hcolumn', h.depth, rfl, rfl, rfl, rfl,
    hsound.push hpushed rfl rfl⟩, ?_⟩
  · rw [hbehind, hrest]
    exact Nat.lt_succ_self _
  · rw [lexemes_push hsound hpushed rfl, hlexemes]
    simp

end Cnd.Yaml.Reading
