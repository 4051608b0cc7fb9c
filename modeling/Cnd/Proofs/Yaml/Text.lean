import Cnd.Proofs.Yaml.Take

/-!
Texts as values and as keys of a document.

A text as a value is read as `readText` says, in whatever form it is written (`Stands.text`). A key is
a text without line breaks; it is written on one line, and read as it was (`Stands.simpleKey`).
-/

namespace Cnd.Yaml

open Write (formOf fitsPlain fitsSingle)

/-- The lexeme that a text is read as. -/
def textLexeme (s : String) : Lexeme := .scalar (readText s) (formOf s.toList == .plain)

theorem formOf_cases (s : List Char) : formOf s = .plain ∧ fitsPlain s = true ∨
    formOf s = .single ∧ fitsSingle s = true ∨ formOf s = .double := by
  unfold formOf
  split
  · exact .inl ⟨rfl, ‹_›⟩
  split
  · exact .inr (.inl ⟨rfl, ‹_›⟩)
  · exact .inr (.inr rfl)

/-- A text that stands on one line is written in no double quotes. -/
theorem fitsSingle_of_inLine {s : List Char} (h : Scalar.InLine s) : fitsSingle s = true := by
  induction s with
  | nil => rfl
  | cons ch s ih =>
    obtain ⟨hch, hs⟩ := List.forall_mem_cons.1 h
    have hnot : ∀ d ∈ ch :: s, Write.isBreak d = false := fun d hd => by
      rcases h d hd with rfl | hink
      · rfl
      · exact hink.2.1
    refine Scalar.fitsSingle_cons.2 ⟨?_, ih hs, fun hb => ?_, fun _ => ?_⟩
    · rcases hch with rfl | hink
      · rfl
      · exact hink.1
    · rw [hnot ch (List.mem_cons_self ..)] at hb
      cases hb
    · cases s with
      | nil => rfl
      | cons d s => exact hnot d (by simp)

namespace Reading

variable {r : Reading} {j k : Nat} {i : Int} {o : List Int} {allowed : Bool} {next : List Char}

/-- Behind the end of a line there is nothing of a plain text. -/
theorem endsAt_newLine {e : Cursor} (h : e.rest = Write.newLine k ++ next) (hk : (k : Int) ≤ i)
    (hnext : Starts next) : Scalar.EndsAt (i + 1) e ∧ (Scalar.plainGap e).crossed = true ∧
      (Scalar.plainGap e).behind = e.advance (k + 1) := by
  obtain ⟨hcrossed, hbehind, -⟩ :=
    Scalar.plainGap_newLine h hnext.blank (hnext.imp fun d hd => by simp [hd])
  refine ⟨⟨by rw [h]; exact Scalar.plainRun_gap rfl _, .inr ?_⟩, hcrossed, hbehind⟩
  rw [hbehind, Cursor.column, Cursor.mark_newLine h]
  exact Int.lt_add_one_of_le hk

theorem toList_readText {s : String} (h : formOf s.toList = .single) :
    readText s = String.ofList (heard false s.toList) := by
  rw [readText, h]
  rfl

theorem readText_of_ne {s : String} (h : formOf s.toList ≠ .single) : readText s = s := by
  rw [readText, if_neg (by simpa using h)]

/-- A plain text behind which the line ends. -/
theorem Stands.plainText {indent : Nat} {s : List Char} (hs : Scalar.IsPlainText s)
    (h : Stands r (Write.plain indent true j none s ++ (Write.newLine k ++ next)) j i o allowed)
    (hij : i ≤ j) (hj : 0 < j) (hindent : i < indent) (hpos : 0 < indent)
    (hkey : allowed = true → i ≠ j) (hk : (k : Int) ≤ i) (hnext : Starts next) :
    ∃ r', Leads r r' ∧ Stands r' next k i o true ∧
      r'.lexemes = r.lexemes ++ [.scalar (String.ofList s) true] := by
  obtain ⟨hend, hcrossed, hbehind⟩ := endsAt_newLine (Cursor.rest_advance_append h.rest) hk hnext
  have hboundary : r.cursor.column = 0 → r.cursor.atAnyBoundary = false := fun hzero => by
    rw [h.column] at hzero
    omega
  have htakes := takes_plain h hij hindent hpos hs hboundary rfl hend
  rw [hcrossed, hbehind] at htakes
  exact h.scalar hij (hs.written_ne_nil j) hkey hnext htakes (.inr ⟨rfl, rfl⟩)

/-- **A text behind which the line ends**, in any form. -/
theorem Stands.text {indent : Nat} {s : String}
    (h : Stands r (Write.text indent j true s.toList ++ (Write.newLine k ++ next)) j i o allowed)
    (hij : i ≤ j) (hj : 0 < j) (hindent : i < indent) (hpos : 0 < indent) (hwidth : indent < Write.width)
    (hkey : allowed = true → i ≠ j) (hk : (k : Int) ≤ i) (hnext : Starts next) :
    ∃ r', Leads r r' ∧ Stands r' next k i o true ∧ r'.lexemes = r.lexemes ++ [textLexeme s] := by
  rcases formOf_cases s.toList with ⟨hform, hfits⟩ | ⟨hform, hfits⟩ | hform
  · have hlexeme : textLexeme s = .scalar (String.ofList s.toList) true := by
      rw [textLexeme, readText_of_ne (by simp [hform]), hform, String.ofList_toList]
      rfl
    simp only [Write.text, hform] at h
    rw [hlexeme]
    exact h.plainText (Scalar.isPlainText_of_fitsPlain hfits) hij hj hindent hpos hkey hk hnext
  · have hlexeme : textLexeme s = .scalar (String.ofList (heard false s.toList)) false := by
      rw [textLexeme, toList_readText hform, hform]
      rfl
    simp only [Write.text, hform] at h
    have hrest := h.rest
    rw [List.append_assoc] at hrest
    have hread := Scalar.quoted_folded hpos hfits (by simp [Write.newLine]) hrest
    rw [hlexeme]
    refine h.scalar hij (by simp) hkey hnext (takes_quoted h (.inl rfl) hread) (.inl ⟨?_, rfl⟩)
    simp
  · have hlexeme : textLexeme s = .scalar (String.ofList s.toList) false := by
      rw [textLexeme, readText_of_ne (by simp [hform]), hform, String.ofList_toList]
      rfl
    simp only [Write.text, hform] at h
    have hrest := h.rest
    rw [List.append_assoc] at hrest
    have hread := Scalar.quoted_double hpos hwidth hrest
    rw [hlexeme]
    refine h.scalar hij (by simp) hkey hnext (takes_quoted h (.inr rfl) hread) (.inl ⟨?_, rfl⟩)
    simp

/-! ## Keys -/

theorem plain_one_line {indent column : Nat} {previous : Option Char} (s : List Char) :
    Write.plain indent false column previous s = s := by
  induction s generalizing column previous with
  | nil => rfl
  | cons ch s ih =>
    rw [Write.plain, if_neg (by simp), ih]

/-- A quote is written twice on one line. -/
theorem folded_one_line {indent column : Nat} {previous : Option Char} {s : List Char}
    (hs : Scalar.InLine s) : Write.folded indent false column previous s =
      s.flatMap fun ch => if ch = '\'' then ['\'', '\''] else [ch] := by
  induction s generalizing column previous with
  | nil => rfl
  | cons ch s ih =>
    obtain ⟨hch, hrest⟩ := List.forall_mem_cons.1 hs
    rcases hch with rfl | hink
    · rw [Write.folded]
      simp [ih hrest]
    · rw [Scalar.folded_ink hink, List.flatMap_cons]
      split <;> simp [ih hrest]

/-- What a key is written as lies on one line, and is not much longer than the key. -/
theorem oneLine_text (indent column : Nat) {s : List Char} (hs : Scalar.InLine s) (hne : s ≠ []) :
    Write.text indent column false s ≠ [] ∧
      (∀ ch ∈ Write.text indent column false s, Cursor.IsWide ch) ∧
      (Write.text indent column false s).length ≤ 2 * s.length + 2 := by
  have hwide : ∀ ch ∈ s, Cursor.IsWide ch := fun ch hch => by
    rcases hs ch hch with rfl | hink
    · exact ⟨rfl, by decide⟩
    · exact Scalar.isWide_of_isInk hink
  have hquote : Cursor.IsWide '\'' := ⟨rfl, by decide⟩
  rcases formOf_cases s with ⟨hform, -⟩ | ⟨hform, -⟩ | hform
  · simp only [Write.text, hform, plain_one_line]
    exact ⟨hne, hwide, by omega⟩
  · simp only [Write.text, hform, folded_one_line hs]
    refine ⟨by simp, fun ch hch => ?_, ?_⟩
    · simp only [List.cons_append, List.mem_cons, List.mem_append, List.mem_flatMap, List.not_mem_nil,
        or_false] at hch
      rcases hch with rfl | ⟨d, hd, hch⟩ | rfl
      · exact hquote
      · split at hch
        · simp only [List.mem_cons, List.not_mem_nil, or_false, or_self] at hch
          exact hch ▸ hquote
        · exact List.mem_singleton.1 hch ▸ hwide d hd
      · exact hquote
    · have hsum : ∀ s : List Char,
          (s.flatMap fun ch => if ch = '\'' then ['\'', '\''] else [ch]).length ≤ 2 * s.length := by
        intro s
        induction s with
        | nil => simp
        | cons d s ih =>
          rw [List.flatMap_cons, List.length_append, List.length_cons]
          split <;> simp only [List.length_cons, List.length_nil] <;> omega
      have := hsum s
      simp only [List.length_append, List.length_cons, List.length_nil]
      omega
  · simp [formOf, fitsSingle_of_inLine hs] at hform
    split at hform <;> cases hform

theorem readText_of_inLine {s : String} (hs : Scalar.InLine s.toList) : readText s = s := by
  refine readText_eq_self_iff.2 fun hmem => ?_
  rcases hs _ hmem with h | hink
  · exact absurd h (by decide)
  · exact absurd hink.2.1 (by decide)

/-- Behind a colon there is nothing of a plain text. -/
theorem endsAt_colon {e : Cursor} {u : List Char} (h : e.rest = ':' :: u)
    (hu : isGap (u.headD endChar) = true) (least : Int) : Scalar.EndsAt least e ∧
      (Scalar.plainGap e).crossed = false ∧ (Scalar.plainGap e).behind = e := by
  have hgap : Scalar.plainGap e = ⟨[], false, e⟩ :=
    Scalar.plainGap_blanks (k := 0) (t := ':' :: u) h (.cons rfl u)
  refine ⟨⟨?_, .inl (by rw [hgap])⟩, by rw [hgap], by rw [hgap]⟩
  have hends : Scalar.endsPlain false ':' u = true := by
    rw [Scalar.endsPlain, hu]
    rfl
  rw [h, Scalar.plainRun, hends, if_pos rfl]

/-- A plain text is no document boundary. -/
theorem not_boundary_of_opens {c : Cursor} {s u : List Char} (hs : Scalar.IsPlainText s)
    (h : c.rest = s ++ ':' :: u) : c.atAnyBoundary = false := by
  have hopens := hs.opens
  simp only [Write.opensOther] at hopens
  have hshort : ∀ d : Char, d ≠ ':' → [d, d, d].isPrefixOf s = false →
      [d, d, d].isPrefixOf (s ++ ':' :: u) = false := by
    intro d hd hnot
    have hd : (d == ':') = false := beq_false_of_ne hd
    rcases s with _ | ⟨a, _ | ⟨b, _ | ⟨c, s⟩⟩⟩
    · simp [List.isPrefixOf, hd]
    · simp [List.isPrefixOf, hd]
    · simp [List.isPrefixOf, hd]
    · simpa [List.isPrefixOf] using hnot
  obtain ⟨ch, s', rfl⟩ := List.exists_cons_of_ne_nil hs.ne_nil
  simp only [Bool.or_eq_false_iff] at hopens
  have hdash := hshort '-' (by decide) hopens.1.1.1
  have hpoint := hshort '.' (by decide) hopens.1.1.2
  rw [Cursor.atAnyBoundary, Cursor.atBoundary, Cursor.atBoundary, Cursor.startsWith, Cursor.startsWith, h,
    show "---".toList = ['-', '-', '-'] from rfl, show "...".toList = ['.', '.', '.'] from rfl, hdash,
    hpoint]
  rfl

/-- **A text as a key on the line of its value.** -/
theorem Stands.simpleKey {indent : Nat} {s : String} {u : List Char} (hs : Scalar.InLine s.toList)
    (hsimple : Write.isSimpleKey s.toList = true)
    (h : Stands r (Write.text indent j false s.toList ++ ':' :: u) j i o true) (hij : i ≤ j)
    (hindent : i < indent) (hpos : 0 < indent) (hu : isGap (u.headD endChar) = true) :
    ∃ r', Comes r r' ∧
      Stands r' u (j + (Write.text indent j false s.toList).length + 1) j (outerAt i o j) false ∧
      r'.lexemes = r.lexemes ++ opensAt i j .mappingStart ++ [.key, textLexeme s, .value] := by
  simp only [Write.isSimpleKey, Bool.and_eq_true, Bool.not_eq_true', List.isEmpty_eq_false_iff] at hsimple
  obtain ⟨hne, hwide, hlen⟩ := oneLine_text indent j hs hsimple.1.1
  have hshort : s.toList.length < Write.keyLimit := of_decide_eq_true hsimple.2
  have hlimit : 2 * Write.keyLimit ≤ 1024 := by decide
  refine h.key hij hne hwide (by omega) hu ?_
  rcases formOf_cases s.toList with ⟨hform, hfits⟩ | ⟨hform, hfits⟩ | hform
  · have hlexeme : textLexeme s = .scalar (String.ofList s.toList) true := by
      rw [textLexeme, readText_of_ne (by simp [hform]), hform, String.ofList_toList]
      rfl
    have hplain := Scalar.isPlainText_of_fitsPlain hfits
    simp only [Write.text, hform] at h ⊢
    obtain ⟨hend, hcrossed, hbehind⟩ := endsAt_colon (Cursor.rest_advance_append h.rest) hu (i + 1)
    have hboundary : r.cursor.column = 0 → r.cursor.atAnyBoundary = false := fun _ => by
      refine not_boundary_of_opens hplain (u := u) ?_
      rw [h.rest, plain_one_line]
    have htakes := takes_plain h hij hindent hpos hplain hboundary rfl hend
    rwa [hcrossed, hbehind, ← hlexeme] at htakes
  · have hlexeme : textLexeme s = .scalar (String.ofList (heard false s.toList)) false := by
      rw [textLexeme, toList_readText hform, hform]
      rfl
    simp only [Write.text, hform] at h ⊢
    have hrest := h.rest
    rw [List.append_assoc] at hrest
    have hread := Scalar.quoted_folded hpos hfits (by simp) hrest
    have htakes := takes_quoted h (.inl rfl) hread
    rw [← hlexeme] at htakes
    simpa using htakes
  · simp [formOf, fitsSingle_of_inLine hs] at hform
    split at hform <;> cases hform

end Reading

end Cnd.Yaml
