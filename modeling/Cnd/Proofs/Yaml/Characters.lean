import Cnd.Proofs.Yaml.Layout

/-!
The characters of a document: all can be written as they are (`written_document`), so a document is a
text that may be read, and it has no carriage returns (`isTextChar_of_isPrintable`).
-/

namespace Cnd.Yaml

open Write (isPrintable blocks newLine blanks)

/-- A text of characters that can be written as they are. -/
def Written (s : List Char) : Prop := ∀ c ∈ s, isPrintable c = true

theorem Written.append {s t : List Char} (hs : Written s) (ht : Written t) : Written (s ++ t) :=
  List.forall_mem_append.2 ⟨hs, ht⟩

theorem Written.cons {c : Char} {s : List Char} (hc : isPrintable c = true) (hs : Written s) :
    Written (c :: s) := List.forall_mem_cons.2 ⟨hc, hs⟩

theorem isTextChar_of_isPrintable {c : Char} (h : isPrintable c = true) :
    isTextChar c = true ∧ c ≠ '\r' := by
  have hvalid : c.toNat < 0xD800 ∨ 0xDFFF < c.toNat ∧ c.toNat < 0x110000 := c.valid
  refine ⟨?_, ?_⟩
  · by_cases hfeed : c = '\n'
    · rw [hfeed]
      decide
    · simp only [isPrintable, Bool.or_eq_true, Bool.and_eq_true, beq_iff_eq, hfeed, false_or,
        decide_eq_true_eq, bne_iff_ne] at h
      simp only [isTextChar, Bool.or_eq_true, Bool.and_eq_true, beq_iff_eq, decide_eq_true_eq]
      omega
  · rintro rfl
    exact absurd h (by decide)

theorem written_blanks (n : Nat) : Written (blanks n) := fun c hc => by
  rw [List.eq_of_mem_replicate hc]
  rfl

theorem written_newLine (n : Nat) : Written (newLine n) := .cons rfl (written_blanks n)

/-! ## Texts -/

section

variable {indent : Nat} {split : Bool}

theorem written_plain {s : List Char} (hs : Written s) (column : Nat) (previous : Option Char) :
    Written (Write.plain indent split column previous s) := by
  induction s generalizing column previous with
  | nil => exact hs
  | cons c s ih =>
    obtain ⟨hc, hs⟩ := List.forall_mem_cons.1 hs
    rw [Write.plain]
    split
    · exact (written_newLine indent).append (ih hs _ _)
    · exact .cons hc (ih hs _ _)

theorem written_folded {s : List Char} (hs : Written s) (column : Nat) (previous : Option Char) :
    Written (Write.folded indent split column previous s) := by
  induction s generalizing column previous with
  | nil => exact hs
  | cons c s ih =>
    obtain ⟨hc, hs⟩ := List.forall_mem_cons.1 hs
    rw [Write.folded]
    have hextra : Written (if c == '\n' && !(previous.map Write.isBreak).getD false then ['\n'] else []) := by
      split
      · exact .cons rfl (by simp [Written])
      · simp [Written]
    split
    · dsimp only
      split
      · exact (written_newLine indent).append (ih hs _ _)
      · exact .cons hc (ih hs _ _)
    split
    · dsimp only
      split
      · exact hextra.append (.cons hc (ih hs _ _))
      · rw [List.append_assoc]
        exact hextra.append (.cons hc ((written_blanks indent).append (ih hs _ _)))
    split
    · exact .cons rfl (.cons rfl (ih hs _ _))
    · exact .cons hc (ih hs _ _)

theorem isPrintable_of_isBare {c : Char} (h : Write.isBare c = true) : isPrintable c = true := by
  obtain ⟨⟨-, -, -, -, hmark⟩, hrange⟩ := Scalar.isBare_iff.1 h
  have hmark : c.toNat ≠ 0xFEFF := fun hn => hmark (Char.toNat_inj.1 (by rw [hn]; rfl))
  simp only [isPrintable, Bool.or_eq_true, Bool.and_eq_true, beq_iff_eq, decide_eq_true_eq, bne_iff_ne]
  omega

theorem written_escape (c : Char) : Written (Write.escape c) := by
  have hdigits : ∀ width n, Written ((Text.paddedHex width n).map Char.toUpper) := by
    have hdigit : ∀ m < 16, isPrintable (Text.hexDigit m).toUpper = true := by decide
    intro width
    induction width with
    | zero => simp [Text.paddedHex, Written]
    | succ w ih =>
      intro n
      rw [Text.paddedHex, List.map_append]
      exact (ih _).append (.cons (hdigit _ (Nat.mod_lt _ (by decide))) (by simp [Written]))
  have hletters : ∀ p ∈ Write.escapeLetters, isPrintable p.2 = true := by decide
  unfold Write.escape
  split
  · rename_i letter hlookup
    obtain ⟨l₁, l₂, hmem, -⟩ := List.lookup_eq_some_iff.1 hlookup
    exact .cons rfl (.cons (hletters (c, letter) (by simp [hmem])) (by simp [Written]))
  · split
    · exact .cons rfl (.cons rfl (hdigits _ _))
    split
    · exact .cons rfl (.cons rfl (hdigits _ _))
    · exact .cons rfl (.cons rfl (hdigits _ _))

theorem written_continued (next : Option Char) : Written (Write.continued indent next).1 := by
  have hline : Written ('\\' :: newLine indent) := .cons rfl (written_newLine indent)
  rw [Write.continued]
  split
  · exact hline.append (.cons rfl (by simp [Written]))
  · exact hline

theorem written_double (s : List Char) (column : Nat) (isFirst afterEscape : Bool) :
    Written (Write.double indent split column isFirst afterEscape s) := by
  induction s generalizing column isFirst afterEscape with
  | nil => simp [Write.double, Written]
  | cons c s ih =>
    cases hb : Write.isBare c with
    | true =>
      rw [Scalar.double_bare hb]
      have hc := isPrintable_of_isBare hb
      split
      · exact (written_continued _).append (.cons hc (ih _ _ _))
      · exact .cons hc (ih _ _ _)
    | false =>
      rw [Scalar.double_escape hb]
      refine (written_escape c).append ?_
      split
      · exact (written_continued _).append (ih _ _ _)
      · exact ih _ _ _

theorem written_text (column : Nat) (s : List Char) : Written (Write.text indent column split s) := by
  have hfits : ∀ {s}, Write.fitsSingle s = true → Written s := fun h => by
    simp only [Write.fitsSingle, Bool.and_eq_true, List.all_eq_true] at h
    exact h.1.1
  have hquoted : ∀ {q : Char} {s : List Char}, isPrintable q = true → Written s →
      Written (q :: s ++ [q]) := fun hq hs =>
    Written.append (.cons hq hs) (.cons hq (by simp [Written]))
  rcases formOf_cases s with ⟨hform, h⟩ | ⟨hform, h⟩ | hform
  · simp only [Write.text, hform]
    have hs := Scalar.isPlainText_of_fitsPlain h
    refine written_plain (fun c hc => ?_) _ _
    rcases hs.inLine c hc with rfl | hink
    · rfl
    · exact hink.1
  · simp only [Write.text, hform]
    exact hquoted rfl (written_folded (hfits h) _ _)
  · simp only [Write.text, hform]
    exact hquoted rfl (written_double s _ _ _)

end

/-! ## Values -/

theorem written_blocks {start : List Char} {indent : Nat} {bs : List (List Char)} (hstart : Written start)
    (hbs : ∀ b ∈ bs, Written b) : Written (blocks start indent bs) := by
  cases bs with
  | nil => simp [blocks, Written]
  | cons b bs =>
    obtain ⟨hb, hbs⟩ := List.forall_mem_cons.1 hbs
    refine (hstart.append hb).append fun c hc => ?_
    obtain ⟨b', hb', hc⟩ := List.mem_flatMap.1 hc
    exact (written_newLine indent).append (hbs b' hb') c hc

theorem written_member {p : String × Data} (hp : ∀ indent column belowKey,
    Written (Write.value indent column belowKey p.2)) (indent : Nat) : Written (memberText indent p) := by
  rw [memberText]
  split
  · exact (written_text _ _).append (.cons rfl (hp _ _ _))
  · have hkey : Written ('?' :: ' ' :: Write.text (indent + 2) (indent + 2) true p.1.toList) :=
      .cons rfl (.cons rfl (written_text _ _))
    exact (hkey.append (written_newLine indent)).append (.cons rfl (hp _ _ _))

theorem written_value {n : Nat} {d : Data} (hd : Regular n d) (indent column : Nat) (belowKey : Bool) :
    Written (Write.value indent column belowKey d) := by
  induction hd generalizing indent column belowKey with
  | null n =>
    have hword : Written " null".toList := List.all_eq_true.1 (by decide)
    simpa [Write.value, Write.scalar] using hword
  | bool n b =>
    have hword : Written " true".toList ∧ Written " false".toList :=
      ⟨List.all_eq_true.1 (by decide), List.all_eq_true.1 (by decide)⟩
    cases b
    · simpa [Write.value, Write.scalar] using hword.2
    · simpa [Write.value, Write.scalar] using hword.1
  | text n s =>
    have htext : Written (' ' :: Write.text (indent + 2) (column + 1) true s.toList) :=
      .cons rfl (written_text _ _)
    simpa [Write.value, Write.scalar] using htext
  | list n xs hitems ih =>
    cases xs with
    | nil =>
      have hempty : Written " []".toList := List.all_eq_true.1 (by decide)
      simpa [Write.value] using hempty
    | cons x xs =>
      have hitem : ∀ indent, ∀ b ∈ (x :: xs).map (itemText indent), Written b := fun indent =>
        List.forall_mem_map.2 fun y hy => .cons rfl (ih y hy _ _ _)
      rw [value_list]
      split
      · exact (written_newLine _).append (written_blocks (by simp [Written]) (hitem _))
      · exact (written_blanks _).append (written_blocks (by simp [Written]) (hitem _))
  | map n ms hnames hkeys hvalues ih =>
    cases ms with
    | nil =>
      have hempty : Written " \x7b\x7d".toList := List.all_eq_true.1 (by decide)
      simpa [Write.value, Data.named] using hempty
    | cons p ms =>
      have hmember : ∀ b ∈ (p :: ms).map (memberText (indent + 2)), Written b :=
        List.forall_mem_map.2 fun q hq => written_member (ih q hq) _
      rw [value_map]
      refine Written.append ?_ (written_blocks (by simp [Written]) hmember)
      split
      · exact written_newLine _
      · exact written_blanks _

/-- A mapping is written as a document of characters that stand for themselves. -/
theorem written_document {n : Nat} {ms : List (String × Data)} (hne : ms ≠ [])
    (hd : Regular (n + 1) (.map (Data.named ms))) :
    Write.document (.map (Data.named ms)) = blocks [] 0 (ms.map (memberText 0)) ∧
      Written (Write.document (.map (Data.named ms))) := by
  have hempty : (Data.named ms).isEmpty = false := by
    rw [Data.named, List.isEmpty_map, List.isEmpty_eq_false_iff]
    exact hne
  have hdocument : Write.document (.map (Data.named ms)) = blocks [] 0 (ms.map (memberText 0)) := by
    rw [Write.document, hempty, entries_named]
    rfl
  refine ⟨hdocument, ?_⟩
  rw [hdocument]
  exact written_blocks (by simp [Written])
    (List.forall_mem_map.2 fun m hm => written_member (written_value (hd.members.2 m hm).2) 0)

end Cnd.Yaml
