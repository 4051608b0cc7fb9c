import Cnd.Proofs.Yaml.Characters
import Mathlib.Data.List.Sort

/-!
The tokens of a document: reading a document ends with the end of the text, and its tokens are those of
its entries (`tokens_document`).
-/

namespace Cnd.Yaml

open Write (value blocks newLine)

namespace Reading

variable {r r' : Reading} {text : List Char} {j : Nat}

/-! ## The end of a text -/

/-- At the end of a text the only open block is closed. -/
theorem Stands.ends (h : Stands r [] 0 0 [-1] true) (fuel : Nat) :
    ∃ r', proceed fuel r = (r', none) ∧ r'.Sound ∧ r'.lexemes = r.lexemes ++ [.blockEnd, .textEnd] := by
  have hflow : r.inFlow = false := by simp [inFlow, h.depth]
  let closed : Reading := { r.pushHere .blockEnd with indent := -1, outer := [] }
  have hunwind : r.unwind (-1) = closed := by
    rw [unwind, hflow, if_neg Bool.false_ne_true, h.outer, unwindTo, h.indent, if_pos (by decide), unwindTo]
  have hend : r.endText = .ok (closed.pushHere .textEnd) := by
    have hkey : closed.dropKey = .ok closed := by
      rw [dropKey, show closed.possible = [] from h.possible]
      rfl
    rw [endText, hunwind, hkey]
    rfl
  have hstay : r.unwind r.cursor.column = r := unwind_eq_self (by rw [h.indent, h.column]; rfl)
  have hempty : r.cursor.rest.isEmpty = true := by rw [h.rest]; rfl
  have hclosed : closed.tokens = ⟨.blockEnd, r.cursor.mark, r.cursor.mark⟩ :: r.tokens := rfl
  have hended : (closed.pushHere .textEnd).tokens =
      ⟨.textEnd, closed.cursor.mark, closed.cursor.mark⟩ :: closed.tokens := rfl
  have hsound : closed.Sound := h.sound.push hclosed rfl rfl
  refine ⟨closed.pushHere .textEnd, ?_, hsound.push hended rfl rfl, ?_⟩
  · rw [proceed, hstay, hempty, if_pos rfl, hend]
  · rw [lexemes_push hsound hended rfl, lexemes_push h.sound hclosed rfl]
    simp

theorem stands_start (text : List Char) : Stands (start text) text 0 (-1) [] true :=
  ⟨rfl, rfl, rfl, rfl, rfl, rfl, rfl, ⟨rfl, by simp [start], .nil⟩⟩

/-- **A text that is one block is read to its end.** -/
theorem all_block {opening : Lexeme} {b : List Char} {ls : List Lexeme} (hstarts : ∀ t, Starts (b ++ t))
    (hb : ReadsBlock 0 opening b ls) :
    ∃ r, all ((b ++ newLine 0).length + 2) (start (b ++ newLine 0)) = (r, none) ∧ r.Sound ∧
      r.lexemes = opening :: ls ++ [.blockEnd, .textEnd] := by
  have hstands := stands_start (b ++ newLine 0)
  have hsettle : (start (b ++ newLine 0)).settle = .ok (start (b ++ newLine 0)) :=
    settle_blanks (k := 0) rfl rfl (hstarts _)
  obtain ⟨r₁, ⟨n, hn, hleads⟩, hstands₁, hlexemes₁⟩ :=
    hb (start (b ++ newLine 0)) (-1) [] 0 [] (by decide) (Nat.le_refl _) (by simp [Starts, StopsAt])
      (by simpa using hstands)
  obtain ⟨r, hproceed, hsound, hlexemes⟩ := hstands₁.ends ((b ++ newLine 0).length + 1 - n)
  have hlength : n ≤ (b ++ newLine 0).length := by
    rw [hstands.rest] at hn
    omega
  refine ⟨r, ?_, hsound, ?_⟩
  · rw [all_of_settle hsettle, ← hproceed, ← hleads, Nat.sub_add_cancel (by omega)]
  · rw [hlexemes, hlexemes₁, opensAt, if_pos (by decide), lexemes]
    simp [start, withKeys]

end Reading

/-! ## The tokens of a text -/

theorem Tokens.ofText_of_all {text : List Char} {r : Reading} (htext : text.all isTextChar = true)
    (hall : Reading.all (text.length + 2) (.start text) = (r, none)) (hr : r.Sound) :
    (ofText text).tokens.map (·.lexeme) = r.lexemes := by
  have hkeys : r.keys.filter (·.before < r.count) = r.keys :=
    List.filter_eq_self.2 fun k hk => decide_eq_true (hr.count ▸ hr.marks k hk)
  have htake : r.tokens.reverse.take r.count = r.tokens.reverse :=
    List.take_of_length_le (by rw [List.length_reverse, hr.count])
  rw [ofText, if_pos htext, hall]
  simp only [Option.isSome_none, Bool.false_eq_true, if_false, hkeys, htake, mergeSort_keyMarks hr.ordered]
  rfl

/-- **The tokens of a mapping are those of its members**, whatever lines they are written in. -/
theorem tokens_document {n : Nat} {ms : List (String × Data)} (hne : ms ≠ [])
    (hd : Regular (n + 1) (.map (Data.named ms))) (hwidth : 2 * n + 2 < Write.width) :
    (Tokens.ofText (Write.document (.map (Data.named ms)) ++ ['\n'])).tokens.map (·.lexeme) =
      .mappingStart :: entryLexemes (Data.named ms) ++ [.blockEnd, .textEnd] := by
  obtain ⟨hdocument, hwritten⟩ := written_document hne hd
  have hchars : (Write.document (.map (Data.named ms)) ++ ['\n']).all isTextChar = true :=
    List.all_eq_true.2 fun c hc => (isTextChar_of_isPrintable
      (hwritten.append (.cons rfl (by simp [Written])) c hc)).1
  have hblock : Reading.ReadsBlock 0 .mappingStart (blocks [] 0 (ms.map (memberText 0)))
      (entryLexemes (Data.named ms)) := by
    rw [entryLexemes_named]
    exact Reading.readsBlock_blocks hne (fun m _ t => Reading.starts_memberText m t) fun m hm =>
      Reading.readsBlock_member (hd.members.2 m hm).2 (Reading.readsValue (hd.members.2 m hm).2)
        (hd.members.2 m hm).1 (by omega)
  have hstarts : ∀ t, Reading.Starts (blocks [] 0 (ms.map (memberText 0)) ++ t) := fun t => by
    obtain ⟨m, ms, rfl⟩ := List.exists_cons_of_ne_nil hne
    rw [List.map_cons, blocks, List.nil_append, List.append_assoc]
    exact Reading.starts_memberText m _
  obtain ⟨r, hall, hsound, hlexemes⟩ := Reading.all_block hstarts hblock
  rw [hdocument] at hchars ⊢
  rw [Tokens.ofText_of_all hchars hall hsound, hlexemes]

end Cnd.Yaml
