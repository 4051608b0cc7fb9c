import Cnd.Proofs.Elaboration.Meaning
import Cnd.Proofs.Outline.Complete
import Cnd.Proofs.Token.Scan

/-!
Reading a definition text is exact: it gives what a derivation of the text means, and nothing else.

What is said of all readings starts from `means_of_readWith`, and the reading of one text is had from
its outline (`readWith_of_outline`).
-/

namespace Cnd.Definitions

open Outline (ofTokens_eq_complete_iff document_of_ofTokens)

theorem read_eq_ok_iff_outline {source : String} {policy : ConflictPolicy} {ns : Namespaces}
    {text : String} {d : Definitions} :
    (read source policy ns text).outcome = .ok d ↔
      (Elaboration.outline (some source) policy (Token.scan text.toList).fault
        (.ofTokens (Token.scan text.toList).tokens) ns).outcome = .ok (d.types, d.namespaces) := by
  simp only [read]
  split
  · rename_i e he
    simp [he]
  · rename_i types ns' hd
    rw [hd]
    obtain ⟨types', ns''⟩ := d
    simp

theorem ofTokens_of_scan {text : List Char} {ts : List Token} {stop : Position}
    {cs : List Clause} (h : Token.scan text = ⟨ts ++ [⟨.ending, stop⟩], none⟩) :
    Outline.ofTokens (ts ++ [⟨.ending, stop⟩]) = ⟨cs, .complete⟩ ↔ Grammar.Document ts cs :=
  ofTokens_eq_complete_iff (not_ending_of_scan h) rfl

/-- A reading that succeeds has scanned the text to its end, and derived all of it. -/
theorem read_eq_ok_iff {source : String} {policy : ConflictPolicy} {ns : Namespaces}
    {text : String} {d : Definitions} :
    (read source policy ns text).outcome = .ok d ↔
      ∃ tokens stop clauses, Token.scan text.toList = ⟨tokens ++ [⟨.ending, stop⟩], none⟩ ∧
        Grammar.Document tokens clauses ∧ Meaning.Means policy ns clauses d.types d.namespaces := by
  rw [read_eq_ok_iff_outline, Meaning.outline_eq_ok]
  constructor
  · rintro ⟨he, hm⟩
    have ho : Outline.ofTokens (Token.scan text.toList).tokens =
        ⟨(Outline.ofTokens (Token.scan text.toList).tokens).clauses, .complete⟩ := by rw [← he]
    rcases scan_complete_or_fault text.toList with ⟨ts, stop, hs⟩ | ⟨e, hf⟩
    · rw [hs] at ho hm
      exact ⟨ts, stop, _, hs, (ofTokens_of_scan hs).1 ho, hm⟩
    · -- Without an ending among the tokens there is no complete outline.
      exfalso
      obtain ⟨s, t, r, hsplit, ht, -⟩ := document_of_ofTokens ho
      have := not_ending_of_fault hf t (by rw [hsplit]; simp)
      rw [ht] at this
      simp at this
  · rintro ⟨ts, stop, cs, hs, hd, hm⟩
    rw [hs, (ofTokens_of_scan hs).2 hd]
    exact ⟨rfl, hm⟩

theorem outcome_readWith (source : String) (policy : ConflictPolicy) (seed : Option Namespaces)
    (text : String) : (readWith source policy seed text).outcome =
      (read source policy (seed.getD .builtin) text).outcome := by
  cases seed <;> rfl

/-- A given text with its outline, found once. -/
structure Outlined (text : String) where
  outline : Outline
  eq : Outline.ofTokens (Token.scan text.toList).tokens = outline

theorem readWith_of_outline {source : String} {policy : ConflictPolicy} {seed : Option Namespaces}
    {text : String} {d : Definitions} (o : Outlined text)
    (h : (Elaboration.outline (some source) policy (Token.scan text.toList).fault o.outline
      (seed.getD .builtin)).outcome = .ok (d.types, d.namespaces)) :
    (readWith source policy seed text).outcome = .ok d := by
  rw [outcome_readWith, read_eq_ok_iff_outline, o.eq]
  exact h

/-- The clauses of the node types of a text, in order. -/
def typeClauses (text : String) : List TypeClause :=
  (Outline.ofTokens (Token.scan text.toList).tokens).clauses.filterMap (·.nodeType?)

/-- What is read is what the clauses of the outline mean, which are derived from the grammar. -/
theorem means_of_readWith {source : String} {policy : ConflictPolicy} {seed : Option Namespaces}
    {text : String} {d : Definitions} (h : (readWith source policy seed text).outcome = .ok d) :
    ∃ tokens clauses, Grammar.Document tokens clauses ∧
      typeClauses text = clauses.filterMap (·.nodeType?) ∧
        Meaning.Means policy (seed.getD .builtin) clauses d.types d.namespaces := by
  rw [outcome_readWith, read_eq_ok_iff_outline, Meaning.outline_eq_ok] at h
  obtain ⟨hending, hm⟩ := h
  have ho : Outline.ofTokens (Token.scan text.toList).tokens =
      ⟨(Outline.ofTokens (Token.scan text.toList).tokens).clauses, .complete⟩ := by rw [← hending]
  obtain ⟨tokens, _, _, -, -, hd⟩ := document_of_ofTokens ho
  exact ⟨tokens, _, hd, rfl, hm⟩

end Cnd.Definitions
