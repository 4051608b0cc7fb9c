import Cnd.Proofs.Elaboration.FirstFault
import Cnd.Proofs.Reading.Exact
import Cnd.Proofs.Token.Segment

/-!
Where the error of a text points.

An error is at a place of the text, counted in line breaks and characters: at the character that no
segment begins with, or at a token that stands in the text. `Blames` says which of these it is for
each kind of fault, and `readWith_error_location` that there are no other errors.
-/

namespace Cnd

/-- The clauses of an outline and the node type before its break are held in the tokens. -/
theorem Outline.heldIn_of_begun {ts : List Token} {c : Clause}
    (h : c ∈ (Outline.ofTokens ts).begun) : c.HeldIn ts := by
  unfold Outline.begun at h
  split at h
  · rename_i d b he
    rcases List.mem_append.1 h with h | h
    · exact heldIn_of_ofTokens h
    · obtain rfl := List.mem_singleton.1 h
      exact (reads_of_ofTokens he).taken
  · exact heldIn_of_ofTokens h

namespace Definitions

open Check (primaries)
open Meaning (Means Passes Fails)
open Scan (BeginsFault Segment Segmentation StandsIn charsOf)

/-- The outline of a text, as far as its scan goes. -/
def outlineOf (text : String) : Outline := Outline.ofTokens (Token.scan text.toList).tokens

/-- What is wrong with a text that is read from a table, and the place that is to blame: where the
scan meets a fault, the token at which the grammar is broken, the opening sign of a binding that is
refused, or the token of the first check that fails. Clauses count in the table behind those in
front of them, which all mean something. -/
inductive Blames (policy : ConflictPolicy) (ns : Namespaces) (text : String) :
    ParseFault → Position → Prop
  | scan {segs : List Segment} {rest : List Char} {f : ScanFault}
      (ht : text.toList = charsOf segs ++ rest) (hs : Segmentation [] segs rest)
      (hf : BeginsFault f rest) : Blames policy ns text (.scan f) (.behind (charsOf segs))
  | grammar {c : Option TypeClause} {f : GrammarFault} {t : Token} (ht : StandsIn text.toList t)
      (hf : (outlineOf text).ending = .broken c (.grammar f t)) :
      Blames policy ns text (.grammar f t) t.position
  | declaration {before behind : List Clause} {c : NamespaceClause} {ts : List NodeType}
      {ns' : Namespaces} {e : NameError} {s : List Token} (ht : StandsIn text.toList c.opening)
      (hc : (outlineOf text).begun = before ++ .binding c :: behind)
      (hs : s <:+: (Token.scan text.toList).tokens) (hb : Grammar.Binding s c)
      (hm : Means policy ns before ts ns') (hf : ns'.declare policy c.pfx c.uri = .error e) :
      Blames policy ns text (.declaration e) c.opening.position
  | check {before behind : List Clause} {c : TypeClause} {ts : List NodeType} {ns' : Namespaces}
      {front rest : List Check} {k : Check} {f : ParseFault} (ht : StandsIn text.toList k.token)
      (hc : (outlineOf text).begun = before ++ .nodeType c :: behind)
      (hm : Means policy ns before ts ns') (hk : c.checks = front ++ k :: rest)
      (hpass : ∀ j ∈ front, Passes ns' j) (hone : primaries front ≤ 1)
      (hf : Fails ns' c.name (primaries front) k f) : Blames policy ns text f k.token.position

section

variable {source : String} {policy : ConflictPolicy} {ns : Namespaces} {text : String}
  {e : ParseError}

theorem outline_of_read_error {f : Failure} (h : (read source policy ns text).outcome = .error f) :
    (Elaboration.outline (some source) policy (Token.scan text.toList).fault (outlineOf text)
      ns).outcome = .error f := by
  simp only [read] at h
  split at h
  · rename_i he
    rw [outlineOf, he, Except.error.inj h]
  · simp at h

/-- An error is at the place to blame for it. -/
def PointsTo (source : String) (policy : ConflictPolicy) (ns : Namespaces) (text : String)
    (e : ParseError) : Prop :=
  ∃ p, Blames policy ns text e.fault p ∧ e.location = .ofPosition (some source) p.line p.column

theorem pointsTo_of_failsAt
    (h : Meaning.FailsAt (some source) policy ns (outlineOf text).begun (.parse e)) :
    PointsTo source policy ns text e := by
  obtain ⟨before, c, behind, ts, ns', hc, hm, hfails⟩ := h
  have hheld : c.HeldIn (Token.scan text.toList).tokens := by
    refine Outline.heldIn_of_begun ?_
    rw [← outlineOf, hc]
    exact List.mem_append_right before List.mem_cons_self
  generalize hfailure : Failure.parse e = failure at hfails
  cases hfails with
  | @binding c e hd =>
    obtain rfl := Failure.parse.inj hfailure
    obtain ⟨s, hs, hb⟩ := hheld
    have hopening : c.opening ∈ s := by
      cases hb
      exact List.mem_cons_self
    have ht := Scan.standsIn_of_scan (hs.subset hopening)
    exact ⟨c.opening.position, .declaration ht hc hs hb hm hd, rfl⟩
  | @nodeType c _ hn =>
    subst hfailure
    obtain ⟨front, k, rest, f, hk, hpass, hone, hf, rfl⟩ := Meaning.firstFault_of_nodeType hn
    rw [Nat.zero_add] at hone hf
    have hmem : k ∈ c.checks := by
      rw [hk]
      exact List.mem_append_right front List.mem_cons_self
    have ht := Scan.standsIn_of_scan (hheld (TypeClause.token_of_mem_checks hmem))
    exact ⟨k.token.position, .check ht hc hm hk hpass hone hf, rfl⟩

/-- The tokens of a text run out without an ending just where its scan meets a fault. -/
theorem pointsTo_of_break {c : Option TypeClause} {b : Break}
    (hb : (outlineOf text).ending = .broken c b)
    (h : Elaboration.breakFailure (some source) (Token.scan text.toList).fault b = .parse e) :
    PointsTo source policy ns text e := by
  have hleaves := (Outline.reads_of_ofTokens hb).leaves
  cases hleaves with
  | @grammar f t ht =>
    obtain rfl := Failure.parse.inj h
    exact ⟨t.position, .grammar (Scan.standsIn_of_scan ht) hb, rfl⟩
  | scan hlast =>
    rcases scan_complete_or_fault text.toList with ⟨ts, stop, hs⟩ | ⟨f, hf⟩
    · rw [hs] at hlast
      have hending := hlast ⟨.ending, stop⟩ (by simp)
      simp [Token.isEnding] at hending
    · obtain ⟨segs, rest, ht, hs, hbegins, hp⟩ := Scan.beginsFault_of_scan hf
      rw [hf] at h
      obtain rfl := Failure.parse.inj h
      exact ⟨f.position, hp ▸ .scan ht hs hbegins, rfl⟩

end

/-- **Errors point into the text.** The error of a text that cannot be read has the line and the
column of a place in the text that is to blame for it. -/
theorem readWith_error_location {source : String} {policy : ConflictPolicy}
    {seed : Option Namespaces} {text : String} {e : ParseError}
    (h : (readWith source policy seed text).outcome = .error (.parse e)) :
    ∃ p, Blames policy (seed.getD .builtin) text e.fault p ∧
      e.location = .ofPosition (some source) p.line p.column := by
  rw [outcome_readWith] at h
  rcases Meaning.failsAt_or_broken (outline_of_read_error h) with hfails | ⟨c, b, hb, hbreak⟩
  · exact pointsTo_of_failsAt hfails
  · exact pointsTo_of_break hb hbreak

def defaultsOutline : Outlined "[a]\n- b (Long) = 1, x" where
  outline :=
    ⟨[.nodeType ⟨⟨.text "a" false, ⟨1, 2⟩⟩, [], false, false,
      [.property ⟨.named ⟨.text "b" false, ⟨2, 3⟩⟩, .long,
        [⟨.text "1" false, ⟨2, 14⟩⟩, ⟨.text "x" false, ⟨2, 17⟩⟩], [], []⟩]⟩], .complete⟩
  eq := by decide +kernel

/-- The second of two default values is none: the error is at the token of that value. -/
theorem readWith_error_location_default :
    let text := "[a]\n- b (Long) = 1, x"
    ∃ e, (readWith "" .error none text).outcome = .error (.parse e) ∧
      Blames .error .builtin text e.fault ⟨2, 17⟩ := by
  intro text
  have h : (readWith "" .error none text).outcome =
      .error (.parse ⟨.conversion ⟨"x", .long, .notInteger "x"⟩, .ofPosition (some "") 2 17⟩) := by
    rw [outcome_readWith]
    simp only [read]
    rw [defaultsOutline.eq]
    rfl
  obtain ⟨⟨line, column⟩, hp, hl⟩ := readWith_error_location h
  simp only [Location.ofPosition, Location.mk.injEq, Option.some.injEq, Int.natCast_inj] at hl
  obtain ⟨-, rfl, rfl, -⟩ := hl
  exact ⟨_, h, hp⟩

end Definitions

end Cnd
