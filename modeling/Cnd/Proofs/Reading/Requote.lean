import Cnd.Proofs.Elaboration.Alike
import Cnd.Proofs.Token.Requote

/-!
Quotes do not matter to a reading.

Putting every text of a definition text between quotes changes the quotes and places of tokens only,
and so neither the definitions nor the reports, nor a failure apart from its place
(`readWith_requoted`).
-/

namespace Cnd

/-! ## Tokens that differ in quotes and places -/

namespace Elaboration

/-- Tokens are elaborated as they are without quotes and places. -/
theorem outline_ofTokens_bare (source : Option String) (policy : ConflictPolicy)
    (scan : Option ScanError) (ts : List Token) (ns : Namespaces) :
    (outline source policy scan (.ofTokens (ts.map Token.bare)) ns).Alike
      (outline source policy scan (.ofTokens ts) ns) := by
  rw [Outline.ofTokens_map Token.keeps_bare]
  exact outline_map Token.keeps_bare policy scan _ ns

theorem outline_congr_bare (source : Option String) (policy : ConflictPolicy)
    (scan : Option ScanError) {ts ts' : List Token} (h : ts'.map Token.bare = ts.map Token.bare)
    (ns : Namespaces) :
    (outline source policy scan (.ofTokens ts') ns).Alike
      (outline source policy scan (.ofTokens ts) ns) := by
  have hbare := outline_ofTokens_bare source policy scan ts' ns
  rw [h] at hbare
  exact hbare.symm.trans (outline_ofTokens_bare source policy scan ts ns)

end Elaboration

namespace Definitions

open Scan (Requoted)

/-- Texts whose outlines are elaborated alike are read alike. -/
theorem read_congr {source : String} {policy : ConflictPolicy} {ns : Namespaces}
    {text text' : String}
    (h : (Elaboration.outline (some source) policy (Token.scan text'.toList).fault
        (.ofTokens (Token.scan text'.toList).tokens) ns).Alike
      (Elaboration.outline (some source) policy (Token.scan text.toList).fault
        (.ofTokens (Token.scan text.toList).tokens) ns)) :
    (read source policy ns text').Alike (read source policy ns text) := by
  obtain ⟨hevents, houtcome⟩ := h
  simp only [read]
  generalize Elaboration.outline (some source) policy (Token.scan text'.toList).fault
    (.ofTokens (Token.scan text'.toList).tokens) ns = r at hevents houtcome
  generalize Elaboration.outline (some source) policy (Token.scan text.toList).fault
    (.ofTokens (Token.scan text.toList).tokens) ns = r' at hevents houtcome
  obtain ⟨events, outcome⟩ := r
  obtain ⟨events', outcome'⟩ := r'
  obtain rfl : events = events' := hevents
  cases houtcome with
  | ok done => exact ⟨rfl, .ok _⟩
  | error hk hu => exact ⟨rfl, .error hk hu⟩

theorem readWith_congr {source : String} {policy : ConflictPolicy} {text text' : String}
    (h : ∀ ns, (read source policy ns text').Alike (read source policy ns text))
    (seed : Option Namespaces) :
    (readWith source policy seed text').Alike (readWith source policy seed text) := by
  cases seed with
  | some ns => exact h ns
  | none =>
    obtain ⟨hevents, houtcome⟩ := h .builtin
    exact ⟨congrArg (_ ++ ·) hevents, houtcome⟩

theorem read_congr_bare (source : String) (policy : ConflictPolicy) (ns : Namespaces)
    {text text' : String}
    (hfault : (Token.scan text'.toList).fault = (Token.scan text.toList).fault)
    (h : (Token.scan text'.toList).tokens.map Token.bare =
      (Token.scan text.toList).tokens.map Token.bare) :
    (read source policy ns text').Alike (read source policy ns text) := by
  refine read_congr ?_
  rw [hfault]
  exact Elaboration.outline_congr_bare (some source) policy (Token.scan text.toList).fault h ns

/-- **Quotes do not matter.** A text that scans without a fault can be put between quotes, and
however that is done, reading it gives the same definitions and the same reports, or a failure of
the same kind and with the same message but for its place. -/
theorem readWith_requoted (source : String) (policy : ConflictPolicy) (seed : Option Namespaces)
    {text : String} (h : (Token.scan text.toList).fault = none) :
    (∃ text' : String, Requoted text.toList text'.toList) ∧
      ∀ text' : String, Requoted text.toList text'.toList →
        (readWith source policy seed text').Alike (readWith source policy seed text) := by
  constructor
  · obtain ⟨text', htext'⟩ := Scan.exists_requoted h
    exact ⟨String.ofList text', by rwa [String.toList_ofList]⟩
  · intro text' hquoted
    obtain ⟨ts, ts', stop, stop', hs, hs', hbare⟩ := Scan.scan_requoted hquoted
    refine readWith_congr (fun ns => ?_) seed
    apply read_congr_bare
    · rw [hs, hs']
    · rw [hs, hs', List.map_append, List.map_append, hbare]
      rfl

/-- A type name, an option and an item name without quotes, and a value that has them already. -/
theorem readWith_requoted_option :
    (Token.scan "[a]o-b='c'".toList).fault = none ∧
      Requoted "[a]o-b='c'".toList "['a']'o'-'b'='c'".toList ∧
      (readWith "a.cnd" .error none "['a']'o'-'b'='c'").Alike
        (readWith "a.cnd" .error none "[a]o-b='c'") := by
  have hfault : (Token.scan "[a]o-b='c'".toList).fault = none := by cbv
  have hraw : Scan.Decodes ['c'] ['c'] := .plain (by decide) (by decide) .nil
  have hquoted : Requoted "[a]o-b='c'".toList "['a']'o'-'b'='c'".toList := by
    refine ⟨[⟨['['], some (.symbol '[')⟩, ⟨['a'], some (.text (.ofList ['a']) false)⟩,
      ⟨[']'], some (.symbol ']')⟩, ⟨['o'], some (.text (.ofList ['o']) false)⟩,
      ⟨['-'], some (.symbol '-')⟩, ⟨['b'], some (.text (.ofList ['b']) false)⟩,
      ⟨['='], some (.symbol '=')⟩, ⟨['\'', 'c', '\''], some (.text (.ofList ['c']) true)⟩],
      by decide, ?_, by decide⟩
    refine .cons (.symbol (by decide)) (.cons (.word_of_all ?_ ?_ ?_ ?_)
      (.cons (.symbol (by decide)) (.cons (.word_of_all ?_ ?_ ?_ ?_) (.cons (.symbol (by decide))
        (.cons (.word_of_all ?_ ?_ ?_ ?_) (.cons (.symbol (by decide)) (.cons (.quoted hraw)
          .nil)))))))
    all_goals decide
  exact ⟨hfault, hquoted, (readWith_requoted "a.cnd" .error none hfault).2 _ hquoted⟩

end Definitions

end Cnd
