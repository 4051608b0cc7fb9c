import Cnd.Proofs.Namespaces.Reachable
import Cnd.Proofs.Namespaces.Resolve

/-!
Names and the prefixes they are written with.

A text that stands for a name is written with one prefix and one local name (`Written.unique`).
Resolving asks for that form and for a binding of the prefix, and nothing else; rendering the name
gives the text again just if the prefix is the canonical one of its URI (`resolve_written`).
-/

namespace Cnd.Namespaces

/-- A local name behind a prefix and a colon, or alone for the empty prefix: the text is the last. -/
inductive Written : String → String → String → Prop where
  | bare {localName : String} (h : LegalLocal localName.toList) : Written "" localName localName
  | behind {pfx localName : String} (hp : isPrefixText pfx.toList = true)
      (h : LegalLocal localName.toList) : Written pfx localName (pfx ++ ":" ++ localName)

theorem written_iff {pfx localName text : String} :
    Written pfx localName text ↔
      LegalPrefix pfx ∧ LegalLocal localName.toList ∧
        text.toList = prefixed pfx localName.toList := by
  constructor
  · intro h
    cases h with
    | bare h => exact ⟨fun hne => absurd rfl hne, h, (if_pos rfl).symm⟩
    | behind hp h =>
      have hne : pfx ≠ "" := by
        rintro rfl
        simp [isPrefixText] at hp
      exact ⟨fun _ => hp, h, by simp [prefixed, hne]⟩
  · rintro ⟨hp, h, htext⟩
    by_cases hpfx : pfx = ""
    · obtain rfl : text = localName := by
        rwa [prefixed, if_pos hpfx, String.toList_inj] at htext
      exact hpfx ▸ .bare h
    · obtain rfl : text = pfx ++ ":" ++ localName := by
        rw [← String.toList_inj, htext, prefixed, if_neg hpfx]
        simp
      exact .behind (hp hpfx) h

/-- There is one way to split a text into a prefix and a local name. -/
theorem Written.unique {pfx pfx' localName localName' text : String}
    (h : Written pfx localName text) (h' : Written pfx' localName' text) :
    pfx = pfx' ∧ localName = localName' := by
  obtain ⟨hp, hl, htext⟩ := written_iff.1 h
  obtain ⟨hp', hl', htext'⟩ := written_iff.1 h'
  have hsplit := splitName_of_prefixed hp hl htext
  rw [splitName_of_prefixed hp' hl' htext', Except.ok.injEq, Prod.mk.injEq,
    String.toList_inj] at hsplit
  exact ⟨hsplit.1.symm, hsplit.2.symm⟩

theorem resolve_eq_ok_iff_written {ns : Namespaces} {text : String} {n : Name} :
    ns.resolve text = .ok n ↔
      ∃ pfx, Written pfx n.localName text ∧ ns.uri? pfx = some n.uri := by
  rw [resolve_eq_ok_iff]
  constructor
  · rintro ⟨hl, pfx, hp, hu, htext⟩
    exact ⟨pfx, written_iff.2 ⟨hp, hl, htext⟩, hu⟩
  · rintro ⟨pfx, hw, hu⟩
    obtain ⟨hp, hl, htext⟩ := written_iff.1 hw
    exact ⟨hl, pfx, hp, hu, htext⟩

/-! ## Rendering -/

/-- A table renders a name with a prefix, and resolves the text to the name. -/
def RoundTrips (ns : Namespaces) (n : Name) : Prop :=
  ns.toPrefixed n = .ok (ns.render n) ∧ ns.resolve (ns.render n) = .ok n

theorem toPrefixed_of_knows {ns : Namespaces} (hi : Indexed ns) {n : Name} (h : ns.Knows n) :
    ns.toPrefixed n = .ok (ns.render n) := by
  obtain ⟨pfx, hc, -⟩ := hi.exists_canonical h.bound
  have hp : ns.toPrefixed n =
      .ok (if pfx.isEmpty then n.localName else pfx ++ ":" ++ n.localName) := by
    simp [toPrefixed, h.not_isWildcard, getCanonical, hc]
  rw [render, hp]

theorem Knows.roundTrips {ns : Namespaces} (hi : Indexed ns) {n : Name} (h : ns.Knows n) :
    ns.RoundTrips n := ⟨toPrefixed_of_knows hi h, resolve_render hi h⟩

/-- A name is rendered as the text that is written with the canonical prefix of its URI. -/
theorem toPrefixed_eq_ok_iff {ns : Namespaces} (hi : Indexed ns) {n : Name} (h : ns.Knows n)
    {pfx text : String} (hw : Written pfx n.localName text) :
    ns.toPrefixed n = .ok text ↔ ns.canonical? n.uri = some pfx := by
  obtain ⟨canonical, hc, hu⟩ := hi.exists_canonical h.bound
  have hrender : Written canonical n.localName (ns.render n) :=
    written_iff.2 ⟨hi.legalPrefix hu, h.legal, toList_render h.not_isWildcard hc⟩
  rw [toPrefixed_of_knows hi h, Except.ok.injEq, hc, Option.some.injEq]
  constructor
  · rintro rfl
    exact (hrender.unique hw).1
  · rintro rfl
    rw [← String.toList_inj, (written_iff.1 hrender).2.2, (written_iff.1 hw).2.2]

/-- **Resolving is exact, and inverse to rendering.** In a table in use, a text stands for a name just
if it is written as the local name behind a prefix that is bound to the URI. The name is not the
wildcard, its rendering stands for it, and is the text itself just if the prefix that the text is
written with is the canonical one. -/
theorem resolve_written {ns : Namespaces} (hns : Reachable ns) (text : String) :
    (∀ n, ns.resolve text = .ok n ↔
      ∃ pfx, Written pfx n.localName text ∧ ns.uri? pfx = some n.uri) ∧
    ∀ n, ns.resolve text = .ok n →
      n ≠ .wildcard ∧ ns.RoundTrips n ∧
        ∀ pfx localName, Written pfx localName text →
          (ns.toPrefixed n = .ok text ↔ ns.canonical? n.uri = some pfx) := by
  refine ⟨fun n => resolve_eq_ok_iff_written, fun n hn => ?_⟩
  have hknows : ns.Knows n := knows_of_resolve hn
  refine ⟨hknows.legal.ne_wildcard, hknows.roundTrips hns.indexed, fun pfx localName hw => ?_⟩
  obtain ⟨pfx', hw', -⟩ := resolve_eq_ok_iff_written.1 hn
  obtain ⟨rfl, rfl⟩ := hw.unique hw'
  exact toPrefixed_eq_ok_iff hns.indexed hknows hw

/-- With the empty prefix in front, a name behind another prefix of the same URI loses it. -/
theorem resolve_written_bare :
    let ns : Namespaces := ⟨[("", "u"), ("a", "u")], [("u", "")]⟩
    Reachable ns ∧ ns.resolve "a:x" = .ok ⟨"u", "x"⟩ ∧ ns.RoundTrips ⟨"u", "x"⟩ ∧
      ns.render ⟨"u", "x"⟩ = "x" ∧ ns.toPrefixed ⟨"u", "x"⟩ ≠ .ok "a:x" := by
  intro ns
  have hns : Reachable ns :=
    ⟨[.make false [(.text "", .text "u"), (.text "a", .text "u")]], by
      have hr : run [.make false [(.text "", .text "u"), (.text "a", .text "u")]] = [ns] := by rfl
      simp [hr]⟩
  have hlocal : checkLocal "x".toList "a:x" = .ok () := rfl
  have hw : Written "a" "x" "a:x" := .behind (by decide) (checkLocal_eq_ok.1 hlocal)
  obtain ⟨hresolve, hrender⟩ := resolve_written hns "a:x"
  have hn : ns.resolve "a:x" = .ok ⟨"u", "x"⟩ := (hresolve _).2 ⟨"a", hw, rfl⟩
  obtain ⟨-, htrips, hiff⟩ := hrender _ hn
  refine ⟨hns, hn, htrips, rfl, fun he => ?_⟩
  exact absurd ((hiff "a" "x" hw).1 he) (by decide)

end Cnd.Namespaces
