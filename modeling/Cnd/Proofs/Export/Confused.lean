import Cnd.Proofs.Export.Names
import Cnd.Proofs.Namespaces.Render

/-!
Which names are written alike.

A name is written as an asterisk, with the canonical prefix of its URI, or with the URI in braces
(`WrittenAs`). Each form tells the names of that form apart but the last, since a URI and a local
name may hold braces, and a local name without a prefix may begin with what looks like a URI in
braces. `render_eq_render_iff` says that there is nothing else: any two names that are written alike
are the same or are `Confused`.
-/

namespace Cnd

open Namespaces

namespace Namespaces

/-- The wildcard, and the names whose local names are legal. -/
def Writable (n : Name) : Prop := n = .wildcard ∨ LegalLocal n.localName.toList

theorem Writable.of_check {u l : String} (h : checkLocal l.toList l = .ok ()) : Writable ⟨u, l⟩ :=
  .inr (checkLocal_eq_ok.1 h)

/-- Two names that are written alike, the first one with its URI in braces. -/
inductive Confused (ns : Namespaces) : Name → Name → Prop where
  /-- The braces stand in the local name of the second one, which needs no prefix. -/
  | bare {u v l : String} (hu : ¬ ns.HasPrefix ⟨u, l⟩) (hv : ns.canonical? v = some "") :
      Confused ns ⟨u, l⟩ ⟨v, "\x7b" ++ u ++ "\x7d" ++ l⟩
  /-- A brace in the local name of the first one ends the URI of the second one. -/
  | braces {u x l : String} (hu : ¬ ns.HasPrefix ⟨u, x ++ "\x7d" ++ l⟩)
      (hx : ¬ ns.HasPrefix ⟨u ++ "\x7d" ++ x, l⟩) :
      Confused ns ⟨u, x ++ "\x7d" ++ l⟩ ⟨u ++ "\x7d" ++ x, l⟩

/-! ## The forms of names -/

/-- The texts that names are written as. -/
inductive WrittenAs (ns : Namespaces) : Name → String → Prop where
  | wildcard : WrittenAs ns .wildcard "*"
  | behind {n : Name} {pfx text : String} (hk : ns.Knows n) (hc : ns.canonical? n.uri = some pfx)
      (hw : Written pfx n.localName text) : WrittenAs ns n text
  | braced {n : Name} (hl : LegalLocal n.localName.toList) (hu : ¬ ns.HasPrefix n) :
      WrittenAs ns n ("\x7b" ++ n.uri ++ "\x7d" ++ n.localName)

section
variable {ns : Namespaces} (hi : Indexed ns)

include hi

theorem Knows.writtenAs {n : Name} (h : ns.Knows n) : ns.WrittenAs n (ns.render n) := by
  obtain ⟨pfx, hc, hu⟩ := hi.exists_canonical h.bound
  exact .behind h hc (written_iff.2 ⟨hi.legalPrefix hu, h.legal, toList_render h.not_isWildcard hc⟩)

theorem writtenAs_render {n : Name} (h : Writable n) : ns.WrittenAs n (ns.render n) := by
  rcases h with rfl | hl
  · exact .wildcard
  · by_cases hu : ns.HasPrefix n
    · exact Knows.writtenAs hi ⟨hl, hu⟩
    · rw [render_of_unbound hi hl.ne_wildcard hu]
      exact .braced hl hu

theorem WrittenAs.render_eq {n : Name} {text : String} (h : ns.WrittenAs n text) :
    ns.render n = text := by
  cases h with
  | wildcard => rfl
  | behind hk hc hw =>
    have hrender := toPrefixed_of_knows hi hk
    rw [(toPrefixed_eq_ok_iff hi hk hw).2 hc] at hrender
    exact (Except.ok.inj hrender).symm
  | braced hl hu => exact render_of_unbound hi hl.ne_wildcard hu

end

theorem Written.ne_asterisk {pfx localName : String} : ¬ Written pfx localName "*" := by
  intro h
  obtain ⟨hp, hl, htext⟩ := written_iff.1 h
  have hstar : '*' ∈ prefixed pfx localName.toList := htext ▸ List.mem_singleton_self '*'
  unfold prefixed at hstar
  split at hstar
  · exact hl.not_mem (by decide) hstar
  · rename_i hne
    rcases List.mem_append.1 hstar with hmem | hmem
    · exact absurd (isPrefixPart_of_mem (hp hne) hmem) (by decide)
    · rcases List.mem_cons.1 hmem with hmem | hmem
      · exact absurd hmem (by decide)
      · exact hl.not_mem (by decide) hmem

/-- What begins with a brace is no prefix, so it is all local name. -/
theorem Written.of_brace {pfx localName rest : String} (h : Written pfx localName ("\x7b" ++ rest)) :
    pfx = "" ∧ localName = "\x7b" ++ rest := by
  obtain ⟨hp, -, htext⟩ := written_iff.1 h
  by_cases hne : pfx = ""
  · rw [prefixed, if_pos hne, String.toList_inj] at htext
    exact ⟨hne, htext.symm⟩
  · exfalso
    have hprefix := hp hne
    rw [prefixed, if_neg hne] at htext
    cases hcs : pfx.toList with
    | nil => simp [hcs, isPrefixText] at hprefix
    | cons c cs =>
      rw [hcs, String.toList_append] at htext
      obtain rfl : '\x7b' = c := (List.cons.inj htext).1
      rw [hcs, isPrefixText, Bool.and_eq_true] at hprefix
      exact absurd hprefix.1 (by decide)

/-! ## Names that are written alike -/

/-- Two URIs in braces, the second as long as the first or longer, with local names behind them. -/
theorem eq_or_confused_of_longer {ns : Namespaces} {a b : Name} (ha : ¬ ns.HasPrefix a)
    (hb : ¬ ns.HasPrefix b) {x : List Char} (hu : b.uri.toList = a.uri.toList ++ x)
    (hl : '\x7d' :: a.localName.toList = x ++ '\x7d' :: b.localName.toList) :
    a = b ∨ Confused ns a b := by
  obtain ⟨u, l⟩ := a
  obtain ⟨v, m⟩ := b
  cases x with
  | nil =>
    obtain rfl : v = u := String.toList_inj.1 (by simpa using hu)
    obtain rfl : l = m := String.toList_inj.1 (by simpa using hl)
    exact .inl rfl
  | cons c x =>
    obtain ⟨rfl, hl⟩ := List.cons.inj hl
    obtain rfl : v = u ++ "\x7d" ++ .ofList x := String.toList_inj.1 (by simpa using hu)
    obtain rfl : l = .ofList x ++ "\x7d" ++ m := String.toList_inj.1 (by simpa using hl)
    exact .inr (.braces ha hb)

theorem eq_or_confused_of_braced {ns : Namespaces} {a b : Name} (ha : ¬ ns.HasPrefix a)
    (hb : ¬ ns.HasPrefix b) (h : "\x7b" ++ a.uri ++ "\x7d" ++ a.localName =
      "\x7b" ++ b.uri ++ "\x7d" ++ b.localName) : a = b ∨ Confused ns a b ∨ Confused ns b a := by
  have hchars : a.uri.toList ++ '\x7d' :: a.localName.toList =
      b.uri.toList ++ '\x7d' :: b.localName.toList := by
    simpa using congrArg String.toList h
  rcases List.append_eq_append_iff.1 hchars with ⟨x, hu, hl⟩ | ⟨x, hu, hl⟩
  · exact (eq_or_confused_of_longer ha hb hu hl).imp_right .inl
  · exact (eq_or_confused_of_longer hb ha hu hl).imp Eq.symm .inr

theorem braced_ne_asterisk (u l : String) : "\x7b" ++ u ++ "\x7d" ++ l ≠ "*" := by
  intro h
  have hhead := congrArg (·.toList.head?) h
  simp at hhead

/-- A URI in braces, written as a local name is behind a prefix or none. -/
theorem confused_of_braced_of_written {ns : Namespaces} {a b : Name} {pfx : String}
    (ha : ¬ ns.HasPrefix a) (hc : ns.canonical? b.uri = some pfx)
    (hw : Written pfx b.localName ("\x7b" ++ a.uri ++ "\x7d" ++ a.localName)) :
    Confused ns a b := by
  obtain ⟨v, m⟩ := b
  rw [String.append_assoc, String.append_assoc] at hw
  obtain ⟨rfl, rfl⟩ := hw.of_brace
  rw [← String.append_assoc, ← String.append_assoc]
  exact .bare ha hc

section
variable {ns : Namespaces} (hi : Indexed ns)

include hi

theorem WrittenAs.eq_or_confused {a b : Name} {text : String} (ha : ns.WrittenAs a text)
    (hb : ns.WrittenAs b text) : a = b ∨ Confused ns a b ∨ Confused ns b a := by
  generalize ht : text = t at hb
  cases ha with
  | wildcard =>
    cases hb with
    | wildcard => exact .inl rfl
    | behind _ _ hw => exact absurd (ht ▸ hw) Written.ne_asterisk
    | braced => exact absurd ht.symm (braced_ne_asterisk _ _)
  | behind hk hc hw =>
    subst ht
    cases hb with
    | wildcard => exact absurd hw Written.ne_asterisk
    | behind hk' hc' hw' =>
      -- the text is split in one way, and a prefix is bound to one URI
      obtain ⟨rfl, hl⟩ := hw.unique hw'
      have hu := (hi.uri?_of_canonical? hc).symm.trans (hi.uri?_of_canonical? hc')
      obtain ⟨u, l⟩ := a
      obtain ⟨v, m⟩ := b
      obtain rfl : u = v := Option.some.inj hu
      obtain rfl : l = m := hl
      exact .inl rfl
    | braced hl hu => exact .inr (.inr (confused_of_braced_of_written hu hc hw))
  | braced hl hu =>
    cases hb with
    | wildcard => exact absurd ht (braced_ne_asterisk _ _)
    | behind hk hc hw => exact .inr (.inl (confused_of_braced_of_written hu hc (ht ▸ hw)))
    | braced hl' hu' => exact eq_or_confused_of_braced hu hu' ht

/-- Confused names are written alike, if they are written at all. -/
theorem Confused.render_eq {a b : Name} (h : Confused ns a b) (ha : Writable a) (hb : Writable b) :
    ns.render a = ns.render b := by
  cases h with
  | @bare u v l hu hv =>
    have hlegal : LegalLocal ("\x7b" ++ u ++ "\x7d" ++ l).toList :=
      hb.resolve_left fun he => braced_ne_asterisk u l (congrArg Name.localName he)
    have hne : (⟨u, l⟩ : Name) ≠ .wildcard := by
      intro he
      obtain ⟨-, rfl⟩ := Name.mk.inj he
      exact hlegal.not_mem (c := '*') (by decide) (by simp)
    have hwritten : ns.WrittenAs ⟨v, "\x7b" ++ u ++ "\x7d" ++ l⟩ ("\x7b" ++ u ++ "\x7d" ++ l) :=
      .behind ⟨hlegal, "", hi.uri?_of_canonical? hv⟩ hv (.bare hlegal)
    rw [hwritten.render_eq hi, render_of_unbound hi hne hu]
  | @braces u x l hu hx =>
    have hne : (⟨u, x ++ "\x7d" ++ l⟩ : Name) ≠ .wildcard := by
      intro he
      have hmem : '\x7d' ∈ "*".toList := by
        rw [← (Name.mk.inj he).2]
        simp
      exact absurd hmem (by decide)
    have hne' : (⟨u ++ "\x7d" ++ x, l⟩ : Name) ≠ .wildcard := by
      intro he
      have hmem : '\x7d' ∈ "".toList := by
        rw [← (Name.mk.inj he).1]
        simp
      exact absurd hmem (by decide)
    rw [render_of_unbound hi hne hu, render_of_unbound hi hne' hx]
    simp only [String.append_assoc]

theorem render_eq_render_iff {a b : Name} (ha : Writable a) (hb : Writable b) :
    ns.render a = ns.render b ↔ a = b ∨ Confused ns a b ∨ Confused ns b a := by
  constructor
  · intro h
    exact WrittenAs.eq_or_confused hi (writtenAs_render hi ha) (h ▸ writtenAs_render hi hb)
  · rintro (rfl | h | h)
    · rfl
    · exact h.render_eq hi ha hb
    · exact (h.render_eq hi hb ha).symm

omit hi in
theorem Confused.brace_mem {a b : Name} (h : Confused ns a b) :
    '\x7d' ∈ a.localName.toList ∨ '\x7d' ∈ b.localName.toList := by
  cases h with
  | bare => exact .inr (by simp)
  | braces => exact .inl (by simp)

/-- Local names without braces are enough for names to be written in different ways. -/
theorem render_injective {a b : Name} (ha : Writable a) (hb : Writable b)
    (hna : '\x7d' ∉ a.localName.toList) (hnb : '\x7d' ∉ b.localName.toList)
    (h : ns.render a = ns.render b) : a = b := by
  rcases (render_eq_render_iff hi ha hb).1 h with h | h | h
  · exact h
  · exact absurd h.brace_mem (by simp [hna, hnb])
  · exact absurd h.brace_mem (by simp [hna, hnb])

end

end Namespaces

/-! ## The names of readings -/

theorem NodeType.Known.writable {ns : Namespaces} {t : NodeType} (h : t.Known ns) {n : Name}
    (hn : n ∈ t.names) : Writable n := by
  have hitem {n : Name} (hk : ns.KnowsItem n) : Writable n := hk.imp_right (·.legal)
  simp only [names, List.mem_cons, List.mem_append, Option.mem_toList, List.mem_map,
    List.mem_flatMap] at hn
  rcases hn with rfl | ((hn | hn) | ⟨p, hp, rfl⟩) | ⟨c, hc, rfl | hn | hn⟩
  · exact .inr h.name.legal
  · exact .inr (h.supertypes n hn).legal
  · exact hitem (h.primaryItem n hn)
  · exact hitem (h.properties p hp).name
  · exact hitem (h.children c hc).name
  · rcases (h.children c hc).requiredTypes n hn with rfl | hknown
    · exact .inr legalLocal_base
    · exact .inr hknown.legal
  · exact .inr ((h.children c hc).defaultType n hn).legal

open Export (Payload IsReading)

theorem Export.IsReading.writable {d : Definitions} (h : IsReading d) {n : Name}
    (hn : n ∈ d.types.flatMap (·.names)) : Writable n := by
  obtain ⟨t, ht, hn⟩ := List.mem_flatMap.1 hn
  obtain ⟨ns, hknown, -⟩ := h.known t ht
  exact hknown.writable hn

/-- **Which names are written alike.** In a table in use, two names are written alike just if they are
the same, or the URI of one stands in braces and a brace in a local name makes it look like the
other. The same is true of all names in one payload of readings, which are written with its
table, and of all names in a report on one reading. -/
theorem alike_iff_confused :
    (∀ ns, Reachable ns → ∀ a b, Writable a → Writable b →
      (ns.render a = ns.render b ↔ a = b ∨ Confused ns a b ∨ Confused ns b a)) ∧
    (∀ sources generatedAt, (∀ s ∈ sources, IsReading s.2) →
      let ns := (Payload.ofSources generatedAt sources).1.namespaces
      ∀ a ∈ sources.flatMap (·.2.types.flatMap (·.names)),
        ∀ b ∈ sources.flatMap (·.2.types.flatMap (·.names)),
          (ns.render a = ns.render b ↔ a = b ∨ Confused ns a b ∨ Confused ns b a)) ∧
    ∀ d, IsReading d → ∀ a ∈ d.types.flatMap (·.names), ∀ b ∈ d.types.flatMap (·.names),
      (d.namespaces.render a = d.namespaces.render b ↔
        a = b ∨ Confused d.namespaces a b ∨ Confused d.namespaces b a) := by
  refine ⟨fun ns hns a b => render_eq_render_iff hns.indexed, ?_, ?_⟩
  · intro sources generatedAt h ns a ha b hb
    obtain ⟨s, hs, ha⟩ := List.mem_flatMap.1 ha
    obtain ⟨s', hs', hb⟩ := List.mem_flatMap.1 hb
    have hi : Indexed ns := Export.indexed_mergeAll .empty fun s hs => (h s hs).indexed
    exact render_eq_render_iff hi ((h s hs).writable ha) ((h s' hs').writable hb)
  · intro d h a ha b hb
    exact render_eq_render_iff h.indexed (h.writable ha) (h.writable hb)

/-- A name in a namespace without a prefix, and one whose local name looks like it. -/
theorem not_render_injective :
    ¬ ∀ ns, Reachable ns → ∀ a b, Writable a → Writable b → ns.render a = ns.render b → a = b := by
  intro h
  have heq := h .builtin reachable_builtin ⟨"u", "t"⟩ ⟨"", "\x7bu\x7dt"⟩ (.of_check rfl)
    (.of_check rfl) (by decide)
  exact absurd heq (by decide)

/-- Two node types, the first in a namespace that has lost its prefix to another one. -/
def confusedTypes : Definitions where
  types := [⟨⟨"u", "t"⟩, [], false, false, none, [], []⟩,
    ⟨⟨"", "\x7bu\x7dt"⟩, [], false, false, none, [], []⟩]
  namespaces := ((Namespaces.builtin.bind "e" "u").unbind "e" "u").bind "e" "w"

def confusedOutline : Definitions.Outlined "<e='u'> [e:t] <e='w'> ['\x7bu\x7dt']" where
  outline :=
    ⟨[.binding ⟨⟨.symbol '<', ⟨1, 1⟩⟩, "e", "u"⟩,
      .nodeType ⟨⟨.text "e:t" false, ⟨1, 10⟩⟩, [], false, false, []⟩,
      .binding ⟨⟨.symbol '<', ⟨1, 15⟩⟩, "e", "w"⟩,
      .nodeType ⟨⟨.text "\x7bu\x7dt" true, ⟨1, 24⟩⟩, [], false, false, []⟩], .complete⟩
  eq := by decide +kernel

theorem not_hasPrefix_of_forall {ns : Namespaces} {n : Name}
    (h : ∀ b ∈ ns.bindings, b.2 ≠ n.uri) : ¬ ns.HasPrefix n :=
  fun ⟨_, hu⟩ => h _ (mem_of_lookup_eq_some hu) rfl

/-- Both node types are written alike in any table without the first namespace, in a payload of them
alone, and in a report on them. -/
theorem alike_iff_confused_moved :
    (Definitions.readWith "" .override none
      "<e='u'> [e:t] <e='w'> ['\x7bu\x7dt']").outcome = .ok confusedTypes ∧
    Namespaces.builtin.render ⟨"u", "t"⟩ = Namespaces.builtin.render ⟨"", "\x7bu\x7dt"⟩ ∧
    confusedTypes.namespaces.render ⟨"u", "t"⟩ =
      confusedTypes.namespaces.render ⟨"", "\x7bu\x7dt"⟩ ∧
    let ns := (Payload.ofSources "now" [("a.cnd", confusedTypes)]).1.namespaces
    ns.render ⟨"u", "t"⟩ = ns.render ⟨"", "\x7bu\x7dt"⟩ := by
  have hread : (Definitions.readWith "" .override none
      "<e='u'> [e:t] <e='w'> ['\x7bu\x7dt']").outcome = .ok confusedTypes :=
    Definitions.readWith_of_outline confusedOutline rfl
  have hreading : IsReading confusedTypes := ⟨"", .override, none, _, reachable_builtin, hread⟩
  have hconfused {ns : Namespaces} (hu : ∀ b ∈ ns.bindings, b.2 ≠ "u")
      (hv : ns.canonical? "" = some "") : Confused ns ⟨"u", "t"⟩ ⟨"", "\x7bu\x7dt"⟩ :=
    .bare (l := "t") (not_hasPrefix_of_forall hu) hv
  obtain ⟨htable, hpayload, hreport⟩ := alike_iff_confused
  refine ⟨hread, ?_, ?_, ?_⟩
  · exact (htable .builtin reachable_builtin _ _ (.of_check rfl) (.of_check rfl)).2
      (.inr (.inl (hconfused (by decide) (by decide))))
  · exact (hreport _ hreading _ (by decide) _ (by decide)).2
      (.inr (.inl (hconfused (by decide) (by decide))))
  · have hsources : ∀ s ∈ [("a.cnd", confusedTypes)], IsReading s.2 := fun s hs =>
      List.mem_singleton.1 hs ▸ hreading
    exact (hpayload _ "now" hsources _ (by decide) _ (by decide)).2
      (.inr (.inl (hconfused (by decide) (by decide))))

end Cnd
