import Cnd.Proofs.Export.Merged

/-!
The names in a payload of several sources.

The table of a payload is made by declaring the bindings of the sources in order, all but those of a
prefix that has another URI; no declaration is refused (`declareSources_eq_ok`). A name in a record
is either resolved from its text by the pairs of the payload, or has no prefix there and is written
with its URI in braces (`Namespaces.Shows`), whatever prefix it had in its source.
-/

namespace Cnd

open Namespaces

/-! ## Texts of names -/

/-- The text of a name: one that the table resolves to the name, if it has a prefix for it, and else
the URI in braces and the local name. -/
structure Namespaces.Shows (ns : Namespaces) (n : Name) (text : String) : Prop where
  resolved : ns.HasPrefix n → ns.resolve text = .ok n
  braced : ¬ ns.HasPrefix n → text = "\x7b" ++ n.uri ++ "\x7d" ++ n.localName

/-- The text of the name of a member, an asterisk for the wildcard. -/
def Namespaces.ShowsItem (ns : Namespaces) (n : Name) (text : String) : Prop :=
  n = .wildcard ∧ text = "*" ∨ ns.Shows n text

theorem Namespaces.render_of_unbound {ns : Namespaces} (hi : Indexed ns) {n : Name}
    (hn : n ≠ .wildcard) (h : ¬ ns.HasPrefix n) :
    ns.render n = "\x7b" ++ n.uri ++ "\x7d" ++ n.localName := by
  have hwildcard : n.isWildcard = false := beq_false_of_ne hn
  have hcanonical : ns.canonical? n.uri = none := by
    rw [hi.first, firstPrefix?_eq_none_iff]
    exact fun b hb he => h ⟨b.1, hi.mem_bindings.1 (he ▸ hb)⟩
  simp [render, toPrefixed, getCanonical, Name.expanded, hwildcard, hcanonical]

namespace Export

structure ChildRecord.Shows (ns : Namespaces) (c : ChildDefinition) (r : ChildRecord) : Prop where
  name : ns.ShowsItem c.name r.name
  requiredTypes : List.Forall₂ ns.Shows c.requiredTypes r.requiredTypes
  defaultType : Option.Rel ns.Shows c.defaultType r.defaultType

/-- The names in a record are texts of those in the node type. -/
structure TypeRecord.Shows (ns : Namespaces) (t : NodeType) (r : TypeRecord) : Prop where
  name : ns.Shows t.name r.name
  supertypes : List.Forall₂ ns.Shows t.supertypes r.supertypes
  primaryItem : Option.Rel ns.ShowsItem t.primaryItem r.primaryItem
  properties : List.Forall₂ (fun p r => ns.ShowsItem p.name r.name) t.properties r.properties
  children : List.Forall₂ (ChildRecord.Shows ns) t.children r.children

theorem rel_map_self {α β : Type} {R : α → β → Prop} {f : α → β} {o : Option α}
    (h : ∀ a ∈ o, R a (f a)) : Option.Rel R o (o.map f) := by
  cases o with
  | none => exact .none
  | some a => exact .some (h a rfl)

section
variable {merged ns : Namespaces} (hi : Indexed merged) (huri : ∀ pfx, ns.uri? pfx = merged.uri? pfx)

include hi huri

/-- What a table renders is the text of a name for every table with the same bindings. -/
theorem shows_render {n : Name} (h : LegalLocal n.localName.toList) : ns.Shows n (merged.render n) := by
  have hiff : ns.HasPrefix n ↔ merged.HasPrefix n := by
    simp only [HasPrefix, huri]
  have he : merged.ExtendedBy ns := fun pfx uri hu => by rw [huri, hu]
  constructor
  · intro hp
    have hresolve : merged.resolve (merged.render n) = .ok n :=
      resolve_render hi ⟨h, hiff.1 hp⟩
    exact (mentions_resolve (merged.render n)).mono he hresolve
  · intro hp
    exact render_of_unbound hi h.ne_wildcard (hp ∘ hiff.2)

theorem showsItem_render {own : Namespaces} {n : Name} (h : own.KnowsItem n) :
    ns.ShowsItem n (merged.render n) := by
  rcases h with rfl | h
  · exact .inl ⟨rfl, rfl⟩
  · exact .inr (shows_render hi huri h.legal)

theorem ChildRecord.shows_ofDefinition {own : Namespaces} {owner : Name} {c : ChildDefinition}
    (h : c.Known own owner) : Shows ns c (ofDefinition merged c) where
  name := showsItem_render hi huri h.name
  requiredTypes := forall₂_map_self fun n hn => by
    rcases h.requiredTypes n hn with rfl | hknown
    · exact shows_render hi huri legalLocal_base
    · exact shows_render hi huri hknown.legal
  defaultType := rel_map_self fun n hn => shows_render hi huri (h.defaultType n hn).legal

/-- It does not matter to which table the parts of a node type were known. -/
theorem TypeRecord.shows_ofDefinition {own : Namespaces} {t : NodeType} (h : t.Known own) :
    Shows ns t (ofDefinition merged t) where
  name := shows_render hi huri h.name.legal
  supertypes := forall₂_map_self fun n hn => shows_render hi huri (h.supertypes n hn).legal
  primaryItem := rel_map_self fun n hn => showsItem_render hi huri (h.primaryItem n hn)
  properties := forall₂_map_self fun p hp => showsItem_render hi huri (h.properties p hp).name
  children := forall₂_map_self fun c hc =>
    ChildRecord.shows_ofDefinition hi huri (h.children c hc)

end

/-! ## The table as one that is declared -/

/-- Declare a binding, unless its prefix is bound to another URI. -/
def declareBinding (merged : Namespaces) (b : String × String) : Except NameError Namespaces :=
  if merged.contains b.1 && merged.uri? b.1 != some b.2 then .ok merged
  else (merged.declare .error b.1 b.2).map (·.1)

/-- Declare the bindings of sources, one source after the other. -/
def declareSources (merged : Namespaces) (sources : List (String × Definitions)) :
    Except NameError Namespaces :=
  sources.foldlM (fun merged s => s.2.namespaces.bindings.foldlM declareBinding merged) merged

theorem declareBinding_eq_ok (source : String) (merged : Namespaces) {pfx uri : String}
    (hok : checkDeclaration pfx uri = .ok ()) :
    declareBinding merged (pfx, uri) = .ok (mergeBinding source merged pfx uri).1 := by
  simp only [declareBinding, contains, mergeBinding, declare, hok]
  cases merged.uri? pfx with
  | none => rfl
  | some kept =>
    by_cases h : kept = uri
    · simp [h, Except.map]
    · simp [h]

theorem declareTable_eq_ok (source : String) {l : List (String × String)} (merged : Namespaces)
    (hok : ∀ b ∈ l, checkDeclaration b.1 b.2 = .ok ()) :
    l.foldlM declareBinding merged = .ok (mergeTable source merged l).1 := by
  induction l generalizing merged with
  | nil => rfl
  | cons b l ih =>
    rw [List.foldlM_cons, declareBinding_eq_ok source merged (hok b List.mem_cons_self), mergeTable]
    exact ih _ fun c hc => hok c (List.mem_cons_of_mem b hc)

/-- No declaration of a binding is refused. -/
theorem declareSources_eq_ok {sources : List (String × Definitions)} (merged : Namespaces)
    (h : ∀ s ∈ sources, Indexed s.2.namespaces) :
    declareSources merged sources = .ok (mergeAll merged sources).1 := by
  induction sources generalizing merged with
  | nil => rfl
  | cons s sources ih =>
    have hs : Indexed s.2.namespaces := h s List.mem_cons_self
    rw [declareSources, List.foldlM_cons,
      declareTable_eq_ok s.1 merged fun b hb => hs.checkDeclaration hb, mergeAll]
    exact ih _ fun c hc => h c (List.mem_cons_of_mem s hc)

/-! ## Payloads -/

/-- **The names of a payload.** Of readings in order, a payload is made without a refused declaration.
Its table binds each prefix once, to the URI that the first reading to bind the prefix binds it to.
Its records are those of all node types in order, and each name in them is written as a text that
the pairs of the payload alone resolve to it, if they have a prefix for it, and else with its URI. -/
theorem names_of_ofSources {sources : List (String × Definitions)}
    (h : ∀ s ∈ sources, IsReading s.2) (generatedAt : String) :
    let payload := (Payload.ofSources generatedAt sources).1
    declareSources .empty sources = .ok payload.namespaces ∧
    (payload.namespaces.bindings.map (·.1)).Nodup ∧
    (∀ pfx, payload.namespaces.uri? pfx = firstUri? sources pfx) ∧
    ∃ ns, Namespaces.ofPairs false payload.namespaces.pairs = .ok ns ∧
      (∀ pfx, ns.uri? pfx = payload.namespaces.uri? pfx) ∧
      List.Forall₂ (fun t r => r = TypeRecord.ofDefinition payload.namespaces t ∧ r.Shows ns t)
        (sources.flatMap (·.2.types)) payload.types := by
  intro payload
  have hindexed : ∀ s ∈ sources, Indexed s.2.namespaces := fun s hs => (h s hs).indexed
  have hi : Indexed payload.namespaces := indexed_mergeAll .empty hindexed
  obtain ⟨ns, hns, hbindings⟩ := ofPairs_bindings hi
  have huri : ∀ pfx, ns.uri? pfx = payload.namespaces.uri? pfx := fun pfx => by
    rw [uri?, hbindings, uri?]
  refine ⟨declareSources_eq_ok .empty hindexed, hi.distinct, uri?_ofSources generatedAt sources,
    ns, hns, huri, ?_⟩
  have htypes : payload.types =
      (sources.flatMap (·.2.types)).map (TypeRecord.ofDefinition payload.namespaces) := by
    rw [List.map_flatMap]
    rfl
  rw [htypes]
  refine forall₂_map_self fun t ht => ⟨rfl, ?_⟩
  obtain ⟨s, hs, ht⟩ := List.mem_flatMap.1 ht
  obtain ⟨own, hknown, -⟩ := (h s hs).known t ht
  exact TypeRecord.shows_ofDefinition hi huri hknown

/-- The node type of a text both prefixes of which another source binds otherwise. -/
def reboundType : NodeType :=
  ⟨⟨"http://b/", "t"⟩, [⟨"http://c/", "s"⟩], false, false, none, [], []⟩

def prefixesOutline : Definitions.Outlined "<ex='http://a/'> <ey='http://b/'>" where
  outline :=
    ⟨[.binding ⟨⟨.symbol '<', ⟨1, 1⟩⟩, "ex", "http://a/"⟩,
      .binding ⟨⟨.symbol '<', ⟨1, 18⟩⟩, "ey", "http://b/"⟩], .complete⟩
  eq := by decide +kernel

def reboundOutline : Definitions.Outlined "<ex='http://b/'> <ey='http://c/'> [ex:t] > ey:s" where
  outline :=
    ⟨[.binding ⟨⟨.symbol '<', ⟨1, 1⟩⟩, "ex", "http://b/"⟩,
      .binding ⟨⟨.symbol '<', ⟨1, 18⟩⟩, "ey", "http://c/"⟩,
      .nodeType ⟨⟨.text "ex:t" false, ⟨1, 36⟩⟩, [⟨.text "ey:s" false, ⟨1, 44⟩⟩], false, false,
        []⟩], .complete⟩
  eq := by decide +kernel

/-- One namespace has the prefix of another source, and one has none left. -/
theorem names_of_ofSources_rebound :
    let first : Definitions :=
      ⟨[], (Namespaces.builtin.bind "ex" "http://a/").bind "ey" "http://b/"⟩
    let second : Definitions :=
      ⟨[reboundType], (Namespaces.builtin.bind "ex" "http://b/").bind "ey" "http://c/"⟩
    let payload := (Payload.ofSources "now" [("a.cnd", first), ("b.cnd", second)]).1
    (Definitions.readWith "" .error none "<ex='http://a/'> <ey='http://b/'>").outcome = .ok first ∧
    (Definitions.readWith "" .error none
      "<ex='http://b/'> <ey='http://c/'> [ex:t] > ey:s").outcome = .ok second ∧
    declareSources .empty [("a.cnd", first), ("b.cnd", second)] = .ok payload.namespaces ∧
    payload.namespaces.uri? "ex" = some "http://a/" ∧
    ∃ ns r, Namespaces.ofPairs false payload.namespaces.pairs = .ok ns ∧ payload.types = [r] ∧
      ns.resolve r.name = .ok ⟨"http://b/", "t"⟩ ∧ r.supertypes = ["\x7bhttp://c/\x7ds"] := by
  intro first second payload
  have hfirst : (Definitions.readWith "" .error none
      "<ex='http://a/'> <ey='http://b/'>").outcome = .ok first :=
    Definitions.readWith_of_outline prefixesOutline rfl
  have hsecond : (Definitions.readWith "" .error none
      "<ex='http://b/'> <ey='http://c/'> [ex:t] > ey:s").outcome = .ok second :=
    Definitions.readWith_of_outline reboundOutline rfl
  have hreadings : ∀ s ∈ [("a.cnd", first), ("b.cnd", second)], IsReading s.2 := by
    intro s hs
    rcases List.mem_pair.1 hs with rfl | rfl
    · exact ⟨"", .error, none, _, reachable_builtin, hfirst⟩
    · exact ⟨"", .error, none, _, reachable_builtin, hsecond⟩
  obtain ⟨hdeclare, -, huri, ns, hns, hsame, htypes⟩ := names_of_ofSources hreadings "now"
  obtain ⟨r, rs, ⟨-, hshows⟩, hrest, hr⟩ := List.forall₂_cons_left_iff.1 htypes
  rw [List.forall₂_nil_left_iff.1 hrest] at hr
  -- the first reading has given one of the two namespaces a prefix, and none the other
  have hbound : ns.HasPrefix ⟨"http://b/", "t"⟩ := ⟨"ey", (hsame "ey").trans (by decide)⟩
  have hunbound : ¬ ns.HasPrefix ⟨"http://c/", "s"⟩ := by
    rintro ⟨pfx, hu⟩
    have hmem := mem_of_lookup_eq_some ((hsame pfx).symm.trans hu)
    have hall : ∀ b ∈ payload.namespaces.bindings, b.2 ≠ "http://c/" := by decide
    exact hall _ hmem rfl
  obtain ⟨text, texts, hsuper, hmore, hs⟩ := List.forall₂_cons_left_iff.1 hshows.supertypes
  rw [List.forall₂_nil_left_iff.1 hmore, hsuper.braced hunbound] at hs
  exact ⟨hfirst, hsecond, hdeclare, (huri "ex").trans (by decide), ns, r, hns, hr,
    hshows.name.resolved hbound, hs⟩

end Export

end Cnd
