import Cnd.Proofs.Export.ReadBack

/-!
What the texts of a payload stand for when several sources share its table.

The table of a payload renders names and default values, so these are read back wherever their
namespaces have kept a prefix. A constraint is exported as the text that it was written with. That
text is always read again, but as the same constraint just if the first source that binds a prefix
in it binds the prefix to the namespace that was meant (`texts_of_ofSources`).
-/

namespace Cnd

open Namespaces

/-! ## Names -/

/-- The names that a record of a node type holds a text for, without those in default values. -/
def NodeType.names (t : NodeType) : List Name :=
  t.name :: (t.supertypes ++ t.primaryItem.toList ++ t.properties.map (·.name) ++
    t.children.flatMap fun c => c.name :: (c.requiredTypes ++ c.defaultType.toList))

/-- Some prefix is bound to the namespace of a name. -/
def Namespaces.HasPrefix (ns : Namespaces) (n : Name) : Prop := ∃ pfx, ns.uri? pfx = some n.uri

/-- A name that some table knows is known to every table with a prefix for it. -/
theorem Namespaces.Knows.transfer {ns ns' : Namespaces} {n : Name} (h : ns.Knows n)
    (hp : ns'.HasPrefix n) : ns'.Knows n := ⟨h.legal, hp⟩

theorem Namespaces.KnowsItem.transfer {ns ns' : Namespaces} {n : Name} (h : ns.KnowsItem n)
    (hp : ns'.HasPrefix n) : ns'.KnowsItem n := h.imp_right (·.transfer hp)

theorem ChildDefinition.Known.knowsItem {ns ns' : Namespaces} {owner : Name} {c : ChildDefinition}
    (h : c.Known ns owner) {n : Name} (hn : n ∈ c.name :: (c.requiredTypes ++ c.defaultType.toList))
    (hp : ns'.HasPrefix n) : ns'.KnowsItem n := by
  rcases List.mem_cons.1 hn with rfl | hn
  · exact h.name.transfer hp
  cases List.mem_append.1 hn with
  | inl hn =>
    rcases h.requiredTypes n hn with rfl | hk
    · exact .inr ⟨legalLocal_base, hp⟩
    · exact .inr (hk.transfer hp)
  | inr hn => exact .inr ((h.defaultType n (Option.mem_toList.1 hn)).transfer hp)

theorem NodeType.Known.knowsItem {ns ns' : Namespaces} {t : NodeType} (h : t.Known ns) {n : Name}
    (hn : n ∈ t.names) (hp : ns'.HasPrefix n) : ns'.KnowsItem n := by
  simp only [names, List.mem_cons, List.mem_append, List.mem_map, List.mem_flatMap] at hn
  rcases hn with rfl | ((hn | hn) | ⟨p, hprop, rfl⟩) | ⟨c, hc, hn⟩
  · exact .inr (h.name.transfer hp)
  · exact .inr ((h.supertypes n hn).transfer hp)
  · exact (h.primaryItem n (Option.mem_toList.1 hn)).transfer hp
  · exact (h.properties p hprop).name.transfer hp
  · exact (h.children c hc).knowsItem (by simpa using hn) hp

/-! ## Values -/

theorem PathSegment.Known.transfer {ns ns' : Namespaces} {g : PathSegment} (h : g.Known ns)
    (hp : ∀ n ∈ g.names, ns'.HasPrefix n) : g.Known ns' := by
  cases g with
  | current | parent => trivial
  | item n index =>
    have hn := hp n (List.mem_singleton_self n)
    cases index with
    | none => exact Knows.transfer h hn
    | some i => exact ⟨h.1.transfer hn, h.2⟩

theorem Value.Denoted.transfer {ns ns' : Namespaces} {v : Value} (h : v.Denoted ns)
    (hp : ∀ n ∈ v.names, ns'.HasPrefix n) : v.Denoted ns' := by
  cases v with
  | name n => exact Knows.transfer h (hp n (List.mem_singleton_self n))
  | path p =>
    refine ⟨fun g hg => (h.segments g hg).transfer fun n hn => ?_, h.rooted⟩
    exact hp n (List.mem_flatMap.2 ⟨g, hg, hn⟩)
  | string | undefined | boolean | binary | long | double | date | reference => exact h

/-! ## Properties -/

section
variable {own ns : Namespaces} {owner : Name} {p : PropertyDefinition}

/-- Default values are read from their texts if their namespaces have a prefix. -/
theorem PropertyDefinition.Known.convert_defaults {merged : Namespaces} (h : p.Known own owner)
    (hi : Indexed merged) (he : merged.ExtendedBy ns) :
    List.Forall₂ (fun v text => (∀ n ∈ v.names, merged.HasPrefix n) →
      Value.convert ns p.type text = .ok v) p.defaults (p.defaults.map (Value.write merged)) := by
  refine forall₂_map_self fun v hv hnames => ?_
  obtain ⟨htype, hdenoted⟩ := h.defaults v hv
  rw [← htype]
  exact Value.convert_write_extended hi he (hdenoted.transfer hnames)

/-- Constraints are read from their texts, but other ones unless their prefixes are bound alike. -/
theorem PropertyDefinition.Known.read_constraints (h : p.Known own owner) (hc : own.CoveredBy ns) :
    List.Forall₂ (fun c text => ∃ c', Constraint.read ns p.type text = .ok c' ∧
      (c' = c ↔ ns.Binds (Constraint.prefixes p.type text.toList) c.requirement.names))
      p.constraints (p.constraints.map (·.definition)) := by
  refine forall₂_map_self fun c hmem => ?_
  have hread := h.constraints c hmem
  have hmentions := Constraint.mentions_read p.type c.definition
  have hbound := (hmentions.binds own c hread).contains
  exact hmentions.carry own ns c hread fun pfx hpfx => hc pfx (hbound pfx hpfx)

end

namespace Export

/-! ## Several sources -/

/-- What some text says that is read from a table in use. -/
def IsReading (d : Definitions) : Prop :=
  ∃ (source : String) (policy : ConflictPolicy) (seed : Option Namespaces) (text : String),
    Reachable (seed.getD .builtin) ∧ (Definitions.readWith source policy seed text).outcome = .ok d

theorem IsReading.indexed {d : Definitions} (h : IsReading d) : Indexed d.namespaces := by
  obtain ⟨source, policy, seed, text, hseed, hread⟩ := h
  obtain ⟨tokens, clauses, -, -, hm⟩ := Definitions.means_of_readWith hread
  exact hm.indexed hseed.indexed

/-- Under any policy, a node type is known to a table whose prefixes are all bound at the end. -/
theorem IsReading.known {d : Definitions} (h : IsReading d) :
    ∀ t ∈ d.types, ∃ ns, t.Known ns ∧ ns.CoveredBy d.namespaces := by
  obtain ⟨source, policy, seed, text, -, hread⟩ := h
  obtain ⟨tokens, clauses, -, -, hm⟩ := Definitions.means_of_readWith hread
  exact (hm.table CoveredBy .refl (fun _ _ _ => .trans) coveredBy_declare).2

/-- The URI that the first of the sources to bind a prefix binds it to. -/
def firstUri? (sources : List (String × Definitions)) (pfx : String) : Option String :=
  sources.findSome? (·.2.namespaces.uri? pfx)

theorem uri?_ofSources (generatedAt : String) (sources : List (String × Definitions)) (pfx : String) :
    (Payload.ofSources generatedAt sources).1.namespaces.uri? pfx = firstUri? sources pfx := by
  rw [namespaces_ofSources, uri?_mergeAll]
  rfl

theorem coveredBy_ofSources (generatedAt : String) {sources : List (String × Definitions)}
    {s : String × Definitions} (hs : s ∈ sources) :
    s.2.namespaces.CoveredBy (Payload.ofSources generatedAt sources).1.namespaces := by
  intro pfx hc
  rw [contains, uri?_ofSources, firstUri?, List.findSome?_isSome_iff]
  exact ⟨s, hs, hc⟩

/-- **The texts of a payload.** The pairs of a payload of readings make a table. It reads the text of
every name and of every default value as what it was written for, if the namespaces in it have a
prefix; and it reads the text of every constraint, as the constraint it was written for just if each
of its prefixes is bound to the namespace of its name by the first source that binds it. -/
theorem texts_of_ofSources {sources : List (String × Definitions)}
    (h : ∀ s ∈ sources, IsReading s.2) (generatedAt : String) :
    let merged := (Payload.ofSources generatedAt sources).1.namespaces
    ∃ ns, Namespaces.ofPairs false merged.pairs = .ok ns ∧ ∀ s ∈ sources, ∀ t ∈ s.2.types,
      (∀ n ∈ t.names, merged.HasPrefix n → readName ns (merged.render n) = some n) ∧
      ∀ p ∈ t.properties,
        List.Forall₂ (fun v text => (∀ n ∈ v.names, merged.HasPrefix n) →
          Value.convert ns p.type text = .ok v)
          p.defaults (PropertyRecord.ofDefinition merged p).defaults ∧
        List.Forall₂ (fun c text => ∃ c', Constraint.read ns p.type text = .ok c' ∧
          (c' = c ↔ List.Forall₂ (fun pfx n => firstUri? sources pfx = some n.uri)
            (Constraint.prefixes p.type text.toList) c.requirement.names))
          p.constraints (PropertyRecord.ofDefinition merged p).constraints := by
  intro merged
  have hi : Indexed merged := indexed_mergeAll .empty fun s hs => (h s hs).indexed
  obtain ⟨ns, hns, hbindings⟩ := ofPairs_bindings hi
  have huri : ∀ pfx, ns.uri? pfx = merged.uri? pfx := fun pfx => by
    rw [uri?, hbindings]
    rfl
  have he : merged.ExtendedBy ns := fun pfx uri hu => by rw [huri, hu]
  refine ⟨ns, hns, fun s hs t ht => ?_⟩
  obtain ⟨own, hknown, hlast⟩ := (h s hs).known t ht
  -- a prefix that is bound where a text was read is bound at the end, and so in the payload
  have hmerged : own.CoveredBy merged := hlast.trans (coveredBy_ofSources generatedAt hs)
  refine ⟨fun n hn hp => readName_renderItem hi he (hknown.knowsItem hn hp), fun p hp => ?_⟩
  have hprop := hknown.properties p hp
  refine ⟨hprop.convert_defaults hi he, ?_⟩
  have hconstraints := hprop.read_constraints (hmerged.trans he.coveredBy)
  simp only [Binds, huri, merged, uri?_ofSources] at hconstraints
  exact hconstraints

/-- The node type of a text with a constraint on names in its own namespace. -/
def namingType : NodeType :=
  ⟨⟨"http://b/", "t"⟩, [], false, false, none,
    [⟨⟨"http://b/", "p"⟩, ⟨"http://b/", "t"⟩, .name, [],
      [⟨"ex:foo", .name, .name ⟨"http://b/", "foo"⟩⟩], {}⟩], []⟩

def prefixOutline : Definitions.Outlined "<ex='http://a/'>" where
  outline := ⟨[.binding ⟨⟨.symbol '<', ⟨1, 1⟩⟩, "ex", "http://a/"⟩], .complete⟩
  eq := by decide +kernel

def namingOutline : Definitions.Outlined "<ex='http://b/'> [ex:t] - ex:p (Name) < 'ex:foo'" where
  outline :=
    ⟨[.binding ⟨⟨.symbol '<', ⟨1, 1⟩⟩, "ex", "http://b/"⟩,
      .nodeType ⟨⟨.text "ex:t" false, ⟨1, 19⟩⟩, [], false, false,
        [.property ⟨.named ⟨.text "ex:p" false, ⟨1, 27⟩⟩, .name, [], [],
          [⟨.text "ex:foo" true, ⟨1, 41⟩⟩]⟩]⟩], .complete⟩
  eq := by decide +kernel

/-- Another source in front binds the prefix of the constraint to another namespace. -/
theorem texts_of_ofSources_conflict :
    let first : Definitions := ⟨[], Namespaces.builtin.bind "ex" "http://a/"⟩
    let second : Definitions := ⟨[namingType], Namespaces.builtin.bind "ex" "http://b/"⟩
    (Definitions.readWith "" .error none "<ex='http://a/'>").outcome = .ok first ∧
    (Definitions.readWith "" .error none
      "<ex='http://b/'> [ex:t] - ex:p (Name) < 'ex:foo'").outcome = .ok second ∧
    ∃ ns c, Namespaces.ofPairs false (Payload.ofSources "now"
        [("a.cnd", first), ("b.cnd", second)]).1.namespaces.pairs = .ok ns ∧
      Constraint.read ns .name "ex:foo" = .ok c ∧
      c ≠ ⟨"ex:foo", .name, .name ⟨"http://b/", "foo"⟩⟩ := by
  intro first second
  have hfirst : (Definitions.readWith "" .error none "<ex='http://a/'>").outcome = .ok first :=
    Definitions.readWith_of_outline prefixOutline rfl
  have hsecond : (Definitions.readWith "" .error none
      "<ex='http://b/'> [ex:t] - ex:p (Name) < 'ex:foo'").outcome = .ok second :=
    Definitions.readWith_of_outline namingOutline rfl
  have hreadings : ∀ s ∈ [("a.cnd", first), ("b.cnd", second)], IsReading s.2 := by
    intro s hs
    rcases List.mem_pair.1 hs with rfl | rfl
    · exact ⟨"", .error, none, _, reachable_builtin, hfirst⟩
    · exact ⟨"", .error, none, _, reachable_builtin, hsecond⟩
  obtain ⟨ns, hns, htexts⟩ := texts_of_ofSources hreadings "now"
  have htype := htexts ("b.cnd", second) (by simp) namingType (by simp [second])
  obtain ⟨-, hconstraints⟩ := htype.2 _ (List.mem_singleton_self _)
  obtain ⟨c, hread, hiff⟩ := (List.forall₂_cons.1 hconstraints).1
  refine ⟨hfirst, hsecond, ns, c, hns, hread, fun hc => ?_⟩
  have hbound := List.forall₂_cons.1 (hiff.1 hc)
  exact absurd hbound.1 (by decide)

end Export

end Cnd
