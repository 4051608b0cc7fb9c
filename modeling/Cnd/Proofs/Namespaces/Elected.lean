import Cnd.Proofs.Namespaces.Change
import Mathlib.Data.List.Induction

/-!
Tables that are the same, and what declarations make of them.

Two tables that are the same answer every declaration alike and bind alike behind it, since both
depend on bindings alone. Their canonical prefixes may part: a URI that loses its canonical prefix
elects the next one in the order of the table, which no comparison sees (`same_after_iff`). So tables
stay the same through a run just as long as they elect alike, and through all runs just if they hold
the prefixes of each URI in one order (`afterAll_of_same`).
-/

namespace Cnd.Namespaces

/-- A declaration as it is asked for. -/
structure Declaration where
  policy : ConflictPolicy
  pfx : Data
  uri : Data

/-- What is answered to a declaration. -/
def outcome (ns : Namespaces) (d : Declaration) : Except NameError Change :=
  (ns.declareData d.policy d.pfx d.uri).map (·.2)

/-- The table behind a declaration. -/
def after (ns : Namespaces) (d : Declaration) : Namespaces :=
  ns.afterDeclaring d.policy d.pfx d.uri

/-- The table behind declarations, one after the other. -/
def afterAll (ns : Namespaces) (ds : List Declaration) : Namespaces := ds.foldl after ns

/-- The prefixes of a URI, in the order of the table. -/
def prefixesOf (ns : Namespaces) (uri : String) : List String :=
  (ns.bindings.filter (·.2 == uri)).map (·.1)

/-! ## The prefixes of a URI -/

theorem head?_prefixesOf (ns : Namespaces) (uri : String) :
    (ns.prefixesOf uri).head? = firstPrefix? ns.bindings uri := by
  rw [prefixesOf, List.head?_map, List.head?_filter, firstPrefix?]

theorem canonical?_eq_head? {ns : Namespaces} (hi : Indexed ns) (uri : String) :
    ns.canonical? uri = (ns.prefixesOf uri).head? := by
  rw [hi.first, head?_prefixesOf]

theorem mem_prefixesOf {ns : Namespaces} (hi : Indexed ns) {pfx uri : String} :
    pfx ∈ ns.prefixesOf uri ↔ ns.uri? pfx = some uri := by
  rw [← hi.mem_bindings]
  simp [prefixesOf]

theorem nodup_prefixesOf {ns : Namespaces} (hi : Indexed ns) (uri : String) :
    (ns.prefixesOf uri).Nodup := nodup_keys_filter _ hi.distinct

/-- What is first when one is taken away. -/
theorem head?_filter_ne {ps : List String} (hd : ps.Nodup) (pfx : String) :
    (ps.filter (· != pfx)).head? = if ps.head? = some pfx then ps[1]? else ps.head? := by
  cases ps with
  | nil => rfl
  | cons p ps =>
    obtain ⟨hp, -⟩ := List.nodup_cons.1 hd
    by_cases he : p = pfx
    · have hrest : ps.filter (· != pfx) = ps :=
        List.filter_eq_self.2 fun x hx => bne_iff_ne.2 fun hxp => hp (he ▸ hxp ▸ hx)
      rw [List.filter_cons_of_neg (by simp [he]), hrest, if_pos (by rw [he]; rfl),
        List.head?_eq_getElem?]
      rfl
    · rw [List.filter_cons_of_pos (by simpa using he), if_neg (by simpa using he)]
      rfl

theorem prefixesOf_of_bindings {ns ns' : Namespaces} {pfx uri : String}
    (hb : ns'.bindings = ns.bindings.filter (·.1 != pfx) ++ [(pfx, uri)]) (u : String) :
    ns'.prefixesOf u =
      (ns.prefixesOf u).filter (· != pfx) ++ if uri = u then [pfx] else [] := by
  rw [prefixesOf, hb, List.filter_append, List.map_append, prefixesOf, List.filter_map,
    List.filter_filter, List.filter_filter]
  congr 1
  · congr 1
    exact List.filter_congr fun b _ => Bool.and_comm _ _
  · by_cases hu : uri = u
    · simp [hu]
    · simp [hu]

/-! ## One declaration -/

theorem outcome_congr {a b : Namespaces} (h : ∀ pfx, a.uri? pfx = b.uri? pfx) (d : Declaration) :
    a.outcome d = b.outcome d := by
  obtain ⟨policy, pfx, uri⟩ := d
  unfold outcome declareData
  split
  · exact change_declare_congr policy _ (h _)
  · rfl

/-- A declaration leaves the table, or binds one prefix anew. -/
theorem after_cases (ns : Namespaces) (d : Declaration) :
    (ns.after d = ns ∧ ∀ c, ns.outcome d = .ok c → c.isChange = false) ∨
      ∃ p u c, d.pfx = .text p ∧ d.uri = .text u ∧ ns.outcome d = .ok c ∧ c.isChange = true ∧
        ns.declare d.policy p u = .ok (ns.after d, c) := by
  obtain ⟨policy, pfx, uri⟩ := d
  unfold after outcome afterDeclaring
  cases h : ns.declareData policy pfx uri with
  | error e => exact .inl ⟨rfl, fun c hc => by simp [Except.map] at hc⟩
  | ok r =>
    obtain ⟨ns', c⟩ := r
    unfold declareData at h
    split at h
    · rename_i p u
      rcases bindings_declare h with ⟨hc, rfl⟩ | ⟨hc, -, -⟩
      · exact .inl ⟨rfl, fun c' hc' => Except.ok.inj hc' ▸ hc⟩
      · exact .inr ⟨p, u, c, rfl, rfl, rfl, hc, h⟩
    · simp at h

theorem indexed_after {ns : Namespaces} (hi : Indexed ns) (d : Declaration) : Indexed (ns.after d) :=
  hi.afterDeclaring d.policy d.pfx d.uri

/-- Tables that bind alike are changed by the same declarations. -/
theorem after_cases_of_alike {a b : Namespaces} (h : ∀ pfx, a.uri? pfx = b.uri? pfx)
    (d : Declaration) :
    (a.after d = a ∧ b.after d = b ∧ ∀ c, a.outcome d = .ok c → c.isChange = false) ∨
      ∃ p u c, d.pfx = .text p ∧ d.uri = .text u ∧ a.outcome d = .ok c ∧ c.isChange = true ∧
        a.declare d.policy p u = .ok (a.after d, c) ∧
        b.declare d.policy p u = .ok (b.after d, c) := by
  rcases after_cases a d with ⟨ha, hkept⟩ | ⟨p, u, c, hp, hu, hout, hc, ha⟩
  · rcases after_cases b d with ⟨hb, -⟩ | ⟨_, _, c, -, -, hout, hc, -⟩
    · exact .inl ⟨ha, hb, hkept⟩
    · rw [← outcome_congr h] at hout
      rw [hkept c hout] at hc
      simp at hc
  · rcases after_cases b d with ⟨-, hkept⟩ | ⟨p', u', c', hp', hu', hout', -, hb⟩
    · rw [outcome_congr h] at hout
      rw [hkept c hout] at hc
      simp at hc
    · obtain rfl : p = p' := by simpa [hp] using hp'
      obtain rfl : u = u' := by simpa [hu] using hu'
      rw [← outcome_congr h, hout] at hout'
      obtain rfl := Except.ok.inj hout'
      exact .inr ⟨p, u, c, hp, hu, hout, hc, ha, hb⟩

theorem uri?_after_congr {a b : Namespaces} (h : ∀ pfx, a.uri? pfx = b.uri? pfx) (d : Declaration)
    (pfx : String) : (a.after d).uri? pfx = (b.after d).uri? pfx := by
  rcases after_cases_of_alike h d with ⟨ha, hb, -⟩ | ⟨p, u, c, -, -, -, -, ha, hb⟩
  · rw [ha, hb, h]
  · by_cases hp : pfx = p
    · rw [hp, uri?_declare_self ha, uri?_declare_self hb]
    · rw [uri?_declare_other ha hp, uri?_declare_other hb hp, h]

/-- Behind a change the next prefix of a URI is canonical where the canonical one was declared. -/
theorem canonical?_declare {ns ns' : Namespaces} (hi : Indexed ns) {policy : ConflictPolicy}
    {pfx uri : String} {c : Change} (h : ns.declare policy pfx uri = .ok (ns', c))
    (hc : c.isChange = true) (u : String) :
    ns'.canonical? u =
      (if ns.canonical? u = some pfx then (ns.prefixesOf u)[1]? else ns.canonical? u).or
        (if uri = u then some pfx else none) := by
  obtain ⟨-, hb⟩ := bindings_of_change h hc
  rw [canonical?_eq_head? (hi.declare h), prefixesOf_of_bindings hb, List.head?_append,
    head?_filter_ne (nodup_prefixesOf hi u), canonical?_eq_head? hi]
  by_cases hu : uri = u
  · simp [hu]
  · simp [hu]

/-- The declaration moves the canonical prefix of a URI away, and the next one of that URI is not
the same in both tables. -/
def Parts (a b : Namespaces) (d : Declaration) : Prop :=
  ∃ pfx former, d.pfx = .text pfx ∧ a.outcome d = .ok (.moved former) ∧
    a.canonical? former = some pfx ∧ (a.prefixesOf former)[1]? ≠ (b.prefixesOf former)[1]?

/-- **Tables that are the same stay so** behind a declaration unless they part. -/
theorem same_after_iff {a b : Namespaces} (ha : Indexed a) (hb : Indexed b) (h : a.same b = true)
    (d : Declaration) : (a.after d).same (b.after d) = true ↔ ¬ Parts a b d := by
  obtain ⟨huris, hcanonical⟩ := (same_iff ha hb).1 h
  rw [same_iff (indexed_after ha d) (indexed_after hb d)]
  rcases after_cases_of_alike huris d with
    ⟨hda, hdb, hkept⟩ | ⟨p, u, c, hp, hu, hout, hc, hda, hdb⟩
  · rw [hda, hdb]
    refine iff_of_true ⟨huris, hcanonical⟩ ?_
    rintro ⟨pfx, former, -, hout, -⟩
    exact absurd (hkept _ hout) (by simp [Change.isChange])
  · constructor
    · rintro ⟨-, hsame⟩ ⟨pfx, former, hpfx, -, hformer, hne⟩
      obtain rfl : p = pfx := by simpa [hp] using hpfx
      have hother : u ≠ former := by
        rintro rfl
        exact (bindings_of_change hda hc).1 (ha.uri?_of_canonical? hformer)
      have hnext := hsame former
      rw [canonical?_declare ha hda hc, canonical?_declare hb hdb hc, ← hcanonical, if_pos hformer,
        if_pos hformer, if_neg hother, Option.or_none, Option.or_none] at hnext
      exact hne hnext
    · intro hparts
      refine ⟨uri?_after_congr huris d, fun v => ?_⟩
      rw [canonical?_declare ha hda hc, canonical?_declare hb hdb hc, ← hcanonical]
      by_cases hv : a.canonical? v = some p
      · rw [if_pos hv, if_pos hv]
        -- The prefix is bound to this URI, so it is the former one.
        have hmoved : c = .moved v := (moved_iff hda hc).2 (ha.uri?_of_canonical? hv)
        have hnext : (a.prefixesOf v)[1]? = (b.prefixesOf v)[1]? := by
          by_contra hne
          exact hparts ⟨p, v, hp, hmoved ▸ hout, hv, hne⟩
        rw [hnext]
      · rw [if_neg hv, if_neg hv]

/-! ## Runs -/

theorem afterAll_concat (ns : Namespaces) (ds : List Declaration) (d : Declaration) :
    ns.afterAll (ds ++ [d]) = (ns.afterAll ds).after d := by
  rw [afterAll, List.foldl_append]
  rfl

theorem indexed_afterAll {ns : Namespaces} (hi : Indexed ns) (ds : List Declaration) :
    Indexed (ns.afterAll ds) := by
  induction ds using List.reverseRecOn with
  | nil => exact hi
  | append_singleton ds d ih => exact afterAll_concat ns ds d ▸ indexed_after ih d

theorem uri?_afterAll_congr {a b : Namespaces} (h : ∀ pfx, a.uri? pfx = b.uri? pfx)
    (ds : List Declaration) (pfx : String) :
    (a.afterAll ds).uri? pfx = (b.afterAll ds).uri? pfx := by
  induction ds using List.reverseRecOn generalizing pfx with
  | nil => exact h pfx
  | append_singleton ds d ih =>
    rw [afterAll_concat, afterAll_concat]
    exact uri?_after_congr ih d pfx

/-- Tables are the same all along a run just as long as no declaration of it parts them. -/
theorem same_along_iff {a b : Namespaces} (ha : Indexed a) (hb : Indexed b) (h : a.same b = true)
    (ds : List Declaration) :
    (∀ before, before <+: ds → (a.afterAll before).same (b.afterAll before) = true) ↔
      ∀ before d, before ++ [d] <+: ds → ¬ Parts (a.afterAll before) (b.afterAll before) d := by
  have hstep : ∀ {before : List Declaration} (d : Declaration),
      (a.afterAll before).same (b.afterAll before) = true →
      ((a.afterAll (before ++ [d])).same (b.afterAll (before ++ [d])) = true ↔
        ¬ Parts (a.afterAll before) (b.afterAll before) d) := by
    intro before d hsame
    rw [afterAll_concat, afterAll_concat]
    exact same_after_iff (indexed_afterAll ha before) (indexed_afterAll hb before) hsame d
  constructor
  · intro hall before d hbefore
    have hfront : before <+: ds := (List.prefix_append before [d]).trans hbefore
    exact (hstep d (hall before hfront)).1 (hall _ hbefore)
  · intro hparts before hbefore
    induction before using List.reverseRecOn with
    | nil => exact h
    | append_singleton before d ih =>
      have hfront : before <+: ds := (List.prefix_append before [d]).trans hbefore
      exact (hstep d (ih hfront)).2 (hparts before d hbefore)

/-! ## Tables with one order -/

/-- Tables that hold the prefixes of each URI in one order are the same. -/
theorem same_of_prefixesOf {a b : Namespaces} (ha : Indexed a) (hb : Indexed b)
    (h : ∀ uri, a.prefixesOf uri = b.prefixesOf uri) : a.same b = true := by
  rw [same_iff ha hb]
  constructor
  · intro pfx
    ext uri
    rw [← mem_prefixesOf ha, h, mem_prefixesOf hb]
  · intro uri
    rw [canonical?_eq_head? ha, h, canonical?_eq_head? hb]

theorem prefixesOf_after_congr {a b : Namespaces} (ha : Indexed a) (hb : Indexed b)
    (h : ∀ uri, a.prefixesOf uri = b.prefixesOf uri) (d : Declaration) (uri : String) :
    (a.after d).prefixesOf uri = (b.after d).prefixesOf uri := by
  have huris := ((same_iff ha hb).1 (same_of_prefixesOf ha hb h)).1
  rcases after_cases_of_alike huris d with ⟨hda, hdb, -⟩ | ⟨p, u, c, -, -, -, hc, hda, hdb⟩
  · rw [hda, hdb, h]
  · rw [prefixesOf_of_bindings (bindings_of_change hda hc).2,
      prefixesOf_of_bindings (bindings_of_change hdb hc).2, h]

theorem prefixesOf_afterAll_congr {a b : Namespaces} (ha : Indexed a) (hb : Indexed b)
    (h : ∀ uri, a.prefixesOf uri = b.prefixesOf uri) (ds : List Declaration) (uri : String) :
    (a.afterAll ds).prefixesOf uri = (b.afterAll ds).prefixesOf uri := by
  induction ds using List.reverseRecOn generalizing uri with
  | nil => exact h uri
  | append_singleton ds d ih =>
    rw [afterAll_concat, afterAll_concat]
    exact prefixesOf_after_congr (indexed_afterAll ha ds) (indexed_afterAll hb ds) ih d uri

/-- The declaration that moves a prefix from a URI to a longer one. -/
def moveAway (pfx uri : String) : Declaration := ⟨.override, .text pfx, .text (uri ++ "x")⟩

theorem prefixesOf_moveAway {ns : Namespaces} (hi : Indexed ns) {pfx uri : String} {ps : List String}
    (h : ns.prefixesOf uri = pfx :: ps) : (ns.after (moveAway pfx uri)).prefixesOf uri = ps := by
  have hu : ns.uri? pfx = some uri := (mem_prefixesOf hi).1 (h ▸ List.mem_cons_self)
  have hlonger : uri ++ "x" ≠ uri := fun he => by
    have := congrArg String.length he
    simp at this
  have hok : checkDeclaration pfx (uri ++ "x") = .ok () := by
    refine checkDeclaration_eq_ok.2 fun hne => ⟨(hi.legalPrefix hu) hne, ?_⟩
    simp
  have hmoved : (ns.after (moveAway pfx uri)).bindings =
      ns.bindings.filter (·.1 != pfx) ++ [(pfx, uri ++ "x")] := by
    simp [after, moveAway, afterDeclaring, declareData, declare, hok, hu, hlonger.symm, bind, unbind]
  have hnodup := nodup_prefixesOf hi uri
  rw [h] at hnodup
  obtain ⟨hp, -⟩ := List.nodup_cons.1 hnodup
  rw [prefixesOf_of_bindings hmoved, if_neg hlonger, List.append_nil, h,
    List.filter_cons_of_neg (by simp)]
  exact List.filter_eq_self.2 fun x hx => bne_iff_ne.2 (ne_of_mem_of_not_mem hx hp)

/-- Moving prefixes of a URI away one by one shows their order. -/
theorem prefixesOf_eq_of_same {a b : Namespaces} (ha : Indexed a) (hb : Indexed b) {uri : String}
    (h : ∀ ds, (a.afterAll ds).same (b.afterAll ds) = true) :
    a.prefixesOf uri = b.prefixesOf uri := by
  have hhead := ((same_iff ha hb).1 (h [])).2 uri
  rw [canonical?_eq_head? ha, canonical?_eq_head? hb] at hhead
  generalize hps : a.prefixesOf uri = ps
  induction ps generalizing a b with
  | nil =>
    rw [hps, List.head?_nil] at hhead
    exact (List.head?_eq_none_iff.1 hhead.symm).symm
  | cons p ps ih =>
    rw [hps, List.head?_cons] at hhead
    obtain ⟨qs, hqs⟩ := List.head?_eq_some_iff.1 hhead.symm
    have hstep : ∀ ds, ((a.after (moveAway p uri)).afterAll ds).same
        ((b.after (moveAway p uri)).afterAll ds) = true := fun ds => h (moveAway p uri :: ds)
    have hia := indexed_after ha (moveAway p uri)
    have hib := indexed_after hb (moveAway p uri)
    have hnext := ((same_iff hia hib).1 (hstep [])).2 uri
    rw [canonical?_eq_head? hia, canonical?_eq_head? hib] at hnext
    have hrest := ih hia hib hstep hnext (prefixesOf_moveAway ha hps)
    rw [hqs, hrest, prefixesOf_moveAway hb hqs]

/-! ## What is read and written -/

theorem resolve_congr {a b : Namespaces} (h : ∀ pfx, a.uri? pfx = b.uri? pfx) (text : String) :
    a.resolve text = b.resolve text := by
  unfold resolve
  simp only [h]

theorem render_congr {a b : Namespaces} (h : ∀ uri, a.canonical? uri = b.canonical? uri) (n : Name) :
    a.render n = b.render n := by
  simp only [render, toPrefixed, getCanonical, h]

/-- **What becomes of tables that are the same**, when the same declarations are made in both. Each
declaration is answered alike, and every text stands for the same name behind it. They are the same
all along a run exactly if no declaration moves the canonical prefix of a URI away that has another
next prefix in the other table, and while they are, they write every name alike. They are the same
behind every run exactly if they hold the prefixes of each URI in the same order. -/
theorem afterAll_of_same {a b : Namespaces} (hra : Reachable a) (hrb : Reachable b)
    (h : a.same b = true) :
    (∀ ds d, (a.afterAll ds).outcome d = (b.afterAll ds).outcome d) ∧
    (∀ ds text, (a.afterAll ds).resolve text = (b.afterAll ds).resolve text) ∧
    (∀ ds, (∀ before, before <+: ds → (a.afterAll before).same (b.afterAll before) = true) ↔
      ∀ before d, before ++ [d] <+: ds → ¬ Parts (a.afterAll before) (b.afterAll before) d) ∧
    (∀ ds, (a.afterAll ds).same (b.afterAll ds) = true →
      ∀ n, (a.afterAll ds).render n = (b.afterAll ds).render n) ∧
    ((∀ ds, (a.afterAll ds).same (b.afterAll ds) = true) ↔
      ∀ uri, a.prefixesOf uri = b.prefixesOf uri) := by
  have ha := hra.indexed
  have hb := hrb.indexed
  have huris := uri?_afterAll_congr ((same_iff ha hb).1 h).1
  refine ⟨fun ds d => outcome_congr (huris ds) d, fun ds text => resolve_congr (huris ds) text,
    same_along_iff ha hb h, fun ds hsame n => ?_, fun hall uri => ?_, fun horder ds => ?_⟩
  · exact render_congr ((same_iff (indexed_afterAll ha ds) (indexed_afterAll hb ds)).1 hsame).2 n
  · exact prefixesOf_eq_of_same ha hb hall
  · exact same_of_prefixesOf (indexed_afterAll ha ds) (indexed_afterAll hb ds)
      (prefixesOf_afterAll_congr ha hb horder ds)

/-- Three prefixes of one URI in two orders: the tables are the same, answer alike when the first
prefix moves, and are not the same behind every run. -/
theorem afterAll_of_same_reordered :
    let a : Namespaces := ⟨[("a", "u"), ("b", "u"), ("c", "u")], [("u", "a")]⟩
    let b : Namespaces := ⟨[("a", "u"), ("c", "u"), ("b", "u")], [("u", "a")]⟩
    let d : Declaration := ⟨.override, .text "a", .text "v"⟩
    Reachable a ∧ Reachable b ∧ a.same b = true ∧ a.outcome d = b.outcome d ∧
      ¬ ∀ ds, (a.afterAll ds).same (b.afterAll ds) = true := by
  intro a b d
  have ha : ofPairs false [(.text "a", .text "u"), (.text "b", .text "u"), (.text "c", .text "u")] =
      .ok a := by rfl
  have hb : ofPairs false [(.text "a", .text "u"), (.text "c", .text "u"), (.text "b", .text "u")] =
      .ok b := by rfl
  have hsame : a.same b = true := by decide
  obtain ⟨houtcome, -, -, -, hiff⟩ :=
    afterAll_of_same (reachable_of_ofPairs ha) (reachable_of_ofPairs hb) hsame
  refine ⟨reachable_of_ofPairs ha, reachable_of_ofPairs hb, hsame, houtcome [] d, fun hall => ?_⟩
  exact absurd (hiff.1 hall "u") (by decide)

/-- Tables that are the same need not stay so: when the first of three prefixes moves away, one table
elects the second and the other one the third. -/
theorem not_same_after :
    let a : Namespaces := ⟨[("a", "u"), ("b", "u"), ("c", "u")], [("u", "a")]⟩
    let b : Namespaces := ⟨[("a", "u"), ("c", "u"), ("b", "u")], [("u", "a")]⟩
    let d : Declaration := ⟨.override, .text "a", .text "v"⟩
    Reachable a ∧ Reachable b ∧ a.same b = true ∧ (a.afterAll [d]).same (b.afterAll [d]) = false := by
  intro a b d
  have ha : ofPairs false [(.text "a", .text "u"), (.text "b", .text "u"), (.text "c", .text "u")] =
      .ok a := by rfl
  have hb : ofPairs false [(.text "a", .text "u"), (.text "c", .text "u"), (.text "b", .text "u")] =
      .ok b := by rfl
  exact ⟨reachable_of_ofPairs ha, reachable_of_ofPairs hb, by decide, by decide⟩

end Cnd.Namespaces
