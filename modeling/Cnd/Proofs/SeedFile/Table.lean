import Cnd.Proofs.Data
import Cnd.Proofs.Namespaces.Extend
import Cnd.Proofs.Namespaces.Resolve
import Cnd.Proofs.Schema.Shown
import Cnd.SeedFile

/-!
Which data is that of a seed file, and what becomes of all other data. The keys of a mapping are taken
to be different, as those of each document are (`Yaml.Document.hasDistinctKeys`).
-/

namespace Cnd

namespace SeedFile

open Namespaces

/-- The entries of some bindings. -/
def pairs (bs : List (String × String)) : List (Data × Data) := bs.map fun b => (.text b.1, .text b.2)

/-- The data of a seed file with some bindings. -/
def ofBindings (bs : List (String × String)) : Data := .map [(.text "namespaces", .map (pairs bs))]

theorem member?_ofBindings (bs : List (String × String)) :
    (ofBindings bs).member? "namespaces" = some (.map (pairs bs)) := by
  simp [ofBindings, Data.member?, Data.lookup, Data.equal_text]

/-! ## Declarations -/

/-- A binding that a table can take: it is well-formed and not at odds with one that is there. -/
structure Fits (ns : Namespaces) (b : String × String) : Prop where
  wellFormed : b.1 ≠ "" → isPrefixText b.1.toList = true ∧ b.2 ≠ ""
  agrees : ∀ u, ns.uri? b.1 = some u → u = b.2

theorem Fits.declare {ns : Namespaces} {b : String × String} (h : Fits ns b) :
    ns.declare .error b.1 b.2 =
      .ok (if (ns.uri? b.1).isNone then (ns.bind b.1 b.2, .added) else (ns, .none)) := by
  rw [Namespaces.declare, checkDeclaration_eq_ok.2 h.wellFormed]
  cases hu : ns.uri? b.1 with
  | none => rfl
  | some u => simp [h.agrees u hu]

theorem declare_of_not_fits {ns : Namespaces} {b : String × String} (h : ¬ Fits ns b) :
    ∃ e, ns.declare .error b.1 b.2 = .error e := by
  cases hdeclare : ns.declare .error b.1 b.2 with
  | error e => exact ⟨e, rfl⟩
  | ok r =>
    obtain ⟨hok, hcases⟩ := declare_cases hdeclare
    refine absurd ⟨checkDeclaration_eq_ok.1 hok, fun u hu => ?_⟩ h
    rcases hcases with ⟨hb, -⟩ | ⟨hb, -⟩ | ⟨-, -, -, ⟨hp, -⟩ | ⟨hp, -⟩⟩
    · exact Option.some.inj (hu.symm.trans hb)
    · rw [hu] at hb
      simp at hb
    · simp at hp
    · simp at hp

/-- What a binding of another prefix leaves as it was. -/
theorem fits_bind {ns : Namespaces} {b c : String × String} (hne : c.1 ≠ b.1) :
    Fits (ns.bind b.1 b.2) c ↔ Fits ns c := by
  have huri : (ns.bind b.1 b.2).uri? c.1 = ns.uri? c.1 := by
    rw [uri?_bind, if_neg hne, Option.or_none]
  exact ⟨fun h => ⟨h.wellFormed, huri ▸ h.agrees⟩, fun h => ⟨h.wellFormed, huri.symm ▸ h.agrees⟩⟩

variable {places : SourceMap} {file : Option FilePath}

theorem declareAll_cons (ns : Namespaces) (b : String × String) (bs : List (String × String)) :
    (declareAll places file ns (pairs (b :: bs))).2 =
      match ns.declare .error b.1 b.2 with
      | .error e => .error (.declaration e (places.locate (some ("/namespaces/" ++ b.1)) file))
      | .ok (ns', _) => (declareAll places file ns' (pairs bs)).2 := by
  rw [pairs, List.map_cons, ← pairs, declareAll, declareData]
  cases ns.declare .error b.1 b.2 <;> rfl

/-- **Bindings of different prefixes are declared one by one.** If all fit, those of new prefixes are
put behind the table in their order. -/
theorem declareAll_of_fits {bs : List (String × String)} {ns : Namespaces}
    (hd : (bs.map (·.1)).Nodup) (h : ∀ b ∈ bs, Fits ns b) :
    ∃ ns', (declareAll places file ns (pairs bs)).2 = .ok ns' ∧
      ns'.bindings = ns.bindings ++ bs.filter fun b => (ns.uri? b.1).isNone := by
  induction bs generalizing ns with
  | nil => exact ⟨ns, rfl, by simp⟩
  | cons b bs ih =>
    rw [List.map_cons, List.nodup_cons] at hd
    obtain ⟨hb, hbs⟩ := List.forall_mem_cons.1 h
    have hother : ∀ c ∈ bs, c.1 ≠ b.1 := fun c hc heq => hd.1 (List.mem_map.2 ⟨c, hc, heq⟩)
    rw [declareAll_cons, hb.declare]
    cases hu : ns.uri? b.1 with
    | none =>
      obtain ⟨ns', hns', hbindings⟩ := ih hd.2 fun c hc => (fits_bind (hother c hc)).2 (hbs c hc)
      refine ⟨ns', hns', ?_⟩
      have hkept : ∀ c ∈ bs, (ns.bind b.1 b.2).uri? c.1 = ns.uri? c.1 := fun c hc => by
        rw [uri?_bind, if_neg (hother c hc), Option.or_none]
      rw [hbindings, List.filter_congr fun c hc => by rw [hkept c hc], List.filter_cons, hu]
      simp [Namespaces.bind]
    | some u =>
      obtain ⟨ns', hns', hbindings⟩ := ih hd.2 hbs
      exact ⟨ns', hns', by rw [hbindings, List.filter_cons, hu]; rfl⟩

/-- The first binding that does not fit ends it. -/
theorem declareAll_of_not_fits {bs : List (String × String)} {ns : Namespaces}
    (hd : (bs.map (·.1)).Nodup) (h : ¬ ∀ b ∈ bs, Fits ns b) :
    ∃ e place, (declareAll places file ns (pairs bs)).2 = .error (.declaration e place) := by
  induction bs generalizing ns with
  | nil => simp at h
  | cons b bs ih =>
    rw [List.map_cons, List.nodup_cons] at hd
    rw [declareAll_cons]
    by_cases hb : Fits ns b
    · have hbs : ¬ ∀ c ∈ bs, Fits ns c := fun hbs => h (List.forall_mem_cons.2 ⟨hb, hbs⟩)
      rw [hb.declare]
      cases hu : ns.uri? b.1 with
      | none =>
        refine ih hd.2 fun hall => hbs fun c hc => ?_
        have hother : c.1 ≠ b.1 := fun heq => hd.1 (List.mem_map.2 ⟨c, hc, heq⟩)
        exact (fits_bind hother).1 (hall c hc)
      | some u => exact ih hd.2 hbs
    · obtain ⟨e, he⟩ := declare_of_not_fits hb
      rw [he]
      exact ⟨e, _, rfl⟩

/-! ## Data -/

theorem exists_pairs {es : List (Data × Data)} (h : ∀ e ∈ es, ∃ b : String × String,
    e = (.text b.1, .text b.2)) : ∃ bs, es = pairs bs := by
  induction es with
  | nil => exact ⟨[], rfl⟩
  | cons e es ih =>
    obtain ⟨⟨b, rfl⟩, hes⟩ := List.forall_mem_cons.1 h
    obtain ⟨bs, rfl⟩ := ih hes
    exact ⟨b :: bs, rfl⟩

theorem nodup_of_hasDistinctKeys {bs : List (String × String)}
    (h : (Data.map (pairs bs)).HasDistinctKeys) : (bs.map (·.1)).Nodup := by
  have hpairs : (pairs bs).Pairwise fun a b => a.1.equal b.1 = false := h
  rw [pairs, List.pairwise_map] at hpairs
  rw [List.nodup_iff_pairwise_ne, List.pairwise_map]
  exact hpairs.imp fun hab => by simpa [Data.equal_text] using hab

/-- A mapping whose keys are all one and the same has one entry at most. -/
theorem eq_singleton_of_keys {es : List (Data × Data)} {name : String} {v : Data}
    (hd : (Data.map es).HasDistinctKeys) (hk : ∀ e ∈ es, e.1 = .text name)
    (hv : (Data.map es).member? name = some v) : es = [(.text name, v)] := by
  cases es with
  | nil => simp [Data.member?, Data.lookup] at hv
  | cons e es =>
    obtain ⟨hek, hes⟩ := List.forall_mem_cons.1 hk
    cases es with
    | nil =>
      obtain ⟨k, w⟩ := e
      obtain rfl : k = .text name := hek
      simp [Data.member?, Data.lookup, Data.equal_text] at hv
      rw [hv]
    | cons f es =>
      have hne := (List.pairwise_cons.1 hd).1 f List.mem_cons_self
      rw [hek, hes f List.mem_cons_self, Data.equal_text, beq_self_eq_true] at hne
      simp at hne

section
open Schema

theorem isKnown_singleton {name : String} {k : Data} : isKnown [name] k = true ↔ k = .text name := by
  cases k <;> simp [isKnown]

/-- The rule for the bindings of a seed file. -/
def bindingsRule : Schema :=
  .all [.kind [.object], .keys (.all [text, .form prefixForm]), .others [] text]

theorem seedFile_eq : seedFile = .all [.kind [.object], .required ["namespaces"],
    .closed ["namespaces"], .members [("namespaces", bindingsRule)]] := rfl

theorem accepts_object {d : Data} : (kind [.object]).Accepts d ↔ ∃ es, d = .map es := by
  rw [accepts_kind]
  cases d <;> simp [DataKind.holds]

theorem accepts_text {d : Data} : text.Accepts d ↔ ∃ s, d = .text s := by
  rw [text, accepts_kind]
  cases d <;> simp [DataKind.holds]

theorem accepts_bindingsRule {v : Data} : bindingsRule.Accepts v ↔
    ∃ bs, v = .map (pairs bs) ∧ ∀ b ∈ bs, isPrefixForm b.1.toList = true := by
  rw [bindingsRule, accepts_all]
  simp only [List.Forall, accepts_object, accepts_keys, accepts_others,
    accepts_all, accepts_text, accepts_form, isKnown_nil, forall_const]
  constructor
  · rintro ⟨⟨es, rfl⟩, hkeys, hvalues⟩
    have hentry : ∀ e ∈ es, ∃ b : String × String, e = (.text b.1, .text b.2) := fun e he => by
      obtain ⟨p, hp⟩ := (hkeys es rfl e he).1
      obtain ⟨u, hu⟩ := hvalues es rfl e he
      exact ⟨(p, u), Prod.ext hp hu⟩
    obtain ⟨bs, rfl⟩ := exists_pairs hentry
    refine ⟨bs, rfl, fun b hb => ?_⟩
    exact (hkeys _ rfl _ (List.mem_map.2 ⟨b, hb, rfl⟩)).2 b.1 rfl
  · rintro ⟨bs, rfl, hforms⟩
    refine ⟨⟨_, rfl⟩, fun es hes e he => ?_, fun es hes e he => ?_⟩
    all_goals
      rw [← Data.map.inj hes] at he
      obtain ⟨b, hb, rfl⟩ := List.mem_map.1 he
    · exact ⟨⟨b.1, rfl⟩, fun s hs => Data.text.inj hs ▸ hforms b hb⟩
    · exact ⟨b.2, rfl⟩

/-- The values without an issue: those of bindings whose prefixes may have a line break behind them. -/
theorem accepts_seedFile {d : Data} (hd : d.HasDistinctKeys) :
    seedFile.Accepts d ↔ ∃ bs, d = ofBindings bs ∧ ∀ b ∈ bs, isPrefixForm b.1.toList = true := by
  rw [seedFile_eq, accepts_all]
  simp only [List.Forall, accepts_object, accepts_required,
    accepts_closed, accepts_members, List.forall_mem_singleton, accepts_bindingsRule]
  constructor
  · rintro ⟨⟨es, rfl⟩, hrequired, hclosed, hmembers⟩
    obtain ⟨v, hv⟩ := Option.isSome_iff_exists.1 (hrequired es rfl)
    have hkeys : ∀ e ∈ es, e.1 = .text "namespaces" := fun e he => isKnown_singleton.1 (hclosed es rfl e he)
    obtain ⟨bs, rfl, hforms⟩ := hmembers v hv
    exact ⟨bs, by rw [ofBindings, eq_singleton_of_keys hd hkeys hv], hforms⟩
  · rintro ⟨bs, rfl, hforms⟩
    have hmember := member?_ofBindings bs
    refine ⟨⟨_, rfl⟩, fun _ _ => by rw [hmember]; rfl, fun es hes e he => ?_, fun v hv => ?_⟩
    · rw [← Data.map.inj hes, List.mem_singleton] at he
      exact isKnown_singleton.2 (by rw [he])
    · exact ⟨bs, Option.some.inj (hv.symm.trans hmember), hforms⟩

end

/-- Whether a key of the value, or what it has under `namespaces`, or the value itself if it is no
mapping, holds an integer with too many digits. -/
def holdsLongNumber (d : Data) : Bool :=
  match d with
  | .map es => es.any (fun e => !e.1.isWritable) || (d.member? "namespaces").any fun v => !v.isWritable
  | _ => !d.isWritable

section
open Schema

theorem writes_object {d : Data} (h : ∀ es, d ≠ .map es) :
    (kind [.object]).Writes d ↔ d.isWritable = true := by
  rw [writes_kind, accepts_object]
  exact or_iff_right fun ⟨es, hes⟩ => h es hes

theorem writes_text {d : Data} : text.Writes d ↔ d.isWritable = true := by
  rw [text, writes_kind, ← text, accepts_text]
  refine or_iff_right_of_imp ?_
  rintro ⟨s, rfl⟩
  rfl

theorem writes_bindingsRule {v : Data} : bindingsRule.Writes v ↔ v.isWritable = true := by
  rw [bindingsRule, writes_all]
  by_cases hv : ∃ es, v = .map es
  · obtain ⟨es, rfl⟩ := hv
    have hobject : (kind [.object]).Writes (.map es) := (accepts_object.2 ⟨es, rfl⟩).writes
    simp only [List.Forall, writes_keys, writes_others, writes_all, writes_text, writes_form,
      Data.isWritable_map, and_true, hobject, true_and]
    constructor
    · rintro ⟨hkeys, hvalues⟩ e he
      exact ⟨hkeys e he, writes_text.1 fun i hi => (hvalues e he i hi).2⟩
    · intro h
      refine ⟨fun e he => (h e he).1, fun e he i hi => ⟨?_, writes_text.2 (h e he).2 i hi⟩⟩
      -- the steps to a value show its key
      have hkey := (h e he).1
      cases hk : e.1 <;> simp_all [PathStep.ofKey, PathStep.isWritable]
  · have hnone : ∀ es, v ≠ .map es := fun es hes => hv ⟨es, hes⟩
    have hkeys : (keys (.all [text, .form prefixForm])).Writes v :=
      (accepts_keys.2 fun es hes => absurd hes (hnone es)).writes
    have hothers : (others [] text).Writes v :=
      (accepts_others.2 fun es hes => absurd hes (hnone es)).writes
    simp only [List.Forall, writes_object hnone, hkeys, hothers, and_true]

theorem writes_seedFile {d : Data} : seedFile.Writes d ↔ holdsLongNumber d = false := by
  rw [seedFile_eq, writes_all]
  by_cases hd : ∃ es, d = .map es
  · obtain ⟨es, rfl⟩ := hd
    have hobject : (kind [.object]).Writes (.map es) := (accepts_object.2 ⟨es, rfl⟩).writes
    have hclosed : (closed ["namespaces"]).Writes (.map es) ↔ ∀ e ∈ es, e.1.isWritable = true := by
      rw [writes_closed]
      refine forall₂_congr fun e _ => ⟨fun h => ?_, fun h _ => h⟩
      by_cases hk : isKnown ["namespaces"] e.1 = true
      · rw [isKnown_singleton.1 hk]
        rfl
      · exact h (by simpa using hk)
    simp only [List.Forall, hobject, writes_required, hclosed, writes_members,
      List.forall_mem_singleton, writes_bindingsRule, true_and]
    cases hv : (Data.map es).member? "namespaces" <;> simp [holdsLongNumber, hv]
  · have hnone : ∀ es, d ≠ .map es := fun es hes => hd ⟨es, hes⟩
    have hclosed : (closed ["namespaces"]).Writes d :=
      (accepts_closed.2 fun es hes => absurd hes (hnone es)).writes
    have hmembers : (members [("namespaces", bindingsRule)]).Writes d := by
      rw [writes_members]
      cases d <;> simp_all [Data.member?]
    simp only [List.Forall, writes_object hnone, writes_required, hclosed, hmembers, and_true]
    cases d <;> simp_all [holdsLongNumber]

end

/-! ## Tables -/

/-- The data is that of some bindings, each of which a table can take. -/
def IsSeed (base : Namespaces) (d : Data) (bs : List (String × String)) : Prop :=
  d = ofBindings bs ∧ ∀ b ∈ bs, Fits base b

variable {base : Option Namespaces} {d : Data}

theorem all_check_isWritable_iff :
    (Schema.seedFile.check d).all (·.isWritable) = true ↔ holdsLongNumber d = false := by
  rw [List.all_eq_true, ← writes_seedFile]
  simp only [Schema.check, List.mem_mergeSort, Schema.Writes]

theorem table_of_accepts (ha : Schema.seedFile.Accepts d) :
    (table places file base d).2 = (declareAll places file (base.getD .builtin) (entries d)).2 := by
  unfold table
  rw [Schema.check_eq_nil_iff.2 ha]
  cases base <;> rfl

/-- Data with an issue gives no table. The fault is passed on as it is, if an issue would show a
number that cannot be shown. -/
theorem table_of_not_accepts (ha : ¬ Schema.seedFile.Accepts d) :
    ∃ f, (table places file base d).2 = .error f ∧ f.isPassedOn = holdsLongNumber d := by
  have hissues : (Schema.seedFile.check d).isEmpty = false := by
    simpa using mt Schema.check_eq_nil_iff.1 ha
  unfold table
  dsimp only
  split
  · rename_i h
    refine ⟨_, rfl, ?_⟩
    have hlong : ¬ holdsLongNumber d = false := mt all_check_isWritable_iff.2 (by simpa using h)
    rw [Bool.not_eq_false] at hlong
    exact hlong.symm
  · rename_i h
    have hshort := all_check_isWritable_iff.1 (by simpa using h)
    rw [hissues]
    exact ⟨_, rfl, hshort.symm⟩

theorem entries_ofBindings (bs : List (String × String)) : entries (ofBindings bs) = pairs bs := by
  rw [entries, member?_ofBindings]

theorem isPrefixForm_of_fits {ns : Namespaces} {b : String × String} (h : Fits ns b) :
    Schema.isPrefixForm b.1.toList = true := by
  by_cases hb : b.1 = ""
  · rw [hb]
    rfl
  · have htext := (h.wellFormed hb).1
    have hbreak : ∀ rest, b.1.toList.reverse ≠ '\n' :: rest := fun rest hrest => by
      have hmem : '\n' ∈ b.1.toList := List.mem_reverse.1 (hrest ▸ List.mem_cons_self)
      exact absurd (isPrefixPart_of_mem htext hmem) (by decide)
    unfold Schema.isPrefixForm
    dsimp only
    split
    · rename_i rest hrest
      exact absurd hrest (hbreak rest)
    · simp [htext]

theorem holdsLongNumber_ofBindings (bs : List (String × String)) :
    holdsLongNumber (ofBindings bs) = false := by
  have hshort : (Data.map (pairs bs)).isWritable = true := by
    rw [Data.isWritable_map]
    exact List.forall_mem_map.2 fun b _ => ⟨rfl, rfl⟩
  have hkey : Data.isWritable (.text "namespaces") = true := rfl
  have hmember := member?_ofBindings bs
  rw [ofBindings] at hmember ⊢
  simp [holdsLongNumber, hmember, hshort, hkey]

/-- **Which data makes a table.** Data with different keys makes a table of a given one just if it has
one key `namespaces`, and under it bindings of texts to texts that each fit the given table. The table
has the bindings of the given one as they were, and behind them the new ones in their order. All other
data is refused, with a fault that is passed on as it is just if the data holds a number that cannot
be shown where it is looked at. -/
theorem table_of_data (places : SourceMap) (file : Option FilePath) (base : Option Namespaces)
    (hd : d.HasDistinctKeys) (hv : ∀ v ∈ d.member? "namespaces", v.HasDistinctKeys) :
    (∀ bs, IsSeed (base.getD .builtin) d bs → ∃ ns, (table places file base d).2 = .ok ns ∧
      ns.bindings = (base.getD .builtin).bindings ++
        bs.filter fun b => ((base.getD .builtin).uri? b.1).isNone) ∧
    ((¬ ∃ bs, IsSeed (base.getD .builtin) d bs) → ∃ f, (table places file base d).2 = .error f ∧
      f.isPassedOn = holdsLongNumber d) := by
  constructor
  · rintro bs ⟨rfl, hfits⟩
    have ha : Schema.seedFile.Accepts (ofBindings bs) :=
      (accepts_seedFile hd).2 ⟨bs, rfl, fun b hb => isPrefixForm_of_fits (hfits b hb)⟩
    have hnodup := nodup_of_hasDistinctKeys (hv _ (member?_ofBindings bs))
    rw [table_of_accepts ha, entries_ofBindings]
    exact declareAll_of_fits hnodup hfits
  · intro hnot
    by_cases ha : Schema.seedFile.Accepts d
    · obtain ⟨bs, rfl, -⟩ := (accepts_seedFile hd).1 ha
      have hnodup := nodup_of_hasDistinctKeys (hv _ (member?_ofBindings bs))
      have hfits : ¬ ∀ b ∈ bs, Fits (base.getD .builtin) b := fun h => hnot ⟨bs, rfl, h⟩
      obtain ⟨e, place, hfault⟩ := declareAll_of_not_fits hnodup hfits
      rw [table_of_accepts ha, entries_ofBindings, hfault]
      exact ⟨_, rfl, (holdsLongNumber_ofBindings bs).symm⟩
    · exact table_of_not_accepts ha

/-- The least integer with too many digits. -/
def longNumber : Int := Nat.pow 10 Numeral.maxDigits

/-- Such an integer where the bindings should be. -/
theorem table_of_data_long :
    let d : Data := .map [(.text "namespaces", .int longNumber)]
    d.HasDistinctKeys ∧ (∀ v ∈ d.member? "namespaces", v.HasDistinctKeys) ∧
    (¬ ∃ bs, IsSeed .builtin d bs) ∧
    ∃ f, (table [] none none d).2 = .error f ∧ f.isPassedOn = true := by
  intro d
  have hmember : d.member? "namespaces" = some (.int longNumber) := by
    simp [d, Data.member?, Data.lookup, Data.equal_text]
  have hd : d.HasDistinctKeys := List.pairwise_singleton _ _
  have hv : ∀ v ∈ d.member? "namespaces", v.HasDistinctKeys := fun v hv => by
    obtain rfl := Option.some.inj (hmember.symm.trans hv)
    trivial
  have hnot : ¬ ∃ bs, IsSeed .builtin d bs := by
    rintro ⟨bs, hbs, -⟩
    simp [d, ofBindings] at hbs
  have hlong : holdsLongNumber d = true := by
    have hnumber : Numeral.isWritable longNumber = false := by
      rw [Numeral.isWritable, longNumber, Int.natAbs_natCast]
      exact decide_eq_false (Nat.lt_irrefl _)
    simp only [d] at hmember ⊢
    simp [holdsLongNumber, hmember, Data.isWritable, hnumber]
  obtain ⟨f, hf, hpassed⟩ := (table_of_data [] none none hd hv).2 hnot
  exact ⟨hd, hv, hnot, f, hf, hpassed.trans hlong⟩

end SeedFile

end Cnd
