import Cnd.Proofs.Elaboration.Marks
import Cnd.Proofs.Reading.Join
import Cnd.Proofs.Reading.Location
import Cnd.Proofs.Reading.Requote

/-!
The marks of an item in a text that is read.

All of them are taken, up to the first token that is none. They make up the attributes of the item,
a set with a last action, unless they mark a second primary item: that is the error of the text, at
the first mark that does so. Marks that say the same are read alike (`readWith_marks`).
-/

namespace Cnd

theorem Outline.begun_around (before : List Clause) (c : TypeClause) (o : Except Break Outline) :
    ∃ behind, (around before c o).begun = before ++ .nodeType c :: behind := by
  cases o with
  | error b => exact ⟨[], rfl⟩
  | ok o =>
    obtain ⟨cs, _ | ⟨_ | d, b⟩⟩ := o
    · exact ⟨cs, rfl⟩
    · exact ⟨cs, rfl⟩
    · exact ⟨cs ++ [.nodeType d], by simp [around, begun]⟩

namespace Meaning

theorem IsNodeType.unique {ns : Namespaces} {c : TypeClause} {t t' : NodeType}
    (h : IsNodeType ns c t) (h' : IsNodeType ns c t') : t = t' :=
  Except.ok.inj (((nodeType_eq_ok none).2 h).symm.trans ((nodeType_eq_ok none).2 h'))

/-- What clauses in front of others mean comes first. -/
theorem Means.of_append {policy : ConflictPolicy} {ns ns' last : Namespaces} {cs ds : List Clause}
    {ts us : List NodeType} (h : Means policy ns cs ts ns')
    (hall : Means policy ns (cs ++ ds) us last) :
    ∃ us', us = ts ++ us' ∧ Means policy ns' ds us' last := by
  induction h generalizing us with
  | none => exact ⟨us, rfl, hall⟩
  | binding hd _ ih =>
    obtain _ | ⟨hd', hr⟩ | _ := hall
    obtain ⟨rfl, -⟩ := Prod.mk.inj (Except.ok.inj (hd.symm.trans hd'))
    exact ih hr
  | @nodeType ns _ c t _ _ hn _ ih =>
    obtain _ | _ | ⟨hn', hr⟩ := hall
    obtain rfl := hn.unique hn'
    obtain ⟨us', rfl, hm⟩ := ih hr
    exact ⟨us', rfl, hm⟩

/-- What is in front of the marks of an item means something: the clauses in front of its node type,
the node type with the members in front of it, and the item. -/
structure MeansUpTo (policy : ConflictPolicy) (ns : Namespaces) (before : List Clause)
    (c : TypeClause) (item : MemberClause) (ts : List NodeType) (ns' : Namespaces) (t : NodeType)
    (i : ItemDefinition) : Prop where
  clauses : Means policy ns before ts ns'
  nodeType : IsNodeType ns' c t
  item : IsItem ns' t.name item i

section

variable {source : Option String} {ns : Namespaces} {c : TypeClause} {item : MemberClause}
  {t : NodeType} {i : ItemDefinition} {ms : List (Token × Mark)}

/-- A node type up to an item, this item, and the members behind it. -/
theorem nodeType_marked (source : Option String) (ht : IsNodeType ns c t)
    (hi : IsItem ns t.name item i) (ms : List (Token × Mark)) (ks : List Token)
    (more : List MemberClause) :
    Elaboration.nodeType source ns (c.extend (item.marked ms ks :: more)) =
      Elaboration.marks source (ns.render t.name) i.name ms {} t.primaryItem >>= fun marked =>
        Elaboration.constraints source ns ks item >>= fun cs =>
          Elaboration.members source ns t.name more
            (Elaboration.Members.add ⟨t.properties, t.children, t.primaryItem⟩ marked.2
              (i.complete marked.1 cs)) >>= fun m =>
            pure { t with
              primaryItem := m.primary, properties := m.properties, children := m.children } := by
  rw [Elaboration.nodeType_extend ((nodeType_eq_ok source).2 ht), ← List.singleton_append,
    Elaboration.members_append, Elaboration.members_marked hi]
  simp only [bind_assoc, pure_bind]

theorem nodeType_marked_error {f : Failure} (ht : IsNodeType ns c t)
    (hi : IsItem ns t.name item i) (ks : List Token) (more : List MemberClause)
    (h : Elaboration.marks source (ns.render t.name) i.name ms {} t.primaryItem = .error f) :
    Elaboration.nodeType source ns (c.extend (item.marked ms ks :: more)) = .error f := by
  rw [nodeType_marked source ht hi, h]
  rfl

/-- The item comes next, with the attributes of its marks. -/
theorem goesOnWith_of_nodeType {a : ItemAttributes} {q : Option Name} {t' : NodeType}
    {ks : List Token} {more : List MemberClause} (ht : IsNodeType ns c t)
    (hi : IsItem ns t.name item i)
    (h : Elaboration.marks source (ns.render t.name) i.name ms {} t.primaryItem = .ok (a, q))
    (ht' : IsNodeType ns (c.extend (item.marked ms ks :: more)) t') :
    ∃ cs, t.GoesOnWith (i.complete a cs) t' := by
  have ht' := (nodeType_eq_ok source).2 ht'
  rw [nodeType_marked source ht hi, h] at ht'
  obtain ⟨_, ha, ht'⟩ := bind_eq_ok.1 ht'
  obtain rfl := Except.ok.inj ha
  obtain ⟨cs, -, ht'⟩ := bind_eq_ok.1 ht'
  obtain ⟨m, hm, ht'⟩ := bind_eq_ok.1 ht'
  obtain rfl := Except.ok.inj ht'
  obtain ⟨hps, hcs⟩ := Elaboration.members_prefix hm
  refine ⟨cs, ?_⟩
  cases i with
  | property p => exact hps
  | child d => exact hcs

theorem isNodeType_add {a : ItemAttributes} {q : Option Name} (ht : IsNodeType ns c t)
    (hi : IsItem ns t.name item i)
    (h : Elaboration.marks source (ns.render t.name) i.name ms {} t.primaryItem = .ok (a, q)) :
    IsNodeType ns (c.extend [item.marked ms []]) (t.add q (i.complete a [])) := by
  have hnone : Elaboration.constraints source ns [] item = .ok [] := by cases item <;> rfl
  rw [← nodeType_eq_ok source, nodeType_marked source ht hi, h]
  change (Elaboration.constraints source ns [] item >>= _) = _
  rw [hnone]
  cases i <;> rfl

end

end Meaning

namespace Definitions

open Meaning (Clashes MeansUpTo errorAt primaryMarks taken)

/-- Where marks stand in a text: behind clauses, a node type up to an item, and that item, and in
front of a token that is no mark. -/
structure MarksAt (text : String) (front s r : List Token) (ms : List (Token × Mark))
    (before : List Clause) (c : TypeClause) (item : MemberClause) : Prop where
  tokens : (Token.scan text.toList).tokens = front ++ (s ++ r)
  upTo : Grammar.UpTo (s ++ r) front before c item
  marked : Grammar.Marked s ms
  stops : r.head?.bind Outline.mark? = none

/-- A text with other marks in one place, and other quotes and blanks anywhere. -/
structure Replaced (text text' : String) (front r s' : List Token) : Prop where
  tokens : (Token.scan text'.toList).tokens.map Token.bare =
    (front ++ (s' ++ r)).map Token.bare
  fault : (Token.scan text'.toList).fault.map (·.fault) =
    (Token.scan text.toList).fault.map (·.fault)

section

variable {source : String} {policy : ConflictPolicy} {text : String}
  {front s r : List Token} {ms : List (Token × Mark)} {before : List Clause} {c : TypeClause}
  {item : MemberClause}

theorem MarksAt.ofTokens (h : MarksAt text front s r ms before c item) :
    Outline.ofTokens (Token.scan text.toList).tokens =
      Outline.around before (c.extend (item.marked ms (Outline.behindMarks item r).1 ::
        (Outline.membersFrom (Outline.behindMarks item r).2).1))
        ((Outline.membersFrom (Outline.behindMarks item r).2).2.map Outline.ofTokens) := by
  rw [h.tokens, Outline.ofTokens_upTo h.upTo h.marked h.stops]

/-- Marks that are no marks of a second primary item make up the next item of a reading. -/
theorem MarksAt.goesOnWith (h : MarksAt text front s r ms before c item)
    {seed : Option Namespaces} {ts : List NodeType} {ns' : Namespaces} {t : NodeType}
    {i : ItemDefinition} (hm : MeansUpTo policy (seed.getD .builtin) before c item ts ns' t i)
    {a : ItemAttributes} {q : Option Name}
    (ha : Elaboration.marks (some source) (ns'.render t.name) i.name ms {} t.primaryItem =
      .ok (a, q)) {d : Definitions} (hd : (readWith source policy seed text).outcome = .ok d) :
    ∃ cs t' us, d.types = ts ++ t' :: us ∧ t.GoesOnWith (i.complete a cs) t' := by
  rw [outcome_readWith, read_eq_ok_iff_outline, h.ofTokens, Meaning.outline_eq_ok] at hd
  obtain ⟨hending, hmeans⟩ := hd
  revert hending hmeans
  generalize (Outline.membersFrom (Outline.behindMarks item r).2).2.map Outline.ofTokens = o
  cases o with
  | error b => simp [Outline.around]
  | ok o =>
    intro _ hmeans
    obtain ⟨us, hus, hrest⟩ := hm.clauses.of_append hmeans
    obtain _ | _ | ⟨hn, -⟩ := hrest
    obtain ⟨cs, hcs⟩ := Meaning.goesOnWith_of_nodeType hm.nodeType hm.item ha hn
    exact ⟨cs, _, _, hus, hcs⟩

/-- A text that ends behind marks is read up to there. -/
theorem MarksAt.readWith_ending {stop : Token} (h : MarksAt text front s [stop] ms before c item)
    (hstop : stop.isEnding = true) {seed : Option Namespaces} {ts : List NodeType}
    {ns' : Namespaces} {t : NodeType} {i : ItemDefinition}
    (hm : MeansUpTo policy (seed.getD .builtin) before c item ts ns' t i) {a : ItemAttributes}
    {q : Option Name}
    (ha : Elaboration.marks (some source) (ns'.render t.name) i.name ms {} t.primaryItem =
      .ok (a, q)) :
    (readWith source policy seed text).outcome =
      .ok ⟨ts ++ [t.add q (i.complete a [])], ns'⟩ := by
  rw [outcome_readWith, read_eq_ok_iff_outline, h.tokens,
    Outline.ofTokens_upTo_ending h.upTo h.marked hstop, Meaning.outline_eq_ok]
  exact ⟨rfl, Meaning.means_append hm.clauses
    (.nodeType (Meaning.isNodeType_add hm.nodeType hm.item ha) .none)⟩

/-- The mark of a second primary item is the error of the text, whatever is behind it. -/
theorem MarksAt.readWith_error (h : MarksAt text front s r ms before c item)
    {seed : Option Namespaces} {ts : List NodeType} {ns' : Namespaces} {t : NodeType}
    {i : ItemDefinition} (hm : MeansUpTo policy (seed.getD .builtin) before c item ts ns' t i)
    {f : Failure}
    (hf : Elaboration.marks (some source) (ns'.render t.name) i.name ms {} t.primaryItem =
      .error f) : (readWith source policy seed text).outcome = .error f := by
  have houtline : (Elaboration.outline (some source) policy (Token.scan text.toList).fault
      (.ofTokens (Token.scan text.toList).tokens) (seed.getD .builtin)).outcome = .error f := by
    rw [h.ofTokens]
    refine Meaning.outline_of_failsAt ?_
    obtain ⟨behind, hbegun⟩ := Outline.begun_around before _ _
    exact ⟨before, _, behind, ts, ns', hbegun, hm.clauses,
      .nodeType (Meaning.nodeType_marked_error hm.nodeType hm.item _ _ hf)⟩
  rw [outcome_readWith, read]
  simp only [houtline]

theorem MarksAt.readWith_replaced (h : MarksAt text front s r ms before c item)
    {s' : List Token} {ms' : List (Token × Mark)} {text' : String} (hs : Grammar.Marked s' ms')
    (ht : Replaced text text' front r s') (hms : Mark.Restates (ms.map (·.2)) (ms'.map (·.2)))
    (seed : Option Namespaces) :
    (readWith source policy seed text').Alike (readWith source policy seed text) := by
  have hempty : s' = [] → s = [] := by
    rintro rfl
    cases hs
    have hnil : ms = [] := by simpa using hms.nil_iff
    have hmarked := h.marked
    rw [hnil] at hmarked
    cases hmarked
    rfl
  refine readWith_congr (fun ns => read_congr ?_) seed
  refine (Elaboration.outline_congr_bare (some source) policy _ ht.tokens ns).trans ?_
  rw [h.ofTokens, Outline.ofTokens_upTo (h.upTo.replace hs hempty) hs h.stops]
  exact Elaboration.outline_around ht.fault (Elaboration.sameClause_restated hms c item _ _) _ _ ns

end

/-- **Marks are a set with a last action.** All marks of an item are taken, up to the first token
that is none. If they mark a second primary item, that is the error of the text, at the first mark of
a primary item that is met where there is one already. Otherwise they make up the attributes of the
item, and the text is read on. Marks that say the same in their place are read alike. -/
theorem readWith_marks (source : String) {policy : ConflictPolicy} (seed : Option Namespaces)
    {text : String} {front s r : List Token} {ms : List (Token × Mark)} {before : List Clause}
    {c : TypeClause} {item : MemberClause} {ts : List NodeType} {ns' : Namespaces} {t : NodeType}
    {i : ItemDefinition} (h : MarksAt text front s r ms before c item)
    (hm : MeansUpTo policy (seed.getD .builtin) before c item ts ns' t i) :
    (Outline.marks (s ++ r) = (ms, Outline.inSight r) ∧
      ∃ ks more behind, (outlineOf text).begun =
        before ++ .nodeType (c.extend (item.marked ms ks :: more)) :: behind) ∧
    (Clashes ms t.primaryItem →
      ∃ first tok rest, ms = first ++ (tok, .attribute .isPrimary) :: rest ∧
        primaryMarks first + taken t.primaryItem = 1 ∧
        (readWith source policy seed text).outcome =
          .error (.parse (errorAt (some source) tok (.secondPrimary (ns'.render t.name))))) ∧
    (¬ Clashes ms t.primaryItem →
      ∃ a q, a.AreOf (ms.map (·.2)) ∧
        Elaboration.marks (some source) (ns'.render t.name) i.name ms {} t.primaryItem =
          .ok (a, q) ∧
        (∀ d, (readWith source policy seed text).outcome = .ok d →
          ∃ cs t' us, d.types = ts ++ t' :: us ∧ t.GoesOnWith (i.complete a cs) t') ∧
        ∀ stop, r = [stop] → stop.isEnding = true →
          (readWith source policy seed text).outcome =
            .ok ⟨ts ++ [t.add q (i.complete a [])], ns'⟩) ∧
    ∀ s' ms' text', Grammar.Marked s' ms' → Replaced text text' front r s' →
      Mark.Restates (ms.map (·.2)) (ms'.map (·.2)) →
      (readWith source policy seed text').Alike (readWith source policy seed text) := by
  refine ⟨⟨Outline.marks_of_marked h.marked h.stops, ?_⟩, fun hc => ?_, fun hc => ?_, ?_⟩
  · obtain ⟨behind, hbegun⟩ := Outline.begun_around before _ _
    rw [outlineOf, h.ofTokens]
    exact ⟨_, _, behind, hbegun⟩
  · obtain ⟨first, tok, rest, hms, hone, hf⟩ :=
      Meaning.marks_of_clashes (some source) (ns'.render t.name) i.name hc
    exact ⟨first, tok, rest, hms, hone, h.readWith_error hm hf⟩
  · obtain ⟨a, q, hof, ha⟩ :=
      Meaning.marks_of_not_clashes (some source) (ns'.render t.name) i.name hc
    refine ⟨a, q, hof, ha, fun d hd => h.goesOnWith hm ha hd, ?_⟩
    rintro stop rfl hstop
    exact h.readWith_ending hstop hm ha
  · intro s' ms' text' hs ht hms
    exact h.readWith_replaced hs ht hms seed

/-- Words and signs on the first line of a text. -/
def wordAt (column : Nat) (s : String) : Token := ⟨.text s false, ⟨1, column⟩⟩

def signAt (column : Nat) (c : Char) : Token := ⟨.symbol c, ⟨1, column⟩⟩

/-- The node type of `[a]` without members. -/
def bareClause : TypeClause := ⟨wordAt 2 "a", [], false, false, []⟩

def bareType : NodeType := ⟨⟨"", "a"⟩, [], false, false, none, [], []⟩

/-- The property of `- b`. -/
def bareItem : MemberClause := .property ⟨.named (wordAt 7 "b"), .string, [], [], []⟩

def bareProperty : PropertyDefinition := ⟨⟨"", "b"⟩, ⟨"", "a"⟩, .string, [], [], {}⟩

theorem meansUpTo_bare :
    MeansUpTo .error .builtin [] bareClause bareItem [] .builtin bareType
      (.property bareProperty) where
  clauses := .none
  nodeType := (Meaning.nodeType_eq_ok none).1 rfl
  item := ⟨rfl, rfl, rfl, .nil, .nil, rfl⟩

/-- The tokens of `[a] - b`. -/
def bareFront : List Token :=
  [signAt 1 '[', wordAt 2 "a", signAt 3 ']', signAt 5 '-', wordAt 7 "b"]

theorem marksAt_bare {text : String} {s r : List Token} {ms : List (Token × Mark)}
    (ht : (Token.scan text.toList).tokens = bareFront ++ (s ++ r))
    (hs : Grammar.Marked s ms) (hne : s ≠ []) (hr : r.head?.bind Outline.mark? = none) :
    MarksAt text bareFront s r ms [] bareClause bareItem := by
  refine ⟨ht, ?_, hs, hr⟩
  have hhead : Grammar.Head [signAt 1 ','] [signAt 5 '-', wordAt 7 "b"] bareItem :=
    .property (n := [wordAt 7 "b"]) (y := []) (d := []) rfl (.named rfl) .none .none (by simp)
      (fun _ => rfl) (fun _ => rfl) (fun h => absurd rfl h)
  exact .mk (d := []) (t := [signAt 1 '[', wordAt 2 "a", signAt 3 ']']) .none
    (.mk rfl rfl rfl .none .none .none) (hhead.of_marked hs hne)

theorem tokens_markedOnce : (Token.scan "[a] - b m ! VERSION".toList).tokens =
    bareFront ++ ([wordAt 9 "m", signAt 11 '!', wordAt 13 "VERSION"] ++ [⟨.ending, ⟨1, 20⟩⟩]) := by
  cbv

theorem tokens_primaryTwice : (Token.scan "[a] - b ! pri".toList).tokens =
    bareFront ++ ([signAt 9 '!', wordAt 11 "pri"] ++ [⟨.ending, ⟨1, 14⟩⟩]) := by
  cbv

theorem replaced_markedTwice : Replaced "[a] - b m ! VERSION" "[a] - b 'm' VERSION ! m" bareFront
    [⟨.ending, ⟨1, 20⟩⟩] [wordAt 9 "m", wordAt 11 "VERSION", signAt 13 '!', wordAt 15 "m"] where
  tokens := by cbv
  fault := by cbv

/-- An attribute is said twice and the action stands elsewhere: the property is the same. A property
that is the primary item cannot be marked as that again. -/
theorem readWith_marks_said_twice :
    let front := [signAt 1 '[', wordAt 2 "a", signAt 3 ']', signAt 5 '-', wordAt 7 "b"]
    let ms := [(wordAt 9 "m", Mark.attribute .isMandatory), (signAt 11 '!', .attribute .isPrimary),
      (wordAt 13 "VERSION", .action .version)]
    let twice := [(signAt 9 '!', Mark.attribute .isPrimary),
      (wordAt 11 "pri", .attribute .isPrimary)]
    let reading := fun text => readWith "" .error none text
    (MarksAt "[a] - b m ! VERSION" front (ms.map (·.1)) [⟨.ending, ⟨1, 20⟩⟩] ms [] bareClause
        bareItem ∧
      MarksAt "[a] - b ! pri" front (twice.map (·.1)) [⟨.ending, ⟨1, 14⟩⟩] twice [] bareClause
        bareItem ∧
      MeansUpTo .error .builtin [] bareClause bareItem [] .builtin bareType
        (.property bareProperty)) ∧
    (reading "[a] - b m ! VERSION").outcome =
      .ok ⟨[{ bareType with
        primaryItem := some ⟨"", "b"⟩
        properties := [{ bareProperty with
          attributes := { mandatory := true, primary := true, onParentVersion := .version } }] }],
        .builtin⟩ ∧
    (reading "[a] - b 'm' VERSION ! m").Alike (reading "[a] - b m ! VERSION") ∧
    (reading "[a] - b ! pri").outcome =
      .error (.parse (errorAt (some "") (wordAt 11 "pri") (.secondPrimary "a"))) := by
  intro front ms twice reading
  have hat : MarksAt "[a] - b m ! VERSION" front (ms.map (·.1)) [⟨.ending, ⟨1, 20⟩⟩] ms []
      bareClause bareItem :=
    marksAt_bare tokens_markedOnce (.more rfl (.more rfl (.more rfl .none))) (by simp [ms]) rfl
  have htwice : MarksAt "[a] - b ! pri" front (twice.map (·.1)) [⟨.ending, ⟨1, 14⟩⟩] twice []
      bareClause bareItem :=
    marksAt_bare tokens_primaryTwice (.more rfl (.more rfl .none)) (by simp [twice]) rfl
  refine ⟨⟨hat, htwice, meansUpTo_bare⟩, ?_, ?_, ?_⟩
  · obtain ⟨-, -, hone, -⟩ := readWith_marks "" none hat meansUpTo_bare
    obtain ⟨a, q, -, ha, -, hend⟩ := hone fun hc => Meaning.clashes_iff.1 hc (by decide)
    obtain ⟨rfl, rfl⟩ := Prod.mk.inj (Except.ok.inj (ha.symm.trans rfl))
    exact hend _ rfl rfl
  · obtain ⟨-, -, -, halike⟩ := readWith_marks "" none hat meansUpTo_bare
    have hs : Grammar.Marked [wordAt 9 "m", wordAt 11 "VERSION", signAt 13 '!', wordAt 15 "m"]
        [(wordAt 9 "m", .attribute .isMandatory), (wordAt 11 "VERSION", .action .version),
          (signAt 13 '!', .attribute .isPrimary), (wordAt 15 "m", .attribute .isMandatory)] :=
      .more rfl (.more rfl (.more rfl (.more rfl .none)))
    refine halike _ _ _ hs replaced_markedTwice ?_
    refine (@Mark.Restates.repeated [] _ _ (by decide)).trans (.permuted (by decide) fun v hv => ?_)
    rw [Mark.lastAction_iff] at hv ⊢
    exact hv
  · obtain ⟨-, hclash, -, -⟩ := readWith_marks "" none htwice meansUpTo_bare
    obtain ⟨first, tok, rest, hms, hone, herror⟩ := hclash (.inl (by decide))
    rcases first with _ | ⟨x, _ | ⟨y, first⟩⟩
    · simp [taken, bareType] at hone
    · obtain ⟨-, rfl, -⟩ := by simpa [twice] using hms.symm
      exact herror
    · simp [twice] at hms

end Definitions

end Cnd
