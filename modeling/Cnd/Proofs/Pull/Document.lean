import Cnd.Proofs.Pull.Clauses

/-!
A parser that pulls its tokens comes to what a reading of the text comes to.

A clause of the outline is a round of the outermost loop (`goes_clauseRound`), with the bindings
and the reports that it brings. So a parser that has as many rounds as there are tokens in sight
comes to what the outline means (`comes_document`), and that of a text to what reading it comes to
(`parse_read`). It has asked for the tokens of the text one after the other, and for all of them if
it gets to the end.
-/

namespace Cnd.Pull

open Outline (looksAt)

section

variable {source : Option String} {policy : ConflictPolicy} {fault : Option ScanError}
  {ns : Namespaces} {ts : List Token}

/-! ## Outlines, clause by clause -/

theorem outline_binding (c : NamespaceClause) (o : Outline) :
    Elaboration.outline source policy fault ⟨.binding c :: o.clauses, o.ending⟩ ns =
      match ns.declare policy c.pfx c.uri with
      | .error e => ⟨[], .error (Elaboration.fault source c.opening (.declaration e))⟩
      | .ok (ns, change) =>
        let behind := Elaboration.outline source policy fault o ns
        ⟨change.events c.pfx c.uri ++ behind.events, behind.outcome⟩ := by
  unfold Elaboration.outline
  rw [Elaboration.clauses]
  rcases ns.declare policy c.pfx c.uri with e | ⟨ns, change⟩
  · rfl
  dsimp only
  rcases Elaboration.clauses source policy o.clauses ns with ⟨events, f | ⟨types, ns⟩⟩
  · rfl
  rcases o.ending with _ | ⟨_ | c', b⟩
  · rfl
  · rfl
  · dsimp only
    rcases Elaboration.nodeType source ns c' with f | t' <;> rfl

theorem outline_nodeType (c : TypeClause) (o : Outline) :
    Elaboration.outline source policy fault ⟨.nodeType c :: o.clauses, o.ending⟩ ns =
      match Elaboration.nodeType source ns c with
      | .error f => ⟨[], .error f⟩
      | .ok t =>
        let behind := Elaboration.outline source policy fault o ns
        ⟨Elaboration.typeEvent ns t :: behind.events,
          behind.outcome.map fun (ts, ns) => (t :: ts, ns)⟩ := by
  unfold Elaboration.outline
  rw [Elaboration.clauses]
  rcases Elaboration.nodeType source ns c with f | t
  · rfl
  dsimp only
  rcases Elaboration.clauses source policy o.clauses ns with ⟨events, f | ⟨types, ns⟩⟩
  · rfl
  rcases o.ending with _ | ⟨_ | c', b⟩
  · rfl
  · rfl
  · dsimp only [Except.map]
    rcases Elaboration.nodeType source ns c' with f | t' <;> rfl

/-- A node type that is cut short fails, because of what is read of it or at the break. -/
theorem fails_of_broken (source : Option String) (policy : ConflictPolicy)
    (fault : Option ScanError) (ns : Namespaces) (c : Option TypeClause) (b : Break) :
    ∃ f, settle? source fault (Elaboration.nodeType source ns) (c, .error b) = .error f ∧
      Elaboration.outline source policy fault ⟨[], .broken c b⟩ ns = ⟨[], .error f⟩ := by
  rcases c with _ | c
  · exact ⟨_, rfl, rfl⟩
  rcases hc : Elaboration.nodeType source ns c with f | type
  · exact ⟨f, by simp [settle?, hc], by simp [Elaboration.outline, Elaboration.clauses, hc]⟩
  · exact ⟨Elaboration.breakFailure source fault b, by simp [settle?, hc],
      by simp [Elaboration.outline, Elaboration.clauses, hc]⟩

/-! ## Clause by clause -/

theorem declare_of_error (source : Option String) {c : NamespaceClause} {s : Session}
    {e : NameError}
    (h : s.namespaces.declare policy c.pfx c.uri = .error e) :
    declare source policy c s =
      ⟨.error (.failed (Elaboration.fault source c.opening (.declaration e))), s, [], []⟩ := by
  rw [declare, namespaces_bind, h]
  rfl

theorem declare_of_ok (source : Option String) {c : NamespaceClause} {s : Session}
    {change : Namespaces.Change}
    (h : s.namespaces.declare policy c.pfx c.uri = .ok (ns, change)) :
    declare source policy c s =
      ⟨.ok (), { s with namespaces := ns }, [], change.events c.pfx c.uri⟩ := by
  rw [declare, namespaces_bind, h]
  rfl

/-- What an outline means behind some node types and reports. -/
def ahead (events : List Event) (types : List NodeType)
    (x : Elaboration.Result (List NodeType × Namespaces)) :
    Elaboration.Result (List NodeType × Namespaces) :=
  ⟨events ++ x.events, x.outcome.map fun found => (types ++ found.1, found.2)⟩

theorem ahead_nil (events : List Event) (x : Elaboration.Result (List NodeType × Namespaces)) :
    ahead events [] x = ⟨events ++ x.events, x.outcome⟩ := by
  rcases x with ⟨_, f | found⟩ <;> rfl

/-- How a round over a clause goes that begins with these tokens. It fails where the outline fails,
or it leaves the outline of the clauses behind. -/
inductive Goes (source : Option String) (policy : ConflictPolicy) (fault : Option ScanError)
    (ns : Namespaces) (ts : List Token) (types : List NodeType)
    (c : Course (List NodeType ⊕ List NodeType)) : Prop
  | fails {f : Failure} (hresult : c.result = .error (.failed f)) (hevents : c.events = [])
      (hanswers : c.answers <+: pending fault ts)
      (hmeans : Elaboration.outline source policy fault (.ofTokens ts) ns = ⟨[], .error f⟩)
  | on (new : List NodeType) {r : List Token} (hresult : c.result = .ok (.inl (types ++ new)))
      (hsees : Sees fault c.session r) (hsuffix : r <:+ ts) (hlt : r.length < ts.length)
      (hanswers : pending fault ts = c.answers ++ pending fault r)
      (hmeans : Elaboration.outline source policy fault (.ofTokens ts) ns =
        ahead c.events new
          (Elaboration.outline source policy fault (.ofTokens r) c.session.namespaces))

theorem goes_binding {s : Session} {types : List NodeType} (hs : Sees fault s ts)
    (hns : s.namespaces = ns) (hsymbol : looksAt '<' ts = true) :
    Goes source policy fault ns ts types
      ((binding source >>= fun c => declare source policy c >>= fun _ => pure (.inl types)) s) := by
  have hends : Ends fault ns ts (binding source s) _ := follows_binding hsymbol s hs hns
  obtain ⟨t, rest, rfl, ht⟩ := Outline.exists_of_looksAt hsymbol
  have hmeans := congrArg (Elaboration.outline source policy fault · ns)
    (Outline.ofTokens_cons t rest)
  rw [Outline.not_ending_of_isSymbol ht, ht] at hmeans
  rcases hbinding : Outline.binding (t :: rest) with b | ⟨c, r⟩ <;> rw [hbinding] at hends hmeans
  · obtain ⟨hresult, hevents, hanswers⟩ := hends
    rw [bind_of_error hresult]
    exact .fails rfl hevents hanswers hmeans
  obtain ⟨hresult, hsees, hns', hevents, hanswers⟩ := hends
  rw [bind_of_ok hresult, hevents]
  replace hmeans := hmeans.trans (outline_binding c (.ofTokens r))
  rcases hdeclare : ns.declare policy c.pfx c.uri with e | ⟨ns', change⟩ <;>
    rw [hdeclare] at hmeans <;> rw [← hns'] at hdeclare
  · have hdeclared := declare_of_error source hdeclare
    rw [bind_of_error (congrArg Course.result hdeclared), hdeclared]
    refine .fails rfl rfl ?_ hmeans
    rw [hanswers]
    exact ⟨pending fault r, by simp⟩
  · have hdeclared := declare_of_ok source hdeclare
    rw [bind_pure_of_ok (congrArg Course.result hdeclared), hdeclared]
    simp only [List.append_nil, List.nil_append]
    obtain ⟨read, hread, -⟩ := Outline.binding_sound hbinding
    refine .on [] (by rw [List.append_nil]) ⟨hsees.head, hsees.remaining⟩ ⟨read, hread.symm⟩
      (Outline.binding_shorter hbinding) hanswers ?_
    rw [hmeans, ahead_nil]

theorem goes_nodeType {n : Nat} {s : Session} {types : List NodeType} (hs : Sees fault s ts)
    (hns : s.namespaces = ns) (hn : ts.length ≤ n) (ht : s.token.isEnding = false)
    (hsymbol : s.token.isSymbol '<' = false) :
    Goes source policy fault ns ts types
      ((nodeType source n >>= fun type => namespaces >>= fun ns =>
        report [Elaboration.typeEvent ns type] >>= fun _ => pure (.inl (types ++ [type]))) s) := by
  have hends : Ends fault ns ts (nodeType source n s) _ := follows_nodeType hn s hs hns
  obtain ⟨rest, rfl⟩ := List.head?_eq_some_iff.1 hs.head
  have hmeans := congrArg (Elaboration.outline source policy fault · ns)
    (Outline.ofTokens_cons s.token rest)
  rw [ht, hsymbol] at hmeans
  rcases hread : Outline.nodeType (s.token :: rest) with ⟨c, b | r⟩ <;> rw [hread] at hends hmeans
  · obtain ⟨f, hsettle, houtline⟩ := fails_of_broken source policy fault ns c b
    rw [hsettle] at hends
    obtain ⟨hresult, hevents, hanswers⟩ := hends
    rw [bind_of_error hresult]
    exact .fails rfl hevents hanswers (hmeans.trans houtline)
  · obtain ⟨c, read, rfl, hread', -⟩ := Outline.nodeType_sound hread
    replace hmeans := hmeans.trans (outline_nodeType c (.ofTokens r))
    rw [settle?, settle_ok] at hends
    rcases hc : Elaboration.nodeType source ns c with f | type <;> rw [hc] at hends hmeans
    · obtain ⟨hresult, hevents, hanswers⟩ := hends
      rw [bind_of_error hresult]
      exact .fails rfl hevents hanswers hmeans
    · obtain ⟨hresult, hsees, hns', hevents, hanswers⟩ := hends
      rw [bind_of_ok hresult, hevents]
      refine .on [type] rfl ⟨hsees.head, hsees.remaining⟩ ⟨read, hread'.symm⟩
        (Outline.nodeType_shorter hread) (hanswers.trans ?_) ?_
      · exact congrArg (· ++ pending fault r) (List.append_nil _).symm
      · rw [hmeans]
        change _ = ahead [Elaboration.typeEvent (nodeType source n s).session.namespaces type] _
          (Elaboration.outline _ _ _ _ (nodeType source n s).session.namespaces)
        rw [hns']
        rfl

theorem goes_clauseRound {n : Nat} {s : Session} {types : List NodeType} (hs : Sees fault s ts)
    (hns : s.namespaces = ns) (hn : ts.length ≤ n) (ht : s.token.isEnding = false) :
    Goes source policy fault ns ts types (clauseRound source policy n types s) := by
  obtain ⟨rest, rfl⟩ := List.head?_eq_some_iff.1 hs.head
  rw [clauseRound, current_bind, ht]
  simp only [Bool.false_eq_true, if_false]
  cases hsymbol : s.token.isSymbol '<' with
  | true => exact goes_binding hs hns hsymbol
  | false => exact goes_nodeType hs hns hn ht hsymbol

/-! ## All clauses -/

/-- There is nothing behind an ending. -/
def Closed (fault : Option ScanError) (ts : List Token) : Prop :=
  ∀ front t rest, ts = front ++ t :: rest → t.isEnding = true → rest = [] ∧ fault = none

theorem Closed.of_suffix {r : List Token} (h : Closed fault ts) (hs : r <:+ ts) :
    Closed fault r := by
  obtain ⟨read, rfl⟩ := hs
  rintro front t rest rfl
  exact h (read ++ front) t rest (List.append_assoc read front (t :: rest)).symm

/-- A parser comes to what an outline means, behind the node types that it has already. Only if it
fails, answers may be left. -/
def Comes (fault : Option ScanError) (ts : List Token) (types : List NodeType)
    (x : Elaboration.Result (List NodeType × Namespaces)) (c : Course (List NodeType)) : Prop :=
  c.events = x.events ∧ match x.outcome with
    | .error f => c.result = .error (.failed f) ∧ c.answers <+: pending fault ts
    | .ok (more, ns) =>
      c.result = .ok (types ++ more) ∧ c.session.namespaces = ns ∧ c.answers = pending fault ts

theorem Comes.behind {r : List Token} {types new : List NodeType} {answers : List Answer}
    {events : List Event} {x : Elaboration.Result (List NodeType × Namespaces)}
    {c : Course (List NodeType)} (h : Comes fault r (types ++ new) x c)
    (hanswers : pending fault ts = answers ++ pending fault r) :
    Comes fault ts types (ahead events new x)
      ⟨c.result, c.session, answers ++ c.answers, events ++ c.events⟩ := by
  obtain ⟨hevents, houtcome⟩ := h
  refine ⟨congrArg (events ++ ·) hevents, ?_⟩
  rcases x with ⟨_, f | ⟨more, ns⟩⟩
  · obtain ⟨hresult, hprefix⟩ := houtcome
    refine ⟨hresult, ?_⟩
    rw [hanswers]
    exact (List.prefix_append_right_inj _).2 hprefix
  · obtain ⟨hresult, hns, hall⟩ := houtcome
    refine ⟨hresult.trans (by rw [List.append_assoc]), hns, ?_⟩
    rw [hanswers]
    exact congrArg _ hall

theorem comes_document {m : Nat} :
    ∀ {n : Nat} {ts : List Token} {s : Session} {types : List NodeType},
      Sees fault s ts → Closed fault ts → ts.length ≤ n → ts.length ≤ m →
        Comes fault ts types (Elaboration.outline source policy fault (.ofTokens ts) s.namespaces)
          (rounds (clauseRound source policy m) n types s) := by
  intro n
  induction n with
  | zero =>
    intro ts s types hs _ hn _
    have hhead := hs.head
    rw [List.eq_nil_of_length_eq_zero (Nat.le_zero.1 hn)] at hhead
    simp at hhead
  | succ n ih =>
    intro ts s types hs hclosed hn hm
    rw [rounds]
    cases ht : s.token.isEnding with
    | true =>
      obtain ⟨rest, rfl⟩ := List.head?_eq_some_iff.1 hs.head
      obtain ⟨rfl, rfl⟩ := hclosed [] s.token rest rfl ht
      have hround : clauseRound source policy m types s = ⟨.ok (.inr types), s, [], []⟩ := by
        rw [clauseRound, current_bind, ht]
        rfl
      rw [bind_of_ok (congrArg Course.result hround), hround, Outline.ofTokens_of_isEnding ht]
      exact ⟨rfl, by rw [List.append_nil]; rfl, rfl, rfl⟩
    | false =>
      have hgoes : Goes source policy fault s.namespaces ts types _ :=
        goes_clauseRound hs rfl hm ht
      cases hgoes with
      | fails hresult hevents hanswers hmeans =>
        rw [bind_of_error hresult, hmeans]
        exact ⟨hevents, rfl, hanswers⟩
      | on new hresult hsees hsuffix hlt hanswers hmeans =>
        rename_i r
        rw [bind_of_ok hresult, hmeans]
        have hrest : Comes fault r (types ++ new) _ _ :=
          ih hsees (hclosed.of_suffix hsuffix) (by omega) (by omega)
        exact hrest.behind hanswers

end

end Pull

/-! ## Texts -/

/-- What a lexer says up to the first ending or fault. -/
def Scanned.answers (x : Scanned) : List Answer := x.tokens.map .ok ++ x.fault.toList.map .error

namespace Pull

/-- What is not last is in front of the last one. -/
theorem eq_nil_or_mem_of_append {α : Type} {l front rest : List α} {last a : α}
    (h : l ++ [last] = front ++ a :: rest) : rest = [] ∨ a ∈ l := by
  rcases List.eq_nil_or_concat rest with rfl | ⟨rest, b, rfl⟩
  · exact .inl rfl
  · replace h : l ++ [last] = (front ++ a :: rest) ++ [b] := by simpa using h
    obtain rfl := List.append_inj_left' h rfl
    exact .inr (by simp)

theorem closed_scan (text : List Char) :
    Closed (Token.scan text).fault (Token.scan text).tokens := by
  obtain ⟨ts, -, hts, ⟨stop, hscan⟩ | ⟨e, hscan⟩⟩ := scan_cases text <;> rw [hscan] <;>
    intro front t rest heq ht
  · rcases eq_nil_or_mem_of_append heq with rfl | hmem
    · exact ⟨rfl, rfl⟩
    · simp [hts t hmem] at ht
  · obtain rfl : ts = front ++ t :: rest := heq
    simp [hts t (by simp)] at ht

theorem length_tokens_le (text : List Char) :
    (Token.scan text).tokens.length ≤ text.length + 1 := by
  obtain ⟨ts, hlength, -, ⟨stop, hscan⟩ | ⟨e, hscan⟩⟩ := scan_cases text <;> rw [hscan]
  · simpa using hlength
  · exact Nat.le_succ_of_le hlength

theorem parse_read (source : String) (policy : ConflictPolicy) (ns : Namespaces) {text : String}
    {n : Nat} (h : text.length < n) :
    (parse n source policy ns text).outcome =
        (Definitions.read source policy ns text).outcome.mapError .failed ∧
      (parse n source policy ns text).events = (Definitions.read source policy ns text).events ∧
      (parse n source policy ns text).answers <+: (Token.scan text.toList).answers ∧
      ((Definitions.read source policy ns text).outcome.isOk →
        (parse n source policy ns text).answers = (Token.scan text.toList).answers) := by
  have hscan := Lexer.remaining_start text.toList
  unfold parse
  rcases hnext : (Lexer.start text.toList).next with e | ⟨t, l⟩
  · have hread : Definitions.read source policy ns text =
        ⟨[], .error (Elaboration.breakFailure (some source) (some e) .scan)⟩ := by
      rw [Definitions.read, ← hscan, Lexer.remaining_of_error hnext, Outline.ofTokens]
      rfl
    rw [hread, ← hscan, Lexer.remaining_of_error hnext]
    exact ⟨rfl, rfl, List.prefix_refl _, by simp [Except.isOk, Except.toBool]⟩
  · have hsees := sees_of_next hnext ns
    rw [hscan] at hsees
    have hlength : (Token.scan text.toList).tokens.length ≤ n :=
      Nat.le_trans (length_tokens_le text.toList) (by rw [String.length_toList]; exact h)
    have hanswers : (Token.scan text.toList).answers =
        .ok t :: pending (Token.scan text.toList).fault (Token.scan text.toList).tokens := by
      obtain ⟨more, hmore⟩ := List.head?_eq_some_iff.1 hsees.head
      rw [Scanned.answers, hmore]
      rfl
    have hcomes : Comes _ _ [] _ (document (some source) policy n ⟨t, l, ns⟩) :=
      comes_document hsees (closed_scan text.toList) hlength hlength
    obtain ⟨hevents, houtcome⟩ := hcomes
    unfold Definitions.read
    dsimp only at hevents houtcome ⊢
    rcases hmeans : (Elaboration.outline (some source) policy (Token.scan text.toList).fault
      (.ofTokens (Token.scan text.toList).tokens) ns).outcome with f | ⟨types, ns'⟩ <;>
      rw [hmeans] at houtcome
    · obtain ⟨hresult, hprefix⟩ := houtcome
      rw [hresult, hanswers]
      exact ⟨rfl, hevents, List.cons_prefix_cons.2 ⟨rfl, hprefix⟩,
        by simp [Except.isOk, Except.toBool]⟩
    · obtain ⟨hresult, hns', hall⟩ := houtcome
      rw [hresult, hanswers, List.nil_append]
      dsimp only
      rw [hevents, hns', hall]
      exact ⟨rfl, rfl, List.prefix_refl _, fun _ => rfl⟩

end Pull

end Cnd
