import Cnd.Proofs.Outline.Complete

/-!
The marks of an item, wherever it stands in a text.

`Head` is an item up to its marks, as far as that goes, and `UpTo` a text up to the marks of one of
its items. The marks are taken up to the first token that is none, and what is made of the tokens
behind them does not depend on them (`ofTokens_upTo`).
-/

namespace Cnd

/-- A member with other marks and constraints; child nodes have no constraints. -/
def MemberClause.marked (ms : List (Token × Mark)) (ks : List Token) : MemberClause → MemberClause
  | .property c => .property { c with marks := ms, constraints := ks }
  | .child c => .child { c with marks := ms }

/-- A node type with more members behind its own. -/
def TypeClause.extend (c : TypeClause) (ms : List MemberClause) : TypeClause :=
  { c with members := c.members ++ ms }

namespace Grammar

open Outline (looksAt)

/-- A member up to its marks. The tokens behind it do not go on with it. -/
inductive Head (rest : List Token) : List Token → MemberClause → Prop where
  | property {sign : Token} {n y d : List Token} {name : ItemName} {type : PropertyType}
      {defaults : List Token} (hs : sign.isSymbol '-') (hn : Named n name) (hy : Typed y type)
      (hd : TextsAfter '=' d defaults) (hne : rest ≠ [])
      (htype : y = [] → looksAt '(' (d ++ rest) = false)
      (hequals : defaults = [] → looksAt '=' rest = false)
      (hcomma : defaults ≠ [] → looksAt ',' rest = false) :
      Head rest (sign :: (n ++ (y ++ d))) (.property ⟨name, type, defaults, [], []⟩)
  | child {sign : Token} {n q d : List Token} {name : ItemName} {required : Option (List Token)}
      {type : Option Token} (hs : sign.isSymbol '+') (hn : Named n name) (hq : Required q required)
      (hd : DefaultType d type) (hne : rest ≠ [])
      (hrequired : required = none → looksAt '(' (d ++ rest) = false)
      (hequals : type = none → looksAt '=' rest = false) :
      Head rest (sign :: (n ++ (q ++ d))) (.child ⟨name, required, type, []⟩)

/-- A text up to the marks of one of its items: the clauses in front of the node type of that item,
this node type with the members in front of it, and the item. -/
inductive UpTo (rest : List Token) :
    List Token → List Clause → TypeClause → MemberClause → Prop where
  | mk {d t h : List Token} {before : List Clause} {c : TypeClause} {item : MemberClause}
      (hd : Document d before) (ht : NodeType t c) (hh : Head rest h item) :
      UpTo rest (d ++ (t ++ h)) before c item

theorem Head.member {rest h : List Token} {item : MemberClause} (hh : Head rest h item) :
    Member h item := by
  cases hh with
  | property hs hn hy hd _ _ _ _ =>
    exact .property hs (by simpa using Property.mk hn hy hd .none .none)
  | child hs hn hq hd _ _ _ =>
    exact .child hs (by simpa using Child.mk hn hq hd .none)

/-- A mark ends what is in front of it. -/
theorem Head.of_marked {rest h s r : List Token} {item : MemberClause} {ms : List (Token × Mark)}
    (hh : Head rest h item) (hs : Marked s ms) (hne : s ≠ []) : Head (s ++ r) h item := by
  have hsigns : ∀ d, d ≠ '*' ∧ d ≠ '!' → looksAt d (s ++ r) = false := by
    intro d hd
    cases hs with
    | none => exact absurd rfl hne
    | more ht _ => exact Outline.isSymbol_of_spells ht hd
  have hsr : s ++ r ≠ [] := by simp [hne]
  cases hh with
  | property hsign hn hy hd _ _ _ _ =>
    exact .property hsign hn hy hd hsr
      (fun _ => Outline.looksAt_textsAfter hd (by decide) (hsigns _ (by decide)))
      (fun _ => hsigns _ (by decide)) (fun _ => hsigns _ (by decide))
  | child hsign hn hq hd _ _ _ =>
    exact .child hsign hn hq hd hsr
      (fun _ => Outline.looksAt_default hd (by decide) (hsigns _ (by decide)))
      (fun _ => hsigns _ (by decide))

/-- Other marks may stand behind an item, if there are some where there were some. -/
theorem Head.replace {h s s' r : List Token} {item : MemberClause} {ms : List (Token × Mark)}
    (hh : Head (s ++ r) h item) (hs : Marked s' ms) (hempty : s' = [] → s = []) :
    Head (s' ++ r) h item := by
  by_cases hne : s' = []
  · rw [hempty hne] at hh
    rwa [hne]
  · exact hh.of_marked hs hne

theorem UpTo.replace {front s s' r : List Token} {before : List Clause} {c : TypeClause}
    {item : MemberClause} {ms : List (Token × Mark)} (h : UpTo (s ++ r) front before c item)
    (hs : Marked s' ms) (hempty : s' = [] → s = []) : UpTo (s' ++ r) front before c item := by
  obtain ⟨hd, ht, hh⟩ := h
  exact .mk hd ht (hh.replace hs hempty)

end Grammar

namespace Outline

open Grammar

/-! ## Reading an item -/

/-- The constraints behind the marks of a member, and what is left. -/
def behindMarks (item : MemberClause) (r : List Token) : List Token × Left :=
  match item with
  | .property _ => constraintsBehind r
  | .child _ => ([], inSight r)

/-- An item is read with its marks, and what is behind them as it is behind others. -/
theorem member_marked {h s r : List Token} {item : MemberClause} {ms : List (Token × Mark)}
    (hh : Head (s ++ r) h item) (hs : Marked s ms) (hr : r.head?.bind mark? = none) :
    member? (h ++ (s ++ r)) =
      some (some (item.marked ms (behindMarks item r).1), (behindMarks item r).2) := by
  cases hh with
  | @property sign n y d name type defaults hsign hn hy hd hne htype hequals hcomma =>
    have hread := property_marked hn hy hd hs hr hne htype hequals hcomma
    obtain ⟨t, more, rfl⟩ := List.exists_cons_of_ne_nil (named_ne_nil hn)
    simp only [List.cons_append, List.append_assoc] at hread ⊢
    simp [member?, hsign, hread, MemberClause.marked, behindMarks]
  | @child sign n q d name required type hsign hn hq hd hne hrequired hequals =>
    have hread := child_marked hn hq hd hs hr hne hrequired hequals
    obtain ⟨t, more, rfl⟩ := List.exists_cons_of_ne_nil (named_ne_nil hn)
    simp only [List.cons_append, List.append_assoc] at hread ⊢
    simp [member?, hsign, isSymbol_of_isSymbol hsign (show '+' ≠ '-' by decide), hread,
      MemberClause.marked, behindMarks]

/-! ## Reading what is around it -/

/-- **The marks of an item change nothing around it.** What is in front of the marks is read as it
is derived, the marks are taken up to the first token that is none, and what is behind them is read
in the same way whatever they are. -/
theorem ofTokens_upTo {front s r : List Token} {before : List Clause} {c : TypeClause}
    {item : MemberClause} {ms : List (Token × Mark)} (h : UpTo (s ++ r) front before c item)
    (hs : Marked s ms) (hr : r.head?.bind mark? = none) :
    Outline.ofTokens (front ++ (s ++ r)) =
      around before (c.extend (item.marked ms (behindMarks item r).1 ::
        (membersFrom (behindMarks item r).2).1))
        ((membersFrom (behindMarks item r).2).2.map Outline.ofTokens) := by
  obtain @⟨d, t, h, before, c, item, hd, ht, hh⟩ := h
  have hmembers := members_of_member (member_marked hh hs hr)
  obtain ⟨hstops, hangle⟩ := stops_member (r := s ++ r) hh.member
  have hends : EndsAt c (h ++ (s ++ r)) :=
    ⟨fun _ => hstops, fun m _ => hstops.separates fun _ => hangle⟩
  have hopens := nodeType_cons ht (h ++ (s ++ r))
  have hnode := nodeType_append ht hends
  rw [hmembers] at hnode
  rw [List.append_assoc, List.append_assoc, ofTokens_append hd (.inr (.inl hopens))
    fun _ => looksAt_of_looksAt hopens (by decide), ofTokens_of_nodeType hopens hnode]
  cases (membersFrom (behindMarks item r).2).2 with
  | error b => simp [around, TypeClause.extend, Except.map]
  | ok rest => rfl

/-- Marks at the end of a text end the node type and the text. -/
theorem ofTokens_upTo_ending {front s : List Token} {stop : Token} {before : List Clause}
    {c : TypeClause} {item : MemberClause} {ms : List (Token × Mark)}
    (h : UpTo (s ++ [stop]) front before c item) (hs : Marked s ms)
    (hstop : stop.isEnding = true) :
    Outline.ofTokens (front ++ (s ++ [stop])) =
      ⟨before ++ [.nodeType (c.extend [item.marked ms []])], .complete⟩ := by
  have hbehind : behindMarks item [stop] = ([], .ok [stop]) := by
    have hangle : stop.isSymbol '<' = false := by
      simp only [Token.isEnding, beq_iff_eq] at hstop
      simp [Token.isSymbol, hstop]
    cases item with
    | property c => simp [behindMarks, constraintsBehind, literalsAfter, hangle]
    | child c => rfl
  have hbegins : Begins [stop] := .inr (.inr ⟨stop, [], rfl, hstop⟩)
  rw [ofTokens_upTo h hs hbegins.stops.mark, hbehind, membersFrom, hbegins.members, Except.map,
    ofTokens_of_isEnding hstop]
  rfl

end Outline

end Cnd
