import Cnd.Outline.Basic

/-!
Reading tokens as an outline.

A reader works on the tokens from the one looked at on. Taking a token means that the one behind it
is looked at, so the end of the tokens is a break as soon as it comes in sight; only the ending
itself is never taken. Each reader gives what it has read, and the tokens left or the break.
-/

namespace Cnd

namespace Outline

/-- The tokens left, or a break. -/
abbrev Left := Except Break (List Token)

/-- The tokens behind the one looked at. -/
def behind : List Token → Left
  | _ :: next :: rest => .ok (next :: rest)
  | _ => .error .scan

/-- Take a sign. -/
def expect (d : Delimiter) (ts : List Token) : Left :=
  match ts with
  | [] => .error .scan
  | t :: _ => if t.isSymbol d.symbol then behind ts else .error (.grammar (.delimiter d) t)

/-- The text looked at, which is not taken yet. -/
def lookText (e : Expected) (ts : List Token) : Except Break (Token × String) :=
  match ts with
  | [] => .error .scan
  | t :: _ => match t.text? with
    | some s => .ok (t, s)
    | none => .error (.grammar (.text e) t)

/-- Whether the token looked at is a sign. -/
def looksAt (c : Char) : List Token → Bool
  | t :: _ => t.isSymbol c
  | [] => false

/-- What a token spells in a table: a text does, and so do the two signs that are spellings. -/
def keyword? {α : Type} (table : List (String × α)) (t : Token) : Option α :=
  match t.lexeme with
  | .text s _ => table.lookup s
  | .symbol c => if c == '*' || c == '!' then table.lookup (String.singleton c) else none
  | .ending => none

/-! ## Lists -/

/-- Names with commas between them; the first name is looked at. -/
def names (e : Expected) : List Token → List Token × Left
  | [] => ([], .error .scan)
  | [t] => match t.text? with
    | some _ => ([t], .error .scan)
    | none => ([], .error (.grammar (.text e) t))
  | t :: comma :: rest => match t.text? with
    | none => ([], .error (.grammar (.text e) t))
    | some _ =>
      if comma.isSymbol ',' then
        let (ts, left) := names e rest
        (t :: ts, left)
      else ([t], .ok (comma :: rest))

/-- Texts with commas between them. All of them or none count. -/
def literals (e : Expected) : List Token → Except Break (List Token × List Token)
  | [] => .error .scan
  | [t] => match t.text? with
    | some _ => .error .scan
    | none => .error (.grammar (.text e) t)
  | t :: comma :: rest => match t.text? with
    | none => .error (.grammar (.text e) t)
    | some _ =>
      if comma.isSymbol ',' then
        match literals e rest with
        | .error b => .error b
        | .ok (ts, left) => .ok (t :: ts, left)
      else .ok ([t], comma :: rest)

/-- Literals behind a sign, if that sign is looked at. -/
def literalsAfter (c : Char) (e : Expected) (ts : List Token) :
    Except Break (List Token × List Token) :=
  match ts with
  | [] => .error .scan
  | t :: rest => if t.isSymbol c then literals e rest else .ok ([], ts)

/-- What a token says as a keyword behind an item; an action counts before an attribute. -/
def mark? (t : Token) : Option Mark :=
  match keyword? Keyword.versionActions t with
  | some v => some (.action v)
  | none => (keyword? Keyword.attributes t).map .attribute

/-- Keywords behind an item, up to the first token that is none. -/
def marks : List Token → List (Token × Mark) × Left
  | [] => ([], .error .scan)
  | t :: rest => match mark? t with
    | none => ([], .ok (t :: rest))
    | some m => match rest with
      | [] => ([(t, m)], .error .scan)
      | next :: more =>
        let (ms, left) := marks (next :: more)
        ((t, m) :: ms, left)

/-! ## Members -/

/-- The name of an item. -/
def itemName (e : Expected) (ts : List Token) : Option ItemName × Left :=
  if looksAt '*' ts then (some .wildcard, behind ts)
  else match lookText e ts with
    | .error b => (none, .error b)
    | .ok (t, _) => (some (.named t), behind ts)

/-- The type of a property in parentheses; texts if it is left out. -/
def propertyType (ts : List Token) : Except Break (PropertyType × List Token) :=
  if !looksAt '(' ts then .ok (.string, ts)
  else do
    let ts ← behind ts
    match ts with
    | [] => .error .scan
    | t :: _ => match keyword? Keyword.propertyTypes t with
      | none => .error (.grammar .propertyType t)
      | some type =>
        let ts ← behind ts
        let ts ← expect .propertyTypeClose ts
        .ok (type, ts)

/-- A property behind its sign. What stands before a break counts. -/
def property (ts : List Token) : Option PropertyClause × Left :=
  match itemName .propertyName ts with
  | (none, left) => (none, left)
  | (some name, .error b) => (some ⟨name, .string, [], [], []⟩, .error b)
  | (some name, .ok ts) => match propertyType ts with
    | .error b => (some ⟨name, .string, [], [], []⟩, .error b)
    | .ok (type, ts) => match literalsAfter '=' .defaultValue ts with
      | .error b => (some ⟨name, type, [], [], []⟩, .error b)
      | .ok (defaults, ts) => match marks ts with
        | (ms, .error b) => (some ⟨name, type, defaults, ms, []⟩, .error b)
        | (ms, .ok ts) => match literalsAfter '<' .constraint ts with
          | .error b => (some ⟨name, type, defaults, ms, []⟩, .error b)
          | .ok (constraints, ts) => (some ⟨name, type, defaults, ms, constraints⟩, .ok ts)

/-- The required types of a child node in parentheses, if there are any. -/
def requiredTypes (ts : List Token) : Option (List Token) × Left :=
  if !looksAt '(' ts then (none, .ok ts)
  else match behind ts with
    | .error b => (none, .error b)
    | .ok ts => match names .requiredType ts with
      | (types, .error b) => (some types, .error b)
      | (types, .ok ts) => (some types, expect .requiredTypesClose ts)

/-- The default type of a child node, if there is one. -/
def defaultType (ts : List Token) : Option Token × Left :=
  if !looksAt '=' ts then (none, .ok ts)
  else match behind ts with
    | .error b => (none, .error b)
    | .ok ts => match lookText .defaultType ts with
      | .error b => (none, .error b)
      | .ok (t, _) => (some t, behind ts)

/-- A child node behind its sign. What stands before a break counts. -/
def child (ts : List Token) : Option ChildClause × Left :=
  match itemName .childName ts with
  | (none, left) => (none, left)
  | (some name, .error b) => (some ⟨name, none, none, []⟩, .error b)
  | (some name, .ok ts) => match requiredTypes ts with
    | (required, .error b) => (some ⟨name, required, none, []⟩, .error b)
    | (required, .ok ts) => match defaultType ts with
      | (type, .error b) => (some ⟨name, required, type, []⟩, .error b)
      | (type, .ok ts) =>
        let (ms, left) := marks ts
        (some ⟨name, required, type, ms⟩, left)

/-- A member with its sign; nothing if no member begins here. -/
def member? : List Token → Option (Option MemberClause × Left)
  | t :: next :: rest =>
    if t.isSymbol '-' then
      let (c, left) := property (next :: rest)
      some (c.map .property, left)
    else if t.isSymbol '+' then
      let (c, left) := child (next :: rest)
      some (c.map .child, left)
    else none
  | [t] => if t.isSymbol '-' || t.isSymbol '+' then some (none, .error .scan) else none
  | [] => none

/-! ## What is left is shorter -/

theorem behind_shorter {ts r : List Token} (h : behind ts = .ok r) : r.length < ts.length := by
  unfold behind at h
  split at h
  · simp only [Except.ok.injEq] at h; rw [← h]; simp
  · simp at h

theorem expect_shorter {d : Delimiter} {ts r : List Token} (h : expect d ts = .ok r) :
    r.length < ts.length := by
  unfold expect at h
  split at h
  · simp at h
  · split at h
    · exact behind_shorter h
    · simp at h

theorem names_shorter {e : Expected} {ts ns r : List Token} (h : names e ts = (ns, .ok r)) :
    r.length < ts.length := by
  fun_induction names e ts generalizing ns with
  | case1 => simp at h
  | case2 => simp at h
  | case3 => simp at h
  | case4 => simp at h
  | case5 t comma rest s _ hc ts left heq ih =>
    simp only [Prod.mk.injEq] at h
    have := ih (by rw [heq, h.2])
    simp only [List.length_cons]; omega
  | case6 t comma rest s _ hc =>
    simp only [Prod.mk.injEq, Except.ok.injEq] at h
    rw [← h.2]; simp

theorem literals_shorter {e : Expected} {ts ls r : List Token} (h : literals e ts = .ok (ls, r)) :
    r.length < ts.length := by
  fun_induction literals e ts generalizing ls with
  | case1 => simp at h
  | case2 => simp at h
  | case3 => simp at h
  | case4 => simp at h
  | case5 => simp at h
  | case6 t comma rest s _ hc ts left heq ih =>
    simp only [Except.ok.injEq, Prod.mk.injEq] at h
    have := ih (by rw [heq, h.2])
    simp only [List.length_cons]; omega
  | case7 t comma rest s _ hc =>
    simp only [Prod.mk.injEq, Except.ok.injEq] at h
    rw [← h.2]; simp

theorem literalsAfter_shorter {c : Char} {e : Expected} {ts ls r : List Token}
    (h : literalsAfter c e ts = .ok (ls, r)) : r.length ≤ ts.length := by
  unfold literalsAfter at h
  split at h
  · simp at h
  · split at h
    · have := literals_shorter h
      simp only [List.length_cons]; omega
    · simp only [Except.ok.injEq, Prod.mk.injEq] at h
      exact Nat.le_of_eq (congrArg List.length h.2.symm)

theorem marks_shorter {ts r : List Token} {ms : List (Token × Mark)} (h : marks ts = (ms, .ok r)) :
    r.length ≤ ts.length := by
  fun_induction marks ts generalizing ms with
  | case1 => simp at h
  | case2 t rest _ =>
    simp only [Prod.mk.injEq, Except.ok.injEq] at h
    exact Nat.le_of_eq (congrArg List.length h.2.symm)
  | case3 => simp at h
  | case4 t m _ next more ms' left heq ih =>
    simp only [Prod.mk.injEq] at h
    have := ih (by rw [heq, h.2])
    simp only [List.length_cons] at this ⊢; omega

theorem itemName_shorter {e : Expected} {ts r : List Token} {n : Option ItemName}
    (h : itemName e ts = (n, .ok r)) : r.length < ts.length := by
  unfold itemName at h
  split at h
  · simp only [Prod.mk.injEq] at h; exact behind_shorter h.2
  · split at h
    · simp at h
    · simp only [Prod.mk.injEq] at h; exact behind_shorter h.2

theorem propertyType_shorter {ts r : List Token} {type : PropertyType}
    (h : propertyType ts = .ok (type, r)) : r.length ≤ ts.length := by
  unfold propertyType at h
  split at h
  · simp only [Except.ok.injEq, Prod.mk.injEq] at h; exact Nat.le_of_eq (congrArg List.length h.2.symm)
  · cases h1 : behind ts with
    | error b => simp [h1, bind, Except.bind] at h
    | ok ts1 =>
      have l1 := behind_shorter h1
      simp only [h1, bind, Except.bind] at h
      split at h
      · simp at h
      · split at h
        · simp at h
        · rename_i t more _ type' _
          cases h2 : behind (t :: more) with
          | error b => simp [h2] at h
          | ok ts2 =>
            have l2 := behind_shorter h2
            simp only [h2] at h
            cases h3 : expect .propertyTypeClose ts2 with
            | error b => simp [h3] at h
            | ok ts3 =>
              have l3 := expect_shorter h3
              simp only [h3, Except.ok.injEq, Prod.mk.injEq] at h
              rw [← h.2]; omega

theorem property_shorter {ts r : List Token} {c : Option PropertyClause}
    (h : property ts = (c, .ok r)) : r.length < ts.length := by
  unfold property at h
  split at h
  · rename_i heq
    simp only [Prod.mk.injEq] at h
    rw [h.2] at heq
    exact itemName_shorter heq
  · simp at h
  · rename_i h1
    have l1 := itemName_shorter h1
    split at h
    · simp at h
    · rename_i h2
      have l2 := propertyType_shorter h2
      split at h
      · simp at h
      · rename_i h3
        have l3 := literalsAfter_shorter h3
        split at h
        · simp at h
        · rename_i h4
          have l4 := marks_shorter h4
          split at h
          · simp at h
          · rename_i h5
            have l5 := literalsAfter_shorter h5
            simp only [Prod.mk.injEq, Except.ok.injEq] at h
            rw [← h.2]; omega

theorem requiredTypes_shorter {ts r : List Token} {types : Option (List Token)}
    (h : requiredTypes ts = (types, .ok r)) : r.length ≤ ts.length := by
  unfold requiredTypes at h
  split at h
  · simp only [Prod.mk.injEq, Except.ok.injEq] at h; exact Nat.le_of_eq (congrArg List.length h.2.symm)
  · split at h
    · simp at h
    · rename_i h1
      have l1 := behind_shorter h1
      split at h
      · simp at h
      · rename_i h2
        have l2 := names_shorter h2
        simp only [Prod.mk.injEq] at h
        have l3 := expect_shorter h.2
        omega

theorem defaultType_shorter {ts r : List Token} {t : Option Token}
    (h : defaultType ts = (t, .ok r)) : r.length ≤ ts.length := by
  unfold defaultType at h
  split at h
  · simp only [Prod.mk.injEq, Except.ok.injEq] at h; exact Nat.le_of_eq (congrArg List.length h.2.symm)
  · split at h
    · simp at h
    · rename_i h1
      have l1 := behind_shorter h1
      split at h
      · simp at h
      · simp only [Prod.mk.injEq] at h
        have l2 := behind_shorter h.2
        omega

theorem child_shorter {ts r : List Token} {c : Option ChildClause}
    (h : child ts = (c, .ok r)) : r.length < ts.length := by
  unfold child at h
  split at h
  · rename_i heq
    simp only [Prod.mk.injEq] at h
    rw [h.2] at heq
    exact itemName_shorter heq
  · simp at h
  · rename_i h1
    have l1 := itemName_shorter h1
    split at h
    · simp at h
    · rename_i h2
      have l2 := requiredTypes_shorter h2
      split at h
      · simp at h
      · rename_i h3
        have l3 := defaultType_shorter h3
        simp only [Prod.mk.injEq] at h
        have l4 := marks_shorter (Prod.ext rfl h.2)
        omega

theorem member?_shorter {ts r : List Token} {c : Option MemberClause}
    (h : member? ts = some (c, .ok r)) : r.length < ts.length := by
  unfold member? at h
  split at h
  · split at h
    · simp only [Option.some.injEq, Prod.mk.injEq] at h
      have := property_shorter (Prod.ext rfl h.2)
      simp only [List.length_cons] at this ⊢; omega
    · split at h
      · simp only [Option.some.injEq, Prod.mk.injEq] at h
        have := child_shorter (Prod.ext rfl h.2)
        simp only [List.length_cons] at this ⊢; omega
      · simp at h
  · split at h <;> simp at h
  · simp at h

/-! ## Node types -/

/-- The members of a node type. What stands before a break counts. -/
def members (ts : List Token) : List MemberClause × Left :=
  match _h : member? ts with
  | none => ([], .ok ts)
  | some (c, .error b) => (c.toList, .error b)
  | some (c, .ok rest) =>
    let (ms, left) := members rest
    (c.toList ++ ms, left)
termination_by ts.length
decreasing_by exact member?_shorter (by assumption)

theorem members_shorter {ts r : List Token} {ms : List MemberClause}
    (h : members ts = (ms, .ok r)) : r.length ≤ ts.length := by
  fun_induction members ts generalizing ms with
  | case1 =>
    simp only [Prod.mk.injEq, Except.ok.injEq] at h; exact Nat.le_of_eq (congrArg List.length h.2.symm)
  | case2 => simp at h
  | case3 ts c rest hm ms' left heq ih =>
    simp only [Prod.mk.injEq] at h
    have l1 := member?_shorter hm
    have l2 := ih (by rw [heq, h.2])
    omega

/-- The supertypes behind their sign, if there are any. -/
def supertypes (ts : List Token) : List Token × Left :=
  if !looksAt '>' ts then ([], .ok ts)
  else match behind ts with
    | .error b => ([], .error b)
    | .ok ts => names .supertypeName ts

/-- The options: at most one of each, in either order. -/
def options (ts : List Token) : Bool × Bool × Left :=
  match ts with
  | [] => (false, false, .error .scan)
  | t :: _ => match keyword? Keyword.options t with
    | none => (false, false, .ok ts)
    | some first =>
      let orderable := first == .orderable
      match behind ts with
      | .error b => (orderable, !orderable, .error b)
      | .ok [] => (orderable, !orderable, .error .scan)
      | .ok (u :: more) => match keyword? Keyword.options u with
        | some second =>
          if second == first then (orderable, !orderable, .ok (u :: more))
          else (true, true, behind (u :: more))
        | none => (orderable, !orderable, .ok (u :: more))

/-- A node type. What stands before a break counts, once its name is read. -/
def nodeType (ts : List Token) : Option TypeClause × Left :=
  match expect .typeOpen ts with
  | .error b => (none, .error b)
  | .ok ts => match lookText .typeName ts with
    | .error b => (none, .error b)
    | .ok (name, _) => match behind ts with
      | .error b => (some ⟨name, [], false, false, []⟩, .error b)
      | .ok ts => match expect .typeClose ts with
        | .error b => (some ⟨name, [], false, false, []⟩, .error b)
        | .ok ts => match supertypes ts with
          | (supers, .error b) => (some ⟨name, supers, false, false, []⟩, .error b)
          | (supers, .ok ts) => match options ts with
            | (o, m, .error b) => (some ⟨name, supers, o, m, []⟩, .error b)
            | (o, m, .ok ts) =>
              let (ms, left) := members ts
              (some ⟨name, supers, o, m, ms⟩, left)

/-- A binding, from its opening sign. -/
def binding (ts : List Token) : Except Break (NamespaceClause × List Token) :=
  match ts with
  | [] => .error .scan
  | opening :: _ => do
    let ts ← behind ts
    let (_, pfx) ← lookText .bindingPrefix ts
    let ts ← behind ts
    let ts ← expect .bindingEquals ts
    let (_, uri) ← lookText .bindingUri ts
    let ts ← behind ts
    let ts ← expect .bindingClose ts
    .ok (⟨opening, pfx, uri⟩, ts)

theorem supertypes_shorter {ts r ns : List Token} (h : supertypes ts = (ns, .ok r)) :
    r.length ≤ ts.length := by
  unfold supertypes at h
  split at h
  · simp only [Prod.mk.injEq, Except.ok.injEq] at h; exact Nat.le_of_eq (congrArg List.length h.2.symm)
  · split at h
    · simp at h
    · rename_i h1
      have l1 := behind_shorter h1
      have l2 := names_shorter h
      omega

theorem options_shorter {ts r : List Token} {o m : Bool} (h : options ts = (o, m, .ok r)) :
    r.length ≤ ts.length := by
  unfold options at h
  split at h
  · simp at h
  · split at h
    · simp only [Prod.mk.injEq, Except.ok.injEq] at h
      exact Nat.le_of_eq (congrArg List.length h.2.2.symm)
    · split at h
      · simp at h
      · simp at h
      · rename_i h1
        have l1 := behind_shorter h1
        split at h
        · split at h
          · simp only [Prod.mk.injEq, Except.ok.injEq] at h
            rw [← h.2.2]; omega
          · simp only [Prod.mk.injEq] at h
            have l2 := behind_shorter h.2.2
            omega
        · simp only [Prod.mk.injEq, Except.ok.injEq] at h
          rw [← h.2.2]; omega

theorem nodeType_shorter {ts r : List Token} {c : Option TypeClause}
    (h : nodeType ts = (c, .ok r)) : r.length < ts.length := by
  unfold nodeType at h
  split at h
  · simp at h
  · rename_i h1
    have l1 := expect_shorter h1
    split at h
    · simp at h
    · split at h
      · simp at h
      · rename_i h2
        have l2 := behind_shorter h2
        split at h
        · simp at h
        · rename_i h3
          have l3 := expect_shorter h3
          split at h
          · simp at h
          · rename_i h4
            have l4 := supertypes_shorter h4
            split at h
            · simp at h
            · rename_i h5
              have l5 := options_shorter h5
              simp only [Prod.mk.injEq] at h
              have l6 := members_shorter (Prod.ext rfl h.2)
              omega

theorem binding_shorter {ts r : List Token} {c : NamespaceClause}
    (h : binding ts = .ok (c, r)) : r.length < ts.length := by
  unfold binding at h
  split at h
  · simp at h
  · rename_i opening more
    cases h1 : behind (opening :: more) with
    | error b => simp [h1, bind, Except.bind] at h
    | ok t1 =>
    have l1 := behind_shorter h1
    cases h2 : lookText .bindingPrefix t1 with
    | error b => simp [h1, h2, bind, Except.bind] at h
    | ok p =>
    cases h3 : behind t1 with
    | error b => simp [h1, h2, h3, bind, Except.bind] at h
    | ok t3 =>
    have l3 := behind_shorter h3
    cases h4 : expect .bindingEquals t3 with
    | error b => simp [h1, h2, h3, h4, bind, Except.bind] at h
    | ok t4 =>
    have l4 := expect_shorter h4
    cases h5 : lookText .bindingUri t4 with
    | error b => simp [h1, h2, h3, h4, h5, bind, Except.bind] at h
    | ok u =>
    cases h6 : behind t4 with
    | error b => simp [h1, h2, h3, h4, h5, h6, bind, Except.bind] at h
    | ok t6 =>
    have l6 := behind_shorter h6
    cases h7 : expect .bindingClose t6 with
    | error b => simp [h1, h2, h3, h4, h5, h6, h7, bind, Except.bind] at h
    | ok t7 =>
    have l7 := expect_shorter h7
    simp only [h1, h2, h3, h4, h5, h6, h7, bind, Except.bind, Except.ok.injEq, Prod.mk.injEq] at h
    rw [← h.2]; omega

end Outline

/-! ## The whole -/

/-- The outline of the tokens of a text. -/
def Outline.ofTokens (ts : List Token) : Outline :=
  match ts with
  | [] => ⟨[], .broken none .scan⟩
  | t :: rest =>
    if t.isEnding then ⟨[], .complete⟩
    else if t.isSymbol '<' then
      match _h : Outline.binding (t :: rest) with
      | .error b => ⟨[], .broken none b⟩
      | .ok (c, left) =>
        let o := Outline.ofTokens left
        ⟨.binding c :: o.clauses, o.ending⟩
    else
      match _h : Outline.nodeType (t :: rest) with
      | (c, .error b) => ⟨[], .broken c b⟩
      | (none, .ok _) => ⟨[], .broken none .scan⟩
      | (some c, .ok left) =>
        let o := Outline.ofTokens left
        ⟨.nodeType c :: o.clauses, o.ending⟩
termination_by ts.length
decreasing_by
  · exact Outline.binding_shorter (by assumption)
  · exact Outline.nodeType_shorter (by assumption)

end Cnd
