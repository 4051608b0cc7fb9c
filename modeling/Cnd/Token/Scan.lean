import Cnd.Text.Alphanumeric
import Cnd.Text.Blank
import Cnd.Text.Quoted
import Cnd.Token.Basic

/-!
Scanning a definition text into tokens.

Blanks and comments only separate. Then comes a sign, a word (a run of letters, numbers, colons and
underscores), or a text in single quotes in which a backslash takes the next character as it is,
or as the control character that three letters stand for. `Token.scan` gives the tokens up to the
end or up to the first fault; `next_shorter` says that each one takes part of the text.
-/

namespace Cnd

/-- What is wrong with a text. -/
inductive ScanFault where
  | openComment
  | openQuote
  | illegal (c : Char)
  deriving DecidableEq, Repr

def ScanFault.message : ScanFault → String
  | .openComment => "Unterminated comment"
  | .openQuote => "Unterminated quoted string"
  | .illegal c => "Unexpected character " ++ Text.quoted (String.singleton c)

/-- A fault and where it begins. -/
structure ScanError where
  fault : ScanFault
  position : Position
  deriving DecidableEq, Repr

namespace Scan

/-! ## Separators -/

/-- Between tokens, in a comment to the end of the line, or in one that began at a position. -/
inductive Gap where
  | open
  | line
  | block (start : Position)

/-- The text from the next token on, and its position. -/
def skip : Gap → Position → List Char → Except ScanError (Position × List Char)
  | .open, p, [] => .ok (p, [])
  | .open, p, '/' :: '/' :: rest => skip .line ((p.after '/').after '/') rest
  | .open, p, '/' :: '*' :: rest => skip (.block p) ((p.after '/').after '*') rest
  | .open, p, c :: rest =>
    if Text.isBlank c then skip .open (p.after c) rest else .ok (p, c :: rest)
  | .line, p, [] => .ok (p, [])
  | .line, p, c :: rest => skip (if c == '\n' then .open else .line) (p.after c) rest
  | .block start, _, [] => .error ⟨.openComment, start⟩
  | .block _, p, '*' :: '/' :: rest => skip .open ((p.after '*').after '/') rest
  | .block start, p, c :: rest => skip (.block start) (p.after c) rest

theorem skip_shorter {g : Gap} {p p' : Position} {s r : List Char}
    (h : skip g p s = .ok (p', r)) : r.length ≤ s.length := by
  fun_induction skip g p s with
  | case1 => simp_all
  | case2 p rest ih => have := ih h; simp only [List.length_cons]; omega
  | case3 p rest ih => have := ih h; simp only [List.length_cons]; omega
  | case4 p c rest _ _ hb ih => have := ih h; simp only [List.length_cons]; omega
  | case5 p c rest _ _ hb =>
    simp only [Except.ok.injEq, Prod.mk.injEq] at h
    exact Nat.le_of_eq (congrArg List.length h.2.symm)
  | case6 => simp_all
  | case7 p c rest ih => have := ih h; simp only [List.length_cons]; omega
  | case8 => simp at h
  | case9 p rest _ ih => have := ih h; simp only [List.length_cons]; omega
  | case10 p c rest _ _ ih => have := ih h; simp only [List.length_cons]; omega

/-! ## Tokens -/

/-- The signs. -/
def symbols : List Char := ['<', '>', '=', '[', ']', '-', '+', '(', ')', ',', '*', '!']

/-- A character of a word. -/
def isWordChar (c : Char) : Bool := Text.isAlphanumeric c || c == ':' || c == '_'

/-- The character that stands for itself or a control character behind a backslash. -/
def unescape : Char → Char
  | 'n' => '\n'
  | 't' => '\t'
  | 'r' => '\r'
  | c => c

/-- The content of a quoted text behind its opening quote, with what follows the closing quote. -/
def quotedBody : Position → List Char → Option (List Char × Position × List Char)
  | _, [] => none
  | p, '\'' :: rest => some ([], p.after '\'', rest)
  | _, ['\\'] => none
  | p, '\\' :: c :: rest =>
    (quotedBody ((p.after '\\').after c) rest).map fun (body, q) => (unescape c :: body, q)
  | p, c :: rest => (quotedBody (p.after c) rest).map fun (body, q) => (c :: body, q)

theorem quotedBody_shorter {p q : Position} {s body r : List Char}
    (h : quotedBody p s = some (body, q, r)) : r.length ≤ s.length := by
  fun_induction quotedBody p s generalizing body with
  | case1 => simp at h
  | case2 p rest =>
    simp only [Option.some.injEq, Prod.mk.injEq] at h
    rw [← h.2.2]; simp
  | case3 => simp at h
  | case4 p c rest ih =>
    obtain ⟨⟨b, q', r'⟩, hb, he⟩ := Option.map_eq_some_iff.1 h
    simp only [Prod.mk.injEq] at he
    obtain ⟨-, rfl, rfl⟩ := he
    have := ih hb
    simp only [List.length_cons]; omega
  | case5 p c rest _ _ _ ih =>
    obtain ⟨⟨b, q', r'⟩, hb, he⟩ := Option.map_eq_some_iff.1 h
    simp only [Prod.mk.injEq] at he
    obtain ⟨-, rfl, rfl⟩ := he
    have := ih hb
    simp only [List.length_cons]; omega

/-- The token that a text begins with, and what follows it. The text has no separator in front. -/
def token (p : Position) : List Char → Except ScanError (Option (Token × Position × List Char))
  | [] => .ok none
  | c :: rest =>
    if symbols.contains c then .ok (some (⟨.symbol c, p⟩, p.after c, rest))
    else if c == '\'' then
      match quotedBody (p.after c) rest with
      | none => .error ⟨.openQuote, p⟩
      | some (body, q, r) => .ok (some (⟨.text (String.ofList body) true, p⟩, q, r))
    else if isWordChar c then
      let word := c :: rest.takeWhile isWordChar
      .ok (some (⟨.text (String.ofList word) false, p⟩, p.afterAll word, rest.dropWhile isWordChar))
    else .error ⟨.illegal c, p⟩

theorem token_shorter {p q : Position} {s r : List Char} {t : Token}
    (h : token p s = .ok (some (t, q, r))) : r.length < s.length := by
  cases s with
  | nil => simp [token] at h
  | cons c rest =>
    simp only [token] at h
    split at h
    · simp only [Except.ok.injEq, Option.some.injEq, Prod.mk.injEq] at h
      rw [← h.2.2]; simp
    · split at h
      · split at h
        · simp at h
        · rename_i heq
          simp only [Except.ok.injEq, Option.some.injEq, Prod.mk.injEq] at h
          have := quotedBody_shorter heq
          rw [← h.2.2]; simp only [List.length_cons]; omega
      · split at h
        · simp only [Except.ok.injEq, Option.some.injEq, Prod.mk.injEq] at h
          have := (List.dropWhile_sublist (l := rest) isWordChar).length_le
          rw [← h.2.2]; simp only [List.length_cons]; omega
        · simp at h

/-- The next token of a text, past any separators; at the end of the text, the position there. -/
def next (p : Position) (s : List Char) :
    Except ScanError (Position ⊕ Token × Position × List Char) :=
  match skip .open p s with
  | .error e => .error e
  | .ok (p, r) => match token p r with
    | .error e => .error e
    | .ok none => .ok (.inl p)
    | .ok (some found) => .ok (.inr found)

theorem next_shorter {p q : Position} {s r : List Char} {t : Token}
    (h : next p s = .ok (.inr (t, q, r))) : r.length < s.length := by
  simp only [next] at h
  split at h
  · simp at h
  · rename_i hs
    split at h
    · simp at h
    · simp at h
    · rename_i ht
      simp only [Except.ok.injEq, Sum.inr.injEq] at h
      subst h
      exact Nat.lt_of_lt_of_le (token_shorter ht) (skip_shorter hs)

/-- The tokens of a text and where it ends, or the tokens before the first fault and that. -/
def tokensFrom (p : Position) (s : List Char) : List Token × Except ScanError Position :=
  match _h : next p s with
  | .error e => ([], .error e)
  | .ok (.inl q) => ([], .ok q)
  | .ok (.inr (t, q, r)) =>
    let (ts, stop) := tokensFrom q r
    (t :: ts, stop)
termination_by s.length
decreasing_by exact next_shorter (by assumption)

end Scan

/-- The tokens of a text. The last one is the ending, unless the scan came to a fault. -/
structure Scanned where
  tokens : List Token
  fault : Option ScanError

/-- Scan a text. -/
def Token.scan (text : List Char) : Scanned :=
  match Scan.tokensFrom .start text with
  | (ts, .ok q) => ⟨ts ++ [⟨.ending, q⟩], none⟩
  | (ts, .error e) => ⟨ts, some e⟩

end Cnd
