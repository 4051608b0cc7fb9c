import Cnd.Data
import Cnd.Numeral

/-!
Reading JSON documents.

Besides standard JSON the three names of the values that no decimal denotes are numbers. A fault is
known by the count of characters from it to the end of the text, so no reader has to keep an
offset; each reader gives the rest of the text with a proof that it is shorter.
-/

namespace Cnd.Json

/-- What is wrong with a text. -/
inductive Fault where
  | byteOrderMark
  | noValue
  | noName
  | noColon
  | noComma
  | controlChar
  | openText
  | badEscape
  | badCodePoint
  | trailing
  deriving DecidableEq, Repr

def Fault.message : Fault → String
  | .byteOrderMark => "Unexpected UTF-8 BOM (decode using utf-8-sig)"
  | .noValue => "Expecting value"
  | .noName => "Expecting property name enclosed in double quotes"
  | .noColon => "Expecting ':' delimiter"
  | .noComma => "Expecting ',' delimiter"
  | .controlChar => "Invalid control character at"
  | .openText => "Unterminated string starting at"
  | .badEscape => "Invalid \\escape"
  | .badCodePoint => "Invalid \\uXXXX escape"
  | .trailing => "Extra data"

/-- Why reading stops: a fault and how many characters there are from it on, or an integer with too
many digits. -/
inductive Stop where
  | fault (f : Fault) (ahead : Nat)
  | tooLong (digits : Nat)

/-- A value read from a text, and what follows it. -/
abbrev Step (α : Type) (s : List Char) := Except Stop (α × {r : List Char // r.length < s.length})

/-- The fault at the start of the text. -/
def failAt {α : Type} (f : Fault) (s : List Char) : Except Stop α := .error (.fault f s.length)

/-! ## Blanks -/

def isBlank (c : Char) : Bool := c == ' ' || c == '\t' || c == '\n' || c == '\r'

def skipBlanks (s : List Char) : List Char := s.dropWhile isBlank

theorem skipBlanks_le (s : List Char) : (skipBlanks s).length ≤ s.length :=
  (List.dropWhile_sublist (l := s) isBlank).length_le

/-! ## Texts -/

/-- The character that a letter stands for behind a backslash. -/
def unescape? : Char → Option Char
  | '"' => some '"'
  | '\\' => some '\\'
  | '/' => some '/'
  | 'b' => some '\x08'
  | 'f' => some '\x0c'
  | 'n' => some '\n'
  | 'r' => some '\r'
  | 't' => some '\t'
  | _ => none

/-- The number of four hexadecimal digits in front of a text that goes on behind them. -/
def unit? : List Char → Option (Nat × List Char)
  | a :: b :: c :: d :: e :: rest => do
    let n := ((← Text.hexValue? a) * 16 + (← Text.hexValue? b)) * 256 +
      (← Text.hexValue? c) * 16 + (← Text.hexValue? d)
    return (n, e :: rest)
  | _ => none

def isHighHalf (n : Nat) : Bool := 0xD800 ≤ n && n < 0xDC00

def isLowHalf (n : Nat) : Bool := 0xDC00 ≤ n && n < 0xE000

/-- The code point behind the letter `u`, of one unit or of two halves, and how many characters
spell it. -/
def codePoint? (s : List Char) : Option (Nat × Nat) :=
  match unit? s with
  | none => none
  | some (n, rest) =>
    match isHighHalf n, rest with
    | true, '\\' :: 'u' :: more =>
      match unit? more with
      | some (m, _) =>
        if isLowHalf m then some (0x10000 + (n - 0xD800) * 1024 + (m - 0xDC00), 10) else some (n, 4)
      | none => some (n, 4)
    | _, _ => some (n, 4)

/-- The content of a text behind its opening quote, and what follows the closing one. The first
argument passes over characters that a code point was spelled with; `start` is how many characters
there are from the opening quote on. -/
def textBody (start : Nat) : Nat → List Char → Except Stop (List Char × List Char)
  | _, [] => .error (.fault .openText start)
  | skip + 1, _ :: rest => textBody start skip rest
  | 0, '"' :: rest => .ok ([], rest)
  | 0, ['\\'] => .error (.fault .openText start)
  | 0, '\\' :: 'u' :: rest =>
    match codePoint? rest with
    | none => failAt .badCodePoint ('u' :: rest)
    | some (n, width) =>
      (textBody start width rest).map fun (body, r) => (Char.ofNat n :: body, r)
  | 0, '\\' :: c :: rest =>
    match unescape? c with
    | none => failAt .badEscape ('\\' :: c :: rest)
    | some d => (textBody start 0 rest).map fun (body, r) => (d :: body, r)
  | 0, c :: rest =>
    if c.toNat < 0x20 then failAt .controlChar (c :: rest)
    else (textBody start 0 rest).map fun (body, r) => (c :: body, r)

theorem map_eq_ok {ε α β : Type} {f : α → β} {x : Except ε α} {b : β} (h : x.map f = .ok b) :
    ∃ a, x = .ok a ∧ f a = b := by
  cases x with
  | error => simp [Except.map] at h
  | ok a => exact ⟨a, rfl, by simpa [Except.map] using h⟩

theorem textBody_shorter {start skip : Nat} {s body r : List Char}
    (h : textBody start skip s = .ok (body, r)) : r.length < s.length := by
  fun_induction textBody start skip s generalizing body with
  | case1 => simp at h
  | case2 skip c rest ih => have := ih h; simp only [List.length_cons]; omega
  | case3 rest =>
    simp only [Except.ok.injEq, Prod.mk.injEq] at h
    rw [← h.2]; simp
  | case4 => simp at h
  | case5 => simp [failAt] at h
  | case6 rest n width _ ih =>
    obtain ⟨⟨b, r'⟩, hb, he⟩ := map_eq_ok h
    simp only [Prod.mk.injEq] at he
    have := ih (he.2 ▸ hb)
    simp only [List.length_cons]; omega
  | case7 => simp [failAt] at h
  | case8 =>
    rename_i ih
    obtain ⟨⟨b, r'⟩, hb, he⟩ := map_eq_ok h
    simp only [Prod.mk.injEq] at he
    have := ih (he.2 ▸ hb)
    simp only [List.length_cons]; omega
  | case9 => simp [failAt] at h
  | case10 =>
    rename_i ih
    obtain ⟨⟨b, r'⟩, hb, he⟩ := map_eq_ok h
    simp only [Prod.mk.injEq] at he
    have := ih (he.2 ▸ hb)
    simp only [List.length_cons]; omega

/-- The text behind an opening quote. -/
def text (s : List Char) : Step String s :=
  match h : textBody (s.length + 1) 0 s with
  | .error e => .error e
  | .ok (body, r) => .ok (String.ofList body, ⟨r, textBody_shorter h⟩)

/-! ## Numbers -/

def spanDigits (s : List Char) : List Char × List Char :=
  (s.takeWhile Text.isAsciiDigit, s.dropWhile Text.isAsciiDigit)

theorem spanDigits_le (s : List Char) : (spanDigits s).2.length ≤ s.length :=
  (List.dropWhile_sublist (l := s) Text.isAsciiDigit).length_le

/-- The digits before the point: a lone zero, or a run that does not begin with zero. -/
def whole? : List Char → Option (List Char × List Char)
  | '0' :: rest => some (['0'], rest)
  | c :: rest =>
    if Text.isAsciiDigit c then some (c :: (spanDigits rest).1, (spanDigits rest).2) else none
  | [] => none

/-- The digits behind a point, and the rest; nothing unless a digit follows the point. -/
def fraction (s : List Char) : List Char × List Char :=
  match s with
  | '.' :: rest => if (spanDigits rest).1.isEmpty then ([], s) else spanDigits rest
  | _ => ([], s)

/-- The exponent behind its letter, and the rest; nothing unless it has a digit. -/
def exponent (s : List Char) : Option Int × List Char :=
  match s with
  | c :: rest =>
    if c == 'e' || c == 'E' then
      let (negative, body) := match rest with
        | '-' :: more => (true, more)
        | '+' :: more => (false, more)
        | _ => (false, rest)
      let (digits, r) := spanDigits body
      let n : Int := Text.digitsValue digits
      if digits.isEmpty then (none, s) else (some (if negative then -n else n), r)
    else (none, s)
  | [] => (none, s)

theorem whole?_shorter {s digits r : List Char} (h : whole? s = some (digits, r)) :
    r.length < s.length := by
  fun_cases whole? s with
  | case1 rest => simp [whole?] at h; simp [← h.2]
  | case2 c rest _ hc =>
    have := spanDigits_le rest
    simp [whole?, hc] at h
    obtain ⟨_, rfl⟩ := h
    simp only [List.length_cons]; omega
  | case3 c rest _ hc => simp_all [whole?]
  | case4 => simp [whole?] at h

theorem fraction_le (s : List Char) : (fraction s).2.length ≤ s.length := by
  fun_cases fraction s with
  | case1 => exact Nat.le_refl _
  | case2 rest =>
    have := spanDigits_le rest
    simp only [List.length_cons]; omega
  | case3 => exact Nat.le_refl _

theorem exponent_le (s : List Char) : (exponent s).2.length ≤ s.length := by
  unfold exponent
  split
  · rename_i c rest
    split
    · split
      rename_i negative body heq
      have hb : body.length ≤ rest.length := by
        revert heq
        split <;> (intro heq; simp only [Prod.mk.injEq] at heq; obtain ⟨_, rfl⟩ := heq; simp)
      have := spanDigits_le body
      dsimp only
      split
      · simp
      · simp only [List.length_cons]; omega
    · simp
  · simp

/-- The number of its written parts: an integer unless it has a fraction or an exponent. -/
def numberOf (negative : Bool) (whole frac : List Char) (exp : Option Int) : Except Stop Data :=
  if frac.isEmpty && exp.isNone then
    match Numeral.ofDigits whole with
    | .error count => .error (.tooLong count)
    | .ok n => .ok (.int (if negative then -(n : Int) else n))
  else
    .ok (.float (.ofDecimal negative (Text.digitsValue (whole ++ frac))
      (exp.getD 0 - frac.length)))

/-- The number that a text begins with. -/
def number (s : List Char) : Step Data s :=
  let (negative, body) := match s with
    | '-' :: rest => (true, rest)
    | _ => (false, s)
  if hb : body.length ≤ s.length then
    match hw : whole? body with
    | none => failAt .noValue s
    | some (whole, r₁) =>
      match numberOf negative whole (fraction r₁).1 (exponent (fraction r₁).2).1 with
      | .error e => .error e
      | .ok d => .ok (d, ⟨(exponent (fraction r₁).2).2, by
          have := whole?_shorter hw
          have := fraction_le r₁
          have := exponent_le (fraction r₁).2
          omega⟩)
  else failAt .noValue s

/-- The rest of a text behind a word that it begins with. -/
def afterWord? (word : String) (s : List Char) : Option (List Char) :=
  if word.toList.isPrefixOf s then some (s.drop word.length) else none

theorem afterWord?_shorter {word : String} {s r : List Char} (hw : 0 < word.length)
    (h : afterWord? word s = some r) : r.length < s.length := by
  simp only [afterWord?] at h
  split at h
  · rename_i hp
    have hlen := (List.isPrefixOf_iff_prefix.1 hp).length_le
    simp only [Option.some.injEq] at h
    rw [← h, List.length_drop]
    simp only [String.length_toList] at hlen
    omega
  · simp at h

/-- The words that are values. -/
def words : List (String × Data) :=
  [("null", .null), ("true", .bool true), ("false", .bool false), ("NaN", .float .nan),
   ("Infinity", .float (.infinite false)), ("-Infinity", .float (.infinite true))]

/-- The first of some words that a text begins with, and what follows it. -/
def word? (s : List Char) : List (String × Data) → Option (Data × {r : List Char // r.length < s.length})
  | [] => none
  | (w, d) :: more =>
    if hw : 0 < w.length then
      match h : afterWord? w s with
      | some r => some (d, ⟨r, afterWord?_shorter hw h⟩)
      | none => word? s more
    else word? s more

/-! ## Values -/

mutual
/-- The value that a text begins with. -/
def value (s : List Char) : Step Data s :=
  match s with
  | '"' :: rest => do
    let (t, ⟨r, hr⟩) ← text rest
    .ok (.text t, ⟨r, by simp only [List.length_cons]; omega⟩)
  | '[' :: rest =>
    match hs : skipBlanks rest with
    | ']' :: r => .ok (.list [], ⟨r, by
        have := skipBlanks_le rest
        simp only [hs, List.length_cons] at this ⊢; omega⟩)
    | _ => do
      let (items, ⟨r, hr⟩) ← items (skipBlanks rest)
      .ok (.list items, ⟨r, by
        have := skipBlanks_le rest
        simp only [List.length_cons]; omega⟩)
  | '\x7b' :: rest =>
    match hs : skipBlanks rest with
    | '\x7d' :: r => .ok (.map [], ⟨r, by
        have := skipBlanks_le rest
        simp only [hs, List.length_cons] at this ⊢; omega⟩)
    | _ => do
      let (entries, ⟨r, hr⟩) ← members [] (skipBlanks rest)
      .ok (.map entries, ⟨r, by
        have := skipBlanks_le rest
        simp only [List.length_cons]; omega⟩)
  | t =>
    match word? t words with
    | some found => .ok found
    | none => number t
termination_by (s.length, 0)
decreasing_by
  all_goals
    have := skipBlanks_le rest
    simp_wf
    left; omega

/-- The items of a list, up to its closing bracket. -/
def items (s : List Char) : Step (List Data) s := do
  let (d, ⟨r, hr⟩) ← value s
  match hs : skipBlanks r with
  | ']' :: r' => .ok ([d], ⟨r', by
      have := skipBlanks_le r
      simp only [hs, List.length_cons] at this; omega⟩)
  | ',' :: r' => do
    let (ds, ⟨t, ht⟩) ← items (skipBlanks r')
    .ok (d :: ds, ⟨t, by
      have := skipBlanks_le r
      have := skipBlanks_le r'
      simp_all only [List.length_cons]; omega⟩)
  | r' => failAt .noComma r'
termination_by (s.length, 1)
decreasing_by
  · right; omega
  · have := skipBlanks_le r
    have := skipBlanks_le r'
    simp_all only [List.length_cons]
    left; omega

/-- The members of a mapping behind the given ones, up to its closing brace. A name that comes
again has the later value. -/
def members (done : List (Data × Data)) (s : List Char) : Step (List (Data × Data)) s :=
  match s with
  | '"' :: rest => do
    let (key, ⟨r₁, h₁⟩) ← text rest
    match hc : skipBlanks r₁ with
    | ':' :: r₂ => do
      let (d, ⟨r₃, h₃⟩) ← value (skipBlanks r₂)
      match hs : skipBlanks r₃ with
      | '\x7d' :: r₄ => .ok (Data.insert done (.text key) d, ⟨r₄, by
          have := skipBlanks_le r₁
          have := skipBlanks_le r₂
          have := skipBlanks_le r₃
          simp_all only [List.length_cons]; omega⟩)
      | ',' :: r₄ => do
        let (entries, ⟨t, ht⟩) ← members (Data.insert done (.text key) d) (skipBlanks r₄)
        .ok (entries, ⟨t, by
          have := skipBlanks_le r₁
          have := skipBlanks_le r₂
          have := skipBlanks_le r₃
          have := skipBlanks_le r₄
          simp_all only [List.length_cons]; omega⟩)
      | r₄ => failAt .noComma r₄
    | r₂ => failAt .noColon r₂
  | _ => failAt .noName s
termination_by (s.length, 0)
decreasing_by
  · have := skipBlanks_le r₁
    have := skipBlanks_le r₂
    simp_wf
    simp_all only [List.length_cons]
    left; omega
  · have := skipBlanks_le r₁
    have := skipBlanks_le r₂
    have := skipBlanks_le r₃
    have := skipBlanks_le r₄
    simp_wf
    simp_all only [List.length_cons]
    left; omega
end

/-- The value of a text as a whole. -/
def document (s : List Char) : Except Stop Data :=
  match s with
  | '\ufeff' :: _ => failAt .byteOrderMark s
  | _ => do
    let (d, ⟨r, _⟩) ← value (skipBlanks s)
    match skipBlanks r with
    | [] => .ok d
    | r => failAt .trailing r

/-! ## Errors -/

/-- Why a text is no document. -/
inductive ReadError where
  | fault (f : Fault) (line column offset : Nat)
  | tooLong (digits : Nat)
  deriving DecidableEq, Repr

def ReadError.message : ReadError → String
  | .fault f line column offset =>
    s!"{f.message}: line {Text.decimal line} column {Text.decimal column} (char {Text.decimal offset})"
  | .tooLong digits => Numeral.tooLongMessage digits

/-- The line and column behind some characters, counted from one. -/
def lineColumn (before : List Char) : Nat × Nat :=
  (before.count '\n' + 1, (before.reverse.takeWhile (· != '\n')).length + 1)

/-- The value of a JSON text. -/
def read (s : List Char) : Except ReadError Data :=
  match document s with
  | .ok d => .ok d
  | .error (.tooLong digits) => .error (.tooLong digits)
  | .error (.fault f ahead) =>
    let offset := s.length - ahead
    let (line, column) := lineColumn (s.take offset)
    .error (.fault f line column offset)

end Cnd.Json
