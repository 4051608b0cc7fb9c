import Cnd.Token.Basic

/-!
Tokens without their quotes and places.

Whoever reads tokens looks at their signs and contents only. A change that keeps these
(`Token.Keeps`) may change nothing but quotes and places, which `Token.bare` leaves out.
-/

namespace Cnd

/-- A lexeme without its quotes. -/
def Lexeme.bare : Lexeme → Lexeme
  | .text s _ => .text s false
  | l => l

namespace Token

/-- A token without its quotes and its place. -/
def bare (t : Token) : Token := ⟨t.lexeme.bare, .start⟩

/-- A change of tokens that leaves their signs and contents as they are. -/
structure Keeps (f : Token → Token) : Prop where
  symbol : ∀ t c, (f t).isSymbol c = t.isSymbol c
  text : ∀ t, (f t).text? = t.text?

theorem isSymbol_bare (t : Token) (c : Char) : t.bare.isSymbol c = t.isSymbol c := by
  obtain ⟨l, p⟩ := t
  cases l <;> rfl

theorem text?_bare (t : Token) : t.bare.text? = t.text? := by
  obtain ⟨l, p⟩ := t
  cases l <;> rfl

theorem isEnding_bare (t : Token) : t.bare.isEnding = t.isEnding := by
  obtain ⟨l, p⟩ := t
  cases l <;> rfl

theorem describe_bare (t : Token) : t.bare.describe = t.describe := by
  obtain ⟨l, p⟩ := t
  cases l <;> rfl

theorem keeps_bare : Keeps bare := ⟨isSymbol_bare, text?_bare⟩

theorem Keeps.bare {f : Token → Token} (hf : Keeps f) (t : Token) : (f t).bare = t.bare := by
  have hs := hf.symbol t
  have ht := hf.text t
  suffices h : (f t).lexeme.bare = t.lexeme.bare by rw [Token.bare, h, Token.bare]
  simp only [isSymbol, text?] at hs ht
  cases hl : t.lexeme with
  | symbol c =>
    have hc := hs c
    rw [hl, beq_self_eq_true, beq_iff_eq] at hc
    rw [hc]
  | text s q =>
    rw [hl] at ht
    cases hl' : (f t).lexeme with
    | text s' q' =>
      rw [hl'] at ht
      rw [Lexeme.bare, Option.some.inj ht, Lexeme.bare]
    | symbol | ending => simp [hl'] at ht
  | ending =>
    cases hl' : (f t).lexeme with
    | symbol c =>
      have hc := hs c
      simp [hl, hl'] at hc
    | text s' q' => simp [hl, hl'] at ht
    | ending => rfl

theorem Keeps.isEnding {f : Token → Token} (hf : Keeps f) (t : Token) :
    (f t).isEnding = t.isEnding := by
  rw [← isEnding_bare, hf.bare, isEnding_bare]

end Token

end Cnd
