import Cnd.Proofs.Decimal.Layout
import Cnd.Value.Literal

/-!
The literals of numbers are read back: of the integers of 64 bits (`readLong_decimalInt`), and of
every double that a literal denotes (`readDouble_writeDouble`), those without a decimal included.
-/

namespace Cnd

/-- The integers that literals denote. -/
def InLongRange (n : Int) : Prop := -2 ^ 63 ≤ n ∧ n < 2 ^ 63

/-- The doubles that literals denote: the finite ones are written in one way only. -/
def Binary64.Canonical : Binary64 → Prop
  | .nan | .infinite _ => True
  | .finite _ m e => IsDouble m e

namespace Literal

/-! ## Integers -/

theorem inLongRange_of_readLong {text : String} {n : Int} (h : readLong text = .ok n) :
    InLongRange n := by
  unfold readLong at h
  dsimp only at h
  split at h
  · simp at h
  split at h
  · simp at h
  rename_i magnitude _
  generalize (if (Numeral.splitSign text.toList).1 then -(magnitude : Int) else magnitude) = k at h
  split at h
  · simp at h
  · rename_i hrange
    rw [← Except.ok.inj h]
    simp only [Nat.pow_eq, Bool.or_eq_true, decide_eq_true_eq, not_or, not_lt, not_le] at hrange
    exact hrange

theorem splitSign_decimalInt (n : Int) :
    Numeral.splitSign (Text.decimalInt n).toList = (decide (n < 0), Nat.toDigits 10 n.natAbs) := by
  unfold Text.decimalInt Text.decimal
  by_cases h : n < 0
  · rw [if_pos h, String.toList_append, String.toList_ofList (l := Nat.toDigits 10 n.natAbs),
      decide_eq_true h]
    rfl
  · rw [if_neg h, String.toList_ofList, decide_eq_false h]
    exact Numeral.splitSign_of_written fun c hc => Text.mem_toDigits (List.mem_of_mem_head? hc)

/-- An integer of 64 bits is read from its digits. -/
theorem readLong_decimalInt {n : Int} (h : InLongRange n) : readLong (Text.decimalInt n) = .ok n := by
  obtain ⟨hlow, hhigh⟩ := h
  have hne : (Nat.toDigits 10 n.natAbs).isEmpty = false :=
    List.isEmpty_eq_false_iff.2 (List.ne_nil_of_length_pos Nat.length_toDigits_pos)
  have hall : (Nat.toDigits 10 n.natAbs).all Text.isDigit = true :=
    List.all_eq_true.2 fun c hc => Text.isDigit_of_written (Text.mem_toDigits hc)
  have hdigits : n.natAbs < 10 ^ Numeral.maxDigits :=
    calc n.natAbs < 10 ^ 20 := by omega
      _ ≤ 10 ^ Numeral.maxDigits := Nat.pow_le_pow_right (by decide) (by decide)
  have hvalue : (if decide (n < 0) then -(n.natAbs : Int) else n.natAbs) = n := by
    by_cases h : n < 0
    · rw [decide_eq_true h, if_pos rfl]
      omega
    · rw [decide_eq_false h, if_neg Bool.false_ne_true]
      omega
  have hrange : (decide (n < -(Nat.pow 2 63 : Nat)) || decide ((Nat.pow 2 63 : Nat) ≤ n)) = false := by
    rw [Bool.or_eq_false_iff, decide_eq_false_iff_not, decide_eq_false_iff_not]
    exact ⟨not_lt.2 hlow, not_le.2 hhigh⟩
  unfold readLong
  rw [splitSign_decimalInt]
  dsimp only
  rw [hne, hall, Bool.not_true, Bool.or_false, if_neg Bool.false_ne_true,
    Numeral.ofDigits_toDigits hdigits]
  dsimp only
  rw [hvalue]
  simp only [hrange, Bool.false_eq_true, if_false]

/-! ## Doubles -/

theorem canonical_of_readDouble {text : String} {x : Binary64} (h : readDouble text = .ok x) :
    x.Canonical := by
  cases x with
  | nan => trivial
  | infinite s => trivial
  | finite s m e =>
    unfold readDouble at h
    split at h
    · simp at h
    split at h
    · simp at h
    split at h
    · simp at h
    split at h
    · simp at h
    dsimp only at h
    split at h
    · simp at h
    · exact Binary64.isDouble_of_ofDecimal (Except.ok.inj h)

/-- A decimal in range is read as the double nearest to it. -/
theorem readDouble_of_splitDecimal {text : String} {negative : Bool} {digits : Nat} {exponent : Int}
    (h : Numeral.splitDecimal text.toList = some (negative, digits, exponent))
    (hfinite : (Binary64.ofDecimal negative digits exponent).isInfinite = false) :
    readDouble text = .ok (Binary64.ofDecimal negative digits exponent) := by
  -- the names are no decimals
  have hne : ∀ name ∈ ["NaN", "Infinity", "+Infinity", "-Infinity"], (text == name) = false := by
    intro name hname
    rw [beq_eq_false_iff_ne]
    intro heq
    have hnone : ∀ name ∈ ["NaN", "Infinity", "+Infinity", "-Infinity"],
        Numeral.splitDecimal name.toList = none := by decide
    rw [heq, hnone name hname] at h
    simp at h
  have hnan := hne "NaN" (by simp)
  have hinf := hne "Infinity" (by simp)
  have hplus := hne "+Infinity" (by simp)
  have hminus := hne "-Infinity" (by simp)
  unfold readDouble
  simp only [hnan, hinf, hplus, hminus, h, hfinite, Bool.or_self, Bool.false_eq_true, if_false]

end Literal

namespace Binary64

theorem denotes_zero : Denotes "0.0".toList 0 :=
  ⟨by simp [Text.writtenDigits], by decide, 0, -1, by decide, by norm_num⟩

/-- The text of a finite double is a decimal that is read as the double. -/
theorem splitDecimal_text {m : Nat} {e : Int} (hm : IsDouble m e) (s : Bool) :
    ∃ digits exponent, Numeral.splitDecimal (text (.finite s m e)).toList = some (s, digits, exponent) ∧
      ofDecimal s digits exponent = .finite s m e := by
  -- without the sign
  obtain ⟨body, hbody, hhead, digits, exponent, hsplit, hvalue⟩ : ∃ body : String,
      text (.finite s m e) = (if s then "-" ++ body else body) ∧
      (∀ c ∈ body.toList.head?, c ∈ Text.writtenDigits) ∧
      ∃ digits exponent, Numeral.splitDecimal body.toList = some (false, digits, exponent) ∧
        ofDecimal false digits exponent = .finite false m e := by
    refine ⟨_, rfl, ?_⟩
    cases Nat.eq_zero_or_pos m with
    | inl hz =>
      obtain ⟨hhead, -, digits, exponent, hsplit, hvalue⟩ := denotes_zero
      have hdigits : digits = 0 := by
        have := (mul_eq_zero.1 hvalue).resolve_right (by positivity)
        exact_mod_cast this
      have hmin : e = minExponent := hm.normal.resolve_left (by omega)
      rw [hz, hmin]
      exact ⟨hhead, digits, exponent, hsplit, by rw [hdigits, ofDecimal_zero]⟩
    | inr hpos =>
      have hbeq : (m == 0) = false := beq_eq_false_iff_ne.2 (by omega)
      obtain ⟨hhead, -, digits, exponent, hsplit, hvalue⟩ := denotes_layout (shortest_pos hm hpos)
      rw [hbeq, if_neg Bool.false_ne_true]
      refine ⟨hhead, digits, exponent, hsplit, ?_⟩
      rw [← ofDecimal_congr (shortest_pos hm hpos) hvalue.symm]
      exact ofDecimal_shortest hm hpos
  refine ⟨digits, exponent, ?_⟩
  rw [hbody]
  cases s with
  | false => exact ⟨hsplit, hvalue⟩
  | true =>
    rw [if_pos rfl, String.toList_append, ofDecimal_true, hvalue]
    exact ⟨Numeral.splitDecimal_minus hsplit hhead, rfl⟩

end Binary64

/-- A double is read from its text. -/
theorem Literal.readDouble_writeDouble {x : Binary64} (h : x.Canonical) :
    readDouble (writeDouble x) = .ok x := by
  cases x with
  | nan => rfl
  | infinite s => cases s <;> rfl
  | finite s m e =>
    obtain ⟨digits, exponent, hsplit, hvalue⟩ := Binary64.splitDecimal_text h s
    rw [← hvalue]
    exact readDouble_of_splitDecimal (hvalue ▸ hsplit) (by rw [hvalue]; rfl)

end Cnd
