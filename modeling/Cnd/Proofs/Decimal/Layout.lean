import Cnd.Proofs.Decimal.Shortest
import Cnd.Proofs.Numeral
import Mathlib.Data.List.TakeWhile

/-!
The layout of a decimal is read as a decimal of the same value (`denotes_layout`), in each of its
three forms: with zeros behind the point, with digits around it, and with an exponent.
-/

namespace Cnd.Binary64

/-- A text that begins with a digit and is read as a decimal of the given value. -/
structure Denotes (s : List Char) (q : ℚ) : Prop where
  head : ∀ c ∈ s.head?, c ∈ Text.writtenDigits
  ne_nil : s ≠ []
  read : ∃ digits exponent, Numeral.splitDecimal s = some (false, digits, exponent) ∧
    (digits : ℚ) * 10 ^ exponent = q

section
variable {whole fraction tail : List Char} {e : Int} {q : ℚ}

theorem written_head (hw : ∀ c ∈ whole, c ∈ Text.writtenDigits) (hne : whole ≠ []) (rest : List Char) :
    ∀ c ∈ (whole ++ rest).head?, c ∈ Text.writtenDigits := by
  intro c hc
  cases whole with
  | nil => exact absurd rfl hne
  | cons d whole =>
    rw [← Option.mem_some.1 hc]
    exact hw d List.mem_cons_self

theorem Denotes.pointed (hw : ∀ c ∈ whole, c ∈ Text.writtenDigits) (hne : whole ≠ [])
    (hf : ∀ c ∈ fraction, c ∈ Text.writtenDigits) (ht : ∀ c ∈ tail.head?, Text.isDigit c = false)
    (he : Numeral.readExponent tail = some e)
    (hq : (Text.digitsValue (whole ++ fraction) : ℚ) * 10 ^ (e - fraction.length) = q) :
    Denotes (whole ++ '.' :: (fraction ++ tail)) q := by
  exact ⟨written_head hw hne _, by simp, _, _, Numeral.splitDecimal_pointed hw hne hf ht he, hq⟩

theorem Denotes.plain (hw : ∀ c ∈ whole, c ∈ Text.writtenDigits) (hne : whole ≠ [])
    (ht : ∀ c ∈ tail.head?, Text.isDigit c = false ∧ c ≠ '.')
    (he : Numeral.readExponent tail = some e) (hq : (Text.digitsValue whole : ℚ) * 10 ^ e = q) :
    Denotes (whole ++ tail) q := by
  exact ⟨written_head hw hne _, by simp [hne], _, _, Numeral.splitDecimal_whole hw hne ht he, hq⟩

/-- A decimal without an exponent. -/
theorem Denotes.point (hw : ∀ c ∈ whole, c ∈ Text.writtenDigits) (hne : whole ≠ [])
    (hf : ∀ c ∈ fraction, c ∈ Text.writtenDigits)
    (hq : (Text.digitsValue (whole ++ fraction) : ℚ) * 10 ^ (-(fraction.length : Int)) = q) :
    Denotes (whole ++ '.' :: fraction) q := by
  have hread : Denotes (whole ++ '.' :: (fraction ++ [])) q :=
    Denotes.pointed hw hne hf (by simp) rfl (by rw [Int.zero_sub, hq])
  rwa [List.append_nil] at hread

end

/-! ## The digits of a decimal -/

theorem trimmed_append_zeros (s : List Char) :
    ∃ k, s = (s.reverse.dropWhile (· == '0')).reverse ++ List.replicate k '0' := by
  have hzeros : ∀ c ∈ s.reverse.takeWhile (· == '0'), c = '0' := fun c hc =>
    beq_iff_eq.1 (List.mem_takeWhile_imp (p := (· == '0')) hc)
  have hsplit := List.takeWhile_append_dropWhile (p := (· == '0')) (l := s.reverse)
  rw [List.eq_replicate_of_mem hzeros] at hsplit
  refine ⟨(s.reverse.takeWhile (· == '0')).length, ?_⟩
  rw [← List.reverse_replicate, ← List.reverse_append, hsplit, List.reverse_reverse]

/-- The first digit of a decimal stands for the power of ten that goes with the digits. -/
theorem normalised_value {d : Decimal} (hd : 0 < d.digits) :
    d.normalised.1 ≠ [] ∧ (∀ c ∈ d.normalised.1, c ∈ Text.writtenDigits) ∧
      (Text.digitsValue d.normalised.1 : ℚ) * 10 ^ (d.normalised.2 + 1 - d.normalised.1.length) =
        d.digits * 10 ^ d.exponent := by
  obtain ⟨k, hk⟩ := trimmed_append_zeros (Nat.toDigits 10 d.digits)
  unfold Decimal.normalised
  dsimp only
  generalize ((Nat.toDigits 10 d.digits).reverse.dropWhile (· == '0')).reverse = trimmed at hk ⊢
  have hvalue : d.digits = Text.digitsValue trimmed * 10 ^ k := by
    rw [← Text.digitsValue_append_zeros, ← hk, Text.digitsValue_toDigits]
  have hlen : (Nat.toDigits 10 d.digits).length = trimmed.length + k := by
    rw [hk, List.length_append, List.length_replicate]
  refine ⟨fun hnil => ?_, fun c hc => ?_, ?_⟩
  · rw [hnil, Text.digitsValue_nil, Nat.zero_mul] at hvalue
    omega
  · have hmem : c ∈ Nat.toDigits 10 d.digits := by
      rw [hk]
      exact List.mem_append_left _ hc
    exact Text.mem_toDigits hmem
  · have hexp : d.exponent + ((Nat.toDigits 10 d.digits).length : Int) - 1 + 1 - trimmed.length =
        (k : Int) + d.exponent := by omega
    have hq : (d.digits : ℚ) = Text.digitsValue trimmed * 10 ^ k := by exact_mod_cast hvalue
    rw [hexp, hq, zpow_add₀ (by norm_num), zpow_natCast, mul_assoc]

/-! ## The three forms -/

theorem written_zeros {c : Char} {k : Nat} (h : c ∈ List.replicate k '0') :
    c ∈ Text.writtenDigits := by
  rw [(List.mem_replicate.1 h).2]
  decide

theorem readExponent_layout (power : Int) :
    Numeral.readExponent
      ('e' :: (if decide (power < 0) then '-' else '+') :: Text.padded 2 power.natAbs) =
        some power := by
  rw [Numeral.readExponent_padded]
  by_cases h : power < 0
  · rw [decide_eq_true h, if_pos rfl]
    congr 1
    omega
  · rw [decide_eq_false h, if_neg Bool.false_ne_true]
    congr 1
    omega

section
variable {digits : List Char} {power : Int} (hd : ∀ c ∈ digits, c ∈ Text.writtenDigits)

include hd

/-- Zeros behind the point. -/
theorem denotes_small (h : power < 0) :
    Denotes ('0' :: '.' :: (List.replicate (-power - 1).toNat '0' ++ digits))
      (Text.digitsValue digits * 10 ^ (power + 1 - digits.length)) := by
  have hw : ∀ c ∈ ['0'], c ∈ Text.writtenDigits := List.forall_mem_singleton.2 (by decide)
  have hf : ∀ c ∈ List.replicate (-power - 1).toNat '0' ++ digits, c ∈ Text.writtenDigits :=
    fun c hc => (List.mem_append.1 hc).elim written_zeros (hd c)
  have hvalue : Text.digitsValue (['0'] ++ (List.replicate (-power - 1).toNat '0' ++ digits)) =
      Text.digitsValue digits := Text.digitsValue_zeros_append ((-power - 1).toNat + 1) digits
  have hexp : -((List.replicate (-power - 1).toNat '0' ++ digits).length : Int) =
      power + 1 - digits.length := by
    rw [List.length_append, List.length_replicate]
    omega
  exact Denotes.point hw (List.cons_ne_nil _ _) hf (by rw [hvalue, hexp])

/-- Digits around the point. -/
theorem denotes_around (h : 0 ≤ power) (hlen : power.toNat + 1 < digits.length) :
    Denotes (digits.take (power.toNat + 1) ++ '.' :: digits.drop (power.toNat + 1))
      (Text.digitsValue digits * 10 ^ (power + 1 - digits.length)) := by
  have hw : ∀ c ∈ digits.take (power.toNat + 1), c ∈ Text.writtenDigits :=
    fun c hc => hd c (List.mem_of_mem_take hc)
  have hf : ∀ c ∈ digits.drop (power.toNat + 1), c ∈ Text.writtenDigits :=
    fun c hc => hd c (List.mem_of_mem_drop hc)
  have hwne : digits.take (power.toNat + 1) ≠ [] := List.ne_nil_of_length_pos (by simp; omega)
  refine Denotes.point hw hwne hf ?_
  rw [List.take_append_drop, List.length_drop]
  congr 2
  omega

/-- Digits before the point, and zeros if there are too few of them. -/
theorem denotes_before (hne : digits ≠ []) (h : 0 ≤ power) (hlen : digits.length ≤ power.toNat + 1) :
    Denotes (digits ++ List.replicate (power.toNat + 1 - digits.length) '0' ++ ['.', '0'])
      (Text.digitsValue digits * 10 ^ (power + 1 - digits.length)) := by
  have hw : ∀ c ∈ digits ++ List.replicate (power.toNat + 1 - digits.length) '0',
      c ∈ Text.writtenDigits :=
    fun c hc => (List.mem_append.1 hc).elim (hd c) written_zeros
  refine Denotes.point hw (by simp [hne]) (List.forall_mem_singleton.2 (by decide)) ?_
  rw [List.append_assoc, show ['0'] = List.replicate 1 '0' from rfl,
    List.replicate_append_replicate, Text.digitsValue_append_zeros, List.length_replicate]
  push_cast
  rw [mul_assoc, ← zpow_natCast, ← zpow_add₀ (by norm_num)]
  congr 2
  omega

/-- Digits around the point, or zeros on one of its sides. -/
theorem denotes_positional (hne : digits ≠ []) (h : 0 ≤ power) :
    let whole := digits.take (power.toNat + 1)
    let fraction := digits.drop (power.toNat + 1)
    Denotes (whole ++ List.replicate (power.toNat + 1 - whole.length) '0' ++
        '.' :: (if fraction.isEmpty then ['0'] else fraction))
      (Text.digitsValue digits * 10 ^ (power + 1 - digits.length)) := by
  intro whole fraction
  by_cases hlen : power.toNat + 1 < digits.length
  · have hwhole : whole.length = power.toNat + 1 := by
      rw [List.length_take]
      omega
    have hfraction : fraction ≠ [] := List.ne_nil_of_length_pos (by rw [List.length_drop]; omega)
    rw [List.isEmpty_eq_false_iff.2 hfraction, if_neg Bool.false_ne_true, hwhole, Nat.sub_self,
      List.replicate_zero, List.append_nil]
    exact denotes_around hd h hlen
  · have hlen := not_lt.1 hlen
    have hwhole : whole = digits := List.take_of_length_le hlen
    have hfraction : fraction = [] := List.drop_of_length_le hlen
    rw [hfraction, List.isEmpty_nil, if_pos rfl, hwhole]
    exact denotes_before hd hne h hlen

/-- One digit before the point, and an exponent. -/
theorem denotes_scientific (hne : digits ≠ []) :
    Denotes (mantissa digits ++
        'e' :: (if decide (power < 0) then '-' else '+') :: Text.padded 2 power.natAbs)
      (Text.digitsValue digits * 10 ^ (power + 1 - digits.length)) := by
  have hexp := readExponent_layout power
  generalize (if decide (power < 0) then '-' else '+') :: Text.padded 2 power.natAbs = tail at hexp ⊢
  have ht : ∀ c ∈ ('e' :: tail).head?, Text.isDigit c = false ∧ c ≠ '.' := fun c hc => by
    rw [← Option.mem_some.1 hc]
    decide
  cases digits with
  | nil => exact absurd rfl hne
  | cons c rest =>
    cases rest with
    | nil =>
      have hread : Denotes ([c] ++ 'e' :: tail) (Text.digitsValue [c] * 10 ^ power) :=
        Denotes.plain hd hne ht hexp rfl
      simpa [mantissa] using hread
    | cons c' rest =>
      have hw : ∀ d ∈ [c], d ∈ Text.writtenDigits :=
        List.forall_mem_singleton.2 (hd c List.mem_cons_self)
      have hf : ∀ d ∈ c' :: rest, d ∈ Text.writtenDigits :=
        fun d hmem => hd d (List.mem_cons_of_mem c hmem)
      refine Denotes.pointed hw (List.cons_ne_nil _ _) hf (fun c hc => (ht c hc).1) hexp ?_
      rw [List.singleton_append, List.length_cons (a := c)]
      congr 2
      push_cast
      ring

end

/-! ## The layout -/

/-- The layout of a decimal has its value. -/
theorem denotes_layout {d : Decimal} (hd : 0 < d.digits) :
    Denotes d.layout.toList (d.digits * 10 ^ d.exponent) := by
  obtain ⟨hne, hwritten, hvalue⟩ := normalised_value hd
  rw [← hvalue]
  unfold Decimal.layout
  generalize d.normalised = n at hne hwritten ⊢
  obtain ⟨digits, power⟩ := n
  dsimp only at hne hwritten ⊢
  split
  · split
    · rename_i hneg
      rw [String.toList_ofList]
      exact denotes_small hwritten hneg
    · rename_i hpos
      rw [String.toList_ofList]
      exact denotes_positional hwritten hne (not_lt.1 hpos)
  · have htail : ((if power < 0 then "e-" else "e+") ++ Text.paddedDecimal 2 power.natAbs).toList =
        'e' :: (if decide (power < 0) then '-' else '+') :: Text.padded 2 power.natAbs := by
      rw [String.toList_append, Text.toList_paddedDecimal]
      by_cases h : power < 0 <;> simp [h]
    rw [String.append_assoc, String.toList_append, String.toList_ofList, htail]
    exact denotes_scientific hwritten hne

end Cnd.Binary64
