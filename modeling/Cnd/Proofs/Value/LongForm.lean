import Cnd.Proofs.Value.DateForm
import Cnd.Proofs.Value.Number
import Mathlib.Data.Nat.Digits.Defs

/-!
Which texts are integer literals.

A numeral is an optional sign and digits of any scripts, each with its worth (`IsNumeral`). It is read
as the number whose places have these worths, or refused because it has too many digits, whatever it
denotes, or because what it denotes has no 64 bits (`readLong_of_isNumeral`); a text that is no numeral
is refused as such. So a text is read just if it is an integer literal (`readLong_denotes`).
-/

namespace Cnd

namespace Text

/-- The worths of decimal digits of any scripts. -/
def AreWorths (s : List Char) (worths : List Nat) : Prop :=
  List.Forall₂ (fun c d => digitValue? c = some d) s worths

theorem exists_worths_iff {s : List Char} :
    (∃ worths, AreWorths s worths) ↔ ∀ c ∈ s, isDigit c = true := by
  induction s with
  | nil => simp [AreWorths]
  | cons c s ih =>
    rw [List.forall_mem_cons, ← ih, isDigit, Option.isSome_iff_exists]
    constructor
    · rintro ⟨_, h⟩
      cases h with
      | cons hd hds => exact ⟨⟨_, hd⟩, _, hds⟩
    · rintro ⟨⟨d, hd⟩, ds, hds⟩
      exact ⟨d :: ds, .cons hd hds⟩

/-- Digits denote the number whose places have their worths, the highest place first. -/
theorem AreWorths.digitsValue_eq {s : List Char} {worths : List Nat} (h : AreWorths s worths) :
    digitsValue s = Nat.ofDigits 10 worths.reverse := by
  induction h with
  | nil => rfl
  | @cons c d s ds hc h ih =>
    have hone : digitsValue [c] = d := by simp [digitsValue, hc]
    calc digitsValue (c :: s) = digitsValue [c] * 10 ^ s.length + digitsValue s :=
          digitsValue_append [c] s
      _ = Nat.ofDigits 10 ds.reverse + 10 ^ ds.reverse.length * Nat.ofDigits 10 [d] := by
          rw [hone, ih, h.length_eq, List.length_reverse, Nat.ofDigits_singleton, Nat.mul_comm,
            Nat.add_comm]
      _ = Nat.ofDigits 10 (d :: ds).reverse := by
          rw [List.reverse_cons, Nat.ofDigits_append]

end Text

namespace Literal

/-! ## The form of an integer literal -/

/-- An optional sign and at least one decimal digit of any script: whether the sign is a minus, and
the worths of the digits. -/
def IsNumeral (text : List Char) (negative : Bool) (worths : List Nat) : Prop :=
  ∃ sign digits, text = sign ++ digits ∧ IsSign sign negative ∧ digits ≠ [] ∧
    Text.AreWorths digits worths

/-- The integer of a sign and of the worths of its places, the highest place first. -/
def signedValue (negative : Bool) (worths : List Nat) : Int :=
  let n : Nat := Nat.ofDigits 10 worths.reverse
  if negative then -n else n

/-- The text is a literal of an integer of 64 bits, and has no more digits than are read. -/
def IsLong (text : List Char) (n : Int) : Prop :=
  ∃ negative worths, IsNumeral text negative worths ∧ worths.length ≤ 4300 ∧
    signedValue negative worths = n ∧ InLongRange n

/-! ## What is read -/

theorem exists_digit_of_ne_nil {digits : List Char} (hne : digits ≠ [])
    (h : ∀ c ∈ digits, Text.isDigit c = true) : ∃ c ∈ digits.head?, Text.isDigit c = true := by
  obtain ⟨c, s, rfl⟩ := List.exists_cons_of_ne_nil hne
  exact ⟨c, rfl, h c List.mem_cons_self⟩

theorem exists_isNumeral_iff {text : List Char} :
    (∃ negative worths, IsNumeral text negative worths) ↔
      (Numeral.splitSign text).2 ≠ [] ∧ ∀ c ∈ (Numeral.splitSign text).2, Text.isDigit c = true := by
  constructor
  · rintro ⟨negative, worths, sign, digits, rfl, hsign, hne, hworths⟩
    have hdigits := Text.exists_worths_iff.1 ⟨worths, hworths⟩
    rw [(splitSign_eq_iff (exists_digit_of_ne_nil hne hdigits)).2 ⟨sign, rfl, hsign⟩]
    exact ⟨hne, hdigits⟩
  · rintro ⟨hne, hdigits⟩
    obtain ⟨worths, hworths⟩ := Text.exists_worths_iff.2 hdigits
    obtain ⟨sign, htext, hsign⟩ := (splitSign_eq_iff (exists_digit_of_ne_nil hne hdigits)).1 rfl
    exact ⟨_, worths, sign, _, htext, hsign, hne, hworths⟩

theorem readLong_of_not_isNumeral {text : String}
    (h : ¬∃ negative worths, IsNumeral text.toList negative worths) :
    readLong text = .error (.notInteger text) := by
  rw [exists_isNumeral_iff] at h
  unfold readLong
  dsimp only
  rw [if_pos]
  simp only [Bool.or_eq_true, List.isEmpty_iff, Bool.not_eq_true', List.all_eq_false]
  grind

/-- A numeral is refused for its count of digits before its value is looked at. -/
theorem readLong_of_isNumeral {text : String} {negative : Bool} {worths : List Nat}
    (h : IsNumeral text.toList negative worths) :
    readLong text =
      if 4300 < worths.length then .error (.tooLong worths.length)
      else if -2 ^ 63 ≤ signedValue negative worths ∧ signedValue negative worths < 2 ^ 63 then
        .ok (signedValue negative worths)
      else .error (.outOfRange text) := by
  obtain ⟨sign, digits, htext, hsign, hne, hworths⟩ := h
  have hdigits := Text.exists_worths_iff.1 ⟨worths, hworths⟩
  have hform : (digits.isEmpty || !digits.all Text.isDigit) = false := by
    rw [List.isEmpty_eq_false_iff.2 hne, List.all_eq_true.2 hdigits]
    rfl
  unfold readLong
  rw [(splitSign_eq_iff (exists_digit_of_ne_nil hne hdigits)).2 ⟨sign, htext, hsign⟩]
  dsimp only
  rw [hform, if_neg Bool.false_ne_true, Numeral.ofDigits, hworths.length_eq, hworths.digitsValue_eq]
  have hlimit : Numeral.maxDigits = 4300 := rfl
  by_cases hlong : 4300 < worths.length
  · rw [hlimit, if_pos hlong, if_pos hlong]
  · rw [hlimit, if_neg hlong, if_neg hlong]
    dsimp only
    have hvalue : (if negative then -((Nat.ofDigits 10 worths.reverse : Nat) : Int)
        else (Nat.ofDigits 10 worths.reverse : Nat)) = signedValue negative worths := rfl
    rw [hvalue]
    by_cases hrange : -2 ^ 63 ≤ signedValue negative worths ∧ signedValue negative worths < 2 ^ 63
    · rw [if_pos hrange, if_neg]
      simpa using hrange
    · rw [if_neg hrange, if_pos]
      simp only [Nat.pow_eq, Bool.or_eq_true, decide_eq_true_eq]
      omega

/-- Why a text is no integer literal. -/
inductive IsRefused (text : String) : LiteralFault → Prop where
  | notInteger (h : ¬∃ negative worths, IsNumeral text.toList negative worths) :
      IsRefused text (.notInteger text)
  | tooLong {negative : Bool} {worths : List Nat} (h : IsNumeral text.toList negative worths)
      (hl : 4300 < worths.length) : IsRefused text (.tooLong worths.length)
  | outOfRange {negative : Bool} {worths : List Nat} (h : IsNumeral text.toList negative worths)
      (hl : worths.length ≤ 4300) (hr : ¬InLongRange (signedValue negative worths)) :
      IsRefused text (.outOfRange text)

theorem readLong_cases (text : String) :
    (∃ n, readLong text = .ok n ∧ IsLong text.toList n) ∨
      ∃ fault, readLong text = .error fault ∧ IsRefused text fault := by
  by_cases h : ∃ negative worths, IsNumeral text.toList negative worths
  · obtain ⟨negative, worths, h⟩ := h
    rw [readLong_of_isNumeral h]
    split
    · rename_i hl
      exact .inr ⟨_, rfl, .tooLong h hl⟩
    rename_i hl
    split
    · rename_i hr
      exact .inl ⟨_, rfl, negative, worths, h, Nat.le_of_not_lt hl, rfl, hr⟩
    · rename_i hr
      exact .inr ⟨_, rfl, .outOfRange h (Nat.le_of_not_lt hl) hr⟩
  · exact .inr ⟨_, readLong_of_not_isNumeral h, .notInteger h⟩

theorem readLong_of_isLong {text : String} {n : Int} (h : IsLong text.toList n) :
    readLong text = .ok n := by
  obtain ⟨negative, worths, hnumeral, hl, rfl, hr⟩ := h
  rw [readLong_of_isNumeral hnumeral, if_neg (Nat.not_lt.2 hl)]
  exact if_pos hr

theorem readLong_of_isRefused {text : String} {fault : LiteralFault} (h : IsRefused text fault) :
    readLong text = .error fault := by
  cases h with
  | notInteger h => exact readLong_of_not_isNumeral h
  | tooLong h hl => rw [readLong_of_isNumeral h, if_pos hl]
  | outOfRange h hl hr =>
    rw [readLong_of_isNumeral h, if_neg (Nat.not_lt.2 hl)]
    exact if_neg hr

/-- **Integer literals denote integers.** A text is read just if it is an integer literal, and as the
integer that it writes; any other text is refused, because it is no numeral, has more digits than are
read, or denotes no integer of 64 bits. Every integer of 64 bits is read from its decimal digits. -/
theorem readLong_denotes (text : String) :
    (∀ n, readLong text = .ok n ↔ IsLong text.toList n) ∧
    ((∀ n, ¬IsLong text.toList n) → ∃ fault, readLong text = .error fault) ∧
    (∀ fault, readLong text = .error fault ↔ IsRefused text fault) ∧
    ∀ n, InLongRange n → readLong (Text.decimalInt n) = .ok n := by
  refine ⟨fun n => ⟨fun h => ?_, readLong_of_isLong⟩, fun hno => ?_,
    fun fault => ⟨fun h => ?_, readLong_of_isRefused⟩, fun n => readLong_decimalInt⟩
  · rcases readLong_cases text with ⟨m, hm, hlong⟩ | ⟨fault, hfault, -⟩
    · rw [h] at hm
      exact Except.ok.inj hm ▸ hlong
    · rw [h] at hfault
      simp at hfault
  · rcases readLong_cases text with ⟨m, -, hlong⟩ | ⟨fault, hfault, -⟩
    · exact absurd hlong (hno m)
    · exact ⟨fault, hfault⟩
  · rcases readLong_cases text with ⟨m, hm, -⟩ | ⟨fault', hfault, hrefused⟩
    · rw [h] at hm
      simp at hm
    · rw [h] at hfault
      exact Except.error.inj hfault ▸ hrefused

theorem isNumeral_zeros {count : Nat} (h : count ≠ 0) :
    IsNumeral (List.replicate count '0') false (List.replicate count 0) := by
  refine ⟨[], _, rfl, .none, mt (List.replicate_eq_nil_iff _).1 h, ?_⟩
  unfold Text.AreWorths
  clear h
  induction count with
  | zero => exact .nil
  | succ count ih => exact .cons (by decide) ih

/-- The least integer of 64 bits in digits of two scripts behind a zero, the one below it, and a zero
that has a digit too many. -/
theorem readLong_denotes_bounds :
    readLong "-0٩٢٢3372036854775808" = .ok (-2 ^ 63) ∧
      IsLong "-0٩٢٢3372036854775808".toList (-2 ^ 63) ∧
      IsRefused "-9223372036854775809" (.outOfRange "-9223372036854775809") ∧
      readLong (String.ofList (List.replicate 4301 '0')) = .error (.tooLong 4301) ∧
      readLong (Text.decimalInt (2 ^ 63 - 1)) = .ok (2 ^ 63 - 1) := by
  have hleast : readLong "-0٩٢٢3372036854775808" = .ok (-2 ^ 63) := by rfl
  have hbelow : readLong "-9223372036854775809" = .error (.outOfRange "-9223372036854775809") := by rfl
  obtain ⟨hlong, -, -, hdecimal⟩ := readLong_denotes "-0٩٢٢3372036854775808"
  obtain ⟨-, -, hrefused, -⟩ := readLong_denotes "-9223372036854775809"
  obtain ⟨-, -, htooLong, -⟩ := readLong_denotes (String.ofList (List.replicate 4301 '0'))
  have hzeros := isNumeral_zeros (show 4301 ≠ 0 by decide)
  rw [← String.toList_ofList (l := List.replicate 4301 '0')] at hzeros
  have hmany := IsRefused.tooLong hzeros (by rw [List.length_replicate]; decide)
  rw [List.length_replicate] at hmany
  exact ⟨hleast, (hlong _).1 hleast, (hrefused _).1 hbelow, (htooLong _).2 hmany,
    hdecimal (2 ^ 63 - 1) ⟨by decide, by decide⟩⟩

end Literal

end Cnd
