import Cnd.Proofs.Numeral
import Cnd.Value.Literal

/-!
Date literals and the moments they denote.

`Moment.Writable` says which moments date literals denote: the fields are those of a calendar date
and a time of day, the fraction is of whole milliseconds, and the offset is less than a day. The
written form of such a moment is read back as it (`readDate_literal`), and reading gives no others
(`writable_of_readDate`).
-/

namespace Cnd

/-! ## Fields -/

/-- The times that there are. -/
structure LocalTime.Valid (t : LocalTime) : Prop where
  year : 1 ≤ t.date.year ∧ t.date.year ≤ 9999
  month : 1 ≤ t.date.month ∧ t.date.month ≤ 12
  day : 1 ≤ t.date.day ∧ t.date.day ≤ CalendarDate.daysInMonth t.date.year t.date.month
  hour : t.hour ≤ 23
  minute : t.minute ≤ 59
  second : t.second ≤ 59

theorem CalendarDate.daysInMonth_le (year month : Nat) : daysInMonth year month ≤ 31 := by
  unfold daysInMonth
  split
  · split <;> omega
  all_goals omega

theorem CalendarDate.ofFields_eq_ok_iff {year : Int} {month day : Nat} {d : CalendarDate} :
    ofFields year month day = .ok d ↔
      (1 ≤ d.year ∧ d.year ≤ 9999) ∧ (1 ≤ d.month ∧ d.month ≤ 12) ∧
        (1 ≤ d.day ∧ d.day ≤ daysInMonth d.year d.month) ∧
        year = d.year ∧ month = d.month ∧ day = d.day := by
  unfold ofFields
  simp only [Bool.or_eq_true, decide_eq_true_eq]
  constructor
  · intro h
    split at h
    · simp at h
    split at h
    · simp at h
    split at h
    · simp at h
    obtain rfl := Except.ok.inj h
    simp only [and_true]
    refine ⟨?_, ?_, ?_, ?_⟩ <;> omega
  · rintro ⟨hy, hm, hd, rfl, rfl, rfl⟩
    rw [if_neg (by omega), if_neg (by omega), Int.toNat_natCast, if_neg (by omega)]

theorem LocalTime.ofFields_eq_ok_iff {year : Int} {month day hour minute second us : Nat}
    {t : LocalTime} :
    ofFields year month day hour minute second us = .ok t ↔
      t.Valid ∧ year = t.date.year ∧ month = t.date.month ∧ day = t.date.day ∧ hour = t.hour ∧
        minute = t.minute ∧ second = t.second ∧ us = t.microsecond := by
  unfold ofFields
  constructor
  · intro h
    split at h
    · simp at h
    rename_i date hdate
    split at h
    · simp at h
    split at h
    · simp at h
    split at h
    · simp at h
    obtain rfl := Except.ok.inj h
    obtain ⟨hy, hm, hd, rfl, rfl, rfl⟩ := CalendarDate.ofFields_eq_ok_iff.1 hdate
    refine ⟨⟨hy, hm, hd, ?_, ?_, ?_⟩, rfl, rfl, rfl, rfl, rfl, rfl, rfl⟩ <;> simp only <;> omega
  · rintro ⟨h, rfl, rfl, rfl, rfl, rfl, rfl, rfl⟩
    have hdate : CalendarDate.ofFields t.date.year t.date.month t.date.day = .ok t.date :=
      CalendarDate.ofFields_eq_ok_iff.2 ⟨h.year, h.month, h.day, rfl, rfl, rfl⟩
    have hh := h.hour
    have hm := h.minute
    have hs := h.second
    simp only [hdate]
    rw [if_neg (by omega), if_neg (by omega), if_neg (by omega)]

/-- The moments that date literals denote. -/
structure Moment.Writable (m : Moment) : Prop where
  civil : m.civil.Valid
  millis : ∃ n < 1000, m.civil.microsecond = n * 1000
  offset : m.offset.natAbs < 24 * 60

namespace Literal

/-! ## Reading what is written -/

theorem takeDigits_append {n : Nat} {digits : List Char} (hl : digits.length = n)
    (h : ∀ c ∈ digits, c ∈ Text.writtenDigits) (rest : List Char) :
    takeDigits n (digits ++ rest) = some (digits, rest) := by
  have hall : digits.all Text.isDigit = true :=
    List.all_eq_true.2 fun c hc => Text.isDigit_of_written (h c hc)
  subst hl
  simp [takeDigits, hall]

theorem takeDigits_padded {width n : Nat} (hw : 0 < width) (h : n < 10 ^ width)
    (rest : List Char) :
    takeDigits width (Text.padded width n ++ rest) = some (Text.padded width n, rest) :=
  takeDigits_append (Text.length_padded hw h) (fun _ hc => Text.mem_padded hc) rest

theorem takeChar_self (c : Char) (rest : List Char) : takeChar c (c :: rest) = some rest := by
  simp [takeChar]

theorem splitSign_padded {width n : Nat} (hw : 0 < width) (h : n < 10 ^ width)
    (rest : List Char) :
    Numeral.splitSign (Text.padded width n ++ rest) = (false, Text.padded width n ++ rest) := by
  refine Numeral.splitSign_of_written fun c hc => ?_
  obtain ⟨d, more, hp⟩ : ∃ d more, Text.padded width n = d :: more := by
    refine List.exists_cons_of_ne_nil fun he => ?_
    have := Text.length_padded hw h
    rw [he, List.length_nil] at this
    omega
  rw [hp, List.cons_append, List.head?_cons, Option.mem_some_iff] at hc
  have hd : d ∈ Text.padded width n := by
    rw [hp]
    exact List.mem_cons_self
  exact hc ▸ Text.mem_padded hd

/-- The characters of a zone. -/
def zoneChars (offset : Int) : List Char :=
  if offset = 0 then ['Z']
  else (if offset < 0 then '-' else '+') ::
    (Text.padded 2 (offset.natAbs / 60) ++ ':' :: Text.padded 2 (offset.natAbs % 60))

theorem takeZone_zoneChars {offset : Int} (h : offset.natAbs < 24 * 60) :
    takeZone (zoneChars offset) = some (zoneChars offset) := by
  unfold zoneChars
  split
  · rfl
  · have hsign : ∀ sign : Char, sign = '-' ∨ sign = '+' → ∀ rest : List Char,
        takeDigits 2 rest = some (Text.padded 2 (offset.natAbs / 60),
          ':' :: Text.padded 2 (offset.natAbs % 60)) → takeZone (sign :: rest) = some (sign :: rest) := by
      intro sign hs rest hr
      have hminutes : takeDigits 2 (Text.padded 2 (offset.natAbs % 60) ++ []) =
          some (Text.padded 2 (offset.natAbs % 60), []) := takeDigits_padded (by decide) (by omega) []
      rw [List.append_nil] at hminutes
      unfold takeZone
      split
      · rename_i he
        rcases hs with rfl | rfl <;> simp at he
      · rename_i sign' rest' _ he
        obtain ⟨rfl, rfl⟩ := List.cons.inj he
        rw [if_neg (by rcases hs with rfl | rfl <;> decide), hr]
        simp [takeChar_self, hminutes]
      · rename_i he
        simp at he
    refine hsign _ ?_ _ (takeDigits_padded (by decide) (by omega) _)
    split
    · exact .inl rfl
    · exact .inr rfl

theorem zoneOffset_zoneChars {offset : Int} (h : offset.natAbs < 24 * 60) :
    zoneOffset (zoneChars offset) = .ok offset := by
  unfold zoneChars
  split
  · rename_i hz
    rw [hz]
    rfl
  · have hl : (Text.padded 2 (offset.natAbs / 60)).length = 2 :=
      Text.length_padded (by decide) (by omega)
    have hm : (Text.padded 2 (offset.natAbs % 60)).length = 2 :=
      Text.length_padded (by decide) (by omega)
    have hhours : (Text.padded 2 (offset.natAbs / 60) ++ ':' ::
        Text.padded 2 (offset.natAbs % 60)).take 2 = Text.padded 2 (offset.natAbs / 60) := by
      rw [List.take_append_of_le_length (by omega), List.take_of_length_le (by omega)]
    have hminutes : ((Text.padded 2 (offset.natAbs / 60) ++ ':' ::
        Text.padded 2 (offset.natAbs % 60)).drop 3).take 2 = Text.padded 2 (offset.natAbs % 60) := by
      rw [List.drop_append, hl, List.drop_of_length_le (by omega)]
      simp [List.take_of_length_le (Nat.le_of_eq hm)]
    unfold zoneOffset
    simp only [hhours, hminutes, Text.digitsValue_padded]
    by_cases hneg : offset < 0
    · simp only [hneg, if_true]
      rw [if_neg (by decide), if_neg (by simp; omega)]
      simp only [beq_self_eq_true, if_true, Except.ok.injEq]
      omega
    · simp only [hneg, if_false]
      rw [if_neg (by decide), if_neg (by simp; omega), if_neg (by decide)]
      simp only [Except.ok.injEq]
      omega

theorem toList_literal (m : Moment) :
    m.literal.toList =
      Text.padded 4 m.civil.date.year ++ '-' :: (Text.padded 2 m.civil.date.month ++ '-' ::
        (Text.padded 2 m.civil.date.day ++ 'T' :: (Text.padded 2 m.civil.hour ++ ':' ::
          (Text.padded 2 m.civil.minute ++ ':' :: (Text.padded 2 m.civil.second ++ '.' ::
            (Text.padded 3 (m.civil.microsecond / 1000) ++ zoneChars m.offset)))))) := by
  have hzone : (if m.offset = 0 then "Z" else offsetText m.offset).toList = zoneChars m.offset := by
    unfold zoneChars offsetText
    by_cases hz : m.offset = 0
    · simp [hz]
    · by_cases hn : m.offset < 0 <;>
        simp [hz, hn, Text.toList_paddedDecimal, toString]
  simp [Moment.literal, CalendarDate.text, LocalTime.clockText, toString, Text.toList_paddedDecimal,
    hzone]

theorem bind_of_some {α β : Type} {x : Option α} {f : α → Option β} {a : α} {b : Option β}
    (hx : x = some a) (hf : f a = b) : (x >>= f) = b := by
  rw [hx]
  exact hf

/-- **Reading the written form of a date literal** gives the moment back. -/
theorem readDate_literal {m : Moment} (h : m.Writable) : readDate m.literal = .ok m := by
  obtain ⟨hy, hmo, hd, hh, hmi, hs⟩ := h.civil
  obtain ⟨n, hn, hus⟩ := h.millis
  have hday := CalendarDate.daysInMonth_le m.civil.date.year m.civil.date.month
  have hmillis : m.civil.microsecond / 1000 = n := by omega
  have hsplit : splitDate m.literal.toList =
      some ⟨false, Text.padded 4 m.civil.date.year, Text.padded 2 m.civil.date.month,
        Text.padded 2 m.civil.date.day, Text.padded 2 m.civil.hour, Text.padded 2 m.civil.minute,
        Text.padded 2 m.civil.second, Text.padded 3 n, zoneChars m.offset⟩ := by
    rw [toList_literal, hmillis]
    unfold splitDate
    rw [splitSign_padded (by decide) (by omega)]
    refine bind_of_some (takeDigits_padded (by decide) (by omega) _) ?_
    refine bind_of_some (takeChar_self _ _) ?_
    refine bind_of_some (takeDigits_padded (by decide) (by omega) _) ?_
    refine bind_of_some (takeChar_self _ _) ?_
    refine bind_of_some (takeDigits_padded (by decide) (by omega) _) ?_
    refine bind_of_some (takeChar_self _ _) ?_
    refine bind_of_some (takeDigits_padded (by decide) (by omega) _) ?_
    refine bind_of_some (takeChar_self _ _) ?_
    refine bind_of_some (takeDigits_padded (by decide) (by omega) _) ?_
    refine bind_of_some (takeChar_self _ _) ?_
    refine bind_of_some (takeDigits_padded (by decide) (by omega) _) ?_
    refine bind_of_some (takeDigits_padded (by decide) (by omega) _) ?_
    exact bind_of_some (takeZone_zoneChars h.offset) rfl
  have hfields : LocalTime.ofFields m.civil.date.year m.civil.date.month m.civil.date.day
      m.civil.hour m.civil.minute m.civil.second (n * 1000) = .ok m.civil :=
    LocalTime.ofFields_eq_ok_iff.2 ⟨h.civil, rfl, rfl, rfl, rfl, rfl, rfl, hus.symm⟩
  unfold readDate
  rw [hsplit]
  simp only [zoneOffset_zoneChars h.offset, Text.digitsValue_padded, Bool.false_eq_true, if_false,
    hfields]

/-! ## What is read -/

theorem takeDigits_eq_some {n : Nat} {s digits rest : List Char}
    (h : takeDigits n s = some (digits, rest)) : digits.length = n := by
  unfold takeDigits at h
  simp only at h
  split at h
  · rename_i hc
    simp only [Option.some.injEq, Prod.mk.injEq] at h
    simp only [Bool.and_eq_true, beq_iff_eq] at hc
    rw [← h.1]
    exact hc.1
  · simp at h

/-- A fraction has three digits, or there is none. -/
theorem millis_of_splitDate {s : List Char} {d : DateParts} (h : splitDate s = some d) :
    d.millis.length ≤ 3 := by
  obtain ⟨⟨year, _⟩, -, h⟩ := Option.bind_eq_some_iff.1 h
  obtain ⟨_, -, h⟩ := Option.bind_eq_some_iff.1 h
  obtain ⟨⟨month, _⟩, -, h⟩ := Option.bind_eq_some_iff.1 h
  obtain ⟨_, -, h⟩ := Option.bind_eq_some_iff.1 h
  obtain ⟨⟨day, _⟩, -, h⟩ := Option.bind_eq_some_iff.1 h
  obtain ⟨_, -, h⟩ := Option.bind_eq_some_iff.1 h
  obtain ⟨⟨hour, _⟩, -, h⟩ := Option.bind_eq_some_iff.1 h
  obtain ⟨_, -, h⟩ := Option.bind_eq_some_iff.1 h
  obtain ⟨⟨minute, _⟩, -, h⟩ := Option.bind_eq_some_iff.1 h
  obtain ⟨_, -, h⟩ := Option.bind_eq_some_iff.1 h
  obtain ⟨⟨second, rest⟩, -, h⟩ := Option.bind_eq_some_iff.1 h
  simp only at h
  split at h
  · obtain ⟨⟨millis, _⟩, hmillis, h⟩ := Option.bind_eq_some_iff.1 h
    obtain ⟨zone, -, h⟩ := Option.bind_eq_some_iff.1 h
    obtain rfl := Option.some.inj h
    exact Nat.le_of_eq (takeDigits_eq_some hmillis)
  · obtain ⟨⟨millis, _⟩, hmillis, h⟩ := Option.bind_eq_some_iff.1 h
    obtain ⟨zone, -, h⟩ := Option.bind_eq_some_iff.1 h
    obtain rfl := Option.some.inj h
    simp only [Option.some.injEq, Prod.mk.injEq] at hmillis
    simp [← hmillis.1]

theorem natAbs_zoneOffset {zone : List Char} {offset : Int} (h : zoneOffset zone = .ok offset) :
    offset.natAbs < 24 * 60 := by
  unfold zoneOffset at h
  split at h
  · split at h
    · rw [← Except.ok.inj h]
      decide
    · simp only [Bool.or_eq_true, decide_eq_true_eq] at h
      split at h
      · simp at h
      · rw [← Except.ok.inj h]
        split <;> omega
  · rw [← Except.ok.inj h]
    decide

theorem writable_of_readDate {text : String} {m : Moment} (h : readDate text = .ok m) :
    m.Writable := by
  unfold readDate at h
  split at h
  · simp at h
  rename_i d hd
  split at h
  · simp at h
  rename_i offset hoffset
  simp only at h
  cases hcivil : LocalTime.ofFields
      (if d.negative then -(Text.digitsValue d.year : Int) else Text.digitsValue d.year)
      (Text.digitsValue d.month) (Text.digitsValue d.day) (Text.digitsValue d.hour)
      (Text.digitsValue d.minute) (Text.digitsValue d.second)
      (Text.digitsValue d.millis * 1000) with
  | error fault =>
    rw [hcivil] at h
    simp at h
  | ok civil =>
  rw [hcivil] at h
  obtain rfl := Except.ok.inj h
  obtain ⟨hvalid, -, -, -, -, -, -, hus⟩ := LocalTime.ofFields_eq_ok_iff.1 hcivil
  have hmillis : Text.digitsValue d.millis < 1000 :=
    Nat.lt_of_lt_of_le (Text.digitsValue_lt d.millis)
      (Nat.pow_le_pow_right (by decide) (millis_of_splitDate hd))
  exact ⟨hvalid, ⟨_, hmillis, hus.symm⟩, natAbs_zoneOffset hoffset⟩

end Literal

end Cnd
