import Cnd.Constraint
import Cnd.Proofs.Calendar

/-!
Which texts are date literals.

`IsDate` writes the form down: digits of any scripts for the fields, with an optional sign in front,
an optional fraction of milliseconds and a zone behind. A text is read as a moment just if it is a
date literal of it, and values compare as the instants that they denote (`readDate_denotes`).
-/

namespace Cnd.Literal

/-! ## The form of a date literal -/

/-- So many decimal digits of any scripts. -/
def IsRun (count : Nat) (s : List Char) : Prop := s.length = count ∧ ∀ c ∈ s, Text.isDigit c = true

/-- So many decimal digits that denote a number. -/
def AreDigits (count : Nat) (s : List Char) (n : Nat) : Prop :=
  IsRun count s ∧ Text.digitsValue s = n

/-- The sign in front of a number, and whether it is a minus. -/
inductive IsSign : List Char → Bool → Prop where
  | none : IsSign [] false
  | plus : IsSign ['+'] false
  | minus : IsSign ['-'] true

/-- Three digits behind a point, or nothing, and the digits. -/
inductive IsFraction : List Char → List Char → Prop where
  | none : IsFraction [] []
  | some {s : List Char} (h : IsRun 3 s) : IsFraction ('.' :: s) s

/-- Two digits for the hours, a colon and two for the minutes, and the distance in minutes. -/
inductive IsDistance : List Char → Int → Prop where
  | mk {hours minutes : List Char} {h m : Nat} (hh : AreDigits 2 hours h) (hm : AreDigits 2 minutes m)
      (hhours : h ≤ 23) (hminutes : m ≤ 59) : IsDistance (hours ++ ':' :: minutes) (h * 60 + m)

/-- The letter of UTC, or a sign and a distance from it, and the offset in minutes. -/
inductive IsZone : List Char → Int → Prop where
  | utc : IsZone ['Z'] 0
  | ahead {s : List Char} {distance : Int} (h : IsDistance s distance) : IsZone ('+' :: s) distance
  | back {s : List Char} {distance : Int} (h : IsDistance s distance) : IsZone ('-' :: s) (-distance)

/-- The text is a date literal of a moment: its parts denote the fields of the moment, which are those
of a day of the calendar and a time of day, and its offset. -/
def IsDate (text : List Char) (m : Moment) : Prop :=
  ∃ sign negative year month day hour minute second fraction millis zone,
    text = sign ++ (year ++ '-' :: (month ++ '-' :: (day ++ 'T' :: (hour ++ ':' :: (minute ++ ':' ::
      (second ++ (fraction ++ zone))))))) ∧
    IsSign sign negative ∧
    (∃ y : Nat, AreDigits 4 year y ∧ (if negative then -(y : Int) else y) = m.civil.date.year) ∧
    AreDigits 2 month m.civil.date.month ∧ AreDigits 2 day m.civil.date.day ∧
    AreDigits 2 hour m.civil.hour ∧ AreDigits 2 minute m.civil.minute ∧
    AreDigits 2 second m.civil.second ∧
    IsFraction fraction millis ∧ Text.digitsValue millis * 1000 = m.civil.microsecond ∧
    IsZone zone m.offset ∧ m.civil.Valid

/-! ## The parts of a text -/

theorem takeDigits_eq_some_iff {n : Nat} {s digits rest : List Char} :
    takeDigits n s = some (digits, rest) ↔
      s = digits ++ rest ∧ IsRun n digits := by
  unfold takeDigits IsRun
  simp only [Option.ite_none_right_eq_some, Bool.and_eq_true, beq_iff_eq, List.all_eq_true,
    Option.some.injEq, Prod.mk.injEq]
  constructor
  · rintro ⟨⟨hl, hd⟩, rfl, rfl⟩
    exact ⟨(List.take_append_drop n s).symm, hl, hd⟩
  · rintro ⟨rfl, rfl, hd⟩
    simpa using hd

theorem takeChar_eq_some_iff {c : Char} {s rest : List Char} :
    takeChar c s = some rest ↔ s = c :: rest := by
  cases s with
  | nil => simp [takeChar]
  | cons d s => simp [takeChar]

section

variable {α : Type} {s : List Char} {b : α}

theorem bind_takeDigits_eq_some {n : Nat} {f : List Char × List Char → Option α} :
    (takeDigits n s >>= f) = some b ↔
      ∃ digits rest, s = digits ++ rest ∧ IsRun n digits ∧ f (digits, rest) = some b := by
  simp only [Option.bind_eq_bind, Option.bind_eq_some_iff, Prod.exists, takeDigits_eq_some_iff,
    and_assoc]

theorem bind_takeChar_eq_some {c : Char} {f : List Char → Option α} :
    (takeChar c s >>= f) = some b ↔ ∃ rest, s = c :: rest ∧ f rest = some b := by
  simp only [Option.bind_eq_bind, Option.bind_eq_some_iff, takeChar_eq_some_iff]

end

/-- A sign is taken from what stands in front of a text that begins with a digit. -/
theorem splitSign_eq_iff {s body : List Char} {negative : Bool}
    (h : ∃ c ∈ body.head?, Text.isDigit c = true) :
    Numeral.splitSign s = (negative, body) ↔ ∃ sign, s = sign ++ body ∧ IsSign sign negative := by
  obtain ⟨c, hc, hdigit⟩ := h
  constructor
  · intro hs
    unfold Numeral.splitSign at hs
    split at hs <;> obtain ⟨rfl, rfl⟩ := Prod.mk.inj hs
    · exact ⟨['-'], rfl, .minus⟩
    · exact ⟨['+'], rfl, .plus⟩
    · exact ⟨[], rfl, .none⟩
  · rintro ⟨sign, rfl, hsign⟩
    cases hsign with
    | plus | minus => rfl
    | none =>
      unfold Numeral.splitSign
      split
      · rename_i heq
        rw [List.nil_append] at heq
        rw [heq] at hc
        obtain rfl := Option.some.inj hc
        exact absurd hdigit (by decide)
      · rename_i heq
        rw [List.nil_append] at heq
        rw [heq] at hc
        obtain rfl := Option.some.inj hc
        exact absurd hdigit (by decide)
      · rfl

/-- A zone is a letter or a sign with two numbers of two digits, of whatever worth. -/
inductive IsZoneText : List Char → Prop where
  | utc : IsZoneText ['Z']
  | distance {sign : Char} {hours minutes : List Char} (hs : sign = '+' ∨ sign = '-')
      (hh : IsRun 2 hours) (hm : IsRun 2 minutes) :
      IsZoneText (sign :: (hours ++ ':' :: minutes))

theorem takeZone_eq_some_iff {s zone : List Char} :
    takeZone s = some zone ↔ s = zone ∧ IsZoneText zone := by
  constructor
  · intro h
    unfold takeZone at h
    split at h
    · exact ⟨Option.some.inj h, Option.some.inj h ▸ .utc⟩
    · rename_i sign rest _
      split at h
      · simp at h
      · rename_i hsign
        simp only [Option.bind_eq_bind, Option.bind_eq_some_iff, Prod.exists,
          takeDigits_eq_some_iff, takeChar_eq_some_iff] at h
        obtain ⟨hours, _, ⟨rfl, hh⟩, _, rfl, minutes, last, ⟨rfl, hm⟩, hlast⟩ := h
        simp only [Option.ite_none_right_eq_some, List.isEmpty_iff, Option.some.injEq] at hlast
        obtain ⟨rfl, rfl⟩ := hlast
        rw [List.append_nil]
        refine ⟨rfl, .distance ?_ hh hm⟩
        simpa [Classical.or_iff_not_imp_left] using hsign
    · simp at h
  · rintro ⟨rfl, hzone⟩
    cases hzone with
    | utc => rfl
    | @distance sign hours minutes hs hh hm =>
      have hhours : takeDigits 2 (hours ++ ':' :: minutes) = some (hours, ':' :: minutes) :=
        takeDigits_eq_some_iff.2 ⟨rfl, hh⟩
      have hminutes : takeDigits 2 minutes = some (minutes, []) :=
        takeDigits_eq_some_iff.2 ⟨(List.append_nil _).symm, hm⟩
      rcases hs with rfl | rfl <;>
        simp [takeZone, hhours, takeChar_self, hminutes]

/-- The parts are those of the text, in the form that dates have. -/
structure AreParts (s : List Char) (d : DateParts) : Prop where
  text : ∃ sign fraction, s = sign ++ (d.year ++ '-' :: (d.month ++ '-' :: (d.day ++ 'T' :: (d.hour ++
      ':' :: (d.minute ++ ':' :: (d.second ++ (fraction ++ d.zone))))))) ∧
    IsSign sign d.negative ∧ IsFraction fraction d.millis
  year : IsRun 4 d.year
  month : IsRun 2 d.month
  day : IsRun 2 d.day
  hour : IsRun 2 d.hour
  minute : IsRun 2 d.minute
  second : IsRun 2 d.second
  zone : IsZoneText d.zone

theorem exists_head_of_isRun {n : Nat} {s : List Char} (h : IsRun (n + 1) s) (rest : List Char) :
    ∃ c ∈ (s ++ rest).head?, Text.isDigit c = true := by
  obtain ⟨hl, hd⟩ := h
  cases s with
  | nil => simp at hl
  | cons c s => exact ⟨c, rfl, hd c List.mem_cons_self⟩

theorem AreParts.of_splitDate {s : List Char} {d : DateParts} (h : splitDate s = some d) :
    AreParts s d := by
  unfold splitDate at h
  cases hs : Numeral.splitSign s with
  | mk negative body =>
  rw [hs] at h
  obtain ⟨year, _, rfl, hyear, h⟩ := bind_takeDigits_eq_some.1 h
  obtain ⟨_, rfl, h⟩ := bind_takeChar_eq_some.1 h
  obtain ⟨month, _, rfl, hmonth, h⟩ := bind_takeDigits_eq_some.1 h
  obtain ⟨_, rfl, h⟩ := bind_takeChar_eq_some.1 h
  obtain ⟨day, _, rfl, hday, h⟩ := bind_takeDigits_eq_some.1 h
  obtain ⟨_, rfl, h⟩ := bind_takeChar_eq_some.1 h
  obtain ⟨hour, _, rfl, hhour, h⟩ := bind_takeDigits_eq_some.1 h
  obtain ⟨_, rfl, h⟩ := bind_takeChar_eq_some.1 h
  obtain ⟨minute, _, rfl, hminute, h⟩ := bind_takeDigits_eq_some.1 h
  obtain ⟨_, rfl, h⟩ := bind_takeChar_eq_some.1 h
  obtain ⟨second, rest, rfl, hsecond, h⟩ := bind_takeDigits_eq_some.1 h
  have hparts : ∃ fraction millis zone, rest = fraction ++ zone ∧ IsFraction fraction millis ∧
      IsZoneText zone ∧ ⟨negative, year, month, day, hour, minute, second, millis, zone⟩ = d := by
    dsimp only at h
    split at h
    · obtain ⟨millis, _, rfl, hrun, h⟩ := bind_takeDigits_eq_some.1 h
      obtain ⟨zone, hlast, h⟩ := Option.bind_eq_some_iff.1 h
      obtain ⟨rfl, hzone⟩ := takeZone_eq_some_iff.1 hlast
      exact ⟨_, millis, _, rfl, .some hrun, hzone, Option.some.inj h⟩
    · obtain ⟨⟨millis, last⟩, hnone, h⟩ := Option.bind_eq_some_iff.1 h
      obtain ⟨rfl, rfl⟩ := Prod.mk.inj (Option.some.inj hnone)
      obtain ⟨zone, hlast, h⟩ := Option.bind_eq_some_iff.1 h
      obtain ⟨rfl, hzone⟩ := takeZone_eq_some_iff.1 hlast
      exact ⟨[], [], _, rfl, .none, hzone, Option.some.inj h⟩
  obtain ⟨fraction, millis, zone, rfl, hfraction, hzone, rfl⟩ := hparts
  obtain ⟨sign, rfl, hsign⟩ := (splitSign_eq_iff (exists_head_of_isRun hyear _)).1 hs
  exact ⟨⟨sign, fraction, rfl, hsign, hfraction⟩, hyear, hmonth, hday, hhour, hminute, hsecond, hzone⟩

theorem AreParts.splitDate_eq {s : List Char} {d : DateParts} (h : AreParts s d) :
    splitDate s = some d := by
  obtain ⟨negative, year, month, day, hour, minute, second, millis, zone⟩ := d
  obtain ⟨⟨sign, fraction, rfl, hsign, hfraction⟩, hyear, hmonth, hday, hhour, hminute, hsecond,
    hzone⟩ := h
  unfold splitDate
  rw [(splitSign_eq_iff (exists_head_of_isRun hyear _)).2 ⟨sign, rfl, hsign⟩]
  refine bind_of_some (takeDigits_eq_some_iff.2 ⟨rfl, hyear⟩) ?_
  refine bind_of_some (takeChar_self _ _) ?_
  refine bind_of_some (takeDigits_eq_some_iff.2 ⟨rfl, hmonth⟩) ?_
  refine bind_of_some (takeChar_self _ _) ?_
  refine bind_of_some (takeDigits_eq_some_iff.2 ⟨rfl, hday⟩) ?_
  refine bind_of_some (takeChar_self _ _) ?_
  refine bind_of_some (takeDigits_eq_some_iff.2 ⟨rfl, hhour⟩) ?_
  refine bind_of_some (takeChar_self _ _) ?_
  refine bind_of_some (takeDigits_eq_some_iff.2 ⟨rfl, hminute⟩) ?_
  refine bind_of_some (takeChar_self _ _) ?_
  refine bind_of_some (takeDigits_eq_some_iff.2 ⟨rfl, hsecond⟩) ?_
  have hlast : takeZone zone = some zone := takeZone_eq_some_iff.2 ⟨rfl, hzone⟩
  cases hfraction with
  | some hrun =>
    refine bind_of_some (takeDigits_eq_some_iff.2 ⟨rfl, hrun⟩) ?_
    exact bind_of_some hlast rfl
  | none =>
    -- A zone does not begin with a point.
    cases hzone with
    | utc => exact bind_of_some rfl (bind_of_some hlast rfl)
    | distance hs =>
      rcases hs with rfl | rfl
      · exact bind_of_some rfl (bind_of_some hlast rfl)
      · exact bind_of_some rfl (bind_of_some hlast rfl)

theorem splitDate_eq_some_iff {s : List Char} {d : DateParts} :
    splitDate s = some d ↔ AreParts s d :=
  ⟨.of_splitDate, AreParts.splitDate_eq⟩

/-! ## The worth of the parts -/

/-- The distance that a sign and two numbers give, if they are in range. -/
theorem zoneOffset_distance {sign : Char} {hours minutes : List Char} (hs : sign = '+' ∨ sign = '-')
    (hh : IsRun 2 hours) (hm : IsRun 2 minutes) {offset : Int} :
    zoneOffset (sign :: (hours ++ ':' :: minutes)) = .ok offset ↔
      (Text.digitsValue hours ≤ 23 ∧ Text.digitsValue minutes ≤ 59) ∧
        (if sign = '-' then -(Text.digitsValue hours * 60 + Text.digitsValue minutes : Int)
          else Text.digitsValue hours * 60 + Text.digitsValue minutes) = offset := by
  have hfront : (hours ++ ':' :: minutes).take 2 = hours := by
    rw [← hh.1, List.take_left]
  have hbehind : ((hours ++ ':' :: minutes).drop 3).take 2 = minutes := by
    rw [List.drop_append, hh.1, List.drop_of_length_le (by rw [hh.1]; decide)]
    simp [List.take_of_length_le (Nat.le_of_eq hm.1)]
  unfold zoneOffset
  simp only [hfront, hbehind]
  rw [if_neg (by rcases hs with rfl | rfl <;> decide)]
  by_cases hrange : Text.digitsValue hours ≤ 23 ∧ Text.digitsValue minutes ≤ 59
  · rw [if_neg (by simp only [Bool.or_eq_true, decide_eq_true_eq]; omega)]
    rcases hs with rfl | rfl <;> simp [hrange]
  · rw [if_pos (by simp only [Bool.or_eq_true, decide_eq_true_eq]; omega)]
    simp [hrange]

theorem isDistance_iff {hours minutes : List Char} (hh : IsRun 2 hours) (hm : IsRun 2 minutes)
    {distance : Int} :
    IsDistance (hours ++ ':' :: minutes) distance ↔
      (Text.digitsValue hours ≤ 23 ∧ Text.digitsValue minutes ≤ 59) ∧
        (Text.digitsValue hours * 60 + Text.digitsValue minutes : Int) = distance := by
  constructor
  · intro h
    generalize hs : hours ++ ':' :: minutes = s at h
    obtain ⟨⟨hh', rfl⟩, ⟨hm', rfl⟩, hhours, hminutes⟩ := h
    obtain ⟨rfl, hrest⟩ := List.append_inj hs (hh.1.trans hh'.1.symm)
    obtain rfl := (List.cons.inj hrest).2
    exact ⟨⟨hhours, hminutes⟩, rfl⟩
  · rintro ⟨⟨hhours, hminutes⟩, rfl⟩
    exact .mk ⟨hh, rfl⟩ ⟨hm, rfl⟩ hhours hminutes

theorem zoneOffset_eq_ok_iff {zone : List Char} {offset : Int} (h : IsZoneText zone) :
    zoneOffset zone = .ok offset ↔ IsZone zone offset := by
  cases h with
  | utc =>
    constructor
    · intro h
      obtain rfl := Except.ok.inj h
      exact .utc
    · intro h
      cases h
      rfl
  | @distance sign hours minutes hs hh hm =>
    rw [zoneOffset_distance hs hh hm]
    rcases hs with rfl | rfl
    · rw [if_neg (by decide), ← isDistance_iff hh hm]
      constructor
      · exact .ahead
      · intro h
        cases h with
        | ahead h => exact h
    · rw [if_pos rfl]
      constructor
      · rintro ⟨hrange, rfl⟩
        exact .back ((isDistance_iff hh hm).2 ⟨hrange, rfl⟩)
      · intro h
        cases h with
        | back h =>
          obtain ⟨hrange, rfl⟩ := (isDistance_iff hh hm).1 h
          exact ⟨hrange, rfl⟩

theorem IsZone.isZoneText {zone : List Char} {offset : Int} (h : IsZone zone offset) :
    IsZoneText zone := by
  cases h with
  | utc => exact .utc
  | ahead h =>
    obtain ⟨hh, hm, -, -⟩ := h
    exact .distance (.inl rfl) hh.1 hm.1
  | back h =>
    obtain ⟨hh, hm, -, -⟩ := h
    exact .distance (.inr rfl) hh.1 hm.1

/-- A text is read part by part: its zone, and the fields of the local time. -/
theorem readDate_eq_ok_iff_parts {text : String} {m : Moment} :
    readDate text = .ok m ↔ ∃ d, AreParts text.toList d ∧ IsZone d.zone m.offset ∧
      LocalTime.ofFields (if d.negative then -(Text.digitsValue d.year : Int)
        else Text.digitsValue d.year) (Text.digitsValue d.month) (Text.digitsValue d.day)
        (Text.digitsValue d.hour) (Text.digitsValue d.minute) (Text.digitsValue d.second)
        (Text.digitsValue d.millis * 1000) = .ok m.civil := by
  simp only [← splitDate_eq_some_iff]
  unfold readDate
  cases hd : splitDate text.toList with
  | none => simp
  | some d =>
    have hzone := (splitDate_eq_some_iff.1 hd).zone
    simp only [Option.some.injEq, exists_eq_left', ← zoneOffset_eq_ok_iff hzone]
    cases zoneOffset d.zone with
    | error e => simp
    | ok offset =>
      obtain ⟨civil, offset'⟩ := m
      dsimp only
      cases LocalTime.ofFields _ _ _ _ _ _ _ with
      | error fault => simp
      | ok t => simp [and_comm]

theorem readDate_eq_ok_iff {text : String} {m : Moment} :
    readDate text = .ok m ↔ IsDate text.toList m := by
  rw [readDate_eq_ok_iff_parts]
  simp only [LocalTime.ofFields_eq_ok_iff]
  constructor
  · rintro ⟨d, ⟨⟨sign, fraction, ht, hsign, hfraction⟩, hyear, hmonth, hday, hhour, hminute, hsecond, -⟩,
      hzone, hvalid, hy, hmo, hda, hh, hmi, hs, hus⟩
    exact ⟨sign, d.negative, d.year, d.month, d.day, d.hour, d.minute, d.second, fraction, d.millis,
      d.zone, ht, hsign, ⟨_, ⟨hyear, rfl⟩, hy⟩, ⟨hmonth, hmo⟩, ⟨hday, hda⟩, ⟨hhour, hh⟩, ⟨hminute, hmi⟩,
      ⟨hsecond, hs⟩, hfraction, hus, hzone, hvalid⟩
  · rintro ⟨sign, negative, year, month, day, hour, minute, second, fraction, millis, zone, ht, hsign,
      ⟨y, ⟨hyear, rfl⟩, hy⟩, ⟨hmonth, hmo⟩, ⟨hday, hda⟩, ⟨hhour, hh⟩, ⟨hminute, hmi⟩, ⟨hsecond, hs⟩,
      hfraction, hus, hzone, hvalid⟩
    exact ⟨⟨negative, year, month, day, hour, minute, second, millis, zone⟩,
      ⟨⟨sign, fraction, ht, hsign, hfraction⟩, hyear, hmonth, hday, hhour, hminute, hsecond,
        hzone.isZoneText⟩, hzone, hvalid, hy, hmo, hda, hh, hmi, hs, hus⟩

/-! ## Dates as values -/

/-- **Date literals denote moments.** A text is read just if it is a date literal, and as the moment
whose fields and offset it writes; any other text is refused. What is read is at one instant, counted
day by day through the calendar; two values are equal just if their instants are, and one is below the
other just if its instant is. -/
theorem readDate_denotes (text : String) :
    (∀ m, readDate text = .ok m ↔ IsDate text.toList m) ∧
    ((∀ m, ¬IsDate text.toList m) → ∃ fault, readDate text = .error fault) ∧
    (∀ m, readDate text = .ok m → ∃! x, m.IsAt x) ∧
    ∀ text' m m' x x', readDate text = .ok m → readDate text' = .ok m' → m.IsAt x → m'.IsAt x' →
      (Constraint.momentComparison.eq m m' = true ↔ x = x') ∧
      (Constraint.momentComparison.lt m m' = true ↔ x < x') := by
  refine ⟨fun m => readDate_eq_ok_iff, fun hno => ?_, fun m hm => ?_, ?_⟩
  · cases h : readDate text with
    | ok m => exact absurd (readDate_eq_ok_iff.1 h) (hno m)
    | error fault => exact ⟨fault, rfl⟩
  · have hvalid := (writable_of_readDate hm).civil
    refine ⟨m.instant - 86400000000, (Moment.isAt_iff hvalid).2 (by omega), fun x hx => ?_⟩
    have := (Moment.isAt_iff hvalid).1 hx
    omega
  · intro text' m m' x x' hm hm' hx hx'
    rw [Moment.isAt_iff (writable_of_readDate hm).civil] at hx
    rw [Moment.isAt_iff (writable_of_readDate hm').civil] at hx'
    simp only [Constraint.momentComparison, decide_eq_true_eq, beq_iff_eq]
    omega

/-- Two literals, one with digits of another script, of the minute in front of the first day. -/
theorem readDate_denotes_before_first :
    let m : Moment := ⟨⟨⟨1, 1, 1⟩, 0, 0, 0, 0⟩, 1⟩
    let m' : Moment := ⟨⟨⟨1, 1, 1⟩, 0, 59, 0, 0⟩, 60⟩
    readDate "0001-01-01T00:00:00+00:01" = .ok m ∧
      readDate "+٠٠٠١-01-01T00:59:00.000+01:00" = .ok m' ∧
      m.IsAt (-60000000) ∧ Constraint.momentComparison.eq m m' = true := by
  intro m m'
  have hm : readDate "0001-01-01T00:00:00+00:01" = .ok m := rfl
  have hm' : readDate "+٠٠٠١-01-01T00:59:00.000+01:00" = .ok m' := rfl
  have hx : m.IsAt (-60000000) := ⟨0, rfl, rfl⟩
  have hx' : m'.IsAt (-60000000) := ⟨0, rfl, rfl⟩
  obtain ⟨-, -, -, hcompare⟩ := readDate_denotes "0001-01-01T00:00:00+00:01"
  exact ⟨hm, hm', hx, (hcompare _ m m' _ _ hm hm' hx hx').1.2 rfl⟩

end Cnd.Literal
