import Cnd.Proofs.Value.Date
import Mathlib.Logic.Function.Iterate

/-!
Days of the calendar, one behind the other.

The number of a day is its place in the run of days from the first of January of year 1 on
(`next_iterate_eq_iff`), where a day is followed by the next of its month, by the first of the next
month or by the first of the next year. So the instant of a moment is the time from the beginning of
that day to it, taken in UTC (`Moment.isAt_iff`).
-/

namespace Cnd

namespace CalendarDate

/-- The first day. -/
def first : CalendarDate := ⟨1, 1, 1⟩

/-- The day behind a day. -/
def next (d : CalendarDate) : CalendarDate :=
  if d.day < daysInMonth d.year d.month then ⟨d.year, d.month, d.day + 1⟩
  else if d.month < 12 then ⟨d.year, d.month + 1, 1⟩
  else ⟨d.year + 1, 1, 1⟩

/-- The days that there are, from year 1 on. -/
structure IsDay (d : CalendarDate) : Prop where
  year : 1 ≤ d.year
  month : 1 ≤ d.month ∧ d.month ≤ 12
  day : 1 ≤ d.day ∧ d.day ≤ daysInMonth d.year d.month

theorem isDay_first : IsDay first := ⟨by decide, by decide, by decide⟩

theorem daysInMonth_pos (year month : Nat) : 1 ≤ daysInMonth year month := by
  unfold daysInMonth
  split
  · split <;> omega
  all_goals omega

theorem isDay_next {d : CalendarDate} (h : d.IsDay) : d.next.IsDay := by
  obtain ⟨hy, hm, hd⟩ := h
  unfold next
  split
  · exact ⟨hy, hm, by simp only; omega⟩
  · split
    · exact ⟨hy, by simp only; omega, Nat.le_refl 1, daysInMonth_pos _ _⟩
    · exact ⟨Nat.le_succ_of_le hy, by simp, Nat.le_refl 1, daysInMonth_pos _ _⟩

/-! ## Days in front of a year and of a month -/

def daysInYear (year : Nat) : Nat := if isLeapYear year then 366 else 365

/-- A multiple more is passed where the next number is one. -/
theorem succ_div_eq (y k : Nat) : (y + 1) / k = y / k + if (y + 1) % k = 0 then 1 else 0 := by
  rw [Nat.succ_div]
  simp only [Nat.dvd_iff_mod_eq_zero]

theorem daysBeforeYear_succ {year : Nat} (h : 1 ≤ year) :
    daysBeforeYear (year + 1) = daysBeforeYear year + daysInYear year := by
  obtain ⟨y, rfl⟩ := Nat.exists_eq_add_of_le' h
  have hcenturies : y / 100 ≤ y / 4 := Nat.div_le_div_left (by decide) (by decide)
  have h100 : (y + 1) % 100 = 0 → (y + 1) % 4 = 0 := by omega
  have h400 : (y + 1) % 400 = 0 → (y + 1) % 100 = 0 := by omega
  unfold daysBeforeYear daysInYear isLeapYear
  simp only [Nat.add_sub_cancel, succ_div_eq, Bool.and_eq_true, Bool.or_eq_true, beq_iff_eq,
    bne_iff_ne, ne_eq]
  by_cases hfour : (y + 1) % 4 = 0
  · by_cases hhundred : (y + 1) % 100 = 0
    · by_cases hfourhundred : (y + 1) % 400 = 0
      · simp only [hfour, hhundred, hfourhundred, not_true, or_true, and_self, if_true]
        omega
      · simp only [hfour, hhundred, hfourhundred, not_true, or_false, and_false, if_true, if_false]
        omega
    · have hno : ¬(y + 1) % 400 = 0 := fun hz => hhundred (h400 hz)
      simp only [hfour, hhundred, hno, not_false_iff, or_false, and_self, if_true, if_false]
      omega
  · have hno : ¬(y + 1) % 100 = 0 := fun hz => hfour (h100 hz)
    have hno' : ¬(y + 1) % 400 = 0 := fun hz => hno (h400 hz)
    simp only [hfour, hno, hno', false_and, if_false]
    omega

theorem daysBeforeYear_le {y z : Nat} (hy : 1 ≤ y) (h : y ≤ z) :
    daysBeforeYear y ≤ daysBeforeYear z := by
  induction z, h using Nat.le_induction with
  | base => exact Nat.le_refl _
  | succ z hz ih =>
    rw [daysBeforeYear_succ (Nat.le_trans hy hz)]
    omega

theorem daysBeforeMonth_succ {month : Nat} (year : Nat) (h : 1 ≤ month) :
    daysBeforeMonth year (month + 1) = daysBeforeMonth year month + daysInMonth year month := by
  obtain ⟨m, rfl⟩ := Nat.exists_eq_add_of_le' h
  simp [daysBeforeMonth, List.range_succ]

theorem daysBeforeMonth_le (year : Nat) {m n : Nat} (hm : 1 ≤ m) (h : m ≤ n) :
    daysBeforeMonth year m ≤ daysBeforeMonth year n := by
  induction n, h using Nat.le_induction with
  | base => exact Nat.le_refl _
  | succ n hn ih =>
    rw [daysBeforeMonth_succ year (Nat.le_trans hm hn)]
    omega

theorem daysBeforeMonth_year (year : Nat) : daysBeforeMonth year (12 + 1) = daysInYear year := by
  unfold daysInYear
  split <;> rename_i hleap <;> simp [daysBeforeMonth, List.range_succ, daysInMonth, hleap]

/-! ## Numbers of days -/

theorem ordinal_first : ordinal first = 1 := by decide

/-- A day lies behind the days in front of its month, and in front of the next month. -/
theorem IsDay.ordinal_bounds {d : CalendarDate} (h : d.IsDay) :
    daysBeforeYear d.year + daysBeforeMonth d.year d.month < d.ordinal ∧
      d.ordinal ≤ daysBeforeYear d.year + daysBeforeMonth d.year (d.month + 1) := by
  obtain ⟨-, hm, hd⟩ := h
  rw [daysBeforeMonth_succ _ hm.1, ordinal]
  omega

theorem IsDay.ordinal_next {d : CalendarDate} (h : d.IsDay) : d.next.ordinal = d.ordinal + 1 := by
  obtain ⟨hy, hm, hd⟩ := h
  unfold next
  split
  · simp only [ordinal]
    omega
  · rename_i hlast
    have hmonth := daysBeforeMonth_succ d.year hm.1
    split
    · simp only [ordinal]
      omega
    · have htwelve : d.month = 12 := by omega
      have hyear : daysBeforeMonth d.year (12 + 1) = daysInYear d.year := daysBeforeMonth_year d.year
      have hnone : daysBeforeMonth (d.year + 1) 1 = 0 := rfl
      rw [htwelve] at hmonth hlast hd
      simp only [ordinal, daysBeforeYear_succ hy, htwelve, hnone]
      omega

/-- Before a day in the order of year, month and day. -/
def Before (d e : CalendarDate) : Prop :=
  d.year < e.year ∨ d.year = e.year ∧ (d.month < e.month ∨ d.month = e.month ∧ d.day < e.day)

theorem IsDay.ordinal_lt {d e : CalendarDate} (hd : d.IsDay) (he : e.IsDay) (h : d.Before e) :
    d.ordinal < e.ordinal := by
  have hdb := hd.ordinal_bounds
  have heb := he.ordinal_bounds
  rcases h with hyear | ⟨hyear, hmonth | ⟨hmonth, hday⟩⟩
  · have hlast : daysBeforeMonth d.year (d.month + 1) ≤ daysBeforeMonth d.year (12 + 1) :=
      daysBeforeMonth_le d.year (Nat.le_add_left 1 _) (Nat.add_le_add_right hd.month.2 1)
    rw [daysBeforeMonth_year] at hlast
    have hnext := daysBeforeYear_le (Nat.le_succ_of_le hd.year) hyear
    rw [daysBeforeYear_succ hd.year] at hnext
    omega
  · have hnext : daysBeforeMonth d.year (d.month + 1) ≤ daysBeforeMonth d.year e.month :=
      daysBeforeMonth_le d.year (Nat.le_add_left 1 _) hmonth
    rw [hyear] at hnext hdb
    omega
  · simp only [ordinal, hyear, hmonth]
    omega

theorem IsDay.ordinal_injective {d e : CalendarDate} (hd : d.IsDay) (he : e.IsDay)
    (h : d.ordinal = e.ordinal) : d = e := by
  have hde : ¬d.Before e := fun hb => absurd (hd.ordinal_lt he hb) (by omega)
  have hed : ¬e.Before d := fun hb => absurd (he.ordinal_lt hd hb) (by omega)
  obtain ⟨y, m, n⟩ := d
  obtain ⟨y', m', n'⟩ := e
  simp only [Before] at hde hed
  rw [CalendarDate.mk.injEq]
  omega

theorem isDay_iterate (n : Nat) : (next^[n] first).IsDay := by
  induction n with
  | zero => exact isDay_first
  | succ n ih =>
    rw [Function.iterate_succ_apply']
    exact isDay_next ih

theorem ordinal_iterate (n : Nat) : (next^[n] first).ordinal = n + 1 := by
  induction n with
  | zero => exact ordinal_first
  | succ n ih => rw [Function.iterate_succ_apply', (isDay_iterate n).ordinal_next, ih]

/-- **The number of a day counts the days up to it.** -/
theorem IsDay.next_iterate_eq_iff {d : CalendarDate} (h : d.IsDay) {n : Nat} :
    next^[n] first = d ↔ d.ordinal = n + 1 := by
  constructor
  · rintro rfl
    exact ordinal_iterate n
  · intro ho
    exact (isDay_iterate n).ordinal_injective h ((ordinal_iterate n).trans ho.symm)

end CalendarDate

/-! ## Instants -/

theorem LocalTime.Valid.isDay {t : LocalTime} (h : t.Valid) : t.date.IsDay :=
  ⟨h.year.1, h.month, h.day⟩

/-- The moment is so many microseconds behind the beginning of the first day in UTC: the whole days
up to its own, and the time of day less the distance from UTC. -/
def Moment.IsAt (m : Moment) (x : Int) : Prop :=
  ∃ days : Nat, CalendarDate.next^[days] CalendarDate.first = m.civil.date ∧
    x = (((days * 24 + m.civil.hour) * 60 + m.civil.minute - m.offset) * 60 + m.civil.second) *
      1000000 + m.civil.microsecond

/-- Instants are counted from the day in front of the first one. -/
theorem Moment.isAt_iff {m : Moment} (h : m.civil.Valid) {x : Int} :
    m.IsAt x ↔ m.instant = x + 86400000000 := by
  have hday := h.isDay
  have hpos : 1 ≤ m.civil.date.ordinal := by
    have := hday.ordinal_bounds
    omega
  unfold IsAt instant LocalTime.microseconds
  simp only [hday.next_iterate_eq_iff]
  push_cast
  constructor
  · rintro ⟨days, hdays, rfl⟩
    rw [hdays]
    push_cast
    ring
  · intro hx
    obtain ⟨days, hdays⟩ := Nat.exists_eq_add_of_le' hpos
    refine ⟨days, hdays, ?_⟩
    rw [hdays] at hx
    push_cast at hx
    linarith

end Cnd
