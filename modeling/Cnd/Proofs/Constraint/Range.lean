import Cnd.Constraint
import Cnd.Proofs.Except
import Cnd.Proofs.Text.Separator

/-!
Ranges of integers, lengths and dates.

The text of a range is what `Denotes` says: brackets around two parts with one comma between them,
each part blank or a literal (`readInterval_eq_ok_iff`). Integers, lengths and dates are all placed
on the integers, dates as instants, and a value meets a range if its place lies within the bounds
(`read_range_iff`).
-/

namespace Cnd

namespace Interval

variable {α : Type}

/-- The interval between the images of the bounds. -/
def map {β : Type} (f : α → β) (i : Interval α) : Interval β :=
  ⟨i.lower.map f, i.upper.map f, i.lowerInclusive, i.upperInclusive⟩

/-- A bound is given. -/
def IsBounded (i : Interval α) : Prop := i.lower ≠ none ∨ i.upper ≠ none

/-- Above the lower bound or on it if it belongs to the interval, and so for the upper one. -/
def Holds [LT α] (i : Interval α) (x : α) : Prop :=
  (∀ b, i.lower = some b → b < x ∨ b = x ∧ i.lowerInclusive = true) ∧
  (∀ b, i.upper = some b → x < b ∨ x = b ∧ i.upperInclusive = true)

/-- Comparing is comparing places among the integers. -/
structure Comparison.IsBy (c : Comparison α) (place : α → Int) : Prop where
  lt : ∀ a b, c.lt a b = true ↔ place a < place b
  eq : ∀ a b, c.eq a b = true ↔ place a = place b

/-- Not to lie beyond a bound, nor on one that is left out, is to lie within it. -/
theorem within_iff {beyond on : Bool} {a b : Int} (inclusive : Bool) (hbeyond : beyond = true ↔ a < b)
    (hon : on = true ↔ a = b) :
    (!(beyond || (on && !inclusive))) = true ↔ b < a ∨ b = a ∧ inclusive = true := by
  rw [Bool.not_eq_true', Bool.or_eq_false_iff, ← Bool.not_eq_true, hbeyond]
  cases inclusive
  · rw [Bool.not_false, Bool.and_true, ← Bool.not_eq_true, hon]
    simp only [Bool.false_eq_true, and_false, or_false]
    omega
  · simp only [Bool.not_true, Bool.and_false, and_true]
    omega

theorem contains_iff_holds {c : Comparison α} {place : α → Int} (hc : c.IsBy place)
    (i : Interval α) (x : α) : i.contains c x = true ↔ (i.map place).Holds (place x) := by
  have hlower : i.aboveLower c x = true ↔
      ∀ b, i.lower.map place = some b → b < place x ∨ b = place x ∧ i.lowerInclusive = true := by
    unfold aboveLower
    cases i.lower with
    | none => simp
    | some b =>
      simp only [Option.map_some, Option.some.injEq, forall_eq']
      exact within_iff _ (hc.lt x b) (hc.eq x b)
  have hupper : i.belowUpper c x = true ↔
      ∀ b, i.upper.map place = some b → place x < b ∨ place x = b ∧ i.upperInclusive = true := by
    unfold belowUpper
    cases i.upper with
    | none => simp
    | some b =>
      simp only [Option.map_some, Option.some.injEq, forall_eq']
      exact within_iff _ (hc.lt b x) ((hc.eq x b).trans eq_comm)
  rw [contains, Bool.and_eq_true, hlower, hupper]
  rfl

end Interval

namespace Constraint

variable {α β : Type}

/-! ## The text of a range -/

/-- The bound that a part of a range gives: none if it is blank, else that of its literal. -/
def IsBound (read : String → Option α) (part : List Char) (b : Option α) : Prop :=
  (Text.trim part = [] ∧ b = none) ∨
    (Text.trim part ≠ [] ∧ ∃ x, read (String.ofList (Text.trim part)) = some x ∧ b = some x)

/-- A text without the blanks around it is a bracket, a part, a comma, a part and a bracket, and
gives these bounds. -/
def Denotes (read : String → Option α) (text : String) (i : Interval α) : Prop :=
  ∃ opening lower upper closing,
    Text.trim text.toList = opening :: (lower ++ ',' :: (upper ++ [closing])) ∧
    (opening = '[' ∧ i.lowerInclusive = true ∨ opening = '(' ∧ i.lowerInclusive = false) ∧
    (closing = ']' ∧ i.upperInclusive = true ∨ closing = ')' ∧ i.upperInclusive = false) ∧
    ',' ∉ lower ∧ ',' ∉ upper ∧ IsBound read lower i.lower ∧ IsBound read upper i.upper

theorem splitRange_eq_some_iff {text : String} {p : RangeParts} :
    splitRange text = some p ↔ ∃ opening lower upper closing,
      Text.trim text.toList = opening :: (lower ++ ',' :: (upper ++ [closing])) ∧
      (opening = '[' ∧ p.lowerInclusive = true ∨ opening = '(' ∧ p.lowerInclusive = false) ∧
      (closing = ']' ∧ p.upperInclusive = true ∨ closing = ')' ∧ p.upperInclusive = false) ∧
      ',' ∉ lower ∧ ',' ∉ upper ∧
      p.lower = String.ofList (Text.trim lower) ∧ p.upper = String.ofList (Text.trim upper) := by
  unfold splitRange
  constructor
  · intro h
    split at h
    · rename_i opening rest htrim
      split at h
      · rename_i closing middle hrest
        dsimp only at h
        split at h
        · rename_i hform
          simp only [Bool.and_eq_true, Bool.or_eq_true, beq_iff_eq, Bool.not_eq_true',
            List.contains_eq_mem, decide_eq_true_eq, decide_eq_false_iff_not] at hform
          obtain ⟨⟨⟨hopening, hclosing⟩, hcomma⟩, hupper⟩ := hform
          obtain rfl := Option.some.inj h
          refine ⟨opening, _, _, closing, ?_, ?_, ?_, Text.not_mem_takeWhile_ne middle.reverse, hupper,
            rfl, rfl⟩
          · have hparts := congrArg (· ++ [closing]) (Text.takeWhile_dropWhile_ne hcomma)
            simp only [List.append_assoc, List.cons_append] at hparts
            rw [htrim, hparts, ← List.reverse_reverse rest, hrest, List.reverse_cons]
          · rcases hopening with rfl | rfl <;> simp
          · rcases hclosing with rfl | rfl <;> simp
        · simp at h
      · simp at h
    · simp at h
  · rintro ⟨opening, lower, upper, closing, htrim, hopening, hclosing, hl, hu, hpl, hpu⟩
    have hreverse : (lower ++ ',' :: (upper ++ [closing])).reverse =
        closing :: (lower ++ ',' :: upper).reverse := by simp
    have hcontains : (lower ++ ',' :: upper).contains ',' = true := by simp
    have hupper : upper.contains ',' = false := by simpa using hu
    rw [htrim]
    simp only [hreverse, List.reverse_reverse, Text.takeWhile_ne_append hl,
      Text.dropWhile_ne_append hl, List.drop_one, List.tail_cons, hcontains, hupper]
    obtain ⟨lowerInclusive, plower, pupper, upperInclusive⟩ := p
    simp only at hopening hclosing hpl hpu
    obtain rfl := hpl
    obtain rfl := hpu
    rcases hopening with ⟨rfl, rfl⟩ | ⟨rfl, rfl⟩ <;> rcases hclosing with ⟨rfl, rfl⟩ | ⟨rfl, rfl⟩ <;>
      rfl

theorem readBound_eq_ok_iff {read : String → Except ConstraintFault α} {part : List Char}
    {b : Option α} :
    readBound read (String.ofList (Text.trim part)) = .ok b ↔
      IsBound (fun s => (read s).toOption) part b := by
  unfold readBound IsBound
  by_cases h : Text.trim part = []
  · have hempty : (String.ofList (Text.trim part)).isEmpty = true := by rw [h]; rfl
    rw [if_pos hempty, Except.ok.injEq]
    exact ⟨fun hb => .inl ⟨h, hb.symm⟩, fun hb => (hb.resolve_right fun hn => hn.1 h).2.symm⟩
  · have hne : (String.ofList (Text.trim part)).isEmpty = false := by simpa using h
    rw [hne, if_neg Bool.false_ne_true, map_eq_ok]
    constructor
    · rintro ⟨x, hx, rfl⟩
      exact .inr ⟨h, x, toOption_eq_some.2 hx, rfl⟩
    · rintro (⟨hn, -⟩ | ⟨-, x, hx, rfl⟩)
      · exact absurd hn h
      · exact ⟨x, toOption_eq_some.1 hx, rfl⟩

/-- A text gives bounds just if it is split into parts that are read as these. -/
theorem denotes_iff {read : String → Except ConstraintFault α} {text : String} {i : Interval α} :
    Denotes (fun s => (read s).toOption) text i ↔ ∃ p, splitRange text = some p ∧
      readBound read p.lower = .ok i.lower ∧ readBound read p.upper = .ok i.upper ∧
      p.lowerInclusive = i.lowerInclusive ∧ p.upperInclusive = i.upperInclusive := by
  simp only [splitRange_eq_some_iff]
  constructor
  · rintro ⟨opening, lower, upper, closing, htrim, ho, hc, hl, hu, hlower, hupper⟩
    exact ⟨⟨i.lowerInclusive, _, _, i.upperInclusive⟩,
      ⟨opening, lower, upper, closing, htrim, ho, hc, hl, hu, rfl, rfl⟩,
      readBound_eq_ok_iff.2 hlower, readBound_eq_ok_iff.2 hupper, rfl, rfl⟩
  · rintro ⟨p, ⟨opening, lower, upper, closing, htrim, ho, hc, hl, hu, hpl, hpu⟩, hlower, hupper,
      hli, hui⟩
    rw [hpl, readBound_eq_ok_iff] at hlower
    rw [hpu, readBound_eq_ok_iff] at hupper
    exact ⟨opening, lower, upper, closing, htrim, hli ▸ ho, hui ▸ hc, hl, hu, hlower, hupper⟩

/-- **When a text is an interval**: it says so, has a bound, and its bounds are not crossed. -/
theorem readInterval_eq_ok_iff {read : String → Except ConstraintFault α}
    {c : Interval.Comparison α} {text : String} {i : Interval α} :
    readInterval read c text = .ok i ↔
      Denotes (fun s => (read s).toOption) text i ∧ i.IsBounded ∧
        ∀ l u, i.lower = some l → i.upper = some u → c.lt u l = false := by
  rw [denotes_iff]
  unfold readInterval
  cases splitRange text with
  | none => simp
  | some p =>
    simp only [Option.some.injEq, exists_eq_left', bind_eq_ok]
    obtain ⟨lower, upper, lowerInclusive, upperInclusive⟩ := i
    constructor
    · rintro ⟨_ | l, hl, _ | u, hu, h⟩
      · simp at h
      · obtain ⟨rfl, rfl, rfl, rfl⟩ := Interval.mk.inj (Except.ok.inj h)
        exact ⟨⟨hl, hu, rfl, rfl⟩, .inr (by simp), by simp⟩
      · obtain ⟨rfl, rfl, rfl, rfl⟩ := Interval.mk.inj (Except.ok.inj h)
        exact ⟨⟨hl, hu, rfl, rfl⟩, .inl (by simp), by simp⟩
      · dsimp only at h
        split at h
        · simp at h
        · rename_i hcross
          obtain ⟨rfl, rfl, rfl, rfl⟩ := Interval.mk.inj (Except.ok.inj h)
          exact ⟨⟨hl, hu, rfl, rfl⟩, .inl (by simp), by simpa using hcross⟩
    · rintro ⟨⟨hl, hu, rfl, rfl⟩, hb, hcross⟩
      refine ⟨lower, hl, upper, hu, ?_⟩
      rcases lower with _ | l <;> rcases upper with _ | u
      · simp [Interval.IsBounded] at hb
      · rfl
      · rfl
      · dsimp only
        rw [hcross l u rfl rfl, if_neg Bool.false_ne_true]

/-! ## Places of bounds and values -/

/-- The place that a literal has as a bound: the number itself, which as a length is not negative,
or the instant of a date. -/
def boundPlace : PropertyType → String → Option Int
  | .long, s => (Literal.readLong s).toOption
  | .binary, s => (Literal.readLong s).toOption.filter (0 ≤ ·)
  | .date, s => (Literal.readDate s).toOption.map Moment.instant
  | _, _ => none

/-- The place of a value of a type: its number, its count of bytes or its instant. -/
def valuePlace : PropertyType → Value → Option Int
  | .long, .long n => some n
  | .binary, .binary bytes => some bytes.size
  | .date, .date m => some m.instant
  | _, _ => none

/-- The text is a range of a type with these places as bounds, of which one is given; the lower one
is not above the upper one. -/
def IsRange (type : PropertyType) (text : String) (i : Interval Int) : Prop :=
  Denotes (boundPlace type) text i ∧ i.IsBounded ∧
    ∀ l u, i.lower = some l → i.upper = some u → l ≤ u

theorem isBound_map {read : String → Option α} {f : α → β} {part : List Char} {b : Option β} :
    IsBound (fun s => (read s).map f) part b ↔ ∃ a, IsBound read part a ∧ a.map f = b := by
  unfold IsBound
  constructor
  · rintro (⟨h, rfl⟩ | ⟨h, x, hx, rfl⟩)
    · exact ⟨none, .inl ⟨h, rfl⟩, rfl⟩
    · obtain ⟨a, ha, rfl⟩ := Option.map_eq_some_iff.1 hx
      exact ⟨some a, .inr ⟨h, a, ha, rfl⟩, rfl⟩
  · rintro ⟨a, ⟨h, rfl⟩ | ⟨h, x, hx, rfl⟩, rfl⟩
    · exact .inl ⟨h, rfl⟩
    · exact .inr ⟨h, f x, by simp only [hx, Option.map_some], rfl⟩

theorem denotes_map {read : String → Option α} {f : α → β} {text : String} {i : Interval β} :
    Denotes (fun s => (read s).map f) text i ↔ ∃ j, Denotes read text j ∧ j.map f = i := by
  unfold Denotes
  simp only [isBound_map]
  constructor
  · rintro ⟨o, lower, upper, c, htrim, ho, hc, hl, hu, ⟨a, ha, hal⟩, ⟨b, hb, hbu⟩⟩
    refine ⟨⟨a, b, i.lowerInclusive, i.upperInclusive⟩,
      ⟨o, lower, upper, c, htrim, ho, hc, hl, hu, ha, hb⟩, ?_⟩
    rw [Interval.map, hal, hbu]
  · rintro ⟨j, ⟨o, lower, upper, c, htrim, ho, hc, hl, hu, ha, hb⟩, rfl⟩
    exact ⟨o, lower, upper, c, htrim, ho, hc, hl, hu, ⟨_, ha, rfl⟩, ⟨_, hb, rfl⟩⟩

/-- A range that is read with literals that have places is the range of those places. -/
theorem isRange_iff {type : PropertyType} {read : String → Except ConstraintFault α}
    {c : Interval.Comparison α} {place : α → Int} (hc : c.IsBy place)
    (hread : boundPlace type = fun s => (read s).toOption.map place) {text : String}
    {i : Interval Int} :
    IsRange type text i ↔ ∃ j, readInterval read c text = .ok j ∧ j.map place = i := by
  unfold IsRange
  rw [hread, denotes_map]
  simp only [readInterval_eq_ok_iff]
  constructor
  · rintro ⟨⟨j, hj, rfl⟩, hb, hle⟩
    refine ⟨j, ⟨hj, ?_, ?_⟩, rfl⟩
    · simpa [Interval.IsBounded, Interval.map] using hb
    · intro l u hl hu
      rw [← Bool.not_eq_true, hc.lt, Int.not_lt]
      exact hle _ _ (by simp [Interval.map, hl]) (by simp [Interval.map, hu])
  · rintro ⟨j, ⟨hj, hb, hcross⟩, rfl⟩
    refine ⟨⟨j, hj, rfl⟩, ?_, ?_⟩
    · simpa [Interval.IsBounded, Interval.map] using hb
    · intro a b ha hb
      obtain ⟨l, hl, rfl⟩ := Option.map_eq_some_iff.1 ha
      obtain ⟨u, hu, rfl⟩ := Option.map_eq_some_iff.1 hb
      rw [← Int.not_lt, ← hc.lt, hcross l u hl hu]
      exact Bool.false_ne_true

/-! ## Types whose values have places -/

/-- How the ranges of a type are read and met, by literals and values that have places. -/
structure Scale (type : PropertyType) where
  Bound : Type
  literal : String → Except ConstraintFault Bound
  comparison : Interval.Comparison Bound
  place : Bound → Int
  requirement : Interval Bound → Requirement
  isBy : comparison.IsBy place
  boundPlace_eq : boundPlace type = fun s => (literal s).toOption.map place
  readRequirement_eq : ∀ ns text,
    readRequirement ns type text = (readInterval literal comparison text).map requirement
  isSatisfiedBy_iff : ∀ text i v, isSatisfiedBy ⟨text, type, requirement i⟩ v = true ↔
    ∃ x, valuePlace type v = some x ∧ (i.map place).Holds x

theorem intComparison_isBy : intComparison.IsBy id :=
  ⟨fun _ _ => decide_eq_true_iff, fun _ _ => beq_iff_eq⟩

theorem momentComparison_isBy : momentComparison.IsBy Moment.instant :=
  ⟨fun _ _ => decide_eq_true_iff, fun _ _ => beq_iff_eq⟩

theorem toOption_literalBound (read : String → Except LiteralFault α) (s : String) :
    (literalBound read s).toOption = (read s).toOption := by
  unfold literalBound
  cases read s <;> rfl

theorem toOption_lengthBound (s : String) :
    (lengthBound s).toOption = (Literal.readLong s).toOption.filter (0 ≤ ·) := by
  unfold lengthBound
  cases Literal.readLong s with
  | error e => rfl
  | ok n =>
    by_cases h : n < 0
    · simp [h, Except.toOption, Option.filter, Int.not_le.2 h]
    · simp [h, Except.toOption, Option.filter, Int.not_lt.1 h]

def longScale : Scale .long where
  Bound := Int
  literal := literalBound Literal.readLong
  comparison := intComparison
  place := id
  requirement := .long
  isBy := intComparison_isBy
  boundPlace_eq := by
    funext s
    rw [toOption_literalBound, Option.map_id]
    rfl
  readRequirement_eq _ _ := rfl
  isSatisfiedBy_iff text i v := by
    cases v with
    | long n =>
      have h := Interval.contains_iff_holds intComparison_isBy i n
      simpa [isSatisfiedBy, valuePlace] using h
    | _ => simp [isSatisfiedBy, valuePlace]

def lengthScale : Scale .binary where
  Bound := Int
  literal := lengthBound
  comparison := intComparison
  place := id
  requirement := .length
  isBy := intComparison_isBy
  boundPlace_eq := by
    funext s
    rw [toOption_lengthBound, Option.map_id]
    rfl
  readRequirement_eq _ _ := rfl
  isSatisfiedBy_iff text i v := by
    cases v with
    | binary bytes =>
      have h := Interval.contains_iff_holds intComparison_isBy i bytes.size
      simpa [isSatisfiedBy, valuePlace] using h
    | _ => simp [isSatisfiedBy, valuePlace]

def dateScale : Scale .date where
  Bound := Moment
  literal := literalBound Literal.readDate
  comparison := momentComparison
  place := Moment.instant
  requirement := .date
  isBy := momentComparison_isBy
  boundPlace_eq := by
    funext s
    rw [toOption_literalBound]
    rfl
  readRequirement_eq _ _ := rfl
  isSatisfiedBy_iff text i v := by
    cases v with
    | date m =>
      have h := Interval.contains_iff_holds momentComparison_isBy i m
      simpa [isSatisfiedBy, valuePlace] using h
    | _ => simp [isSatisfiedBy, valuePlace]

theorem read_eq_ok_iff {ns : Namespaces} {type : PropertyType} {text : String} {c : Constraint} :
    read ns type text = .ok c ↔ ∃ r, readRequirement ns type text = .ok r ∧ ⟨text, type, r⟩ = c := by
  unfold read
  cases readRequirement ns type text <;> simp

section
variable {type : PropertyType} (s : Scale type)
include s

theorem Scale.exists_read_iff (ns : Namespaces) (text : String) :
    (∃ c, read ns type text = .ok c) ↔ ∃ i, IsRange type text i := by
  simp only [read_eq_ok_iff, s.readRequirement_eq, map_eq_ok, isRange_iff s.isBy s.boundPlace_eq]
  constructor
  · rintro ⟨-, -, ⟨j, hj, -⟩, -⟩
    exact ⟨_, j, hj, rfl⟩
  · rintro ⟨-, j, hj, -⟩
    exact ⟨_, _, ⟨j, hj, rfl⟩, rfl⟩

theorem Scale.isSatisfiedBy_of_isRange {ns : Namespaces} {text : String} {c : Constraint}
    {i : Interval Int} (hc : read ns type text = .ok c) (hi : IsRange type text i) (v : Value) :
    c.isSatisfiedBy v = true ↔ ∃ x, valuePlace type v = some x ∧ i.Holds x := by
  obtain ⟨r, hr, rfl⟩ := read_eq_ok_iff.1 hc
  rw [s.readRequirement_eq, map_eq_ok] at hr
  obtain ⟨j, hj, rfl⟩ := hr
  obtain ⟨j', hj', rfl⟩ := (isRange_iff s.isBy s.boundPlace_eq).1 hi
  obtain rfl : j = j' := Except.ok.inj (hj.symm.trans hj')
  exact s.isSatisfiedBy_iff text j v

end

/-- **Ranges of integers, lengths and dates are intervals.** A text is a constraint exactly if it is
a range; the constraint is met by the values of the type whose place lies within its bounds; and so
the answer depends on the places of bounds and values alone, whatever offset dates are written in. -/
theorem read_range_iff {type : PropertyType}
    (htype : type = .long ∨ type = .binary ∨ type = .date) (ns : Namespaces) (text : String) :
    ((∃ c, read ns type text = .ok c) ↔ ∃ i, IsRange type text i) ∧
    (∀ c i, read ns type text = .ok c → IsRange type text i →
      ∀ v, c.isSatisfiedBy v = true ↔ ∃ x, valuePlace type v = some x ∧ i.Holds x) ∧
    ∀ ns' text' c c' i, read ns type text = .ok c → read ns' type text' = .ok c' →
      IsRange type text i → IsRange type text' i →
      ∀ v v', valuePlace type v = valuePlace type v' → c.isSatisfiedBy v = c'.isSatisfiedBy v' := by
  have hscale : Nonempty (Scale type) := by
    rcases htype with rfl | rfl | rfl
    · exact ⟨longScale⟩
    · exact ⟨lengthScale⟩
    · exact ⟨dateScale⟩
  obtain ⟨s⟩ := hscale
  refine ⟨s.exists_read_iff ns text, fun c i hc hi v => s.isSatisfiedBy_of_isRange hc hi v, ?_⟩
  intro ns' text' c c' i hc hc' hi hi' v v' hv
  rw [Bool.eq_iff_iff, s.isSatisfiedBy_of_isRange hc hi, s.isSatisfiedBy_of_isRange hc' hi', hv]

/-- A moment written with two offsets lies in a range of dates or beyond it as one moment. -/
theorem read_range_iff_offsets :
    valuePlace .date (.date ⟨⟨⟨2020, 1, 1⟩, 1, 0, 0, 0⟩, 60⟩) =
      valuePlace .date (.date ⟨⟨⟨2019, 12, 31⟩, 23, 30, 0, 0⟩, -30⟩) ∧
    ∃ c, read .empty .date "(2020-01-01T00:00:00Z,]" = .ok c ∧
      c.isSatisfiedBy (.date ⟨⟨⟨2020, 1, 1⟩, 1, 0, 0, 0⟩, 60⟩) =
        c.isSatisfiedBy (.date ⟨⟨⟨2019, 12, 31⟩, 23, 30, 0, 0⟩, -30⟩) := by
  have hplace : valuePlace .date (.date ⟨⟨⟨2020, 1, 1⟩, 1, 0, 0, 0⟩, 60⟩) =
      valuePlace .date (.date ⟨⟨⟨2019, 12, 31⟩, 23, 30, 0, 0⟩, -30⟩) := by decide
  have hok : (read .empty .date "(2020-01-01T00:00:00Z,]").isOk = true := by decide
  obtain ⟨c, hc⟩ := exists_of_isOk hok
  refine ⟨hplace, c, hc, ?_⟩
  obtain ⟨hiff, -, hsame⟩ :=
    read_range_iff (.inr (.inr rfl)) .empty "(2020-01-01T00:00:00Z,]"
  obtain ⟨i, hi⟩ := hiff.1 ⟨c, hc⟩
  exact hsame .empty _ c c i hc hc hi hi _ _ hplace

end Constraint

end Cnd
