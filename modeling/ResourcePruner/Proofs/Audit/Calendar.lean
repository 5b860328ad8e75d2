import Mathlib.Tactic.IntervalCases
import Mathlib.Order.Monotone.Basic
import ResourcePruner.Audit.Instant
import ResourcePruner.Proofs.Text.Digits

/-!
# Stamps and time

Stamps stand in the order of time (`Instant.stamp_lt_iff`): an instant has an earlier stamp than
another one exactly if fewer whole milliseconds have passed when it comes, and they have the same
stamp if the same number has passed.

Both orders are that of the parts of the instants, from the year down. For the stamps it is, since
each part is written in a field of fixed width; for the time, since what the later parts add is
always less than one more of the part before, for the days of a month and of a year by the lengths
of the months.
-/

namespace ResourcePruner

/-! ## The calendar -/

/-- Whether February has 29 days. -/
def isLeapYear (year : Nat) : Bool :=
  year % 4 = 0 && (year % 100 ≠ 0 || year % 400 = 0)

/-- The number of days of a month. -/
def daysInMonth (year : Nat) : Nat → Nat
  | 2 => if isLeapYear year then 29 else 28
  | 4 | 6 | 9 | 11 => 30
  | _ => 31

/-- The number of days of the year before a month begins. -/
def daysBeforeMonth (year : Nat) : Nat → Nat
  | 0 | 1 => 0
  | month + 2 => daysBeforeMonth year (month + 1) + daysInMonth year (month + 1)

/-- The number of days before a year begins, counted from the beginning of the year 1. -/
def daysBeforeYear : Nat → Nat
  | 0 | 1 => 0
  | year + 2 => daysBeforeYear (year + 1) + if isLeapYear (year + 1) then 366 else 365

namespace Instant

/-- The day is one of its month. -/
def IsDate (instant : Instant) : Prop :=
  instant.day ≤ daysInMonth instant.year instant.month

instance (instant : Instant) : Decidable instant.IsDate :=
  inferInstanceAs (Decidable (_ ≤ _))

/-- The number of days before that of the instant, counted from the beginning of the year 1. -/
def daysBefore (instant : Instant) : Nat :=
  daysBeforeYear instant.year + daysBeforeMonth instant.year instant.month + (instant.day - 1)

/-- The time before the instant in microseconds, counted from the beginning of the year 1. -/
def elapsed (instant : Instant) : Nat :=
  (((instant.daysBefore * 24 + instant.hour) * 60 + instant.minute) * 60 + instant.second) * 1000000
    + instant.microsecond

/-- The time before the instant in whole milliseconds. -/
def milliseconds (instant : Instant) : Nat :=
  instant.elapsed / 1000

end Instant

/-! ## The days of a year -/

theorem daysBeforeMonth_succ (year : Nat) {month : Nat} (hmonth : 1 ≤ month) :
    daysBeforeMonth year (month + 1) = daysBeforeMonth year month + daysInMonth year month := by
  obtain ⟨month, rfl⟩ := Nat.exists_eq_add_of_le' hmonth
  rfl

theorem daysBeforeYear_succ {year : Nat} (hyear : 1 ≤ year) :
    daysBeforeYear (year + 1) = daysBeforeYear year + if isLeapYear year then 366 else 365 := by
  obtain ⟨year, rfl⟩ := Nat.exists_eq_add_of_le' hyear
  rfl

theorem daysBeforeMonth_thirteen (year : Nat) :
    daysBeforeMonth year 13 = if isLeapYear year then 366 else 365 := by
  cases h : isLeapYear year <;> simp [daysBeforeMonth, daysInMonth, h]

/-- When a month has passed, its days have. -/
theorem daysBeforeMonth_le (year : Nat) {month other : Nat} (hmonth : 1 ≤ month)
    (hless : month < other) :
    daysBeforeMonth year month + daysInMonth year month ≤ daysBeforeMonth year other := by
  induction other, hless using Nat.le_induction with
  | base => exact (daysBeforeMonth_succ year hmonth).ge
  | succ other hother ih =>
      rw [daysBeforeMonth_succ year (by omega)]
      exact ih.trans (Nat.le_add_right _ _)

/-- When a year has passed, its months have. -/
theorem daysBeforeYear_le {year other : Nat} (hyear : 1 ≤ year) (hless : year < other) :
    daysBeforeYear year + daysBeforeMonth year 13 ≤ daysBeforeYear other := by
  induction other, hless using Nat.le_induction with
  | base => rw [daysBeforeMonth_thirteen, ← daysBeforeYear_succ hyear]
  | succ other hother ih =>
      rw [daysBeforeYear_succ (by omega : 1 ≤ other)]
      exact ih.trans (Nat.le_add_right _ _)

namespace Instant

variable {first second : Instant}

/-- The days of the year that have passed and the day itself are not more than the days of the
year. -/
theorem daysBeforeMonth_add_day_le (hfirst : first.IsDate) :
    daysBeforeMonth first.year first.month + first.day ≤ daysBeforeMonth first.year 13 := by
  have hmonth := daysBeforeMonth_le first.year first.inCalendar.2.2.1
    (Nat.lt_succ_of_le first.inCalendar.2.2.2.1)
  exact (Nat.add_le_add_left hfirst _).trans hmonth

/-- A date in an earlier year, or in an earlier month of the year, or on an earlier day of the month
has fewer days before it. -/
theorem daysBefore_lt (hfirst : first.IsDate)
    (hless : first.year < second.year
      ∨ first.year = second.year ∧ (first.month < second.month
        ∨ first.month = second.month ∧ first.day < second.day)) :
    first.daysBefore < second.daysBefore := by
  have hday := first.inCalendar.2.2.2.2.1
  have hday' := second.inCalendar.2.2.2.2.1
  rw [daysBefore, daysBefore]
  rcases hless with hyear | ⟨hyear, hmonth | ⟨hmonth, hless⟩⟩
  · have hyears := daysBeforeYear_le first.inCalendar.1 hyear
    have hwithin := daysBeforeMonth_add_day_le hfirst
    omega
  · have hmonths := daysBeforeMonth_le first.year first.inCalendar.2.2.1 hmonth
    rw [IsDate] at hfirst
    rw [← hyear]
    omega
  · rw [hyear, hmonth]
    omega

/-! ## The order of time and of stamps -/

theorem mul_milliseconds_le (instant : Instant) : 1000 * instant.milliseconds ≤ instant.elapsed :=
  Nat.mul_div_le _ _

/-- Where the parts of one instant come before those of another, more milliseconds pass before the
other. -/
theorem milliseconds_lt (hfirst : first.IsDate) (hless : first.milliParts < second.milliParts) :
    first.milliseconds < second.milliseconds := by
  have htime := first.inDay
  have htime' := second.inDay
  simp only [milliParts, List.cons_lt_cons_iff, List.not_lt_nil, and_false, or_false] at hless
  have hdays : first.daysBefore < second.daysBefore ∨ first.daysBefore = second.daysBefore
      ∧ (first.hour < second.hour ∨ first.hour = second.hour ∧ (first.minute < second.minute
        ∨ first.minute = second.minute ∧ (first.second < second.second
          ∨ first.second = second.second
          ∧ first.microsecond / 1000 < second.microsecond / 1000))) := by
    rcases hless with hyear | ⟨hyear, hmonth | ⟨hmonth, hday | ⟨hday, hless⟩⟩⟩
    · exact .inl (daysBefore_lt hfirst (.inl hyear))
    · exact .inl (daysBefore_lt hfirst (.inr ⟨hyear, .inl hmonth⟩))
    · exact .inl (daysBefore_lt hfirst (.inr ⟨hyear, .inr ⟨hmonth, hday⟩⟩))
    · exact .inr ⟨by rw [daysBefore, daysBefore, hyear, hmonth, hday], hless⟩
  rw [milliseconds, milliseconds, elapsed, elapsed]
  omega

theorem milliseconds_eq (heq : first.milliParts = second.milliParts) :
    first.milliseconds = second.milliseconds := by
  simp only [milliParts, List.cons.injEq] at heq
  obtain ⟨hyear, hmonth, hday, hhour, hminute, hsecond, hmilli, -⟩ := heq
  rw [milliseconds, milliseconds, elapsed, elapsed, daysBefore, daysBefore, hyear, hmonth,
    hday, hhour, hminute, hsecond]
  omega

theorem milliParts_cases (first second : Instant) :
    first.milliParts < second.milliParts ∨ first.milliParts = second.milliParts
      ∨ second.milliParts < first.milliParts := by
  by_cases hless : first.milliParts < second.milliParts
  · exact .inl hless
  · exact .inr ((List.le_iff_lt_or_eq.mp (List.not_lt.mp hless)).symm.imp_left Eq.symm)

theorem milliParts_lt_iff (hfirst : first.IsDate) (hsecond : second.IsDate) :
    first.milliParts < second.milliParts ↔ first.milliseconds < second.milliseconds := by
  refine ⟨milliseconds_lt hfirst, fun hless => ?_⟩
  rcases milliParts_cases first second with h | h | h
  · exact h
  · exact absurd (milliseconds_eq h) hless.ne
  · exact absurd (milliseconds_lt hsecond h) hless.asymm

/-- Each part fits into the field in which a stamp has it. -/
theorem parts_lt (instant : Instant) :
    instant.year < 10 ^ 4 ∧ instant.month < 10 ^ 2 ∧ instant.day < 10 ^ 2 ∧ instant.hour < 10 ^ 2
      ∧ instant.minute < 10 ^ 2 ∧ instant.second < 10 ^ 2
      ∧ instant.microsecond / 1000 < 10 ^ 3 := by
  have hdate := instant.inCalendar
  have htime := instant.inDay
  omega

theorem stamp_lt_iff_milliParts :
    first.stamp < second.stamp ↔ first.milliParts < second.milliParts := by
  obtain ⟨hyear, hmonth, hday, hhour, hminute, hsecond, hmilli⟩ := first.parts_lt
  obtain ⟨hyear', hmonth', hday', hhour', hminute', hsecond', hmilli'⟩ := second.parts_lt
  simp only [stamp, milliParts, List.append_assoc, List.cons_lt_cons_iff, List.not_lt_nil]
  rw [Text.fixedDigits_append_lt_iff hyear hyear', Text.append_lt_append_left_iff,
    Text.fixedDigits_append_lt_iff hmonth hmonth', Text.append_lt_append_left_iff,
    Text.fixedDigits_append_lt_iff hday hday', Text.append_lt_append_left_iff,
    Text.fixedDigits_append_lt_iff hhour hhour', Text.append_lt_append_left_iff,
    Text.fixedDigits_append_lt_iff hminute hminute', Text.append_lt_append_left_iff,
    Text.fixedDigits_append_lt_iff hsecond hsecond', Text.append_lt_append_left_iff,
    Text.fixedDigits_append_lt_iff hmilli hmilli']
  simp [StrictOrder.irrefl]

/-- **The order of stamps is the order of time.** -/
theorem stamp_lt_iff (hfirst : first.IsDate) (hsecond : second.IsDate) :
    first.stamp < second.stamp ↔ first.milliseconds < second.milliseconds :=
  stamp_lt_iff_milliParts.trans (milliParts_lt_iff hfirst hsecond)

/-- Stamps are the same where the time is, to the millisecond. -/
theorem stamp_eq_iff (hfirst : first.IsDate) (hsecond : second.IsDate) :
    first.stamp = second.stamp ↔ first.milliseconds = second.milliseconds := by
  have hfore := stamp_lt_iff hfirst hsecond
  have hback := stamp_lt_iff hsecond hfirst
  constructor
  · intro heq
    rw [heq] at hfore hback
    have hirrefl := StrictOrder.irrefl second.stamp
    exact Nat.le_antisymm (Nat.le_of_not_lt (mt hback.mpr hirrefl))
      (Nat.le_of_not_lt (mt hfore.mpr hirrefl))
  · intro heq
    by_contra hne
    exact heq.not_gt (hback.mp (StrictOrder.connected (mt hfore.mp heq.not_lt) hne))

end Instant

end ResourcePruner
