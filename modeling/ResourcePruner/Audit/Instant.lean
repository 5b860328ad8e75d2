import ResourcePruner.Text.Digits

/-!
# Instants

A moment of universal time in the years 1 to 9999, to the microsecond, as its date and its time of
day. `Instant.stamp` writes it with a precision of a millisecond, the rest being cut off; every part
of a stamp has a fixed width, so that stamps stand in the order of time.
-/

namespace ResourcePruner

/-- A moment of universal time. -/
structure Instant where
  year : Nat
  month : Nat
  day : Nat
  hour : Nat
  minute : Nat
  second : Nat
  microsecond : Nat
  inCalendar : 1 ≤ year ∧ year ≤ 9999 ∧ 1 ≤ month ∧ month ≤ 12 ∧ 1 ≤ day ∧ day ≤ 31
  inDay : hour ≤ 23 ∧ minute ≤ 59 ∧ second ≤ 59 ∧ microsecond ≤ 999999
  deriving DecidableEq

namespace Instant

/-- The instant with the given parts, if there is one. -/
def ofParts? (year month day hour minute second microsecond : Nat) : Option Instant :=
  if date : 1 ≤ year ∧ year ≤ 9999 ∧ 1 ≤ month ∧ month ≤ 12 ∧ 1 ≤ day ∧ day ≤ 31 then
    if time : hour ≤ 23 ∧ minute ≤ 59 ∧ second ≤ 59 ∧ microsecond ≤ 999999 then
      some ⟨year, month, day, hour, minute, second, microsecond, date, time⟩
    else
      none
  else
    none

/-- The year, month and day that are `days` days after the first of March of the year zero. Years
are counted from March on, so that a leap day is the last day of its year; 400 years have 146097
days. -/
def dateAfterMarch (days : Nat) : Nat × Nat × Nat :=
  let rest := days % 146097
  let yearOfEra := (rest - rest / 1460 + rest / 36524 - rest / 146096) / 365
  let dayOfYear := rest - (365 * yearOfEra + yearOfEra / 4 - yearOfEra / 100)
  let monthFromMarch := (5 * dayOfYear + 2) / 153
  let day := dayOfYear - (153 * monthFromMarch + 2) / 5 + 1
  let month := if monthFromMarch < 10 then monthFromMarch + 3 else monthFromMarch - 9
  let year := yearOfEra + 400 * (days / 146097)
  (if month ≤ 2 then year + 1 else year, month, day)

/-- The number of days from the first of March of the year zero to the beginning of 1970. -/
def epochDay : Nat := 719468

/-- The instant that is so many seconds and microseconds after the beginning of 1970, if it falls
into the years that instants have. -/
def sinceEpoch? (seconds microsecond : Nat) : Option Instant :=
  let (year, month, day) := dateAfterMarch (epochDay + seconds / 86400)
  let second := seconds % 86400
  ofParts? year month day (second / 3600) (second / 60 % 60) (second % 60) microsecond

/-- An instant in writing: date, time of day and milliseconds, each part padded to its width. -/
def stamp (instant : Instant) : Text :=
  let padded := Text.fixedDigits 10
  padded 4 instant.year ++ "-" ++ padded 2 instant.month ++ "-" ++ padded 2 instant.day ++ "T" ++
    padded 2 instant.hour ++ ":" ++ padded 2 instant.minute ++ ":" ++ padded 2 instant.second ++
    "." ++ padded 3 (instant.microsecond / 1000) ++ "Z"

/-- An instant without what is finer than a millisecond, as the list of its parts. -/
def milliParts (instant : Instant) : List Nat :=
  [instant.year, instant.month, instant.day, instant.hour, instant.minute, instant.second,
    instant.microsecond / 1000]

end Instant

end ResourcePruner
