import Riverhog.Core.Python

/-!
# UTC timestamps

The part of Python's `datetime` that the services use: aware values in UTC, the text
that `time_formats.format_utc_timestamp` gives them, the start of the month and of
the next one, and the lease of one hour. A value lies between the years 1 and 9999;
a step that would leave them raises.
-/

namespace Riverhog.Core

/-- The number of days of a month of the Gregorian calendar. -/
def daysInMonth (year month : Nat) : Nat :=
  if month = 2 then
    if year % 4 = 0 ∧ (year % 100 ≠ 0 ∨ year % 400 = 0) then 29 else 28
  else if month = 4 ∨ month = 6 ∨ month = 9 ∨ month = 11 then 30
  else 31

theorem one_le_daysInMonth (year month : Nat) : 1 ≤ daysInMonth year month := by
  unfold daysInMonth
  split
  · split <;> decide
  · split <;> decide

/-- A `datetime` in UTC. -/
structure Datetime where
  year : Nat
  month : Nat
  day : Nat
  hour : Nat
  minute : Nat
  second : Nat
  microsecond : Nat
  year_bounds : 1 ≤ year ∧ year ≤ 9999
  month_bounds : 1 ≤ month ∧ month ≤ 12
  day_bounds : 1 ≤ day ∧ day ≤ daysInMonth year month
  time_bounds : hour < 24 ∧ minute < 60 ∧ second < 60 ∧ microsecond < 1000000

namespace Datetime

section

variable (value : Datetime)

/-- `format_utc_timestamp`: ISO 8601 with microseconds and the suffix `Z`. -/
def formatUtcTimestamp : Text :=
  zeroPadded 10 4 value.year ++ '-' :: (zeroPadded 10 2 value.month ++
    '-' :: (zeroPadded 10 2 value.day ++ 'T' :: (zeroPadded 10 2 value.hour ++
    ':' :: (zeroPadded 10 2 value.minute ++ ':' :: (zeroPadded 10 2 value.second ++
    '.' :: (zeroPadded 10 6 value.microsecond ++ ['Z']))))))

/-- Midnight of the first day of a month. -/
def firstOfMonth (year month : Nat) (hy : 1 ≤ year ∧ year ≤ 9999)
    (hm : 1 ≤ month ∧ month ≤ 12) : Datetime where
  year := year
  month := month
  day := 1
  hour := 0
  minute := 0
  second := 0
  microsecond := 0
  year_bounds := hy
  month_bounds := hm
  day_bounds := ⟨le_rfl, one_le_daysInMonth year month⟩
  time_bounds := by decide

/-- `_month_start`. -/
def monthStart : Datetime :=
  firstOfMonth value.year value.month value.year_bounds value.month_bounds

/-- `_next_month_start`. -/
def nextMonthStart : Py Datetime :=
  if hm : value.month = 12 then
    if hy : value.year + 1 ≤ 9999 then
      .ok (firstOfMonth (value.year + 1) 1 ⟨by omega, hy⟩ (by decide))
    else .error (.valueError "year 10000 is out of range")
  else
    have := value.month_bounds
    .ok (firstOfMonth value.year (value.month + 1) value.year_bounds ⟨by omega, by omega⟩)

/-- The first hour of the day after, at the same minute. -/
def nextDay : Py Datetime :=
  if hd : value.day < daysInMonth value.year value.month then
    .ok { value with
      day := value.day + 1
      hour := 0
      day_bounds := ⟨by omega, hd⟩
      time_bounds := ⟨by decide, value.time_bounds.2⟩ }
  else do
    let first ← match value.nextMonthStart with
      | .ok first => .ok first
      | .error _ => .error .overflowError
    .ok { first with
      minute := value.minute
      second := value.second
      microsecond := value.microsecond
      time_bounds := ⟨first.time_bounds.1, value.time_bounds.2⟩ }

/-- `value + timedelta(hours=1)`. -/
def addHour : Py Datetime :=
  if hh : value.hour + 1 < 24 then
    .ok { value with
      hour := value.hour + 1
      time_bounds := ⟨hh, value.time_bounds.2⟩ }
  else value.nextDay

end

/-- Where the next month can be represented, so can the next hour. -/
theorem exists_addHour {value next : Datetime} (h : value.nextMonthStart = .ok next) :
    ∃ later, value.addHour = .ok later := by
  unfold addHour nextDay
  split
  · exact ⟨_, rfl⟩
  · split
    · exact ⟨_, rfl⟩
    · simp only [h]
      exact ⟨_, rfl⟩

end Datetime

end Riverhog.Core
