/-!
# Dates

The Gregorian calendar, carried on in both directions, with a year 0. Days are numbered from the
first day of the year 0, and years are turned to day numbers by `daysBefore`.

* `daysBefore_year_le`, `lt_daysBefore_year`  the year of a day number encloses it;
* `isDay_monthAndDay`   the month and the day that are found in a year exist;
* `Date.dayNumber`, `Date.ofDayNumber`  a date as a number and back.
-/

set_option autoImplicit false

namespace WhereClause.Calendar

/-! ## years and months -/

/-- every fourth year, without the full centuries that 400 does not divide -/
def isLeap (year : Int) : Bool := year % 4 = 0 && (year % 100 ≠ 0 || year % 400 = 0)

/-- the days of a month, none if there is no such month -/
def monthLength (year : Int) : Nat → Nat
  | 1 => 31
  | 2 => if isLeap year then 29 else 28
  | 3 => 31
  | 4 => 30
  | 5 => 31
  | 6 => 30
  | 7 => 31
  | 8 => 31
  | 9 => 30
  | 10 => 31
  | 11 => 30
  | 12 => 31
  | _ => 0

/-- the number of the first day of a year -/
def daysBefore (year : Int) : Int :=
  365 * year + (year + 3) / 4 - (year + 99) / 100 + (year + 399) / 400

def months : List Nat := [1, 2, 3, 4, 5, 6, 7, 8, 9, 10, 11, 12]

/-- the days of some months -/
def daysOf (year : Int) : List Nat → Nat
  | [] => 0
  | m :: ms => monthLength year m + daysOf year ms

/-- the days of the months before one in its year -/
def daysBeforeMonth (year : Int) (month : Nat) : Nat :=
  daysOf year (months.takeWhile (· < month))

theorem daysOf_months (year : Int) :
    (daysOf year months : Int) = daysBefore (year + 1) - daysBefore year := by
  have h : daysOf year months = 365 + if isLeap year then 1 else 0 := by
    simp only [months, daysOf, monthLength]
    split <;> omega
  rw [h]
  simp only [daysBefore, isLeap]
  by_cases h4 : year % 4 = 0 <;> by_cases h100 : year % 100 = 0 <;>
    by_cases h400 : year % 400 = 0 <;> simp [h4, h100, h400] <;> omega

/-- the year of a day number: an estimate from the mean length of a year, moved by one if needed -/
def yearOf (n : Int) : Int :=
  let y := n * 400 / 146097
  if n < daysBefore y then y - 1 else if daysBefore (y + 1) ≤ n then y + 1 else y

theorem daysBefore_year_le (n : Int) : daysBefore (yearOf n) ≤ n := by
  simp only [yearOf]
  split
  · simp only [daysBefore] at *; omega
  · split <;> omega

theorem lt_daysBefore_year (n : Int) : n < daysBefore (yearOf n + 1) := by
  simp only [yearOf]
  split
  · rw [Int.sub_add_cancel]; assumption
  · split
    · simp only [daysBefore] at *; omega
    · omega

/-! ## days of a month -/

/-- the month exists and has the day -/
def IsDay (year : Int) (month day : Nat) : Prop := 1 ≤ day ∧ day ≤ monthLength year month

instance (year : Int) (month day : Nat) : Decidable (IsDay year month day) := by
  unfold IsDay
  infer_instance

/-- the month and the day of the month, a number of days into the months listed -/
def monthAndDay (year : Int) : List Nat → Nat → Nat × Nat
  | [], n => (0, n)
  | m :: ms, n =>
    if n < monthLength year m then (m, n + 1) else monthAndDay year ms (n - monthLength year m)

theorem isDay_monthAndDay (year : Int) (ms : List Nat) (n : Nat)
    (h : n < daysOf year ms) :
    IsDay year (monthAndDay year ms n).1 (monthAndDay year ms n).2 := by
  induction ms generalizing n with
  | nil => exact absurd h (Nat.not_lt_zero n)
  | cons m ms ih =>
    rw [daysOf] at h
    unfold monthAndDay
    split
    · exact ⟨by simp, by assumption⟩
    · exact ih _ (by omega)

/-! ## dates -/

structure Date where
  year : Int
  month : Nat
  day : Nat
  exists_day : IsDay year month day
  deriving DecidableEq

namespace Date

def of? (year : Int) (month day : Nat) : Option Date :=
  if h : IsDay year month day then some ⟨year, month, day, h⟩ else none

/-- the number of a date, counted from the first day of the year 0 -/
def dayNumber (d : Date) : Int := daysBefore d.year + daysBeforeMonth d.year d.month + (d.day - 1)

/-- how far a day number is into its year -/
def dayOfYear (n : Int) : Nat := (n - daysBefore (yearOf n)).toNat

theorem dayOfYear_lt (n : Int) : dayOfYear n < daysOf (yearOf n) months := by
  have h := daysOf_months (yearOf n)
  have h1 := daysBefore_year_le n
  have h2 := lt_daysBefore_year n
  unfold dayOfYear
  omega

/-- the date of a day number -/
def ofDayNumber (n : Int) : Date :=
  let md := monthAndDay (yearOf n) months (dayOfYear n)
  ⟨yearOf n, md.1, md.2, isDay_monthAndDay _ _ _ (dayOfYear_lt n)⟩

/-- the day number of the first of January 1970 -/
def epoch : Int := daysBefore 1970

/-- the years that timestamps may lie in -/
def firstYear : Int := -262143

def lastYear : Int := 262142

def InCalendar (d : Date) : Prop := firstYear ≤ d.year ∧ d.year ≤ lastYear

instance (d : Date) : Decidable d.InCalendar := by
  unfold InCalendar
  infer_instance

end Date

end WhereClause.Calendar
