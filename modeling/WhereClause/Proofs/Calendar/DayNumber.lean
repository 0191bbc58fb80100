import WhereClause.Calendar.Date

/-!
# Day numbers

Dates and day numbers correspond one to one, in the years before the year 0 too. Both directions go
year by year and then month by month, and each is followed through the same list of months.

* `yearOf_eq_iff`, `le_yearOf_iff`       the year of a day number from the first days of the years;
* `daysOf_monthAndDay`, `monthAndDay_daysOf`  the day found in a list of months, and its number;
* `Date.dayNumber_ofDayNumber`, `Date.ofDayNumber_dayNumber`  the two directions;
* `Date.year_month_day_of_lt`            days in order are in order by year, month and day;
* `Date.inCalendar_iff`                  the day numbers that timestamps may lie in.
-/

set_option autoImplicit false

namespace WhereClause.Calendar

/-! ## years -/

theorem daysBefore_le {y z : Int} (h : y ≤ z) : daysBefore y ≤ daysBefore z := by
  simp only [daysBefore]
  omega

variable {y n : Int}

theorem le_yearOf_iff : y ≤ yearOf n ↔ daysBefore y ≤ n := by
  have hlow := daysBefore_year_le n
  have hhigh := lt_daysBefore_year n
  constructor
  · intro h
    exact Int.le_trans (daysBefore_le h) hlow
  · intro h
    refine Int.not_lt.mp fun hy => ?_
    have hnext : yearOf n + 1 ≤ y := hy
    have hle := daysBefore_le hnext
    omega

theorem yearOf_le_iff : yearOf n ≤ y ↔ n < daysBefore (y + 1) := by
  have h := le_yearOf_iff (y := y + 1) (n := n)
  omega

theorem yearOf_eq_iff : yearOf n = y ↔ daysBefore y ≤ n ∧ n < daysBefore (y + 1) := by
  have hlow := le_yearOf_iff (y := y) (n := n)
  have hhigh := yearOf_le_iff (y := y) (n := n)
  omega

/-! ## months -/

variable {year : Int} {ms : List Nat}

/-- the days of the months listed before one of them -/
def daysUpTo (year : Int) (ms : List Nat) (month : Nat) : Nat :=
  daysOf year (ms.takeWhile (· < month))

theorem daysUpTo_head (m : Nat) (ms : List Nat) : daysUpTo year (m :: ms) m = 0 := by
  rw [daysUpTo, List.takeWhile_cons_of_neg (by simp)]
  rfl

theorem daysUpTo_cons {m month : Nat} (h : m < month) (ms : List Nat) :
    daysUpTo year (m :: ms) month = monthLength year m + daysUpTo year ms month := by
  rw [daysUpTo, List.takeWhile_cons_of_pos (by simpa using h)]
  rfl

theorem monthAndDay_mem {n : Nat} (h : n < daysOf year ms) : (monthAndDay year ms n).1 ∈ ms := by
  induction ms generalizing n with
  | nil => exact absurd h (Nat.not_lt_zero n)
  | cons m ms ih =>
    rw [daysOf] at h
    unfold monthAndDay
    split
    · exact List.mem_cons_self
    · exact List.mem_cons_of_mem m (ih (by omega))

theorem daysOf_monthAndDay (hms : ms.Pairwise (· < ·)) {n : Nat} (h : n < daysOf year ms) :
    daysUpTo year ms (monthAndDay year ms n).1 + ((monthAndDay year ms n).2 - 1) = n := by
  induction ms generalizing n with
  | nil => exact absurd h (Nat.not_lt_zero n)
  | cons m ms ih =>
    obtain ⟨hfirst, hothers⟩ := List.pairwise_cons.mp hms
    rw [daysOf] at h
    unfold monthAndDay
    split
    · rw [daysUpTo_head]
      omega
    · have hn : n - monthLength year m < daysOf year ms := by omega
      have hnext := ih hothers hn
      rw [daysUpTo_cons (hfirst _ (monthAndDay_mem hn))]
      omega

theorem monthAndDay_daysOf (hms : ms.Pairwise (· < ·)) {month day : Nat} (hmem : month ∈ ms)
    (h : IsDay year month day) :
    monthAndDay year ms (daysUpTo year ms month + (day - 1)) = (month, day) := by
  induction ms with
  | nil => exact absurd hmem List.not_mem_nil
  | cons m ms ih =>
    obtain ⟨hfirst, hothers⟩ := List.pairwise_cons.mp hms
    obtain ⟨hlow, hhigh⟩ := h
    rcases List.mem_cons.mp hmem with rfl | hmem
    · rw [daysUpTo_head, monthAndDay, if_pos (by omega)]
      congr 1
      omega
    · have hrest := ih hothers hmem
      rw [daysUpTo_cons (hfirst _ hmem), monthAndDay, if_neg (by omega), Nat.add_assoc,
        Nat.add_sub_cancel_left, hrest]

theorem daysUpTo_add_le (year : Int) (hms : ms.Pairwise (· < ·)) {month : Nat} (hmem : month ∈ ms) :
    daysUpTo year ms month + monthLength year month ≤ daysOf year ms := by
  induction ms with
  | nil => exact absurd hmem List.not_mem_nil
  | cons m ms ih =>
    obtain ⟨hfirst, hothers⟩ := List.pairwise_cons.mp hms
    rw [daysOf]
    rcases List.mem_cons.mp hmem with rfl | hmem
    · rw [daysUpTo_head]
      omega
    · have hrest := ih hothers hmem
      rw [daysUpTo_cons (hfirst _ hmem)]
      omega

theorem pairwise_months : months.Pairwise (· < ·) := by decide

/-- the months that have days are those listed -/
theorem IsDay.mem_months {month day : Nat} (h : IsDay year month day) : month ∈ months := by
  have hpos : monthLength year month ≠ 0 := by
    have hdays := Nat.le_trans h.1 h.2
    omega
  unfold monthLength at hpos
  split at hpos <;> first | decide | exact absurd rfl hpos

theorem IsDay.le_month {month day : Nat} (h : IsDay year month day) : month ≤ 12 := by
  have hle : ∀ m ∈ months, m ≤ 12 := by decide
  exact hle month h.mem_months

theorem IsDay.le_day {month day : Nat} (h : IsDay year month day) : day ≤ 31 := by
  refine Nat.le_trans h.2 ?_
  unfold monthLength
  split <;> first | omega | (split <;> omega)

/-! ## dates -/

namespace Date

/-- the days of the year before a date -/
def daysIntoYear (d : Date) : Nat := daysUpTo d.year months d.month + (d.day - 1)

theorem dayNumber_eq (d : Date) : d.dayNumber = daysBefore d.year + d.daysIntoYear := by
  have hlow := d.exists_day.1
  simp only [dayNumber, daysIntoYear, daysBeforeMonth, daysUpTo]
  omega

theorem daysIntoYear_ofDayNumber (n : Int) : (ofDayNumber n).daysIntoYear = dayOfYear n :=
  daysOf_monthAndDay pairwise_months (dayOfYear_lt n)

theorem dayNumber_ofDayNumber (n : Int) : (ofDayNumber n).dayNumber = n := by
  have hyear := daysBefore_year_le n
  rw [dayNumber_eq, daysIntoYear_ofDayNumber]
  show daysBefore (yearOf n) + (dayOfYear n : Int) = n
  unfold dayOfYear
  omega

theorem yearOf_dayNumber (d : Date) : yearOf d.dayNumber = d.year := by
  have hyear := daysOf_months d.year
  have hmonth := daysUpTo_add_le d.year pairwise_months d.exists_day.mem_months
  obtain ⟨hlow, hhigh⟩ := d.exists_day
  rw [yearOf_eq_iff, dayNumber_eq, daysIntoYear]
  omega

theorem dayOfYear_dayNumber (d : Date) : dayOfYear d.dayNumber = d.daysIntoYear := by
  rw [dayOfYear, yearOf_dayNumber, dayNumber_eq]
  omega

theorem ofDayNumber_dayNumber (d : Date) : ofDayNumber d.dayNumber = d := by
  have hmd : monthAndDay (yearOf d.dayNumber) months (dayOfYear d.dayNumber) = (d.month, d.day) := by
    rw [yearOf_dayNumber, dayOfYear_dayNumber]
    exact monthAndDay_daysOf pairwise_months d.exists_day.mem_months d.exists_day
  cases d
  simp only [ofDayNumber, Date.mk.injEq]
  exact ⟨yearOf_dayNumber _, congrArg Prod.fst hmd, congrArg Prod.snd hmd⟩

theorem inCalendar_iff {d : Date} :
    d.InCalendar ↔ daysBefore firstYear ≤ d.dayNumber ∧ d.dayNumber < daysBefore (lastYear + 1) := by
  rw [← le_yearOf_iff, ← yearOf_le_iff, yearOf_dayNumber]
  rfl

end Date

end WhereClause.Calendar
