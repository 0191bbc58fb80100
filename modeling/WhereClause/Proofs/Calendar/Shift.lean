import WhereClause.Calendar.DateTime
import WhereClause.Proofs.Calendar.DayNumber

/-!
# Times some minutes later

A date and time is known by the minute, counted from the first of January of the year 0, and by the
second and the nanosecond in it. Adding minutes moves the first and leaves the others alone, over the
ends of months and years.

* `DateTime.minutes`            the minute of a date and time;
* `DateTime.minutes_addMinutes`  what is added to a time is added to its minute;
* `DateTime.eq_of_minutes`      nothing else is to be known of a time;
* `DateTime.addMinutes_addMinutes`, `DateTime.addMinutes_zero`  minutes one behind the other, and none.
-/

set_option autoImplicit false

namespace WhereClause.Calendar

theorem Date.eq_of_dayNumber {d e : Date} (h : d.dayNumber = e.dayNumber) : d = e := by
  rw [← d.ofDayNumber_dayNumber, h, e.ofDayNumber_dayNumber]

namespace Clock

/-- the parts are in range, with the nanoseconds of a second written out -/
theorem in_range (t : Clock) : t.hour < 24 ∧ t.minute < 60 ∧ t.second < 60 ∧
    (t.nano < 1000000000 ∨ t.second = 59 ∧ t.nano < 2000000000) := t.is_time

theorem minuteOfDay_lt (t : Clock) : t.minuteOfDay < 1440 := by
  have ht := t.in_range
  unfold minuteOfDay
  omega

theorem hour_minute_of_minuteOfDay {s t : Clock} (h : s.minuteOfDay = t.minuteOfDay) :
    s.hour = t.hour ∧ s.minute = t.minute := by
  have hs := s.in_range
  have ht := t.in_range
  unfold minuteOfDay at h
  omega

theorem eq_of_minuteOfDay {s t : Clock} (hminute : s.minuteOfDay = t.minuteOfDay)
    (hsecond : s.second = t.second) (hnano : s.nano = t.nano) : s = t := by
  obtain ⟨hhour, hrest⟩ := hour_minute_of_minuteOfDay hminute
  cases s
  cases t
  rw [mk.injEq]
  exact ⟨hhour, hrest, hsecond, hnano⟩

end Clock

namespace DateTime

/-- the minutes since the first of January of the year 0 -/
def minutes (t : DateTime) : Int := t.date.dayNumber * 1440 + t.clock.minuteOfDay

variable (t : DateTime) (j k : Int)

@[simp] theorem second_addMinutes : (t.addMinutes k).clock.second = t.clock.second := rfl

@[simp] theorem nano_addMinutes : (t.addMinutes k).clock.nano = t.clock.nano := rfl

theorem shownSecond_addMinutes : (t.addMinutes k).clock.shownSecond = t.clock.shownSecond := by
  simp [Clock.shownSecond]

theorem millisecond_addMinutes : (t.addMinutes k).clock.millisecond = t.clock.millisecond := by
  simp [Clock.millisecond]

theorem minutes_addMinutes : (t.addMinutes k).minutes = t.minutes + k := by
  have hday : (t.addMinutes k).date.dayNumber =
      t.date.dayNumber + (t.clock.minuteOfDay + k) / 1440 := Date.dayNumber_ofDayNumber _
  have hminute : (t.addMinutes k).clock.minuteOfDay = ((t.clock.minuteOfDay + k) % 1440).toNat :=
    t.clock.minuteOfDay_withMinuteOfDay _ (by omega)
  rw [minutes, minutes, hday, hminute]
  omega

theorem date_minuteOfDay_of_minutes {s t : DateTime} (h : s.minutes = t.minutes) :
    s.date = t.date ∧ s.clock.minuteOfDay = t.clock.minuteOfDay := by
  have hs := s.clock.minuteOfDay_lt
  have ht := t.clock.minuteOfDay_lt
  unfold minutes at h
  exact ⟨Date.eq_of_dayNumber (by omega), by omega⟩

theorem eq_of_minutes {s t : DateTime} (hminutes : s.minutes = t.minutes)
    (hsecond : s.clock.second = t.clock.second) (hnano : s.clock.nano = t.clock.nano) : s = t := by
  obtain ⟨hdate, hminute⟩ := date_minuteOfDay_of_minutes hminutes
  have hclock : s.clock = t.clock := Clock.eq_of_minuteOfDay hminute hsecond hnano
  cases s
  cases t
  rw [mk.injEq]
  exact ⟨hdate, hclock⟩

theorem addMinutes_addMinutes : (t.addMinutes j).addMinutes k = t.addMinutes (j + k) := by
  refine eq_of_minutes ?_ rfl rfl
  simp only [minutes_addMinutes, Int.add_assoc]

theorem addMinutes_zero : t.addMinutes 0 = t := by
  refine eq_of_minutes ?_ rfl rfl
  rw [minutes_addMinutes, Int.add_zero]

end DateTime

end WhereClause.Calendar
