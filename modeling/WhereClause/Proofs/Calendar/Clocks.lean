import WhereClause.Calendar.Timestamp
import WhereClause.Proofs.Calendar.Shift

/-!
# What the clocks of zones show

The clocks of a zone are ahead of UTC or behind it, and at the ends of the calendar they leave it. What
they would show in a calendar without ends is known for every timestamp; the calendar has it for all but
those of the first and of the last day.

* `Timestamp.clocks`   the date and time on the clocks of a zone, in a calendar without ends;
* `Timestamp.IsShown`  the calendar has it;
* `Timestamp.shownIn?_eq`, `Timestamp.text?_eq`  what is shown, and its text, by these two;
* `DateTime.inCalendar_addMinutes`  years of four digits are far from the ends.
-/

set_option autoImplicit false

namespace WhereClause.Calendar

/-- no zone is a day ahead or behind -/
theorem Zone.natAbs_minutes_lt (z : Zone) : z.minutes.natAbs < 1440 := by
  cases z with
  | host => exact (by decide : (0 : Int).natAbs < 1440)
  | utc => exact (by decide : (0 : Int).natAbs < 1440)
  | offset m h => exact h

theorem DateTime.shift?_eq (t : DateTime) (k : Int) :
    t.shift? k = if (t.addMinutes k).date.InCalendar then some (t.addMinutes k) else none := rfl

/-- a few days away from a year of four digits the calendar does not end -/
theorem DateTime.inCalendar_addMinutes {t : DateTime} (hyear : 0 ≤ t.date.year ∧ t.date.year ≤ 9999)
    {k : Int} (hk : k.natAbs < 10000) : (t.addMinutes k).date.InCalendar := by
  have hfirst : daysBefore 0 ≤ t.date.dayNumber := by
    rw [← le_yearOf_iff, Date.yearOf_dayNumber]
    exact hyear.1
  have hlast : t.date.dayNumber < daysBefore (9999 + 1) := by
    rw [← yearOf_le_iff, Date.yearOf_dayNumber]
    exact hyear.2
  have hminute := t.clock.minuteOfDay_lt
  rw [Date.inCalendar_iff, DateTime.addMinutes, Date.dayNumber_ofDayNumber]
  simp only [daysBefore, Date.firstYear, Date.lastYear] at hfirst hlast ⊢
  omega

namespace Timestamp

/-- the date and time on the clocks of a zone, in a calendar without ends -/
def clocks (z : Zone) : Timestamp → DateTime
  | .naive t => t
  | .zoned utc _ => utc.addMinutes z.minutes

/-- the text of what the clocks of a zone show, in a calendar without ends -/
def shownText (z : Zone) (t : Timestamp) : String := (t.clocks z).text

/-- the clocks of a zone show the timestamp: an offset does not lead out of the calendar. Those of the host,
which is taken to keep UTC, show every one of the calendar. -/
def IsShown (z : Zone) : Timestamp → Prop
  | .naive _ => True
  | .zoned utc _ => z = .utc ∨ (utc.addMinutes z.minutes).date.InCalendar

instance (z : Zone) : (t : Timestamp) → Decidable (t.IsShown z)
  | .naive _ => inferInstanceAs (Decidable True)
  | .zoned utc _ =>
    inferInstanceAs (Decidable (z = .utc ∨ (utc.addMinutes z.minutes).date.InCalendar))

variable (z : Zone) (t : Timestamp)

theorem shownIn?_eq : t.shownIn? z = if t.IsShown z then some (t.clocks z) else none := by
  cases t with
  | naive s =>
    have hs : (Timestamp.naive s).IsShown z := trivial
    rw [if_pos hs, shownIn?, clocks]
  | zoned utc k =>
    rw [shownIn?, DateTime.shift?_eq]
    by_cases hz : z = .utc
    · have hs : (Timestamp.zoned utc k).IsShown z := .inl hz
      have hzero : utc.addMinutes z.minutes = utc := by
        rw [hz]
        exact utc.addMinutes_zero
      rw [if_pos hz, if_pos hs, clocks, hzero]
    · simp [hz, IsShown, clocks]

theorem text?_eq : t.text? z = if t.IsShown z then some (t.shownText z) else none := by
  rw [text?, shownIn?_eq]
  split <;> rfl

variable {z t}

theorem text?_of_isShown (h : t.IsShown z) : t.text? z = some (t.shownText z) := by
  rw [text?_eq, if_pos h]

end Timestamp

/-! ## at the end of the calendar -/

/-- the last millisecond of the calendar in UTC -/
def lastMillisecond : Timestamp :=
  .zoned ⟨⟨262142, 12, 31, by decide⟩, ⟨23, 59, 59, 999000000, by decide⟩⟩ 0

end WhereClause.Calendar
