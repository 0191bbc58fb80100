import WhereClause.Calendar.Date

/-!
# Times of day

A time of day runs up to the nanosecond. Second 60 of a minute, a leap second, is held as
second 59 with a thousand million nanoseconds or more.

* `Clock.shownSecond`     the second as it is written, 60 for a leap second;
* `DateTime.addMinutes`   another time with the same second;
* `DateTime.shift?`       the same, as long as it lies in the calendar;
* `DateTime.ofMilliseconds?`  the time a number of milliseconds after the start of 1970.
-/

set_option autoImplicit false

namespace WhereClause.Calendar

/-- nanoseconds in a second -/
def nanosPerSecond : Nat := 1000000000

/-- the parts are in range; only second 59 has nanoseconds for a leap second -/
def IsTime (hour minute second nano : Nat) : Prop :=
  hour < 24 ∧ minute < 60 ∧ second < 60 ∧
    (nano < nanosPerSecond ∨ second = 59 ∧ nano < 2 * nanosPerSecond)

instance (hour minute second nano : Nat) : Decidable (IsTime hour minute second nano) := by
  unfold IsTime
  infer_instance

/-- a time of day -/
structure Clock where
  hour : Nat
  minute : Nat
  second : Nat
  nano : Nat
  is_time : IsTime hour minute second nano
  deriving DecidableEq

namespace Clock

def of? (hour minute second nano : Nat) : Option Clock :=
  if h : IsTime hour minute second nano then some ⟨hour, minute, second, nano, h⟩ else none

/-- a time written with seconds up to 60 -/
def ofWritten? (hour minute second nano : Nat) : Option Clock :=
  if second = 60 then of? hour minute 59 (nano + nanosPerSecond) else of? hour minute second nano

def midnight : Clock := ⟨0, 0, 0, 0, by decide⟩

/-- the second as it is written -/
def shownSecond (t : Clock) : Nat := t.second + t.nano / nanosPerSecond

/-- the milliseconds of the second, cut off -/
def millisecond (t : Clock) : Nat := t.nano % nanosPerSecond / 1000000

def minuteOfDay (t : Clock) : Nat := t.hour * 60 + t.minute

/-- the same second in another minute of the day -/
def withMinuteOfDay (t : Clock) (m : Nat) (h : m < 1440) : Clock :=
  ⟨m / 60, m % 60, t.second, t.nano, by
    have := t.is_time
    unfold IsTime at this ⊢
    omega⟩

theorem minuteOfDay_withMinuteOfDay (t : Clock) (m : Nat) (h : m < 1440) :
    (t.withMinuteOfDay m h).minuteOfDay = m := by
  simp only [minuteOfDay, withMinuteOfDay]
  omega

end Clock

/-! ## date and time -/

structure DateTime where
  date : Date
  clock : Clock
  deriving DecidableEq

namespace DateTime

/-- the time some minutes later, or earlier -/
def addMinutes (t : DateTime) (k : Int) : DateTime :=
  let m := t.clock.minuteOfDay + k
  ⟨Date.ofDayNumber (t.date.dayNumber + m / 1440),
    t.clock.withMinuteOfDay (m % 1440).toNat (by omega)⟩

/-- the time some minutes later, or earlier, if it lies in the calendar -/
def shift? (t : DateTime) (k : Int) : Option DateTime :=
  let s := t.addMinutes k
  if s.date.InCalendar then some s else none

/-- milliseconds in a day -/
def millisPerDay : Nat := 86400000

/-- the time of day a number of milliseconds after midnight -/
def clockOfMilliseconds (ms : Nat) (h : ms < millisPerDay) : Clock :=
  ⟨ms / 3600000, ms / 60000 % 60, ms / 1000 % 60, ms % 1000 * 1000000, by
    unfold millisPerDay at h
    unfold IsTime nanosPerSecond
    omega⟩

/-- the time a number of milliseconds after the start of 1970, if it lies in the calendar -/
def ofMilliseconds? (ms : Int) : Option DateTime :=
  let date := Date.ofDayNumber (Date.epoch + ms / millisPerDay)
  if date.InCalendar then
    some ⟨date, clockOfMilliseconds (ms % millisPerDay).toNat (by unfold millisPerDay; omega)⟩
  else none

end DateTime

end WhereClause.Calendar
