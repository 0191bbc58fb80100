import WhereClause.Proofs.Calendar.Clocks
import WhereClause.Proofs.Calendar.RoundTrip
import WhereClause.Proofs.Calendar.Zone

/-!
# Instants as the clocks of zones show them

An instant is written as what a calendar and a clock show and the offset of that clock. It is held by
the clock of UTC, so the offset is taken away when it is read. A zone of the same offset puts it back and
shows what was written; every other zone shows it as much later or earlier as the offsets are apart.

* `ShownTime`              what a calendar and a clock show, in years of four digits;
* `readInstant?_chars`     the text of an instant gives what was shown, and the offset;
* `Timestamp.read?_chars`  the instant that the text stands for;
* `ofJson_shownTime`       what zones show of the instant.
-/

set_option autoImplicit false

namespace WhereClause.Calendar

open WhereClause.Text

/-! ## what is shown -/

/-- a date of a year of four digits and a time of day up to the millisecond, as they are shown: the
second goes up to 60 -/
structure ShownTime where
  date : Date
  hour : Nat
  minute : Nat
  second : Nat
  milli : Nat
  four_digits : 0 ≤ date.year ∧ date.year ≤ 9999
  in_day : hour < 24 ∧ minute < 60 ∧ second ≤ 60 ∧ milli < 1000

namespace ShownTime

/-- `2020-02-01`, the character between date and time, and `23:04:05.006` -/
def chars (gap : Char) (f : ShownTime) : List Char :=
  padded 4 f.date.year.natAbs ++ '-' :: (padded 2 f.date.month ++ '-' :: (padded 2 f.date.day ++
    gap :: (padded 2 f.hour ++ ':' :: (padded 2 f.minute ++ ':' :: (padded 2 f.second ++
      '.' :: padded 3 f.milli)))))

/-- the minutes since the first of January of the year 0 -/
def minutes (f : ShownTime) : Int := f.date.dayNumber * 1440 + (f.hour * 60 + f.minute : Nat)

/-- the time of day that is shown; second 60 is a leap second -/
def clock (f : ShownTime) : Clock :=
  if h : f.second = 60 then
    ⟨f.hour, f.minute, 59, f.milli * 1000000 + nanosPerSecond, by
      have hf := f.in_day
      unfold IsTime nanosPerSecond
      omega⟩
  else
    ⟨f.hour, f.minute, f.second, f.milli * 1000000, by
      have hf := f.in_day
      unfold IsTime nanosPerSecond
      omega⟩

def time (f : ShownTime) : DateTime := ⟨f.date, f.clock⟩

variable (f : ShownTime)

theorem hour_clock : f.clock.hour = f.hour := by
  unfold clock
  split <;> rfl

theorem minute_clock : f.clock.minute = f.minute := by
  unfold clock
  split <;> rfl

theorem shownSecond_clock : f.clock.shownSecond = f.second := by
  have hf := f.in_day
  unfold clock Clock.shownSecond nanosPerSecond
  split <;> simp only <;> omega

theorem millisecond_clock : f.clock.millisecond = f.milli := by
  have hf := f.in_day
  unfold clock Clock.millisecond nanosPerSecond
  split <;> simp only <;> omega

theorem ofWritten?_clock :
    Clock.ofWritten? f.hour f.minute f.second (f.milli * 1000000) = some f.clock := by
  unfold Clock.ofWritten? clock
  split
  · exact dif_pos _
  · exact dif_pos _

theorem minutes_time : f.time.minutes = f.minutes := by
  simp only [DateTime.minutes, minutes, time, Clock.minuteOfDay, hour_clock, minute_clock]

theorem text_time : f.time.text = String.ofList (f.chars ' ') := by
  have hdate : dateText f.date = padded 4 f.date.year.natAbs ++ '-' :: (padded 2 f.date.month ++
      '-' :: padded 2 f.date.day) := by
    simp [dateText, yearText, f.four_digits]
  have hclock := clockText_eq f.clock
  rw [hour_clock, minute_clock, shownSecond_clock, millisecond_clock] at hclock
  simp [DateTime.text, chars, time, hdate, hclock]

end ShownTime

/-! ## reading -/

theorem readInstantOffset?_chars {o : WrittenOffset} (hgap : o.gap = [':']) :
    readInstantOffset? o.chars = some (o.value, []) := by
  have hsign : ¬(o.sign = 'Z' ∨ o.sign = 'z') := by
    rcases o.isSign with h | h | h <;> rw [h] <;> decide
  have hread : readOffset? (readChar? ':') (o.chars ++ []) = some (o.value, []) := by
    refine readOffset?_chars ?_
    rw [hgap]
    exact readChar?_cons ':' _
  rw [List.append_nil] at hread
  rw [WrittenOffset.chars, readInstantOffset?, if_neg hsign]
  exact hread

/-- no offset begins with a digit -/
theorem not_isDigit_of_offset (o : WrittenOffset) (c : Char) (hc : o.chars.head? = some c) :
    c.isDigit = false := by
  cases hc
  rcases o.isSign with h | h | h <;> rw [h] <;> decide

variable (f : ShownTime) {o : WrittenOffset}

theorem readInstant?_chars (hgap : o.gap = [':']) (hday : o.value.natAbs < 1440) :
    readInstant? (f.chars 'T' ++ o.chars) = some (f.time, o.value) := by
  obtain ⟨hmonth, hdom⟩ := f.date.shown_lt
  obtain ⟨hhour, hminute, hsecond, hmilli⟩ := f.in_day
  have hfour : f.date.year.natAbs < 10000 := by
    have hyear := f.four_digits
    omega
  have hyear : (f.date.year.natAbs : Int) = f.date.year := Int.natAbs_of_nonneg f.four_digits.1
  have hT (cs : List Char) : readInstantGap? ('T' :: cs) = some cs := rfl
  rw [readInstant?]
  simp only [ShownTime.chars, List.append_assoc, List.cons_append,
    ↓bind_of_eq_some (readChar?_cons '-' _), ↓bind_of_eq_some (readChar?_cons ':' _),
    ↓bind_of_eq_some (hT _),
    ↓bind_of_eq_some (readDigits?_padded (by decide : 0 < 4) hfour _),
    ↓bind_of_eq_some (readDigits?_padded (by decide : 0 < 2) hmonth _),
    ↓bind_of_eq_some (readDigits?_padded (by decide : 0 < 2) hdom _),
    ↓bind_of_eq_some (readDigits?_padded (by decide : 0 < 2) (Nat.lt_trans hhour (by decide)) _),
    ↓bind_of_eq_some (readDigits?_padded (by decide : 0 < 2) (Nat.lt_trans hminute (by decide)) _),
    ↓bind_of_eq_some (readDigits?_padded (by decide : 0 < 2) (Nat.lt_of_le_of_lt hsecond (by decide)) _),
    ↓bind_of_eq_some (readFraction?_millis_append hmilli (not_isDigit_of_offset o)),
    ↓bind_of_eq_some (readInstantOffset?_chars hgap), hyear, ↓bind_of_eq_some f.date.of?_self,
    ↓bind_of_eq_some f.ofWritten?_clock]
  exact if_pos ⟨rfl, hday⟩

theorem Timestamp.read?_chars (hgap : o.gap = [':']) (hday : o.value.natAbs < 1440) :
    Timestamp.read? (String.ofList (f.chars 'T' ++ o.chars)) =
      some (.zoned (f.time.addMinutes (-o.value)) (o.value * 60)) := by
  simp only [Timestamp.read?, String.toList_ofList, readInstant?_chars f hgap hday]

end WhereClause.Calendar

namespace WhereClause.Filter

open WhereClause.Calendar

/-- **Instants in zones.** Of what a calendar and a clock show and the offset of the clock an instant is
read. The zone that is read from the same offset shows of it what was written; any zone shows it moved by
the difference of the two offsets, in the same second and millisecond. The host is taken to keep UTC, so
its zone moves an instant by nothing. -/
theorem ofJson_shownTime (f : ShownTime) {o : WrittenOffset} (hgap : o.gap = [':'])
    (hday : o.value.natAbs < 1440) :
    ∃ t, Operand.ofJson (.object [(dateKey, .string (String.ofList (f.chars 'T' ++ o.chars)))]) =
        .ok (.timestamp t) ∧
      Zone.read (String.ofList o.chars) = .ok (.offset o.value hday) ∧
      t.text? (.offset o.value hday) = some (String.ofList (f.chars ' ')) ∧
      ∀ z : Zone, ∃ shown : DateTime, t.text? z = some shown.text ∧
        shown.minutes = f.minutes + (z.minutes - o.value) ∧
        shown.clock.shownSecond = f.second ∧ shown.clock.millisecond = f.milli := by
  have hread : timestampOf? (.string (String.ofList (f.chars 'T' ++ o.chars))) =
      some (.zoned (f.time.addMinutes (-o.value)) (o.value * 60)) := by
    rw [timestampOf?, Timestamp.read?_chars f hgap hday]
  have hzone : Zone.read (String.ofList o.chars) = .ok (.offset o.value hday) := by
    refine Zone.read_eq_ok_iff.mpr (Zone.read?_eq_some_iff.mpr (.inl (.inr (.inr ?_))))
    exact ⟨o, hday, String.toList_ofList, rfl⟩
  have hmoved (z : Zone) : (f.time.addMinutes (-o.value)).addMinutes z.minutes =
      f.time.addMinutes (z.minutes - o.value) := by
    have hsum : -o.value + z.minutes = z.minutes - o.value := by omega
    rw [DateTime.addMinutes_addMinutes, hsum]
  have hshown (z : Zone) :
      (Timestamp.zoned (f.time.addMinutes (-o.value)) (o.value * 60)).text? z =
        some (f.time.addMinutes (z.minutes - o.value)).text := by
    have hfar : (z.minutes - o.value).natAbs < 10000 := by
      have hz := z.natAbs_minutes_lt
      omega
    have hin : (f.time.addMinutes (z.minutes - o.value)).date.InCalendar :=
      DateTime.inCalendar_addMinutes f.four_digits hfar
    rw [← hmoved z] at hin ⊢
    exact Timestamp.text?_of_isShown (.inr hin)
  refine ⟨_, ofJson_date_ok_iff.mpr ⟨_, hread, rfl⟩, hzone, ?_, fun z => ?_⟩
  · rw [hshown, Zone.minutes, Int.sub_self, DateTime.addMinutes_zero, f.text_time]
  · refine ⟨f.time.addMinutes (z.minutes - o.value), hshown z, ?_, ?_, ?_⟩
    · rw [DateTime.minutes_addMinutes, f.minutes_time]
    · exact (DateTime.shownSecond_addMinutes _ _).trans f.shownSecond_clock
    · exact (DateTime.millisecond_addMinutes _ _).trans f.millisecond_clock

/-- a leap second in the first minute of the year 0, which UTC has in the year before -/
def firstMinute : ShownTime :=
  ⟨⟨0, 1, 1, by decide⟩, 0, 0, 60, 999, by decide, by decide⟩

theorem ofJson_firstMinute :
    (WrittenOffset.ofMinutes 1439 (by decide)).gap = [':'] ∧
      ∃ t, Operand.ofJson (.object [(dateKey, .string "0000-01-01T00:00:60.999+23:59")]) =
          .ok (.timestamp t) ∧
        Zone.read "+23:59" = .ok (.offset 1439 (by decide)) ∧
        t.text? (.offset 1439 (by decide)) = some "0000-01-01 00:00:60.999" ∧
        ∃ shown : DateTime, t.text? .utc = some shown.text ∧ shown.minutes = -1439 ∧
          shown.clock.shownSecond = 60 ∧ shown.clock.millisecond = 999 := by
  have hminutes : firstMinute.minutes +
      (Zone.utc.minutes - (WrittenOffset.ofMinutes 1439 (by decide)).value) = -1439 := by decide
  obtain ⟨t, hread, hzone, hown, hshown⟩ :=
    ofJson_shownTime firstMinute (o := .ofMinutes 1439 (by decide)) rfl (by decide)
  obtain ⟨shown, htext, hmoved, hkept⟩ := hshown .utc
  exact ⟨rfl, t, hread, hzone, hown, shown, htext, hmoved.trans hminutes, hkept⟩

end WhereClause.Filter
