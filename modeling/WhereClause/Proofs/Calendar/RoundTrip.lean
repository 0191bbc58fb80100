import WhereClause.Proofs.Calendar.DayNumber
import WhereClause.Proofs.Calendar.Fields
import WhereClause.Proofs.Filter.Documents

/-!
# Written times are read back

The text of a time of no zone is taken by the third of the four forms, whatever its year is. The first
form stops at the sign of the year or for want of an offset, the second one at the blank.

* `readYear?_yearText`, `readDate?_dateText`, `readClock?_clockText`  the parts in turn;
* `readInstant?_text`, `readJoined?_text`, `readSpaced?_text`  the forms that are tried;
* `Timestamp.read?_text`  all of them;
* `ofJson_naive`          the same of an object that holds the text.
-/

set_option autoImplicit false

namespace WhereClause.Calendar

open WhereClause.Text

/-! ## years -/

theorem readYear?_of_isDigit {c : Char} (hc : c.isDigit = true) (cs : List Char) :
    readYear? (c :: cs) = (readNumber? 4 (c :: cs)).map fun r => ((r.1 : Int), r.2) := by
  rw [readYear?, skipBlanks_of_not_isBlank (isBlank_of_isDigit hc)]
  split
  · next h =>
    cases h
    exact absurd hc (by decide)
  · next h =>
    cases h
    exact absurd hc (by decide)
  · rfl

theorem readYear?_minus (cs : List Char) :
    readYear? ('-' :: cs) = (readAllDigits? cs).map fun r => (-(r.1 : Int), r.2) := by
  rw [readYear?, skipBlanks_of_not_isBlank (by decide)]
  rfl

theorem readYear?_plus (cs : List Char) :
    readYear? ('+' :: cs) = (readAllDigits? cs).map fun r => ((r.1 : Int), r.2) := by
  rw [readYear?, skipBlanks_of_not_isBlank (by decide)]
  rfl

theorem readYear?_yearText (y : Int) (rest : List Char) :
    readYear? (yearText y ++ '-' :: rest) = some (y, '-' :: rest) := by
  have hsigned : readAllDigits? (padded 4 y.natAbs ++ '-' :: rest) =
      some (y.natAbs, '-' :: rest) := by
    refine readAllDigits?_padded 4 y.natAbs fun c hc => ?_
    cases hc
    rfl
  unfold yearText
  split
  · next h =>
    have hfour : y.natAbs < 10000 := by omega
    have hread := readNumber?_padded (by decide : 0 < 4) hfour ('-' :: rest)
    obtain ⟨c, cs, hcs, hc⟩ := exists_cons_padded 4 y.natAbs
    rw [hcs] at hread ⊢
    rw [List.cons_append, readYear?_of_isDigit hc, ← List.cons_append, hread, Option.map_some,
      Int.natAbs_of_nonneg h.1]
  · split
    · next _ h =>
      have hneg : -(y.natAbs : Int) = y := by omega
      rw [List.cons_append, readYear?_minus, hsigned, Option.map_some, hneg]
    · next _ h =>
      rw [List.cons_append, readYear?_plus, hsigned, Option.map_some,
        Int.natAbs_of_nonneg (Int.not_lt.mp h)]

/-! ## dates -/

theorem Date.of?_self (d : Date) : Date.of? d.year d.month d.day = some d := dif_pos d.exists_day

theorem Date.shown_lt (d : Date) : d.month < 100 ∧ d.day < 100 := by
  have hmonth := d.exists_day.le_month
  have hday := d.exists_day.le_day
  omega

theorem dateText_append (d : Date) (rest : List Char) :
    dateText d ++ rest =
      yearText d.year ++ '-' :: (padded 2 d.month ++ '-' :: (padded 2 d.day ++ rest)) := by
  simp [dateText]

theorem readDate?_dateText {d : Date} (h : d.InCalendar) (rest : List Char) :
    readDate? (dateText d ++ rest) = some (d, rest) := by
  obtain ⟨hmonth, hday⟩ := d.shown_lt
  rw [dateText_append, readDate?]
  simp only [↓bind_of_eq_some (readChar?_cons '-' _), ↓bind_of_eq_some (readYear?_yearText _ _),
    ↓bind_of_eq_some (readField?_padded (by decide : 0 < 2) hmonth _),
    ↓bind_of_eq_some (readField?_padded (by decide : 0 < 2) hday _),
    ↓bind_of_eq_some d.of?_self, if_pos h]

/-! ## times of day -/

/-- the time with its nanoseconds cut down to whole milliseconds -/
def Clock.wholeMillis (t : Clock) : Clock :=
  ⟨t.hour, t.minute, t.second, t.nano - t.nano % 1000000, by
    have := t.is_time
    unfold IsTime nanosPerSecond at this ⊢
    omega⟩

def DateTime.wholeMillis (t : DateTime) : DateTime := ⟨t.date, t.clock.wholeMillis⟩

/-- what is shown of a time gives its whole milliseconds, of a leap second too -/
theorem Clock.ofWritten?_shown (t : Clock) :
    ofWritten? t.hour t.minute t.shownSecond (t.millisecond * 1000000) = some t.wholeMillis := by
  have ht := t.is_time
  have hof := t.wholeMillis.is_time
  have hself : of? t.hour t.minute t.second (t.nano - t.nano % 1000000) = some t.wholeMillis :=
    dif_pos hof
  unfold IsTime nanosPerSecond at ht
  unfold ofWritten? shownSecond millisecond
  unfold nanosPerSecond
  split
  · next h =>
    have hsecond : 59 = t.second := by omega
    have hnano : t.nano % 1000000000 / 1000000 * 1000000 + 1000000000 =
        t.nano - t.nano % 1000000 := by omega
    rw [hnano, hsecond, hself]
  · next h =>
    have hsecond : t.second + t.nano / 1000000000 = t.second := by omega
    have hnano : t.nano % 1000000000 / 1000000 * 1000000 = t.nano - t.nano % 1000000 := by omega
    rw [hnano, hsecond, hself]

theorem Clock.shown_lt (t : Clock) :
    t.hour < 100 ∧ t.minute < 100 ∧ t.shownSecond < 100 ∧ t.millisecond < 1000 := by
  have ht := t.is_time
  unfold IsTime nanosPerSecond at ht
  unfold shownSecond millisecond nanosPerSecond
  omega

theorem clockText_eq (t : Clock) :
    clockText t = padded 2 t.hour ++ ':' :: (padded 2 t.minute ++ ':' ::
      (padded 2 t.shownSecond ++ '.' :: padded 3 t.millisecond)) := by
  simp [clockText]

theorem readClock?_clockText (t : Clock) : readClock? (clockText t) = some (t.wholeMillis, []) := by
  obtain ⟨hhour, hminute, hsecond, hmilli⟩ := t.shown_lt
  rw [clockText_eq, readClock?]
  simp only [↓bind_of_eq_some (readChar?_cons ':' _),
    ↓bind_of_eq_some (readField?_padded (by decide : 0 < 2) hhour _),
    ↓bind_of_eq_some (readField?_padded (by decide : 0 < 2) hminute _),
    ↓bind_of_eq_some (readField?_padded (by decide : 0 < 2) hsecond _),
    ↓bind_of_eq_some (readFraction?_millis hmilli), ↓bind_of_eq_some t.ofWritten?_shown]

theorem skipBlanks_clockText (t : Clock) : skipBlanks (' ' :: clockText t) = clockText t := by
  rw [clockText_eq]
  exact skipBlanks_padded _ _ _

/-! ## forms -/

theorem readDigits?_of_not_isDigit {c : Char} (hc : c.isDigit = false) (width : Nat)
    (cs : List Char) : readDigits? (width + 1) (c :: cs) = none := by
  simp [readDigits?, hc]

theorem readInstant?_text (t : DateTime) :
    readInstant? (dateText t.date ++ ' ' :: clockText t.clock) = none := by
  obtain ⟨hmonth, hday⟩ := t.date.shown_lt
  obtain ⟨hhour, hminute, hsecond, hmilli⟩ := t.clock.shown_lt
  have hgap (cs : List Char) : readInstantGap? (' ' :: cs) = some cs := rfl
  rw [dateText_append, clockText_eq]
  unfold yearText
  split
  · next hyear =>
    -- every field is there, and the offset is what is left out
    have hfour : t.date.year.natAbs < 10000 := by omega
    rw [readInstant?]
    simp only [↓bind_of_eq_some (readChar?_cons '-' _), ↓bind_of_eq_some (readChar?_cons ':' _),
      ↓bind_of_eq_some (hgap _),
      ↓bind_of_eq_some (readDigits?_padded (by decide : 0 < 4) hfour _),
      ↓bind_of_eq_some (readDigits?_padded (by decide : 0 < 2) hmonth _),
      ↓bind_of_eq_some (readDigits?_padded (by decide : 0 < 2) hday _),
      ↓bind_of_eq_some (readDigits?_padded (by decide : 0 < 2) hhour _),
      ↓bind_of_eq_some (readDigits?_padded (by decide : 0 < 2) hminute _),
      ↓bind_of_eq_some (readDigits?_padded (by decide : 0 < 2) hsecond _),
      ↓bind_of_eq_some (readFraction?_millis hmilli)]
    rfl
  · have hsign : (if t.date.year < 0 then '-' else '+').isDigit = false := by
      split <;> rfl
    rw [List.cons_append, readInstant?, readDigits?_of_not_isDigit hsign]
    rfl

variable {t : DateTime} (h : t.date.InCalendar)
include h

theorem readJoined?_text : readJoined? (dateText t.date ++ ' ' :: clockText t.clock) = none := by
  rw [readJoined?, readNaive?, readDate?_dateText h]
  rfl

theorem readSpaced?_text :
    readSpaced? (dateText t.date ++ ' ' :: clockText t.clock) = some t.wholeMillis := by
  rw [readSpaced?, readNaive?, readDate?_dateText h]
  simp only [Option.bind_eq_bind, Option.bind_some, skipBlanks_clockText, readClock?_clockText]
  rfl

theorem Timestamp.read?_text : Timestamp.read? t.text = some (.naive t.wholeMillis) := by
  have hchars : t.text.toList = dateText t.date ++ ' ' :: clockText t.clock := String.toList_ofList
  simp only [Timestamp.read?, hchars, readInstant?_text, readJoined?_text h, readSpaced?_text h,
    Option.none_or, Option.some_or, Option.map_some]

end WhereClause.Calendar

namespace WhereClause.Filter

open WhereClause.Calendar

/-- **Times of no zone are read back.** Any such time has a text in every zone, that of the host too,
whatever it keeps. Of the text the whole milliseconds are read, and as a time of no zone again. -/
theorem ofJson_naive {t : DateTime} (h : t.date.InCalendar) (z : Zone) :
    ∃ text, (Timestamp.naive t).text? z = some text ∧
      Operand.ofJson (.object [(dateKey, .string text)]) =
        .ok (.timestamp (.naive t.wholeMillis)) := by
  have hread : timestampOf? (.string t.text) = some (.naive t.wholeMillis) := by
    rw [timestampOf?, Timestamp.read?_text h]
  exact ⟨t.text, rfl, ofJson_date_ok_iff.mpr ⟨_, hread, rfl⟩⟩

/-- the last nanosecond of a leap second at the end of the year before the year 0 -/
def leapSecond : DateTime :=
  ⟨⟨-1, 12, 31, by decide⟩, ⟨23, 59, 59, 1999999999, by decide⟩⟩

theorem ofJson_leapSecond :
    leapSecond.date.InCalendar ∧ leapSecond.wholeMillis.clock.nano = 1999000000 ∧
      (Timestamp.naive leapSecond).text? .utc = some "-0001-12-31 23:59:60.999" ∧
      Operand.ofJson (.object [(dateKey, .string "-0001-12-31 23:59:60.999")]) =
        .ok (.timestamp (.naive leapSecond.wholeMillis)) := by
  have htext : (Timestamp.naive leapSecond).text? .utc = some "-0001-12-31 23:59:60.999" := by decide
  obtain ⟨text, hshown, hread⟩ := ofJson_naive (t := leapSecond) (by decide) .utc
  cases hshown.symm.trans htext
  exact ⟨by decide, rfl, htext, hread⟩

end WhereClause.Filter
