import WhereClause.Proofs.Calendar.Clocks
import WhereClause.Proofs.Calendar.RoundTrip

/-!
# Milliseconds since 1970

A number of milliseconds is an instant if the calendar has its day. What a zone shows of it is read
back as a time that lies as many milliseconds after the start of 1970, and the offset of the zone.

* `DateTime.milliseconds`               counts them for any date and time;
* `DateTime.milliseconds_addMinutes`    minutes are added to the count, over days and years;
* `DateTime.milliseconds_ofMilliseconds`  the time of a count has this count;
* `DateTime.inCalendar_iff`             the counts that the calendar has;
* `ofJson_milliseconds`                 which numbers are read as instants, and how they are shown.
-/

set_option autoImplicit false

namespace WhereClause.Calendar

/-! ## counting -/

/-- the milliseconds since midnight -/
def Clock.milliseconds (t : Clock) : Nat :=
  (t.minuteOfDay * 60 + t.second) * 1000 + t.nano / 1000000

namespace DateTime

/-- the milliseconds since the start of 1970, below 0 for times before it -/
def milliseconds (t : DateTime) : Int :=
  (t.date.dayNumber - Date.epoch) * millisPerDay + t.clock.milliseconds

theorem milliseconds_wholeMillis (t : DateTime) : t.wholeMillis.milliseconds = t.milliseconds := by
  have hnano : (t.clock.nano - t.clock.nano % 1000000) / 1000000 = t.clock.nano / 1000000 := by
    omega
  simp only [milliseconds, Clock.milliseconds, wholeMillis, Clock.wholeMillis, Clock.minuteOfDay,
    hnano]

theorem milliseconds_eq (t : DateTime) : t.milliseconds =
    (t.minutes * 60 + t.clock.second) * 1000 + (t.clock.nano / 1000000 : Nat) -
      Date.epoch * millisPerDay := by
  rw [milliseconds, Clock.milliseconds, minutes]
  unfold millisPerDay
  omega

theorem milliseconds_addMinutes (t : DateTime) (k : Int) :
    (t.addMinutes k).milliseconds = t.milliseconds + 60000 * k := by
  rw [milliseconds_eq, milliseconds_eq, minutes_addMinutes, second_addMinutes, nano_addMinutes]
  omega

theorem milliseconds_clockOfMilliseconds {ms : Nat} (h : ms < millisPerDay) :
    (clockOfMilliseconds ms h).milliseconds = ms := by
  simp only [Clock.milliseconds, Clock.minuteOfDay, clockOfMilliseconds]
  omega

theorem toNat_emod_lt (ms : Int) : (ms % millisPerDay).toNat < millisPerDay := by
  unfold millisPerDay
  omega

/-- the time a number of milliseconds after the start of 1970, in the calendar or not -/
def ofMilliseconds (ms : Int) : DateTime :=
  ⟨Date.ofDayNumber (Date.epoch + ms / millisPerDay),
    clockOfMilliseconds (ms % millisPerDay).toNat (toNat_emod_lt ms)⟩

theorem milliseconds_ofMilliseconds (ms : Int) : (ofMilliseconds ms).milliseconds = ms := by
  rw [milliseconds, ofMilliseconds, Date.dayNumber_ofDayNumber, milliseconds_clockOfMilliseconds]
  unfold millisPerDay
  omega

/-- no time of a number of milliseconds lies in a leap second -/
theorem nano_ofMilliseconds (ms : Int) : (ofMilliseconds ms).clock.nano < nanosPerSecond := by
  simp only [ofMilliseconds, clockOfMilliseconds, nanosPerSecond]
  omega

/-! ## the calendar in milliseconds -/

/-- the first millisecond of the first year -/
def firstMillisecond : Int := -8334601228800000

/-- the last millisecond of the last year -/
def lastMillisecond : Int := 8210266876799999

/-- the milliseconds that the calendar has -/
def IsInstant (ms : Int) : Prop := firstMillisecond ≤ ms ∧ ms ≤ lastMillisecond

instance (ms : Int) : Decidable (IsInstant ms) := by
  unfold IsInstant
  infer_instance

/-- but for a leap second, a day is in the calendar if the milliseconds counted in it are -/
theorem inCalendar_iff {t : DateTime} (h : t.clock.nano < nanosPerSecond) :
    t.date.InCalendar ↔ IsInstant t.milliseconds := by
  have hday : t.date.dayNumber = Date.epoch + t.milliseconds / millisPerDay := by
    have ht := t.clock.is_time
    unfold IsTime at ht
    unfold nanosPerSecond at h
    rw [milliseconds, Clock.milliseconds, Clock.minuteOfDay]
    unfold millisPerDay
    omega
  rw [Date.inCalendar_iff, hday]
  simp only [IsInstant, firstMillisecond, lastMillisecond, Date.epoch, Date.firstYear,
    Date.lastYear, daysBefore, millisPerDay]
  omega

theorem ofMilliseconds?_eq (ms : Int) :
    ofMilliseconds? ms = if IsInstant ms then some (ofMilliseconds ms) else none := by
  have hdate := inCalendar_iff (nano_ofMilliseconds ms)
  rw [milliseconds_ofMilliseconds] at hdate
  exact if_congr hdate rfl rfl

example : [firstMillisecond, lastMillisecond].map (fun ms => (ofMilliseconds ms).text) =
    ["-262143-01-01 00:00:00.000", "+262142-12-31 23:59:59.999"] := by
  decide

/-- a time shown with an offset lies in the calendar, is read back, and has the offset in its count -/
theorem read?_addMinutes {ms k : Int} (h : IsInstant (ms + 60000 * k)) :
    ((ofMilliseconds ms).addMinutes k).date.InCalendar ∧
      ∃ shown, Timestamp.read? ((ofMilliseconds ms).addMinutes k).text = some (.naive shown) ∧
        shown.milliseconds - 60000 * k = ms := by
  have hcount : ((ofMilliseconds ms).addMinutes k).milliseconds = ms + 60000 * k := by
    rw [milliseconds_addMinutes, milliseconds_ofMilliseconds]
  have hnano : ((ofMilliseconds ms).addMinutes k).clock.nano < nanosPerSecond :=
    nano_ofMilliseconds ms
  have hdate : ((ofMilliseconds ms).addMinutes k).date.InCalendar := by
    rwa [inCalendar_iff hnano, hcount]
  refine ⟨hdate, _, Timestamp.read?_text hdate, ?_⟩
  rw [milliseconds_wholeMillis, hcount, Int.add_sub_cancel]

end DateTime

end WhereClause.Calendar

namespace WhereClause.Number

/-- the integers of 64 bits with a sign -/
def IsInt64 (k : Int) : Prop := -9223372036854775808 ≤ k ∧ k < 9223372036854775808

theorem asInt64?_eq_some_iff {n : Number} {k : Int} :
    n.asInt64? = some k ↔ n = .integer k ∧ IsInt64 k := by
  constructor
  · intro h
    unfold Number.asInt64? at h
    split at h
    · split at h
      · next hk =>
        cases h
        exact ⟨rfl, hk⟩
      · exact nomatch h
    · exact nomatch h
  · rintro ⟨rfl, hk⟩
    exact if_pos hk

end WhereClause.Number

namespace WhereClause.Filter

open WhereClause.Calendar

/-- the number is an integer of 64 bits, and so many milliseconds are an instant -/
def NamesInstant (n : Number) (ms : Int) : Prop :=
  n = .integer ms ∧ Number.IsInt64 ms ∧ DateTime.IsInstant ms

/-- the integers of 64 bits are taken as milliseconds, and no other numbers are -/
theorem timestampOf?_number_iff {n : Number} {t : Timestamp} :
    timestampOf? (.number n) = some t ↔
      ∃ ms, NamesInstant n ms ∧ t = .zoned (DateTime.ofMilliseconds ms) 0 := by
  have hinstant (ms : Int) : Timestamp.ofMilliseconds? ms = some t ↔
      DateTime.IsInstant ms ∧ t = .zoned (DateTime.ofMilliseconds ms) 0 := by
    rw [Timestamp.ofMilliseconds?, DateTime.ofMilliseconds?_eq]
    by_cases hms : DateTime.IsInstant ms
    · simp [hms, eq_comm]
    · simp [hms]
  simp only [timestampOf?, NamesInstant, Option.bind_eq_some_iff, Number.asInt64?_eq_some_iff,
    hinstant, and_assoc]

/-- **Numbers as instants.** A number is read exactly if it is an integer of 64 bits and the calendar
has so many milliseconds; every other number is no date. If the calendar has what the clocks of a zone
show of the instant, then it is read back as a time of no zone, whose count is the number again when the
offset is taken away. The host is taken to keep UTC, with no offset. -/
theorem ofJson_milliseconds (n : Number) :
    ((∃ x, Operand.ofJson (.object [(dateKey, .number n)]) = .ok x) ↔ ∃ ms, NamesInstant n ms) ∧
      ((¬∃ ms, NamesInstant n ms) →
        Operand.ofJson (.object [(dateKey, .number n)]) = .error (.invalidDate n.text)) ∧
      ∀ ms, NamesInstant n ms →
        ∃ t, Operand.ofJson (.object [(dateKey, .number n)]) = .ok (.timestamp t) ∧
          ∀ z : Zone, DateTime.IsInstant (ms + 60000 * z.minutes) →
            ∃ text shown, t.text? z = some text ∧
              Timestamp.read? text = some (.naive shown) ∧
              shown.milliseconds - 60000 * z.minutes = ms := by
  have haccepted (x : Operand) (hx : Operand.ofJson (.object [(dateKey, .number n)]) = .ok x) :
      ∃ ms, NamesInstant n ms := by
    obtain ⟨t, ht, -⟩ := ofJson_date_ok_iff.mp hx
    obtain ⟨ms, hms, -⟩ := timestampOf?_number_iff.mp ht
    exact ⟨ms, hms⟩
  have hread (ms : Int) (hms : NamesInstant n ms) :
      Operand.ofJson (.object [(dateKey, .number n)]) =
        .ok (.timestamp (.zoned (DateTime.ofMilliseconds ms) 0)) :=
    ofJson_date_ok_iff.mpr ⟨_, timestampOf?_number_iff.mpr ⟨ms, hms, rfl⟩, rfl⟩
  refine ⟨⟨fun ⟨x, hx⟩ => haccepted x hx, fun ⟨ms, hms⟩ => ⟨_, hread ms hms⟩⟩, fun hnone => ?_,
    fun ms hms => ⟨_, hread ms hms, fun z hz => ?_⟩⟩
  · cases h : Operand.ofJson (.object [(dateKey, .number n)]) with
    | ok x => exact absurd (haccepted x h) hnone
    | error e =>
      have hcompact : payloadText (.number n) = n.text := rfl
      rw [error_of_ofJson_date h, hcompact]
  · obtain ⟨hdate, shown, hshown, hcount⟩ := DateTime.read?_addMinutes hz
    exact ⟨_, shown, Timestamp.text?_of_isShown (.inr hdate), hshown, hcount⟩

/-- the last millisecond of February 1900 as clocks a minute ahead show it, in March -/
theorem ofJson_endOfFebruary :
    NamesInstant (.integer (-2203891200001)) (-2203891200001) ∧
      ∃ t, Operand.ofJson (.object [(dateKey, .number (.integer (-2203891200001)))]) =
          .ok (.timestamp t) ∧
        ∃ text shown, t.text? (.offset 1 (by decide)) = some text ∧
          Timestamp.read? text = some (.naive shown) ∧
          shown.milliseconds - 60000 = -2203891200001 := by
  have hms : NamesInstant (.integer (-2203891200001)) (-2203891200001) :=
    ⟨rfl, ⟨by decide, by decide⟩, by decide⟩
  obtain ⟨t, hread, hshown⟩ := (ofJson_milliseconds _).2.2 _ hms
  exact ⟨hms, t, hread, hshown (.offset 1 (by decide)) (by decide)⟩

end WhereClause.Filter
