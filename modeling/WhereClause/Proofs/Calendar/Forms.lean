import Mathlib.Data.List.DropRight
import WhereClause.Proofs.Calendar.RoundTrip

/-!
# The forms of dates

Four forms of text are read as dates. The three without an offset begin with a date that is read in one
way, and what stands behind it tells them apart: nothing, a time of day behind the letter `T`, or one
behind white space. The form with an offset reads the same date and the same time of day, and then still
has its offset in front of it, where the others must have come to the end.

* `readDate?_eq_some_iff`, `readClock?_eq_some_iff`  the parts in turn;
* `readJoined?_eq_some_iff`, `readSpaced?_eq_some_iff`, `readDay?_eq_some_iff`  the forms by their parts;
* `parts_of_readInstant?`   date and time of day of an instant, with its offset left;
* `none_of_readInstant?`, `none_of_readJoined?`, `none_of_readSpaced?`  no two forms take the same text.
-/

set_option autoImplicit false

namespace WhereClause.Calendar

open WhereClause.Sql WhereClause.Text

/-! ## dates and times of day by their parts -/

theorem Date.of?_eq_some_iff {y : Int} {m n : Nat} {d : Date} :
    Date.of? y m n = some d ↔ d.year = y ∧ d.month = m ∧ d.day = n := by
  constructor
  · intro h
    unfold Date.of? at h
    split at h
    · cases h
      exact ⟨rfl, rfl, rfl⟩
    · cases h
  · rintro ⟨rfl, rfl, rfl⟩
    exact d.of?_self

theorem readDate?_eq_some_iff {cs rest : List Char} {d : Date} :
    readDate? cs = some (d, rest) ↔ d.InCalendar ∧ ∃ cs₁ cs₂,
      readYear? cs = some (d.year, '-' :: cs₁) ∧ readField? 2 cs₁ = some (d.month, '-' :: cs₂) ∧
        readField? 2 cs₂ = some (d.day, rest) := by
  constructor
  · intro h
    simp only [readDate?, ↓bind_eq_some_iff, ↓Prod.exists, readChar?_eq_some_iff] at h
    obtain ⟨y, _, hyear, cs₁, rfl, m, _, hmonth, cs₂, rfl, n, rest', hday, e, hdate, h⟩ := h
    obtain ⟨rfl, rfl, rfl⟩ := Date.of?_eq_some_iff.mp hdate
    split at h
    · next hin =>
      cases h
      exact ⟨hin, cs₁, cs₂, hyear, hmonth, hday⟩
    · cases h
  · rintro ⟨hin, cs₁, cs₂, hyear, hmonth, hday⟩
    rw [readDate?]
    simp only [↓bind_of_eq_some hyear, ↓bind_of_eq_some (readChar?_cons '-' _),
      ↓bind_of_eq_some hmonth, ↓bind_of_eq_some hday, ↓bind_of_eq_some d.of?_self, if_pos hin]

theorem readClock?_eq_some_iff {cs rest : List Char} {t : Clock} :
    readClock? cs = some (t, rest) ↔ ∃ hour cs₁ minute cs₂ second cs₃ nano,
      readField? 2 cs = some (hour, ':' :: cs₁) ∧ readField? 2 cs₁ = some (minute, ':' :: cs₂) ∧
        readField? 2 cs₂ = some (second, cs₃) ∧ readFraction? cs₃ = some (nano, rest) ∧
          Clock.ofWritten? hour minute second nano = some t := by
  constructor
  · intro h
    simp only [readClock?, ↓bind_eq_some_iff, ↓Prod.exists, readChar?_eq_some_iff, Option.some.injEq,
      Prod.mk.injEq] at h
    obtain ⟨hour, _, hhour, cs₁, rfl, minute, _, hminute, cs₂, rfl, second, cs₃, hsecond, nano, _,
      hnano, _, hclock, rfl, rfl⟩ := h
    exact ⟨hour, cs₁, minute, cs₂, second, cs₃, nano, hhour, hminute, hsecond, hnano, hclock⟩
  · rintro ⟨hour, cs₁, minute, cs₂, second, cs₃, nano, hhour, hminute, hsecond, hnano, hclock⟩
    rw [readClock?]
    simp only [↓bind_of_eq_some hhour, ↓bind_of_eq_some (readChar?_cons ':' _),
      ↓bind_of_eq_some hminute, ↓bind_of_eq_some hsecond, ↓bind_of_eq_some hnano,
      ↓bind_of_eq_some hclock]

/-! ## where a time of day begins -/

theorem skipBlanks_skipBlanks (cs : List Char) : skipBlanks (skipBlanks cs) = skipBlanks cs :=
  List.dropWhile_idempotent isBlank cs

theorem readField?_skipBlanks (width : Nat) (cs : List Char) :
    readField? width (skipBlanks cs) = readField? width cs := by
  rw [readField?, skipBlanks_skipBlanks, readField?]

theorem readClock?_skipBlanks (cs : List Char) : readClock? (skipBlanks cs) = readClock? cs := by
  rw [readClock?, readField?_skipBlanks, readClock?]

/-- no number begins with anything but white space and digits -/
theorem readField?_cons_eq_none {c : Char} (hd : c.isDigit = false) (hb : isBlank c = false)
    (width : Nat) (cs : List Char) : readField? width (c :: cs) = none := by
  rw [readField?, skipBlanks_of_not_isBlank hb, readNumber?]
  cases width <;> simp [hd]

theorem readClock?_cons_eq_none {c : Char} (hd : c.isDigit = false) (hb : isBlank c = false)
    (cs : List Char) : readClock? (c :: cs) = none := by
  rw [readClock?, readField?_cons_eq_none hd hb]
  rfl

theorem readClock?_nil : readClock? [] = none := rfl

theorem readClock?_cons_of_isBlank {c : Char} (h : isBlank c = true) (cs : List Char) :
    readClock? (c :: cs) = readClock? cs := by
  have hskip : skipBlanks (c :: cs) = skipBlanks cs := List.dropWhile_cons_of_pos h
  rw [← readClock?_skipBlanks (c :: cs), hskip, readClock?_skipBlanks]

/-! ## forms without an offset -/

theorem readNaive?_eq_some_iff {gap : List Char → Option (List Char)} {cs : List Char}
    {t : DateTime} : readNaive? gap cs = some t ↔ ∃ cs₁ cs₂,
      readDate? cs = some (t.date, cs₁) ∧ gap cs₁ = some cs₂ ∧
        readClock? cs₂ = some (t.clock, []) := by
  constructor
  · intro h
    simp only [readNaive?, ↓bind_eq_some_iff, ↓Prod.exists] at h
    obtain ⟨d, cs₁, hdate, cs₂, hgap, c, rest, hclock, h⟩ := h
    split at h
    · next hrest =>
      cases h
      rw [List.isEmpty_iff.mp hrest] at hclock
      exact ⟨cs₁, cs₂, hdate, hgap, hclock⟩
    · cases h
  · rintro ⟨cs₁, cs₂, hdate, hgap, hclock⟩
    rw [readNaive?]
    simp only [↓bind_of_eq_some hdate, ↓bind_of_eq_some hgap, ↓bind_of_eq_some hclock]
    rfl

theorem readJoined?_eq_some_iff {cs : List Char} {t : DateTime} :
    readJoined? cs = some t ↔ ∃ rest,
      readDate? cs = some (t.date, 'T' :: rest) ∧ readClock? rest = some (t.clock, []) := by
  rw [readJoined?, readNaive?_eq_some_iff]
  constructor
  · rintro ⟨cs₁, cs₂, hdate, hgap, hclock⟩
    rw [readChar?_eq_some_iff.mp hgap] at hdate
    exact ⟨cs₂, hdate, hclock⟩
  · rintro ⟨rest, hdate, hclock⟩
    exact ⟨_, rest, hdate, readChar?_cons 'T' rest, hclock⟩

theorem readSpaced?_eq_some_iff {cs : List Char} {t : DateTime} :
    readSpaced? cs = some t ↔ ∃ rest,
      readDate? cs = some (t.date, rest) ∧ readClock? rest = some (t.clock, []) := by
  rw [readSpaced?, readNaive?_eq_some_iff]
  constructor
  · rintro ⟨cs₁, cs₂, hdate, hgap, hclock⟩
    cases hgap
    rw [readClock?_skipBlanks] at hclock
    exact ⟨cs₁, hdate, hclock⟩
  · rintro ⟨rest, hdate, hclock⟩
    exact ⟨rest, _, hdate, rfl, (readClock?_skipBlanks rest).trans hclock⟩

theorem readDay?_eq_some_iff {cs : List Char} {t : DateTime} :
    readDay? cs = some t ↔ readDate? cs = some (t.date, []) ∧ t.clock = Clock.midnight := by
  constructor
  · intro h
    simp only [readDay?, ↓bind_eq_some_iff, ↓Prod.exists] at h
    obtain ⟨d, rest, hdate, h⟩ := h
    split at h
    · next hrest =>
      cases h
      rw [List.isEmpty_iff.mp hrest] at hdate
      exact ⟨hdate, rfl⟩
    · cases h
  · rintro ⟨hdate, hclock⟩
    rw [readDay?]
    simp only [↓bind_of_eq_some hdate, ← hclock]
    rfl

/-! ## the form with an offset -/

theorem readYear?_of_readDigits? {n : Nat} {cs rest : List Char}
    (h : readDigits? 4 cs = some (n, rest)) : readYear? cs = some ((n : Int), rest) := by
  have hread := readNumber?_of_readDigits? (by decide) h
  obtain ⟨ds, rfl, hlen, hds, -⟩ := readDigits?_eq_some_iff.mp h
  obtain ⟨c, ds, rfl⟩ := List.exists_cons_of_length_pos (l := ds) (by omega)
  rw [List.cons_append] at hread ⊢
  rw [readYear?_of_isDigit (hds c List.mem_cons_self), hread, Option.map_some]

theorem readInstantGap?_eq_some_iff {cs rest : List Char} :
    readInstantGap? cs = some rest ↔
      ∃ c, cs = c :: rest ∧ (c = 'T' ∨ c = 't' ∨ c = ' ') := by
  constructor
  · intro h
    unfold readInstantGap? at h
    split at h
    · next c cs =>
      split at h
      · next hc =>
        cases h
        exact ⟨c, rfl, hc⟩
      · cases h
    · cases h
  · rintro ⟨c, rfl, hc⟩
    exact if_pos hc

theorem lt_of_readDigits? {width n : Nat} {cs rest : List Char}
    (h : readDigits? width cs = some (n, rest)) : n < 10 ^ width := by
  obtain ⟨ds, -, rfl, hds, rfl⟩ := readDigits?_eq_some_iff.mp h
  exact digitsValue_lt hds

/-- An instant begins with a date and a time of day as they are read without an offset. Its offset is
what is left of it then. -/
theorem parts_of_readInstant? {cs : List Char} {t : DateTime} {k : Int}
    (h : readInstant? cs = some (t, k)) : ∃ gap rest behind,
      (gap = 'T' ∨ gap = 't' ∨ gap = ' ') ∧ behind ≠ [] ∧
        readDate? cs = some (t.date, gap :: rest) ∧ readClock? rest = some (t.clock, behind) := by
  simp only [readInstant?, ↓bind_eq_some_iff, ↓Prod.exists, readChar?_eq_some_iff] at h
  obtain ⟨year, _, hyear, cs₁, rfl, month, _, hmonth, cs₂, rfl, day, _, hday, rest, hgap, hour, _,
    hhour, cs₃, rfl, minute, _, hminute, cs₄, rfl, second, cs₅, hsecond, nano, behind, hnano, offset,
    left, hoffset, date, hdate, clock, hclock, h⟩ := h
  split at h
  · cases h
    obtain ⟨gap, rfl, hmark⟩ := readInstantGap?_eq_some_iff.mp hgap
    obtain ⟨hy, hm, hd⟩ := Date.of?_eq_some_iff.mp hdate
    have hin : date.InCalendar := by
      have hfour := lt_of_readDigits? hyear
      rw [Date.InCalendar, hy, Date.firstYear, Date.lastYear]
      omega
    refine ⟨gap, rest, behind, hmark, ?_, ?_, ?_⟩
    · rintro rfl
      cases hoffset
    · rw [← hm] at hmonth
      rw [← hd] at hday
      rw [readDate?_eq_some_iff, hy]
      exact ⟨hin, cs₁, cs₂, readYear?_of_readDigits? hyear, readField?_of_readDigits? (by decide) hmonth,
        readField?_of_readDigits? (by decide) hday⟩
    · exact readClock?_eq_some_iff.mpr ⟨hour, cs₃, minute, cs₄, second, cs₅, nano,
        readField?_of_readDigits? (by decide) hhour, readField?_of_readDigits? (by decide) hminute,
        readField?_of_readDigits? (by decide) hsecond, hnano, hclock⟩
  · cases h

/-! ## no two forms take the same text -/

variable {cs : List Char}

theorem rest_of_readDate? {d d' : Date} {rest rest' : List Char}
    (h : readDate? cs = some (d, rest)) (h' : readDate? cs = some (d', rest')) : rest = rest' := by
  rw [h] at h'
  cases h'
  rfl

theorem readClock?_of_mark {gap : Char} {r : Clock × List Char}
    (hmark : gap = 'T' ∨ gap = 't' ∨ gap = ' ') (h : readClock? (gap :: cs) = some r) :
    gap = ' ' ∧ readClock? cs = some r := by
  rcases hmark with rfl | rfl | rfl
  · exact nomatch (readClock?_cons_eq_none (by decide) (by decide) cs).symm.trans h
  · exact nomatch (readClock?_cons_eq_none (by decide) (by decide) cs).symm.trans h
  · exact ⟨rfl, (readClock?_cons_of_isBlank (by decide) cs).symm.trans h⟩

/-- no other form takes an instant: behind its time of day there is an offset -/
theorem none_of_readInstant? {r : DateTime × Int} (h : readInstant? cs = some r) :
    readJoined? cs = none ∧ readSpaced? cs = none ∧ readDay? cs = none := by
  obtain ⟨gap, rest, behind, hmark, hbehind, hdate, hclock⟩ := parts_of_readInstant? h
  have hend {c : Clock} (hc : readClock? rest = some (c, [])) : False := by
    rw [hclock] at hc
    cases hc
    exact hbehind rfl
  refine ⟨?_, ?_, ?_⟩ <;> refine Option.eq_none_iff_forall_ne_some.mpr fun u hu => ?_
  · obtain ⟨rest', hdate', hclock'⟩ := readJoined?_eq_some_iff.mp hu
    cases rest_of_readDate? hdate hdate'
    exact hend hclock'
  · obtain ⟨rest', hdate', hclock'⟩ := readSpaced?_eq_some_iff.mp hu
    cases rest_of_readDate? hdate hdate'
    exact hend (readClock?_of_mark hmark hclock').2
  · exact nomatch rest_of_readDate? hdate (readDay?_eq_some_iff.mp hu).1

theorem none_of_readJoined? {t : DateTime} (h : readJoined? cs = some t) :
    readSpaced? cs = none ∧ readDay? cs = none := by
  obtain ⟨rest, hdate, hclock⟩ := readJoined?_eq_some_iff.mp h
  refine ⟨?_, ?_⟩ <;> refine Option.eq_none_iff_forall_ne_some.mpr fun u hu => ?_
  · obtain ⟨rest', hdate', hclock'⟩ := readSpaced?_eq_some_iff.mp hu
    cases rest_of_readDate? hdate hdate'
    exact nomatch (readClock?_of_mark (.inl rfl) hclock').1
  · exact nomatch rest_of_readDate? hdate (readDay?_eq_some_iff.mp hu).1

theorem none_of_readSpaced? {t : DateTime} (h : readSpaced? cs = some t) : readDay? cs = none := by
  obtain ⟨rest, hdate, hclock⟩ := readSpaced?_eq_some_iff.mp h
  refine Option.eq_none_iff_forall_ne_some.mpr fun u hu => ?_
  cases rest_of_readDate? hdate (readDay?_eq_some_iff.mp hu).1
  exact nomatch readClock?_nil.symm.trans hclock

end WhereClause.Calendar
