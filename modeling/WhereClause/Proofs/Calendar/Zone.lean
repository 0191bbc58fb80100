import WhereClause.Proofs.Calendar.Fields

/-!
# Texts of zones

A zone is read from its name or from an offset, and is written so that it is read back. A name is the
whole text. Of an offset only the beginning is looked at: whatever stands behind its minutes is left
out, and the zone is that of the offset alone.

* `WrittenOffset`          an offset as it is written, from its sign to its minutes;
* `readOffset?_eq_some_iff`  where one stands at the front of a text;
* `Names`                  the texts that name a zone and say nothing else;
* `Zone.read?_text`        the text of a zone is read back;
* `Zone.read_ok_iff_names`  which texts are read as which zones, and what becomes of all others.
-/

set_option autoImplicit false

namespace WhereClause.Calendar

open WhereClause.Sql WhereClause.Text

/-! ## offsets as they are written -/

/-- what may stand between the hours and the minutes of an offset -/
def isGap (c : Char) : Bool := c = ':' || isBlank c

/-- an offset: a sign, two digits of hours, colons and white space or none, and two digits of minutes
below 60 -/
structure WrittenOffset where
  sign : Char
  negative : Bool
  hours : List Char
  gap : List Char
  minutes : List Char
  is_sign : offsetSign? sign = some negative
  two_hours : hours.length = 2 ∧ AllDigits hours
  all_gap : ∀ c ∈ gap, isGap c = true
  two_minutes : minutes.length = 2 ∧ AllDigits minutes
  under_sixty : digitsValue minutes < 60

namespace WrittenOffset

def chars (o : WrittenOffset) : List Char := o.sign :: (o.hours ++ (o.gap ++ o.minutes))

/-- the minutes without the sign -/
def size (o : WrittenOffset) : Nat := digitsValue o.hours * 60 + digitsValue o.minutes

/-- the offset in minutes -/
def value (o : WrittenOffset) : Int := if o.negative then -o.size else o.size

theorem chars_append (o : WrittenOffset) (rest : List Char) :
    o.chars ++ rest = o.sign :: (o.hours ++ (o.gap ++ (o.minutes ++ rest))) := by
  simp [chars]

theorem readDigits?_hours (o : WrittenOffset) (rest : List Char) :
    readDigits? 2 (o.hours ++ rest) = some (digitsValue o.hours, rest) :=
  readDigits?_digits o.two_hours.2 o.two_hours.1

theorem readDigits?_minutes (o : WrittenOffset) (rest : List Char) :
    readDigits? 2 (o.minutes ++ rest) = some (digitsValue o.minutes, rest) :=
  readDigits?_digits o.two_minutes.2 o.two_minutes.1

theorem minutes_ne_nil (o : WrittenOffset) : o.minutes ≠ [] :=
  List.ne_nil_of_length_pos (by rw [o.two_minutes.1]; decide)

end WrittenOffset

/-! ## reading them -/

theorem offsetSign?_eq_some_iff {c : Char} {negative : Bool} :
    offsetSign? c = some negative ↔
      c = '+' ∧ negative = false ∨ (c = '-' ∨ c = '\u2212') ∧ negative = true := by
  unfold offsetSign?
  split
  · next h => simp [h, eq_comm]
  · next h => split <;> simp_all [eq_comm]

/-- the signs that an offset may have -/
def IsSign (c : Char) : Prop := c = '+' ∨ c = '-' ∨ c = '\u2212'

theorem WrittenOffset.isSign (o : WrittenOffset) : IsSign o.sign := by
  rcases offsetSign?_eq_some_iff.mp o.is_sign with ⟨h, -⟩ | ⟨h | h, -⟩
  · exact .inl h
  · exact .inr (.inl h)
  · exact .inr (.inr h)

theorem isGap_of_isDigit {c : Char} (h : c.isDigit = true) : isGap c = false := by
  have hcolon : c ≠ ':' := by
    rintro rfl
    exact absurd h (by decide)
  simp [isGap, hcolon, isBlank_of_isDigit h]

theorem skipGap_append {gap ds : List Char} (hgap : ∀ c ∈ gap, isGap c = true)
    (hds : AllDigits ds) (hne : ds ≠ []) (rest : List Char) :
    skipGap (gap ++ (ds ++ rest)) = ds ++ rest := by
  obtain ⟨c, cs, rfl⟩ := List.exists_cons_of_ne_nil hne
  have hc : isGap c = false := isGap_of_isDigit (hds c List.mem_cons_self)
  show (gap ++ (c :: cs ++ rest)).dropWhile isGap = _
  rw [List.dropWhile_append_of_pos hgap, List.cons_append, List.dropWhile_cons_of_neg (by simp [hc])]

/-- the gap in front of what is left behind it -/
theorem exists_gap (cs : List Char) : ∃ gap, cs = gap ++ skipGap cs ∧ ∀ c ∈ gap, isGap c = true :=
  ⟨cs.takeWhile isGap, List.takeWhile_append_dropWhile.symm, fun _ hc => List.mem_takeWhile_imp hc⟩

/-- an offset at the front of a text is read by any reader that takes its gap -/
theorem readOffset?_chars {gap : List Char → Option (List Char)} {o : WrittenOffset}
    {rest : List Char} (hgap : gap (o.gap ++ (o.minutes ++ rest)) = some (o.minutes ++ rest)) :
    readOffset? gap (o.chars ++ rest) = some (o.value, rest) := by
  rw [WrittenOffset.chars_append, readOffset?]
  simp only [o.is_sign, o.readDigits?_hours, hgap, o.readDigits?_minutes, Option.bind_eq_bind,
    Option.bind_some, if_pos o.under_sixty]
  rfl

/-- the offset at the front of a text is read, whatever stands behind it -/
theorem readOffset?_eq_some_iff {cs rest : List Char} {k : Int} :
    readOffset? (fun cs => some (skipGap cs)) cs = some (k, rest) ↔
      ∃ o : WrittenOffset, cs = o.chars ++ rest ∧ k = o.value := by
  constructor
  · intro h
    cases cs with
    | nil => exact nomatch h
    | cons sign cs =>
      simp only [readOffset?, Option.bind_eq_bind, Option.bind_eq_some_iff, Prod.exists,
        Option.some.injEq] at h
      obtain ⟨negative, hsign, h, behind, hhours, _, rfl, m, rest', hminutes, hvalue⟩ := h
      obtain ⟨hours, rfl, hlen, hdigits, rfl⟩ := readDigits?_eq_some_iff.mp hhours
      obtain ⟨gap, hbehind, hgap⟩ := exists_gap behind
      obtain ⟨minutes, hcut, hlen', hdigits', rfl⟩ := readDigits?_eq_some_iff.mp hminutes
      split at hvalue
      · next hsixty =>
        cases hvalue
        refine ⟨⟨sign, negative, hours, gap, minutes, hsign, ⟨hlen, hdigits⟩, hgap,
          ⟨hlen', hdigits'⟩, hsixty⟩, ?_, rfl⟩
        rw [WrittenOffset.chars_append, ← hcut, ← hbehind]
      · exact nomatch hvalue
  · rintro ⟨o, rfl, rfl⟩
    have hskip := skipGap_append o.all_gap o.two_minutes.2 o.minutes_ne_nil rest
    exact readOffset?_chars (congrArg some hskip)

/-! ## writing them -/

namespace WrittenOffset

/-- an offset of less than a day as it is written -/
def ofMinutes (k : Int) (h : k.natAbs < 1440) : WrittenOffset where
  sign := if k < 0 then '-' else '+'
  negative := k < 0
  hours := padded 2 (k.natAbs / 60)
  gap := [':']
  minutes := padded 2 (k.natAbs % 60)
  is_sign := by split <;> simp_all [offsetSign?]
  two_hours := ⟨length_padded_of_lt (by decide) (by show _ < 100; omega), allDigits_padded _ _⟩
  all_gap := by simp [isGap]
  two_minutes := ⟨length_padded_of_lt (by decide) (by show _ < 100; omega), allDigits_padded _ _⟩
  under_sixty := by rw [digitsValue_padded]; omega

theorem value_ofMinutes (k : Int) (h : k.natAbs < 1440) : (ofMinutes k h).value = k := by
  have hsize : (ofMinutes k h).size = k.natAbs := by
    simp only [size, ofMinutes, digitsValue_padded]
    omega
  rw [value, hsize]
  simp only [ofMinutes, decide_eq_true_eq]
  split <;> omega

theorem chars_ofMinutes (k : Int) (h : k.natAbs < 1440) :
    (ofMinutes k h).chars = Zone.offsetText k := by
  simp [chars, ofMinutes, Zone.offsetText]

end WrittenOffset

/-! ## zones -/

/-- a text that names a zone from its first to its last character -/
def Names (s : String) (z : Zone) : Prop :=
  (s = "local" ∧ z = .host) ∨ ((s = "Z" ∨ s = "z") ∧ z = .utc) ∨
    ∃ (o : WrittenOffset) (h : o.value.natAbs < 1440), s.toList = o.chars ∧ z = .offset o.value h

/-- a text that begins with the offset of a zone and goes on behind it -/
def GoesOnBehind (s : String) (z : Zone) : Prop :=
  ∃ (o : WrittenOffset) (h : o.value.natAbs < 1440) (behind : List Char),
    behind ≠ [] ∧ s.toList = o.chars ++ behind ∧ z = .offset o.value h

namespace Zone

theorem ofMinutes?_eq_some_iff {k : Int} {z : Zone} :
    ofMinutes? k = some z ↔ ∃ h : k.natAbs < 1440, z = .offset k h := by
  unfold ofMinutes?
  split
  · next h => simp [h, eq_comm]
  · next h => simp [h]

/-- no name of a zone begins with a sign -/
theorem ne_of_offset {s name : String} {o : WrittenOffset} {rest : List Char}
    (h : s.toList = o.chars ++ rest) (hname : name.toList.head?.bind offsetSign? = none) :
    s ≠ name := by
  rintro rfl
  have hhead : s.toList.head? = some o.sign := by rw [h, WrittenOffset.chars_append]; rfl
  rw [hhead, Option.bind_some, o.is_sign] at hname
  exact nomatch hname

theorem read?_of_offset {s : String} {o : WrittenOffset} {rest : List Char}
    (h : s.toList = o.chars ++ rest) : read? s = ofMinutes? o.value := by
  have hread : readOffset? (fun cs => some (skipGap cs)) s.toList = some (o.value, rest) :=
    readOffset?_eq_some_iff.mpr ⟨o, h, rfl⟩
  have hlocal : s ≠ "local" := ne_of_offset h (by decide)
  have hutc : ¬(s = "Z" ∨ s = "z") :=
    not_or.mpr ⟨ne_of_offset h (by decide), ne_of_offset h (by decide)⟩
  rw [read?, if_neg hlocal, if_neg hutc, hread]
  rfl

theorem read?_eq_some_iff {s : String} {z : Zone} :
    read? s = some z ↔ Names s z ∨ GoesOnBehind s z := by
  constructor
  · intro h
    unfold read? at h
    split at h
    · next hs =>
      cases h
      exact .inl (.inl ⟨hs, rfl⟩)
    · split at h
      · next hs =>
        cases h
        exact .inl (.inr (.inl ⟨hs, rfl⟩))
      · obtain ⟨⟨k, rest⟩, hread, hz⟩ := Option.bind_eq_some_iff.mp h
        obtain ⟨o, hcs, rfl⟩ := readOffset?_eq_some_iff.mp hread
        obtain ⟨hk, rfl⟩ := ofMinutes?_eq_some_iff.mp hz
        by_cases hrest : rest = []
        · rw [hrest, List.append_nil] at hcs
          exact .inl (.inr (.inr ⟨o, hk, hcs, rfl⟩))
        · exact .inr ⟨o, hk, rest, hrest, hcs, rfl⟩
  · rintro ((⟨rfl, rfl⟩ | ⟨hs, rfl⟩ | ⟨o, hk, hcs, rfl⟩) | ⟨o, hk, rest, -, hcs, rfl⟩)
    · rfl
    · rcases hs with rfl | rfl <;> rfl
    · rw [← List.append_nil o.chars] at hcs
      rw [read?_of_offset hcs, ofMinutes?_eq_some_iff]
      exact ⟨hk, rfl⟩
    · rw [read?_of_offset hcs, ofMinutes?_eq_some_iff]
      exact ⟨hk, rfl⟩

/-- the text of a zone is read back, whatever text the zone was read from -/
theorem read?_text (z : Zone) : read? z.text = some z := by
  cases z with
  | host => rfl
  | utc => rfl
  | offset k h =>
    have hcs : (text (.offset k h)).toList = (WrittenOffset.ofMinutes k h).chars ++ [] := by
      rw [WrittenOffset.chars_ofMinutes, List.append_nil]
      exact String.toList_ofList
    rw [read?_of_offset hcs, ofMinutes?_eq_some_iff, WrittenOffset.value_ofMinutes]
    exact ⟨h, rfl⟩

/-! ## the zones of texts -/

theorem read_eq_ok_iff {s : String} {z : Zone} : read s = .ok z ↔ read? s = some z := by
  unfold read
  cases read? s <;> simp

/-- **Which texts are zones.** A text is read as a zone exactly if it names it, or if it begins with the
offset of the zone and goes on behind it: what stands behind the minutes is not looked at. Every other
text is the error that carries it. The text of a zone that was read is read as the same zone. -/
theorem read_ok_iff_names (s : String) :
    (∀ z, read s = .ok z ↔ Names s z ∨ GoesOnBehind s z) ∧
      ((¬∃ z, Names s z ∨ GoesOnBehind s z) → read s = .error ⟨s⟩) ∧
      ∀ z, read s = .ok z → read z.text = .ok z := by
  have hiff (z : Zone) : read s = .ok z ↔ Names s z ∨ GoesOnBehind s z :=
    read_eq_ok_iff.trans read?_eq_some_iff
  refine ⟨hiff, fun hnone => ?_, fun z _ => read_eq_ok_iff.mpr (read?_text z)⟩
  unfold read
  cases h : read? s with
  | none => rfl
  | some z => exact absurd ⟨z, read?_eq_some_iff.mp h⟩ hnone

/-- with seconds behind it an offset is read without them, and written without them -/
theorem read_ok_iff_names_seconds :
    read "+05:30:15" = .ok (.offset 330 (by decide)) ∧
      GoesOnBehind "+05:30:15" (.offset 330 (by decide)) ∧
      read "+05:30" = .ok (.offset 330 (by decide)) := by
  have hbehind : GoesOnBehind "+05:30:15" (.offset 330 (by decide)) :=
    ⟨.ofMinutes 330 (by decide), by decide, [':', '1', '5'], by decide, by decide, rfl⟩
  have hread := ((read_ok_iff_names "+05:30:15").1 _).mpr (.inr hbehind)
  exact ⟨hread, hbehind, (read_ok_iff_names "+05:30:15").2.2 _ hread⟩

/-- a text that is read as a zone and does not name it -/
theorem exists_read_not_names :
    ∃ z, read "+05:30:15" = .ok z ∧ ¬Names "+05:30:15" z := by
  refine ⟨.offset 330 (by decide), rfl, ?_⟩
  rintro (⟨hs, -⟩ | ⟨hs, -⟩ | ⟨o, -, hcs, -⟩)
  · exact absurd hs (by decide)
  · exact absurd hs (by decide)
  · have hchars : "+05:30:15".toList = '+' :: (['0', '5'] ++ ([':', '3', '0', ':'] ++ ['1', '5'])) :=
      rfl
    rw [hchars, WrittenOffset.chars] at hcs
    have htail := (List.append_inj (List.cons.inj hcs).2 o.two_hours.1.symm).2
    have hgap : [':', '3', '0', ':'] = o.gap := (List.append_inj' htail o.two_minutes.1.symm).1
    have hthree : isGap '3' = true := o.all_gap '3' (by rw [← hgap]; decide)
    exact absurd hthree (by decide)

end Zone

end WhereClause.Calendar
