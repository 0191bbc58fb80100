import WhereClause.Proofs.Calendar.Forms
import WhereClause.Proofs.Calendar.Zone

/-!
# Attempts to read a date

The four forms are tried one after the other. As no two of them take the same text, the order does not
matter. An offset is not lost on the way: the characters of a time of no zone are digits, white space and
separators, the last sign in it is the hyphen in front of its day, and what stands behind the day is a
time of day or nothing.

* `findSome?_eq_of_perm`    readers that exclude one another may be tried in any order;
* `Takes`                   the characters that a reader takes from the front of a text;
* `CarriesOffset`           texts with a `Z` or an offset in them;
* `none_of_carriesOffset`   none of them is a time of no zone;
* `ofJson_attempts`         what becomes of a text, by whatever attempts it is read.
-/

set_option autoImplicit false

namespace WhereClause.Calendar

open WhereClause.Sql WhereClause.Text

/-! ## the attempts -/

/-- the four forms as they are tried one after the other -/
def attempts : List (List Char → Option Timestamp) :=
  [fun cs => (readInstant? cs).map fun r => .zoned (r.1.addMinutes (-r.2)) (r.2 * 60),
    fun cs => (readJoined? cs).map .naive,
    fun cs => (readSpaced? cs).map .naive,
    fun cs => (readDay? cs).map .naive]

theorem Timestamp.read?_eq_findSome? (s : String) :
    Timestamp.read? s = attempts.findSome? (· s.toList) := by
  simp only [Timestamp.read?, attempts, List.findSome?_cons, List.findSome?_nil]
  cases readInstant? s.toList with
  | some r => rfl
  | none =>
    cases readJoined? s.toList with
    | some t => rfl
    | none =>
      cases readSpaced? s.toList with
      | some t => rfl
      | none => cases readDay? s.toList <;> rfl

theorem pairwise_attempts (cs : List Char) :
    attempts.Pairwise fun r r' => r cs = none ∨ r' cs = none := by
  cases hinstant : readInstant? cs with
  | some r =>
    obtain ⟨hjoined, hspaced, hday⟩ := none_of_readInstant? hinstant
    simp [attempts, hjoined, hspaced, hday]
  | none =>
    cases hjoined : readJoined? cs with
    | some t =>
      obtain ⟨hspaced, hday⟩ := none_of_readJoined? hjoined
      simp [attempts, hinstant, hspaced, hday]
    | none =>
      cases hspaced : readSpaced? cs with
      | some t => simp [attempts, hinstant, hjoined, none_of_readSpaced? hspaced]
      | none => simp [attempts, hinstant, hjoined, hspaced]

/-- of readers that exclude one another at most one gives a result -/
theorem length_filterMap_le_one {α β : Type} {f : α → Option β} {l : List α}
    (h : l.Pairwise fun a b => f a = none ∨ f b = none) : (l.filterMap f).length ≤ 1 := by
  induction l with
  | nil => exact Nat.zero_le 1
  | cons a l ih =>
    obtain ⟨ha, hl⟩ := List.pairwise_cons.mp h
    cases hfa : f a with
    | none =>
      rw [List.filterMap_cons_none hfa]
      exact ih hl
    | some b =>
      have hrest : l.filterMap f = [] := by
        refine List.filterMap_eq_nil_iff.mpr fun c hc => ?_
        exact (ha c hc).resolve_left (by rw [hfa]; exact Option.some_ne_none b)
      rw [List.filterMap_cons_some hfa, hrest]
      exact Nat.le_refl 1

theorem length_attempts_le_one (cs : List Char) : (attempts.filterMap (· cs)).length ≤ 1 :=
  length_filterMap_le_one (pairwise_attempts cs)

/-- where at most one gives a result, the first to do so is the same in whatever order they stand -/
theorem findSome?_eq_of_perm {α β : Type} {f : α → Option β} {l l' : List α} (h : l.Perm l')
    (hone : (l'.filterMap f).length ≤ 1) : l.findSome? f = l'.findSome? f := by
  have hperm := h.filterMap f
  have heq : l.filterMap f = l'.filterMap f := by
    cases hl : l'.filterMap f with
    | nil => exact List.perm_nil.mp (hl ▸ hperm)
    | cons b bs =>
      rw [hl] at hone hperm
      cases List.length_eq_zero_iff.mp (Nat.le_zero.mp (Nat.le_of_succ_le_succ hone))
      exact List.perm_singleton.mp hperm
  rw [← List.head?_filterMap, ← List.head?_filterMap, heq]

/-! ## the characters that are read -/

variable {cs : List Char}

/-- `rest` is left of a text when some characters with `P` are taken from its front -/
def Takes (P : Char → Prop) (cs rest : List Char) : Prop :=
  ∃ front, cs = front ++ rest ∧ ∀ c ∈ front, P c

namespace Takes

variable {P Q : Char → Prop} {ds rest : List Char}

theorem refl (cs : List Char) : Takes P cs cs := ⟨[], rfl, fun _ hc => nomatch hc⟩

theorem trans (h : Takes P cs ds) (h' : Takes P ds rest) : Takes P cs rest := by
  obtain ⟨front, rfl, hfront⟩ := h
  obtain ⟨front', rfl, hfront'⟩ := h'
  refine ⟨front ++ front', (List.append_assoc _ _ _).symm, fun c hc => ?_⟩
  exact (List.mem_append.mp hc).elim (hfront c) (hfront' c)

theorem cons {c : Char} (hc : P c) (h : Takes P cs rest) : Takes P (c :: cs) rest :=
  trans ⟨[c], rfl, fun _ hd => List.mem_singleton.mp hd ▸ hc⟩ h

theorem mono (h : Takes P cs rest) (hPQ : ∀ c, P c → Q c) : Takes Q cs rest := by
  obtain ⟨front, rfl, hfront⟩ := h
  exact ⟨front, rfl, fun c hc => hPQ c (hfront c hc)⟩

theorem mem (h : Takes P cs rest) {c : Char} (hc : c ∈ cs) : P c ∨ c ∈ rest := by
  obtain ⟨front, rfl, hfront⟩ := h
  exact (List.mem_append.mp hc).imp_left (hfront c)

end Takes

/-- the characters of numbers in fields -/
def InField (c : Char) : Prop := c.isDigit = true ∨ isBlank c = true

/-- the characters of dates -/
def InDate (c : Char) : Prop := InField c ∨ c = '+' ∨ c = '-'

/-- the characters of times of day -/
def InClock (c : Char) : Prop := InField c ∨ c = ':' ∨ c = '.'

theorem takes_skipBlanks (cs : List Char) : Takes InField cs (skipBlanks cs) :=
  ⟨cs.takeWhile isBlank, List.takeWhile_append_dropWhile.symm,
    fun _ hc => .inr (List.mem_takeWhile_imp hc)⟩

theorem takes_of_readNumber? {width n : Nat} {rest : List Char}
    (h : readNumber? width cs = some (n, rest)) : Takes InField cs rest := by
  obtain ⟨ds, hcut, -, hds, -⟩ := readNumber?_eq_some_iff.mp h
  exact ⟨ds, hcut, fun c hc => .inl (hds c hc)⟩

theorem takes_of_readField? {width n : Nat} {rest : List Char}
    (h : readField? width cs = some (n, rest)) : Takes InField cs rest :=
  (takes_skipBlanks cs).trans (takes_of_readNumber? h)

theorem takes_of_readYear? {y : Int} {rest : List Char} (h : readYear? cs = some (y, rest)) :
    Takes InDate cs rest := by
  have hskip : Takes InDate cs (skipBlanks cs) := (takes_skipBlanks cs).mono fun _ => .inl
  refine hskip.trans ?_
  unfold readYear? at h
  split at h <;> obtain ⟨⟨n, rest'⟩, hread, hr⟩ := Option.map_eq_some_iff.mp h <;> cases hr
  · next hcs => exact hcs ▸ ((takes_of_readNumber? hread).mono fun _ => .inl).cons (.inr (.inr rfl))
  · next hcs => exact hcs ▸ ((takes_of_readNumber? hread).mono fun _ => .inl).cons (.inr (.inl rfl))
  · exact (takes_of_readNumber? hread).mono fun _ => .inl

/-- the day of a date stands behind a hyphen and characters of dates -/
theorem exists_day_of_readDate? {d : Date} {rest : List Char}
    (h : readDate? cs = some (d, rest)) : ∃ day,
      Takes InDate cs ('-' :: day) ∧ readField? 2 day = some (d.day, rest) := by
  obtain ⟨-, cs₁, cs₂, hyear, hmonth, hday⟩ := readDate?_eq_some_iff.mp h
  have hmonth' : Takes InDate cs₁ ('-' :: cs₂) := (takes_of_readField? hmonth).mono fun _ => .inl
  exact ⟨cs₂, (takes_of_readYear? hyear).trans (hmonth'.cons (.inr (.inr rfl))), hday⟩

theorem takes_of_readDate? {d : Date} {rest : List Char} (h : readDate? cs = some (d, rest)) :
    Takes InDate cs rest := by
  obtain ⟨day, hfront, hday⟩ := exists_day_of_readDate? h
  exact hfront.trans (((takes_of_readField? hday).mono fun _ => .inl).cons (.inr (.inr rfl)))

theorem takes_of_readFraction? {n : Nat} {rest : List Char}
    (h : readFraction? cs = some (n, rest)) : Takes InClock cs rest := by
  unfold readFraction? at h
  split at h
  · next cs =>
    simp only at h
    split at h
    · exact nomatch h
    · cases h
      refine Takes.cons (.inr (.inr rfl)) ⟨(takeDigits cs).1, (takeDigits_append cs).symm, ?_⟩
      exact fun c hc => .inl (.inl (List.mem_takeWhile_imp hc))
  · cases h
    exact .refl _

theorem takes_of_readClock? {t : Clock} {rest : List Char} (h : readClock? cs = some (t, rest)) :
    Takes InClock cs rest := by
  obtain ⟨hour, cs₁, minute, cs₂, second, cs₃, nano, hhour, hminute, hsecond, hnano, -⟩ :=
    readClock?_eq_some_iff.mp h
  have hfield {n : Nat} {cs rest : List Char} (h : readField? 2 cs = some (n, rest)) :
      Takes InClock cs rest := (takes_of_readField? h).mono fun _ => .inl
  have hsecond' := (hfield hsecond).trans (takes_of_readFraction? hnano)
  have hminute' := (hfield hminute).trans (hsecond'.cons (.inr (.inl rfl)))
  exact (hfield hhour).trans (hminute'.cons (.inr (.inl rfl)))

/-! ## behind the date of a time of no zone -/

/-- nothing, or a time of day, which the letter `T` may stand before -/
def EndsAsTime (rest : List Char) : Prop :=
  rest = [] ∨ ∃ t, readClock? rest = some (t, []) ∨
    ∃ cs, rest = 'T' :: cs ∧ readClock? cs = some (t, [])

theorem mem_of_endsAsTime {rest : List Char} (h : EndsAsTime rest) {c : Char} (hc : c ∈ rest) :
    c = 'T' ∨ InClock c := by
  have hclock {cs : List Char} {t : Clock} (h : readClock? cs = some (t, [])) (hc : c ∈ cs) :
      InClock c := ((takes_of_readClock? h).mem hc).resolve_right List.not_mem_nil
  rcases h with rfl | ⟨t, ht | ⟨cs, rfl, ht⟩⟩
  · exact nomatch hc
  · exact .inr (hclock ht hc)
  · exact (List.mem_cons.mp hc).imp_right (hclock ht)

theorem exists_rest_of_naive {t : DateTime}
    (h : readJoined? cs = some t ∨ readSpaced? cs = some t ∨ readDay? cs = some t) :
    ∃ rest, readDate? cs = some (t.date, rest) ∧ EndsAsTime rest := by
  rcases h with h | h | h
  · obtain ⟨rest, hdate, hclock⟩ := readJoined?_eq_some_iff.mp h
    exact ⟨_, hdate, .inr ⟨_, .inr ⟨rest, rfl, hclock⟩⟩⟩
  · obtain ⟨rest, hdate, hclock⟩ := readSpaced?_eq_some_iff.mp h
    exact ⟨rest, hdate, .inr ⟨_, .inl hclock⟩⟩
  · exact ⟨[], (readDay?_eq_some_iff.mp h).1, .inl rfl⟩

/-! ## texts that carry an offset -/

/-- a text with the letter `Z` in it, with an offset at its end, or with a sign anywhere behind the
date that it begins with -/
def CarriesOffset (cs : List Char) : Prop :=
  ('Z' ∈ cs ∨ 'z' ∈ cs) ∨ (∃ (front : List Char) (o : WrittenOffset), cs = front ++ o.chars) ∨
    ∃ d rest, readDate? cs = some (d, rest) ∧ ∃ c ∈ rest, IsSign c

theorem not_isSign_of_inField {c : Char} (h : InField c) : ¬IsSign c := by
  rintro (rfl | rfl | rfl) <;> exact absurd h (by unfold InField; decide)

theorem not_isSign_of_endsAsTime {rest : List Char} (h : EndsAsTime rest) {c : Char}
    (hc : c ∈ rest) : ¬IsSign c := by
  rcases mem_of_endsAsTime h hc with rfl | hfield | rfl | rfl
  · unfold IsSign; decide
  · exact not_isSign_of_inField hfield
  · unfold IsSign; decide
  · unfold IsSign; decide

/-- the letters that stand for UTC are in no time of no zone -/
theorem not_mem_of_endsAsTime {d : Date} {rest : List Char} {c : Char} (hc : c = 'Z' ∨ c = 'z')
    (hdate : readDate? cs = some (d, rest)) (h : EndsAsTime rest) : c ∉ cs := by
  intro hmem
  rcases (takes_of_readDate? hdate).mem hmem with hin | hrest
  · rcases hc with rfl | rfl <;> exact absurd hin (by unfold InDate InField; decide)
  · have hin := mem_of_endsAsTime h hrest
    rcases hc with rfl | rfl <;> exact absurd hin (by unfold InClock InField; decide)

/-- what stands behind the last character with `P` -/
theorem eq_of_last {P : Char → Prop} {as bs us vs : List Char} {x y : Char} (hx : P x) (hy : P y)
    (hus : ∀ c ∈ us, ¬P c) (hvs : ∀ c ∈ vs, ¬P c) (h : as ++ x :: us = bs ++ y :: vs) :
    us = vs := by
  rcases List.append_eq_append_iff.mp h with ⟨mid, rfl, hmid⟩ | ⟨mid, rfl, hmid⟩
  · cases mid with
    | nil => exact (List.cons.inj hmid).2
    | cons z mid =>
      obtain ⟨-, rfl⟩ := List.cons.inj hmid
      exact absurd hy (hus y (by simp))
  · cases mid with
    | nil => exact (List.cons.inj hmid).2.symm
    | cons z mid =>
      obtain ⟨-, rfl⟩ := List.cons.inj hmid
      exact absurd hx (hvs x (by simp))

theorem isGap_eq_true_iff {c : Char} : isGap c = true ↔ c = ':' ∨ isBlank c = true := by
  simp [isGap]

theorem WrittenOffset.not_isSign (o : WrittenOffset) {c : Char}
    (hc : c ∈ o.hours ++ (o.gap ++ o.minutes)) : ¬IsSign c := by
  rcases List.mem_append.mp hc with hc | hc
  · exact not_isSign_of_inField (.inl (o.two_hours.2 c hc))
  · rcases List.mem_append.mp hc with hc | hc
    · rcases isGap_eq_true_iff.mp (o.all_gap c hc) with rfl | hblank
      · unfold IsSign; decide
      · exact not_isSign_of_inField (.inr hblank)
    · exact not_isSign_of_inField (.inl (o.two_minutes.2 c hc))

/-- two digits behind colons and white space are no time of day -/
theorem readClock?_gap {gap minutes : List Char} (hgap : ∀ c ∈ gap, isGap c = true)
    (hlen : minutes.length = 2) (hds : AllDigits minutes) : readClock? (gap ++ minutes) = none := by
  induction gap with
  | nil =>
    have hfield : readField? 2 (minutes ++ []) = some (digitsValue minutes, []) :=
      readField?_of_readDigits? (by decide) (readDigits?_digits hds hlen)
    rw [List.append_nil] at hfield
    rw [List.nil_append, readClock?, hfield]
    rfl
  | cons c gap ih =>
    obtain ⟨hc, hgap⟩ := List.forall_mem_cons.mp hgap
    rw [List.cons_append]
    rcases isGap_eq_true_iff.mp hc with rfl | hblank
    · exact readClock?_cons_eq_none (by decide) (by decide) _
    · rw [readClock?_cons_of_isBlank hblank, ih hgap]

theorem WrittenOffset.not_endsAsTime (o : WrittenOffset) : ¬EndsAsTime (o.gap ++ o.minutes) := by
  rintro (hnil | ⟨t, ht | ⟨cs, hT, -⟩⟩)
  · exact o.minutes_ne_nil (List.append_eq_nil_iff.mp hnil).2
  · rw [readClock?_gap o.all_gap o.two_minutes.1 o.two_minutes.2] at ht
    exact nomatch ht
  · have hmem : 'T' ∈ o.gap ++ o.minutes := hT ▸ List.mem_cons_self
    rcases List.mem_append.mp hmem with hgap | hminutes
    · exact absurd (o.all_gap _ hgap) (by decide)
    · exact absurd (o.two_minutes.2 _ hminutes) (by decide)

/-- An offset at the end of a text begins at its last sign. That of a time of no zone is the hyphen in
front of its day, and behind the day there would have to be a time of day. -/
theorem not_endsAsTime_of_offset {front rest : List Char} {o : WrittenOffset} {d : Date}
    (hdate : readDate? (front ++ o.chars) = some (d, rest)) : ¬EndsAsTime rest := by
  intro hrest
  obtain ⟨day, ⟨before, hcut, -⟩, hday⟩ := exists_day_of_readDate? hdate
  have hlast (c : Char) (hc : c ∈ day) : ¬IsSign c :=
    ((takes_of_readField? hday).mem hc).elim not_isSign_of_inField (not_isSign_of_endsAsTime hrest)
  have heq : o.hours ++ (o.gap ++ o.minutes) = day :=
    eq_of_last o.isSign (.inr (.inl rfl)) (fun _ => o.not_isSign) hlast hcut
  rw [← heq, readField?_of_readDigits? (by decide) (o.readDigits?_hours _)] at hday
  obtain ⟨-, rfl⟩ := Prod.mk.inj (Option.some.inj hday)
  exact o.not_endsAsTime hrest

/-- a text that carries an offset is no time of no zone -/
theorem none_of_carriesOffset (h : CarriesOffset cs) :
    readJoined? cs = none ∧ readSpaced? cs = none ∧ readDay? cs = none := by
  have hno (t : DateTime) :
      ¬(readJoined? cs = some t ∨ readSpaced? cs = some t ∨ readDay? cs = some t) := by
    intro ht
    obtain ⟨rest, hdate, hrest⟩ := exists_rest_of_naive ht
    rcases h with (hZ | hz) | ⟨front, o, rfl⟩ | ⟨d, rest', hdate', c, hc, hsign⟩
    · exact not_mem_of_endsAsTime (.inl rfl) hdate hrest hZ
    · exact not_mem_of_endsAsTime (.inr rfl) hdate hrest hz
    · exact not_endsAsTime_of_offset hdate hrest
    · rw [rest_of_readDate? hdate' hdate] at hc
      exact not_isSign_of_endsAsTime hrest hc hsign
  refine ⟨?_, ?_, ?_⟩ <;> refine Option.eq_none_iff_forall_ne_some.mpr fun t ht => hno t ?_
  · exact .inl ht
  · exact .inr (.inl ht)
  · exact .inr (.inr ht)

theorem Timestamp.read?_of_carriesOffset {s : String} (h : CarriesOffset s.toList) :
    Timestamp.read? s = none ∨ ∃ utc offset, Timestamp.read? s = some (.zoned utc offset) := by
  obtain ⟨hjoined, hspaced, hday⟩ := none_of_carriesOffset h
  rw [Timestamp.read?, hjoined, hspaced, hday]
  cases readInstant? s.toList with
  | some r => exact .inr ⟨_, _, rfl⟩
  | none => exact .inl rfl

end WhereClause.Calendar

namespace WhereClause.Filter

open WhereClause.Calendar

/-- the operand of a date is what its text is read as -/
theorem ofJson_text (s : String) : Operand.ofJson (.object [(dateKey, .string s)]) =
    (Timestamp.read? s).elim (.error (.invalidDate s)) fun t => .ok (.timestamp t) := by
  have htext : timestampOf? (.string s) = Timestamp.read? s := by rw [timestampOf?]
  rw [ofJson_date, readTimestamp, htext]
  cases Timestamp.read? s with
  | some t => rfl
  | none => rfl

/-- **The forms of dates do not overlap.** At most one of the four attempts reads a text, and in whatever
order they are made, the first to do so gives the operand of the date. A text that carries an offset
gives an instant or the error that names it, and no time of no zone. -/
theorem ofJson_attempts (s : String) :
    (attempts.filterMap (· s.toList)).length ≤ 1 ∧
      (∀ order : List (List Char → Option Timestamp), order.Perm attempts →
        Operand.ofJson (.object [(dateKey, .string s)]) =
          (order.findSome? (· s.toList)).elim (.error (.invalidDate s))
            fun t => .ok (.timestamp t)) ∧
      (CarriesOffset s.toList →
        Operand.ofJson (.object [(dateKey, .string s)]) = .error (.invalidDate s) ∨
          ∃ utc offset, Operand.ofJson (.object [(dateKey, .string s)]) =
            .ok (.timestamp (.zoned utc offset))) := by
  have hone := length_attempts_le_one s.toList
  refine ⟨hone, fun order horder => ?_, fun hcarries => ?_⟩
  · rw [ofJson_text, Timestamp.read?_eq_findSome?, findSome?_eq_of_perm horder hone]
  · rw [ofJson_text]
    rcases Timestamp.read?_of_carriesOffset hcarries with hnone | ⟨utc, offset, hzoned⟩
    · rw [hnone]
      exact .inl rfl
    · rw [hzoned]
      exact .inr ⟨utc, offset, rfl⟩

/-- an offset with no colon is none that an instant may have, and is not left out of the text either -/
theorem ofJson_attempts_noColon :
    CarriesOffset "2020-02-01T10:00:00+0530".toList ∧
      Operand.ofJson (.object [(dateKey, .string "2020-02-01T10:00:00+0530")]) =
        .error (.invalidDate "2020-02-01T10:00:00+0530") := by
  let offset : WrittenOffset :=
    { WrittenOffset.ofMinutes 330 (by decide) with gap := [], all_gap := fun _ hc => nomatch hc }
  have hcarries : CarriesOffset "2020-02-01T10:00:00+0530".toList :=
    .inr (.inl ⟨"2020-02-01T10:00:00".toList, offset, by decide⟩)
  obtain ⟨-, horder, hread⟩ := ofJson_attempts "2020-02-01T10:00:00+0530"
  refine ⟨hcarries, (hread hcarries).resolve_right ?_⟩
  rintro ⟨utc, k, hzoned⟩
  rw [horder attempts (.refl _)] at hzoned
  have hnone : attempts.findSome? (· "2020-02-01T10:00:00+0530".toList) = none := by decide
  rw [hnone] at hzoned
  exact nomatch hzoned

end WhereClause.Filter
