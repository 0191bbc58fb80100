import WhereClause.Calendar.Reader
import WhereClause.Proofs.Sql.Number

/-!
# Numbers in fields

A number that is written with leading zeros is read back from the front of any text, by each of the
readers of digits.

* `digitsValue_lt`  a run of digits names a number below the power of ten of its length;
* `readNumber?_digits`, `readDigits?_digits`  digits that fill a field, or end before what is no digit;
* `readNumber?_eq_some_iff`, `readDigits?_eq_some_iff`  what the readers of digits take;
* `readDigits?_padded`, `readField?_padded`  a number in a field that it fits into;
* `readAllDigits?_padded`  a number in front of something that is no digit;
* `readFraction?_millis_append`  three digits behind a point.
-/

set_option autoImplicit false

namespace WhereClause.Calendar

open WhereClause.Sql WhereClause.Text

/-! ## digits and the numbers they name -/

theorem toNat_of_isDigit {c : Char} (h : c.isDigit = true) : 48 ≤ c.toNat ∧ c.toNat ≤ 57 := by
  simpa [Char.isDigit, UInt32.le_iff_toNat_le] using h

theorem digitsValue_cons (c : Char) (cs : List Char) :
    digitsValue (c :: cs) = digitsValue [c] * 10 ^ cs.length + digitsValue cs :=
  digitsValue_append [c] cs

theorem digitsValue_singleton (c : Char) : digitsValue [c] = c.toNat - 48 := by
  simp [digitsValue, Nat.ofDigitChars_cons]

theorem digitsValue_lt {ds : List Char} (h : AllDigits ds) : digitsValue ds < 10 ^ ds.length := by
  induction ds with
  | nil => decide
  | cons d ds ih =>
    obtain ⟨hd, hds⟩ := List.forall_mem_cons.mp h
    have hrange := toNat_of_isDigit hd
    have hle : (d.toNat - 48) * 10 ^ ds.length ≤ 9 * 10 ^ ds.length :=
      Nat.mul_le_mul_right _ (by omega)
    have hrest := ih hds
    rw [digitsValue_cons, digitsValue_singleton, List.length_cons, Nat.pow_succ]
    omega

/-! ## padded numbers -/

theorem allDigits_padded (width n : Nat) : AllDigits (padded width n) :=
  (allDigits_zeros _).append (allDigits_decimal n)

theorem padded_ne_nil (width n : Nat) : padded width n ≠ [] :=
  List.append_ne_nil_of_right_ne_nil _ (decimal_ne_nil n)

theorem length_padded_of_lt {width n : Nat} (hw : 0 < width) (h : n < Nat.pow 10 width) :
    (padded width n).length = width :=
  length_padded ((Nat.length_toDigits_le_iff (by decide) hw).mpr h)

/-- a padded number begins with a digit -/
theorem exists_cons_padded (width n : Nat) :
    ∃ c cs, padded width n = c :: cs ∧ c.isDigit = true := by
  have hd := allDigits_padded width n
  cases h : padded width n with
  | nil => exact absurd h (padded_ne_nil width n)
  | cons c cs =>
    rw [h] at hd
    exact ⟨c, cs, rfl, hd c List.mem_cons_self⟩

/-! ## readers -/

/-- what a reader does behind a part that it has read -/
theorem bind_of_eq_some {α β : Type} {x : Option α} {a : α} (h : x = some a) (f : α → Option β) :
    (x >>= f) = f a := by
  rw [h]
  rfl

/-- what a reader has read if it reads anything -/
theorem bind_eq_some_iff {α β : Type} {x : Option α} {f : α → Option β} {b : β} :
    (x >>= f) = some b ↔ ∃ a, x = some a ∧ f a = some b :=
  Option.bind_eq_some_iff

theorem readChar?_cons (c : Char) (cs : List Char) : readChar? c (c :: cs) = some cs :=
  if_pos rfl

theorem readChar?_eq_some_iff {c : Char} {cs rest : List Char} :
    readChar? c cs = some rest ↔ cs = c :: rest := by
  constructor
  · intro h
    unfold readChar? at h
    split at h
    · split at h
      · next hc =>
        cases h
        rw [hc]
      · exact nomatch h
    · exact nomatch h
  · rintro rfl
    exact readChar?_cons c rest

/-- digits at the front of a text are read as far as the field goes, or to what is no digit -/
theorem readNumber?_digits {width : Nat} {ds rest : List Char} (hne : ds ≠ []) (hd : AllDigits ds)
    (hw : ds.length ≤ width)
    (hr : ∀ c, (rest.take (width - ds.length)).head? = some c → c.isDigit = false) :
    readNumber? width (ds ++ rest) = some (digitsValue ds, rest) := by
  have hds : ((ds ++ rest).take width).takeWhile Char.isDigit = ds := by
    rw [List.take_append, List.take_of_length_le hw]
    exact congrArg Prod.fst (takeDigits_run hd hr)
  simp only [readNumber?, hds, List.isEmpty_iff, if_neg hne, List.drop_left]

theorem readNumber?_eq_some_iff {width n : Nat} {cs rest : List Char} :
    readNumber? width cs = some (n, rest) ↔
      ∃ ds, cs = ds ++ rest ∧ ds ≠ [] ∧ AllDigits ds ∧ ds.length ≤ width ∧
        (∀ c, (rest.take (width - ds.length)).head? = some c → c.isDigit = false) ∧
        n = digitsValue ds := by
  constructor
  · intro h
    let ds := (cs.take width).takeWhile Char.isDigit
    have hcut : ds ++ (cs.take width).dropWhile Char.isDigit = cs.take width :=
      List.takeWhile_append_dropWhile
    have hfront : ds ++ cs.drop ds.length = cs :=
      List.prefix_iff_eq_append.mp ((List.takeWhile_prefix _).trans (List.take_prefix _ _))
    have hlen : ds.length ≤ width :=
      Nat.le_trans (List.takeWhile_prefix _).length_le (List.length_take_le _ _)
    simp only [readNumber?, List.isEmpty_iff] at h
    split at h
    · exact nomatch h
    · next hne =>
      cases h
      refine ⟨ds, hfront.symm, hne, fun c hc => List.mem_takeWhile_imp hc, hlen, ?_, rfl⟩
      have hstop : (cs.take width).dropWhile Char.isDigit =
          (cs.drop ds.length).take (width - ds.length) := by
        have hwidth : cs.take width = (ds ++ cs.drop ds.length).take width := by rw [hfront]
        rw [List.take_append, List.take_of_length_le hlen] at hwidth
        exact List.append_cancel_left (hcut.trans hwidth)
      intro c hc
      have hhead := List.head?_dropWhile_not Char.isDigit (cs.take width)
      rw [hstop, hc] at hhead
      simpa using hhead
  · rintro ⟨ds, rfl, hne, hds, hlen, hstop, rfl⟩
    exact readNumber?_digits hne hds hlen hstop

theorem readDigits?_digits {width : Nat} {ds rest : List Char} (hd : AllDigits ds)
    (hw : ds.length = width) : readDigits? width (ds ++ rest) = some (digitsValue ds, rest) := by
  subst hw
  have hall : ds.all Char.isDigit = true := List.all_eq_true.mpr hd
  simp only [readDigits?, List.take_left, List.drop_left, hall, and_self, if_true]

theorem readDigits?_eq_some_iff {width n : Nat} {cs rest : List Char} :
    readDigits? width cs = some (n, rest) ↔
      ∃ ds, cs = ds ++ rest ∧ ds.length = width ∧ AllDigits ds ∧ n = digitsValue ds := by
  constructor
  · intro h
    simp only [readDigits?] at h
    split at h
    · next hds =>
      cases h
      exact ⟨cs.take width, (List.take_append_drop width cs).symm, hds.1,
        List.all_eq_true.mp hds.2, rfl⟩
    · exact nomatch h
  · rintro ⟨ds, rfl, hlen, hds, rfl⟩
    exact readDigits?_digits hds hlen

theorem readDigits?_padded {width n : Nat} (hw : 0 < width) (h : n < Nat.pow 10 width)
    (rest : List Char) : readDigits? width (padded width n ++ rest) = some (n, rest) := by
  rw [readDigits?_digits (allDigits_padded width n) (length_padded_of_lt hw h), digitsValue_padded]

theorem readNumber?_of_readDigits? {width n : Nat} {cs rest : List Char} (hw : 0 < width)
    (h : readDigits? width cs = some (n, rest)) : readNumber? width cs = some (n, rest) := by
  obtain ⟨ds, rfl, hlen, hds, rfl⟩ := readDigits?_eq_some_iff.mp h
  refine readNumber?_digits (List.ne_nil_of_length_pos (by omega)) hds hlen.le ?_
  rw [hlen, Nat.sub_self]
  exact fun _ hc => nomatch hc

theorem readNumber?_padded {width n : Nat} (hw : 0 < width) (h : n < Nat.pow 10 width)
    (rest : List Char) : readNumber? width (padded width n ++ rest) = some (n, rest) :=
  readNumber?_of_readDigits? hw (readDigits?_padded hw h rest)

theorem readAllDigits?_padded (width n : Nat) {rest : List Char}
    (hr : ∀ c, rest.head? = some c → c.isDigit = false) :
    readAllDigits? (padded width n ++ rest) = some (n, rest) := by
  rw [readAllDigits?, readNumber?_digits (padded_ne_nil _ _) (allDigits_padded _ _) (by simp),
    digitsValue_padded]
  intro c hc
  refine hr c ?_
  rwa [List.length_append, Nat.add_sub_cancel_left, List.take_length] at hc

/-! ## behind white space -/

theorem isBlank_of_isDigit {c : Char} (h : c.isDigit = true) : isBlank c = false := by
  have hrange := toNat_of_isDigit h
  simp [isBlank, blanks, CharSet.contains, CharRange.contains]
  omega

theorem skipBlanks_digits {ds : List Char} (hne : ds ≠ []) (hd : AllDigits ds)
    (rest : List Char) : skipBlanks (ds ++ rest) = ds ++ rest := by
  obtain ⟨c, cs, rfl⟩ := List.exists_cons_of_ne_nil hne
  exact skipBlanks_of_not_isBlank (isBlank_of_isDigit (hd c List.mem_cons_self))

theorem skipBlanks_padded (width n : Nat) (rest : List Char) :
    skipBlanks (padded width n ++ rest) = padded width n ++ rest :=
  skipBlanks_digits (padded_ne_nil width n) (allDigits_padded width n) rest

/-- a field takes the digits that fill it -/
theorem readField?_of_readDigits? {width n : Nat} {cs rest : List Char} (hw : 0 < width)
    (h : readDigits? width cs = some (n, rest)) : readField? width cs = some (n, rest) := by
  have hread := readNumber?_of_readDigits? hw h
  obtain ⟨ds, rfl, hlen, hds, -⟩ := readDigits?_eq_some_iff.mp h
  rwa [readField?, skipBlanks_digits (List.ne_nil_of_length_pos (by omega)) hds]

theorem readField?_padded {width n : Nat} (hw : 0 < width) (h : n < Nat.pow 10 width)
    (rest : List Char) : readField? width (padded width n ++ rest) = some (n, rest) :=
  readField?_of_readDigits? hw (readDigits?_padded hw h rest)

/-! ## fractions -/

/-- milliseconds behind a point, as nanoseconds, in front of what is no digit -/
theorem readFraction?_millis_append {n : Nat} (h : n < 1000) {rest : List Char}
    (hr : ∀ c, rest.head? = some c → c.isDigit = false) :
    readFraction? ('.' :: (padded 3 n ++ rest)) = some (n * 1000000, rest) := by
  have hlen := length_padded_of_lt (by decide : 0 < 3) h
  have hds : takeDigits (padded 3 n ++ rest) = (padded 3 n, rest) :=
    takeDigits_run (allDigits_padded 3 n) hr
  have hkept : (padded 3 n).take 9 = padded 3 n := List.take_of_length_le (by omega)
  have hne : (padded 3 n).isEmpty = false := by
    rw [List.isEmpty_eq_false_iff]
    exact padded_ne_nil 3 n
  simp only [readFraction?, hds, hkept, hne, hlen, digitsValue_padded]
  rfl

theorem readFraction?_millis {n : Nat} (h : n < 1000) :
    readFraction? ('.' :: padded 3 n) = some (n * 1000000, []) := by
  have hread : readFraction? ('.' :: (padded 3 n ++ [])) = some (n * 1000000, []) :=
    readFraction?_millis_append h fun _ hc => nomatch hc
  rwa [List.append_nil] at hread

end WhereClause.Calendar
