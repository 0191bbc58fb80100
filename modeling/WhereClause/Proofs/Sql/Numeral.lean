import Mathlib.Data.List.TakeWhile
import WhereClause.Number.Basic

/-!
# Reading numerals

A numeral is a run of digits, with a fraction and an exponent or without. It ends where neither a
word nor a point goes on.

* `readNumeral`         a numeral and what stands behind it;
* `readNumeral_append`  the text of a numeral is read as a whole;
* `isNumeral_text`      a number is written as a numeral, behind a hyphen if it is negative.
-/

set_option autoImplicit false

namespace WhereClause.Sql

open WhereClause.Text WhereClause.Number

/-! ## numerals -/

/-- a character that goes on with a word -/
def isWordChar (c : Char) : Bool := c.isAlphanum || c = '_'

/-- a point and the digits behind it, if there is one, and the rest -/
def readFraction : List Char → List Char × List Char
  | [] => ([], [])
  | c :: cs => if c = '.' then (c :: (takeDigits cs).1, (takeDigits cs).2) else ([], c :: cs)

def readSign : List Char → List Char × List Char
  | [] => ([], [])
  | c :: cs => if c = '+' ∨ c = '-' then ([c], cs) else ([], c :: cs)

/-- an exponent, if there is one, and the rest -/
def readExponent : List Char → List Char × List Char
  | [] => ([], [])
  | c :: cs =>
    if c = 'e' ∧ (takeDigits (readSign cs).2).1 ≠ [] then
      (c :: (readSign cs).1 ++ (takeDigits (readSign cs).2).1, (takeDigits (readSign cs).2).2)
    else ([], c :: cs)

/-- whether a numeral may end before a text -/
def endsNumeral (cs : List Char) : Bool := cs.head?.all fun c => !isWordChar c && c != '.'

/-- a numeral and what stands behind it -/
def readNumeral (cs : List Char) : Option (List Char × List Char) :=
  let (whole, cs) := takeDigits cs
  let (fraction, cs) := readFraction cs
  let (exponent, cs) := readExponent cs
  if endsNumeral cs then some (whole ++ fraction ++ exponent, cs) else none

theorem length_takeDigits (cs : List Char) : (takeDigits cs).2.length ≤ cs.length := by
  have h := congrArg List.length (takeDigits_append cs)
  rw [List.length_append] at h
  omega

theorem length_readFraction (cs : List Char) : (readFraction cs).2.length ≤ cs.length := by
  cases cs with
  | nil => exact Nat.le_refl _
  | cons c cs =>
    rw [readFraction]
    split
    · exact Nat.le_succ_of_le (length_takeDigits cs)
    · exact Nat.le_refl _

theorem length_readSign (cs : List Char) : (readSign cs).2.length ≤ cs.length := by
  cases cs with
  | nil => exact Nat.le_refl _
  | cons c cs =>
    rw [readSign]
    split
    · exact Nat.le_succ _
    · exact Nat.le_refl _

theorem length_readExponent (cs : List Char) : (readExponent cs).2.length ≤ cs.length := by
  cases cs with
  | nil => exact Nat.le_refl _
  | cons c cs =>
    rw [readExponent]
    split
    · have hs := length_readSign cs
      have hd := length_takeDigits (readSign cs).2
      show (takeDigits (readSign cs).2).2.length ≤ cs.length + 1
      omega
    · exact Nat.le_refl _

theorem length_readNumeral {c : Char} (hc : c.isDigit) (cs : List Char) {s rest : List Char}
    (h : readNumeral (c :: cs) = some (s, rest)) : rest.length < (c :: cs).length := by
  have hd : (takeDigits (c :: cs)).2.length ≤ cs.length := by
    show ((c :: cs).dropWhile Char.isDigit).length ≤ _
    rw [List.dropWhile_cons_of_pos hc]
    exact length_takeDigits cs
  have hf := length_readFraction (takeDigits (c :: cs)).2
  have he := length_readExponent (readFraction (takeDigits (c :: cs)).2).2
  unfold readNumeral at h
  simp only at h
  split at h
  · cases h
    rw [List.length_cons]
    omega
  · exact nomatch h

def AllDigits (cs : List Char) : Prop := ∀ c ∈ cs, c.isDigit = true

theorem allDigits_zero : AllDigits ['0'] := List.forall_mem_singleton.mpr rfl

inductive IsFraction : List Char → Prop where
  | none : IsFraction []
  | point {ds : List Char} (hd : AllDigits ds) : IsFraction ('.' :: ds)

inductive IsExponent : List Char → Prop where
  | none : IsExponent []
  | power {sign : Char} {ds : List Char} (hs : sign = '+' ∨ sign = '-') (hne : ds ≠ [])
      (hd : AllDigits ds) : IsExponent ('e' :: sign :: ds)

/-- the text of a number without a sign -/
inductive IsNumeral : List Char → Prop where
  | mk {whole fraction exponent : List Char} (hne : whole ≠ []) (hd : AllDigits whole)
      (hf : IsFraction fraction) (he : IsExponent exponent) :
      IsNumeral (whole ++ fraction ++ exponent)

/-- a numeral starts with a digit -/
theorem IsNumeral.exists_cons {cs : List Char} (h : IsNumeral cs) :
    ∃ c ds, cs = c :: ds ∧ c.isDigit = true := by
  cases h with
  | @mk whole fraction exponent hne hd _ _ =>
    cases whole with
    | nil => exact absurd rfl hne
    | cons c ws => exact ⟨c, _, rfl, hd c List.mem_cons_self⟩

theorem takeDigits_run {ds rest : List Char} (hd : AllDigits ds)
    (hr : ∀ c, rest.head? = some c → c.isDigit = false) : takeDigits (ds ++ rest) = (ds, rest) := by
  unfold takeDigits
  rw [List.takeWhile_append_of_pos hd, List.dropWhile_append_of_pos hd]
  cases rest with
  | nil => simp
  | cons c cs =>
    have hc : ¬ c.isDigit = true := by
      rw [hr c rfl]
      exact Bool.false_ne_true
    rw [List.takeWhile_cons_of_neg hc, List.dropWhile_cons_of_neg hc, List.append_nil]

theorem of_endsNumeral {rest : List Char} (h : endsNumeral rest = true) {c : Char}
    (hc : rest.head? = some c) : isWordChar c = false ∧ c ≠ '.' := by
  rw [endsNumeral, hc] at h
  simpa using h

/-- no digit stands where a numeral may end -/
theorem isDigit_of_endsNumeral {rest : List Char} (h : endsNumeral rest = true) {c : Char}
    (hc : rest.head? = some c) : c.isDigit = false := by
  have hw := (of_endsNumeral h hc).1
  simp [isWordChar, Char.isAlphanum] at hw
  exact hw.1.2

theorem readExponent_append {exponent rest : List Char} (he : IsExponent exponent)
    (hr : endsNumeral rest = true) : readExponent (exponent ++ rest) = (exponent, rest) := by
  have hdigit : ∀ c, rest.head? = some c → c.isDigit = false :=
    fun _ hc => isDigit_of_endsNumeral hr hc
  cases he with
  | none =>
    cases rest with
    | nil => rfl
    | cons c cs =>
      have hne : c ≠ 'e' := by
        rintro rfl
        exact absurd (of_endsNumeral hr rfl).1 (by decide)
      show readExponent (c :: cs) = _
      rw [readExponent, if_neg fun h => hne h.1]
  | @power sign ds hs hne hd =>
    have hsign : readSign (sign :: (ds ++ rest)) = ([sign], ds ++ rest) := if_pos hs
    show readExponent ('e' :: sign :: (ds ++ rest)) = _
    rw [readExponent, hsign, takeDigits_run hd hdigit, if_pos ⟨rfl, hne⟩]
    rfl

/-- where an exponent and the end of a numeral stand, neither digits nor a point go on -/
theorem head_exponent {exponent rest : List Char} (he : IsExponent exponent)
    (hr : endsNumeral rest = true) {c : Char} (hc : (exponent ++ rest).head? = some c) :
    c.isDigit = false ∧ c ≠ '.' := by
  cases he with
  | none => exact ⟨isDigit_of_endsNumeral hr hc, (of_endsNumeral hr hc).2⟩
  | power _ _ _ =>
    cases hc
    decide

theorem readFraction_append {fraction exponent rest : List Char} (hf : IsFraction fraction)
    (he : IsExponent exponent) (hr : endsNumeral rest = true) :
    readFraction (fraction ++ (exponent ++ rest)) = (fraction, exponent ++ rest) := by
  have hhead {c : Char} (hc : (exponent ++ rest).head? = some c) := head_exponent he hr hc
  cases hf with
  | none =>
    show readFraction (exponent ++ rest) = _
    cases hx : exponent ++ rest with
    | nil => rfl
    | cons c cs =>
      rw [hx] at hhead
      exact if_neg (hhead rfl).2
  | @point ds hds =>
    show readFraction ('.' :: (ds ++ (exponent ++ rest))) = _
    rw [readFraction, if_pos rfl, takeDigits_run hds fun c hc => (hhead hc).1]

theorem takeDigits_whole {whole fraction exponent rest : List Char} (hd : AllDigits whole)
    (hf : IsFraction fraction) (he : IsExponent exponent) (hr : endsNumeral rest = true) :
    takeDigits (whole ++ (fraction ++ (exponent ++ rest))) =
      (whole, fraction ++ (exponent ++ rest)) := by
  refine takeDigits_run hd fun c hc => ?_
  cases hf with
  | none => exact (head_exponent he hr hc).1
  | point _ =>
    cases hc
    decide

theorem readNumeral_append {s rest : List Char} (h : IsNumeral s) (hr : endsNumeral rest = true) :
    readNumeral (s ++ rest) = some (s, rest) := by
  cases h with
  | @mk whole fraction exponent hne hd hf he =>
    unfold readNumeral
    rw [List.append_assoc, List.append_assoc, takeDigits_whole hd hf he hr]
    simp only [readFraction_append hf he hr, readExponent_append he hr, hr, if_true,
      List.append_assoc]

/-! ## the texts of numbers -/

theorem allDigits_decimal (n : Nat) : AllDigits (decimal n) :=
  fun _ hc => Nat.isDigit_of_mem_toDigits (by decide) (by decide) hc

theorem decimal_ne_nil (n : Nat) : decimal n ≠ [] := Nat.toDigits_ne_nil

theorem isNumeral_decimal (n : Nat) : IsNumeral (decimal n) := by
  have h := IsNumeral.mk (decimal_ne_nil n) (allDigits_decimal n) .none .none
  rwa [List.append_nil, List.append_nil] at h

/-- no digits read back as a number other than zero unless one of them is not zero -/
theorem ofDecimal?_zero (negative : Bool) (power : Int) :
    Binary64.ofDecimal? negative 0 power = some (Binary64.zero negative) := by
  have hnum : (Ratio.shift ⟨0, 1⟩ 10 (-power)).num = 0 := by
    unfold Ratio.shift
    split
    · rfl
    · exact Nat.zero_mul _
  rw [Binary64.ofDecimal?, Binary64.nearest?, if_pos hnum]

theorem shortest_ne_zero {x : Binary64} (hx : x.isZero = false) : x.shortest.1 ≠ 0 := by
  have hm : x.mantissa ≠ 0 := by simpa [Binary64.isZero] using hx
  unfold Binary64.shortest
  simp only
  cases hf : (List.range 17).findSome? fun (i : Nat) =>
      (x.onGrid? (Binary64.leadingPower x.ratio - i)).map
        fun d => (d, Binary64.leadingPower x.ratio - i) with
  | none =>
    show x.exactDecimal.1 ≠ 0
    unfold Binary64.exactDecimal
    split
    · exact Nat.mul_ne_zero hm (Nat.pos_iff_ne_zero.mp (Nat.pow_pos (by decide)))
    · exact Nat.mul_ne_zero hm (Nat.pos_iff_ne_zero.mp (Nat.pow_pos (by decide)))
  | some p =>
    obtain ⟨i, _, hi⟩ := List.exists_of_findSome?_eq_some hf
    obtain ⟨d, hd, he⟩ := Option.map_eq_some_iff.mp hi
    have hback := Binary64.readsBack_of_onGrid? hd
    intro hp
    have hd0 : d = 0 := by
      rw [← he] at hp
      exact hp
    subst hd0
    rw [Binary64.readsBack, ofDecimal?_zero] at hback
    have hzero : Binary64.zero x.negative = x := by simpa using hback
    exact hm (by rw [← hzero]; rfl)

/-- a number other than zero has a digit other than zero -/
theorem exists_ne_zero_of_decimal {n : Nat} (hn : n ≠ 0) : ∃ c ∈ decimal n, c ≠ '0' := by
  by_cases h : ∀ c ∈ decimal n, c = '0'
  · exfalso
    have hv := digitsValue_decimal n
    rw [List.eq_replicate_of_mem h, digitsValue, Nat.ofDigitChars_replicate_zero] at hv
    exact hn (by simpa using hv.symm)
  · simpa using h

theorem trimZeros_decimal {n : Nat} (hn : n ≠ 0) (power : Int) :
    (Binary64.trimZeros (decimal n) power).1 ≠ [] ∧
      AllDigits (Binary64.trimZeros (decimal n) power).1 := by
  show ((decimal n).reverse.dropWhile (· == '0')).reverse ≠ [] ∧
    AllDigits ((decimal n).reverse.dropWhile (· == '0')).reverse
  constructor
  · intro h
    obtain ⟨c, hc, hne⟩ := exists_ne_zero_of_decimal hn
    have hall := List.dropWhile_eq_nil_iff.mp (List.reverse_eq_nil_iff.mp h)
    exact hne (by simpa using hall c (List.mem_reverse.mpr hc))
  · intro c hc
    have hmem := (List.dropWhile_sublist _).mem (List.mem_reverse.mp hc)
    exact allDigits_decimal n c (List.mem_reverse.mp hmem)

theorem AllDigits.append {cs ds : List Char} (h : AllDigits cs) (h' : AllDigits ds) :
    AllDigits (cs ++ ds) := by
  intro c hc
  rcases List.mem_append.mp hc with hc | hc
  · exact h c hc
  · exact h' c hc

theorem allDigits_zeros (n : Nat) : AllDigits (List.replicate n '0') := by
  intro c hc
  rw [(List.mem_replicate.mp hc).2]
  rfl

theorem isNumeral_plain {ds : List Char} (hne : ds ≠ []) (hd : AllDigits ds) (power : Int) :
    IsNumeral (Binary64.plain ds power) := by
  have whole {ws fs : List Char} (hw : ws ≠ []) (hws : AllDigits ws) (hfs : AllDigits fs) :
      IsNumeral (ws ++ '.' :: fs) := by
    have h := IsNumeral.mk hw hws (.point hfs) .none
    rwa [List.append_nil] at h
  unfold Binary64.plain
  simp only
  split
  · refine whole ?_ (hd.append (allDigits_zeros _)) allDigits_zero
    exact fun h => hne (List.append_eq_nil_iff.mp h).1
  · split
    · next hp =>
      refine whole ?_ (fun c hc => hd c (List.mem_of_mem_take hc))
        fun c hc => hd c (List.mem_of_mem_drop hc)
      intro h
      rcases List.take_eq_nil_iff.mp h with h | h
      · omega
      · exact hne h
    · exact whole (List.cons_ne_nil _ _) allDigits_zero ((allDigits_zeros _).append hd)

theorem isNumeral_scientific {ds : List Char} (hne : ds ≠ []) (hd : AllDigits ds)
    (exponent : Int) : IsNumeral (Binary64.scientific ds exponent) := by
  have hfraction : IsFraction (if (ds.drop 1).isEmpty then [] else '.' :: ds.drop 1) := by
    split
    · exact .none
    · exact .point fun c hc => hd c (List.mem_of_mem_drop hc)
  have hsign : (if exponent < 0 then '-' else '+') = '+' ∨
      (if exponent < 0 then '-' else '+') = '-' := by
    split
    · exact .inr rfl
    · exact .inl rfl
  have hwhole : ds.take 1 ≠ [] := by
    intro h
    rcases List.take_eq_nil_iff.mp h with h | h
    · exact absurd h (by decide)
    · exact hne h
  have h := IsNumeral.mk hwhole (fun c hc => hd c (List.mem_of_mem_take hc)) hfraction
    (.power hsign (decimal_ne_nil exponent.natAbs) (allDigits_decimal exponent.natAbs))
  unfold Binary64.scientific
  simp only [List.append_assoc] at h ⊢
  exact h

theorem isNumeral_sizeText {x : Binary64} (hx : x.isZero = false) : IsNumeral x.sizeText := by
  obtain ⟨hne, hd⟩ := trimZeros_decimal (shortest_ne_zero hx) x.shortest.2
  unfold Binary64.sizeText
  simp only
  split
  · exact isNumeral_plain hne hd _
  · exact isNumeral_scientific hne hd _

/-- **How a number is written**: as a numeral, behind a hyphen if it is negative. -/
theorem isNumeral_text (n : Number) : ∃ cs, IsNumeral cs ∧
    (n.text = String.ofList cs ∨ n.text = String.ofList ('-' :: cs)) := by
  cases n with
  | integer n =>
    refine ⟨decimal n.natAbs, isNumeral_decimal _, ?_⟩
    rw [Number.text, Number.integerText]
    split
    · exact .inr rfl
    · exact .inl rfl
  | double x =>
    have hsize : IsNumeral (if x.isZero then ['0', '.', '0'] else x.sizeText) := by
      split
      · exact .mk (List.cons_ne_nil _ _) allDigits_zero (.point allDigits_zero) .none
      · next hx => exact isNumeral_sizeText (by simpa using hx)
    refine ⟨_, hsize, ?_⟩
    rw [Number.text, Binary64.text]
    split
    · exact .inr rfl
    · exact .inl rfl

end WhereClause.Sql
