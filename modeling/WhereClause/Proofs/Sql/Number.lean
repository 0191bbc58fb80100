import WhereClause.Proofs.Number.Rounding
import WhereClause.Proofs.Sql.Numeral

/-!
# The numbers of numerals

A numeral with neither a point nor an exponent names an integer, of whatever size. Every other
numeral names the floating point number that is nearest to its decimal.

* `numeralValue?`          the number that a numeral names, with its sign;
* `numeralValue?_plain`, `numeralValue?_scientific`  digits laid out either way keep their value;
* `exists_numeral_text`    a number is named by the numeral in its text.
-/

set_option autoImplicit false

namespace WhereClause.Sql

open WhereClause.Text WhereClause.Number

/-- the power of ten that an exponent names, with no exponent that of one -/
def exponentValue : List Char → Int
  | _ :: sign :: ds => if sign = '-' then -(digitsValue ds : Int) else digitsValue ds
  | _ => 0

/-- the number that a numeral names -/
def numeralValue? (negative : Bool) (cs : List Char) : Option Number :=
  let (whole, cs) := takeDigits cs
  let (fraction, cs) := readFraction cs
  let (exponent, _) := readExponent cs
  if fraction = [] ∧ exponent = [] then
    some (.integer (if negative then -(digitsValue whole : Int) else digitsValue whole))
  else
    -- the digits behind the point lower the power of ten
    let digits := fraction.drop 1
    (Binary64.ofDecimal? negative (digitsValue (whole ++ digits))
      (exponentValue exponent - digits.length)).map .double

variable {negative : Bool}

theorem numeralValue?_parts (negative : Bool) {whole fraction exponent : List Char}
    (hd : AllDigits whole) (hf : IsFraction fraction) (he : IsExponent exponent) :
    numeralValue? negative (whole ++ fraction ++ exponent) =
      if fraction = [] ∧ exponent = [] then
        some (.integer (if negative then -(digitsValue whole : Int) else digitsValue whole))
      else
        (Binary64.ofDecimal? negative (digitsValue (whole ++ fraction.drop 1))
          (exponentValue exponent - (fraction.drop 1).length)).map .double := by
  have hend : endsNumeral [] = true := rfl
  have hwhole := takeDigits_whole hd hf he hend
  have hfraction := readFraction_append hf he hend
  have hexponent := readExponent_append he hend
  rw [List.append_nil] at hwhole hfraction hexponent
  unfold numeralValue?
  rw [List.append_assoc, hwhole]
  simp only [hfraction, hexponent]

theorem numeralValue?_integer (negative : Bool) {ds : List Char} (hd : AllDigits ds) :
    numeralValue? negative ds =
      some (.integer (if negative then -(digitsValue ds : Int) else digitsValue ds)) := by
  have h := numeralValue?_parts negative hd .none .none
  rw [List.append_nil, List.append_nil] at h
  rw [h, if_pos ⟨rfl, rfl⟩]

theorem numeralValue?_point (negative : Bool) {ws fs : List Char} (hw : AllDigits ws)
    (hf : AllDigits fs) :
    numeralValue? negative (ws ++ '.' :: fs) =
      (Binary64.ofDecimal? negative (digitsValue (ws ++ fs)) (-fs.length)).map .double := by
  have h := numeralValue?_parts negative hw (.point hf) .none
  rw [List.append_nil] at h
  rw [h, if_neg fun h => nomatch h.1]
  show (Binary64.ofDecimal? _ _ (0 - (fs.length : Int))).map _ = _
  rw [Int.zero_sub]
  rfl

/-! ## digits and zeros -/

theorem digitsValue_append (cs ds : List Char) :
    digitsValue (cs ++ ds) = digitsValue cs * 10 ^ ds.length + digitsValue ds := by
  unfold digitsValue
  rw [Nat.ofDigitChars_append, Nat.ofDigitChars_eq_ofDigitChars_zero (l := ds), Nat.mul_comm]

theorem digitsValue_zeros (k : Nat) : digitsValue (List.replicate k '0') = 0 := by
  unfold digitsValue
  rw [Nat.ofDigitChars_replicate_zero, Nat.mul_zero]

theorem digitsValue_append_zeros (ds : List Char) (k : Nat) :
    digitsValue (ds ++ List.replicate k '0') = digitsValue ds * 10 ^ k := by
  rw [digitsValue_append, digitsValue_zeros, List.length_replicate, Nat.add_zero]

theorem digitsValue_zeros_append (ds : List Char) (k : Nat) :
    digitsValue (List.replicate k '0' ++ ds) = digitsValue ds := by
  rw [digitsValue_append, digitsValue_zeros, Nat.zero_mul, Nat.zero_add]

/-- the zeros that are trimmed off count in the power of ten -/
theorem ofDecimal?_trimZeros (ds : List Char) (power : Int) :
    Binary64.ofDecimal? negative (digitsValue (Binary64.trimZeros ds power).1)
      (Binary64.trimZeros ds power).2 = Binary64.ofDecimal? negative (digitsValue ds) power := by
  have hcut : (ds.reverse.takeWhile (· == '0')).reverse =
      List.replicate (ds.reverse.takeWhile (· == '0')).length '0' := by
    rw [List.eq_replicate_iff, List.length_reverse]
    refine ⟨rfl, fun c hc => ?_⟩
    simpa using List.mem_takeWhile_imp (List.mem_reverse.mp hc)
  have hds : ds = (ds.reverse.dropWhile (· == '0')).reverse ++
      List.replicate (ds.reverse.takeWhile (· == '0')).length '0' := by
    rw [← hcut, ← List.reverse_append, List.takeWhile_append_dropWhile, List.reverse_reverse]
  generalize (ds.reverse.takeWhile (· == '0')).length = k at hds
  unfold Binary64.trimZeros
  simp only
  generalize (ds.reverse.dropWhile (· == '0')).reverse = kept at hds
  subst hds
  rw [digitsValue_append_zeros, List.length_append, List.length_replicate, Nat.add_sub_cancel_left]
  exact (Binary64.ofDecimal?_mul_pow negative (digitsValue kept) k power).symm

/-! ## layout -/

theorem numeralValue?_plain {ds : List Char} (hd : AllDigits ds) (power : Int) :
    numeralValue? negative (Binary64.plain ds power) =
      (Binary64.ofDecimal? negative (digitsValue ds) power).map .double := by
  unfold Binary64.plain
  simp only
  split
  · next h =>
    -- the zeros before the point and the one behind it are digits of the numeral
    obtain ⟨k, rfl⟩ := Int.eq_ofNat_of_zero_le h
    have hzeros : (k : Int).toNat = k := Int.toNat_natCast k
    have hvalue : digitsValue (ds ++ List.replicate k '0' ++ ['0']) =
        digitsValue ds * 10 ^ (k + 1) := by
      rw [List.append_assoc, ← List.replicate_succ', digitsValue_append_zeros]
    rw [hzeros, numeralValue?_point _ (hd.append (allDigits_zeros k)) allDigits_zero, hvalue,
      Binary64.ofDecimal?_mul_pow]
    congr 2
    push_cast
    simp
  · next h =>
    split
    · next hp =>
      have hlength : -((ds.drop (ds.length + power).toNat).length : Int) = power := by
        rw [List.length_drop]
        omega
      rw [numeralValue?_point _ (fun c hc => hd c (List.mem_of_mem_take hc))
        fun c hc => hd c (List.mem_of_mem_drop hc), List.take_append_drop, hlength]
    · next hp =>
      have hlength : -((List.replicate (-(ds.length + power)).toNat '0' ++ ds).length : Int) =
          power := by
        rw [List.length_append, List.length_replicate]
        omega
      have hvalue : digitsValue (['0'] ++ (List.replicate (-(ds.length + power)).toNat '0' ++ ds)) =
          digitsValue ds := by
        rw [← List.append_assoc, ← List.replicate_one, List.replicate_append_replicate,
          digitsValue_zeros_append]
      have hpoint := numeralValue?_point negative allDigits_zero
        ((allDigits_zeros (-(ds.length + power)).toNat).append hd)
      rw [hvalue, hlength] at hpoint
      exact hpoint

theorem exponentValue_power (exponent : Int) :
    exponentValue (['e', if exponent < 0 then '-' else '+'] ++ decimal exponent.natAbs) =
      exponent := by
  show (if (if exponent < 0 then '-' else '+') = '-' then
    -(digitsValue (decimal exponent.natAbs) : Int) else digitsValue (decimal exponent.natAbs)) = _
  rw [digitsValue_decimal]
  by_cases h : exponent < 0
  · rw [if_pos h, if_pos rfl]
    omega
  · rw [if_neg h, if_neg (by decide)]
    omega

theorem isExponent_power (exponent : Int) :
    IsExponent (['e', if exponent < 0 then '-' else '+'] ++ decimal exponent.natAbs) := by
  refine .power ?_ (decimal_ne_nil _) (allDigits_decimal _)
  split
  · exact .inr rfl
  · exact .inl rfl

theorem numeralValue?_scientific {ds : List Char} (hne : ds ≠ []) (hd : AllDigits ds)
    (power : Int) : numeralValue? negative (Binary64.scientific ds (ds.length + power - 1)) =
      (Binary64.ofDecimal? negative (digitsValue ds) power).map .double := by
  have hrest : AllDigits (ds.drop 1) := fun c hc => hd c (List.mem_of_mem_drop hc)
  have hfraction : IsFraction (if (ds.drop 1).isEmpty then [] else '.' :: ds.drop 1) ∧
      (if (ds.drop 1).isEmpty then [] else '.' :: ds.drop 1).drop 1 = ds.drop 1 := by
    split
    · next h => exact ⟨.none, (List.isEmpty_iff.mp h).symm⟩
    · exact ⟨.point hrest, rfl⟩
  have hpower : (ds.length + power - 1) - ((ds.drop 1).length : Int) = power := by
    have hpos := List.length_pos_iff.mpr hne
    rw [List.length_drop]
    omega
  have hexponent := isExponent_power (ds.length + power - 1)
  have hvalue := exponentValue_power (ds.length + power - 1)
  have hsome : ['e', if (ds.length + power - 1 : Int) < 0 then '-' else '+'] ++
      decimal (ds.length + power - 1 : Int).natAbs ≠ [] := List.cons_ne_nil _ _
  unfold Binary64.scientific
  simp only
  rw [List.append_assoc _ ['e', _]]
  generalize (if (ds.drop 1).isEmpty then [] else '.' :: ds.drop 1) = fraction at hfraction
  generalize ['e', _] ++ decimal (ds.length + power - 1).natAbs = exponent at hexponent hvalue hsome
  have hparts := numeralValue?_parts negative
    (fun c hc => hd c (List.mem_of_mem_take (i := 1) hc)) hfraction.1 hexponent
  rw [hparts, hfraction.2, hvalue, List.take_append_drop, hpower, if_neg fun h => hsome h.2]

/-! ## the texts of numbers -/

/-- the digits of a floating point number, laid out as they are -/
theorem numeralValue?_sizeText {x : Binary64} (hx : x.isZero = false) :
    numeralValue? x.negative x.sizeText = some (.double x) := by
  obtain ⟨hne, hd⟩ := trimZeros_decimal (shortest_ne_zero hx) x.shortest.2
  have hread : Binary64.ofDecimal? x.negative
      (digitsValue (Binary64.trimZeros (decimal x.shortest.1) x.shortest.2).1)
      (Binary64.trimZeros (decimal x.shortest.1) x.shortest.2).2 = some x := by
    rw [ofDecimal?_trimZeros, digitsValue_decimal]
    exact x.ofDecimal?_shortest
  unfold Binary64.sizeText
  simp only
  split
  · rw [numeralValue?_plain hd, hread]
    rfl
  · rw [numeralValue?_scientific hne hd, hread]
    rfl

theorem numeralValue?_zero {x : Binary64} (hx : x.isZero = true) :
    numeralValue? x.negative ['0', '.', '0'] = some (.double x) := by
  have hm : x.mantissa = 0 := by simpa [Binary64.isZero] using hx
  have hread : Binary64.ofDecimal? x.negative 0 (-1) = some x := by
    refine Binary64.nearest?_of_value x (Binary64.den_decimal_ne_zero 0 (-1)) ?_
    rw [Binary64.value_decimal, hm, Nat.cast_zero, zero_mul, zero_mul]
  have hpoint := numeralValue?_point x.negative allDigits_zero allDigits_zero
  show numeralValue? x.negative (['0'] ++ '.' :: ['0']) = _
  rw [hpoint]
  exact congrArg (Option.map Number.double) hread

/-- **A number is named by the numeral in its text**, behind a hyphen if it is negative. -/
theorem exists_numeral_text (n : Number) : ∃ negative cs, numeralValue? negative cs = some n ∧
    cs.head? ≠ some '-' ∧ n.text.toList = if negative then '-' :: cs else cs := by
  cases n with
  | integer n =>
    refine ⟨decide (n < 0), decimal n.natAbs, ?_, ?_, ?_⟩
    · rw [numeralValue?_integer _ (allDigits_decimal _), digitsValue_decimal]
      simp only [decide_eq_true_eq]
      congr 2
      split <;> omega
    · intro h
      exact absurd (allDigits_decimal _ '-' (List.mem_of_head? h)) (by decide)
    · rw [Number.text, Number.integerText, String.toList_ofList]
      simp only [decide_eq_true_eq]
  | double x =>
    have hsize : numeralValue? x.negative (if x.isZero then ['0', '.', '0'] else x.sizeText) =
          some (.double x) ∧
        (if x.isZero then ['0', '.', '0'] else x.sizeText).head? ≠ some '-' := by
      split
      · next hx => exact ⟨numeralValue?_zero hx, by decide⟩
      · next hx =>
        have hx' : x.isZero = false := by simpa using hx
        refine ⟨numeralValue?_sizeText hx', ?_⟩
        obtain ⟨c, ds, hcs, hc⟩ := (isNumeral_sizeText hx').exists_cons
        rw [hcs]
        rintro h
        cases h
        exact absurd hc (by decide)
    refine ⟨x.negative, _, hsize.1, hsize.2, ?_⟩
    rw [Number.text, Binary64.text, String.toList_ofList]

end WhereClause.Sql
