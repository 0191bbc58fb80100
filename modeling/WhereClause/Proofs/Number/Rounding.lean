import Mathlib.Algebra.Order.Field.Power
import Mathlib.Algebra.Order.Field.Rat
import Mathlib.Tactic.FieldSimp
import Mathlib.Tactic.Linarith
import Mathlib.Tactic.NormNum
import Mathlib.Tactic.Positivity
import WhereClause.Number.Shortest

/-!
# Rounding to binary numbers

What a ratio is rounded to depends on the number that it stands for alone, however its two parts are
written, and a binary number is rounded to itself.

* `Ratio.value`          the number that a ratio stands for;
* `exponentFor_eq`       the exponent is the one whose mantissas reach the number;
* `nearest?_congr`       ratios of one value are rounded alike, and `ofDecimal?_congr` decimals;
* `nearest?_of_value`    a binary number is rounded to itself;
* `ofDecimal?_shortest`  the shortest digits of a number read back.
-/

set_option autoImplicit false

namespace WhereClause.Number

/-! ## values -/

namespace Ratio

/-- the number that a ratio stands for -/
def value (r : Ratio) : ℚ := r.num / r.den

theorem value_shift (r : Ratio) (base : Nat) (power : Int) :
    (r.shift base power).value = r.value / (base : ℚ) ^ power := by
  unfold shift value
  split
  · next h =>
    obtain ⟨k, rfl⟩ := Int.eq_ofNat_of_zero_le h
    show (r.num : ℚ) / ((r.den * base ^ k : Nat) : ℚ) = _
    rw [zpow_natCast, Nat.cast_mul, Nat.cast_pow, div_div]
  · next h =>
    obtain ⟨k, hk⟩ := Int.eq_ofNat_of_zero_le (Int.neg_nonneg_of_nonpos (Int.le_of_not_le h))
    have hpower : power = -(k : Int) := by omega
    subst hpower
    show ((r.num * base ^ (- -(k : Int)).toNat : Nat) : ℚ) / (r.den : ℚ) = _
    rw [Int.neg_neg, Int.toNat_natCast, zpow_neg, zpow_natCast, Nat.cast_mul, Nat.cast_pow,
      div_inv_eq_mul, div_mul_eq_mul_div]

theorem den_shift_ne_zero {r : Ratio} (hr : r.den ≠ 0) {base : Nat} (hb : base ≠ 0) (power : Int) :
    (r.shift base power).den ≠ 0 := by
  unfold shift
  split
  · exact Nat.mul_ne_zero hr (pow_ne_zero _ hb)
  · exact hr

theorem value_eq_zero_iff {r : Ratio} (hr : r.den ≠ 0) : r.value = 0 ↔ r.num = 0 := by
  have hd : (r.den : ℚ) ≠ 0 := Nat.cast_ne_zero.mpr hr
  rw [value, div_eq_zero_iff, Nat.cast_eq_zero]
  exact ⟨fun h => h.resolve_right hd, .inl⟩

theorem le_div_iff {r : Ratio} (hr : r.den ≠ 0) (n : Nat) :
    n ≤ r.num / r.den ↔ (n : ℚ) ≤ r.value := by
  have hd : (0 : ℚ) < r.den := Nat.cast_pos.mpr (Nat.pos_of_ne_zero hr)
  rw [Nat.le_div_iff_mul_le (Nat.pos_of_ne_zero hr), value, le_div_iff₀ hd, ← Nat.cast_mul,
    Nat.cast_le]

/-! ## rounding to whole numbers -/

/-- both parts times the same number are rounded alike -/
theorem round_scale (n d : Nat) {k : Nat} (hk : k ≠ 0) :
    round ⟨n * k, d * k⟩ = round ⟨n, d⟩ := by
  have hpos : 0 < k := Nat.pos_of_ne_zero hk
  have hlt : d * k < 2 * (n % d * k) ↔ d < 2 * (n % d) := by
    rw [← Nat.mul_assoc, Nat.mul_lt_mul_right hpos]
  have heq : 2 * (n % d * k) = d * k ↔ 2 * (n % d) = d := by
    rw [← Nat.mul_assoc, Nat.mul_left_inj hk]
  unfold round
  simp only [Nat.mul_div_mul_right n d hpos, Nat.mul_mod_mul_right, hlt, heq]

theorem round_congr {r s : Ratio} (hr : r.den ≠ 0) (hs : s.den ≠ 0) (h : r.value = s.value) :
    r.round = s.round := by
  have hr' : (r.den : ℚ) ≠ 0 := Nat.cast_ne_zero.mpr hr
  have hs' : (s.den : ℚ) ≠ 0 := Nat.cast_ne_zero.mpr hs
  have hcross : r.num * s.den = s.num * r.den := by
    have hq : (r.num : ℚ) * s.den = s.num * r.den := (div_eq_div_iff hr' hs').mp h
    exact_mod_cast hq
  calc r.round = round ⟨r.num * s.den, r.den * s.den⟩ := (round_scale r.num r.den hs).symm
    _ = round ⟨s.num * r.den, s.den * r.den⟩ := by rw [hcross, Nat.mul_comm r.den s.den]
    _ = s.round := round_scale s.num s.den hr

theorem round_of_value {r : Ratio} (hr : r.den ≠ 0) {m : Nat} (h : r.value = m) : r.round = m := by
  have hm : (⟨m, 1⟩ : Ratio).value = m := by
    show (m : ℚ) / ((1 : Nat) : ℚ) = m
    rw [Nat.cast_one, div_one]
  have hround : round ⟨m, 1⟩ = m := by
    unfold round
    simp [Nat.mod_one]
  rw [round_congr hr Nat.one_ne_zero (h.trans hm.symm), hround]

end Ratio

/-! ## the exponent -/

namespace Binary64

/-- the numbers that mantissas of 53 bits reach with an exponent: only with the least one also those
below the mantissas that have their leading bit -/
structure Reaches (e : Int) (x : ℚ) : Prop where
  least : -1074 ≤ e
  below : x < 2 ^ 53 * 2 ^ e
  leading : e = -1074 ∨ 2 ^ 52 * 2 ^ e ≤ x

/-- a power of two with the exponent taken apart -/
theorem two_zpow_add (n : Nat) (e : Int) : (2 : ℚ) ^ n * 2 ^ e = 2 ^ (n + e) := by
  rw [zpow_add₀ two_ne_zero, zpow_natCast]

theorem two_zpow_le {m n : Int} (h : m ≤ n) : (2 : ℚ) ^ m ≤ 2 ^ n :=
  zpow_le_zpow_right₀ one_le_two h

theorem Reaches.le {e f : Int} {x : ℚ} (h : Reaches e x) (h' : Reaches f x) : f ≤ e := by
  by_contra hlt
  have hlead : (2 : ℚ) ^ 52 * 2 ^ f ≤ x := h'.leading.resolve_left (by have := h.least; omega)
  have hstep : (2 : ℚ) ^ 53 * 2 ^ e ≤ 2 ^ 52 * 2 ^ f := by
    rw [two_zpow_add, two_zpow_add]
    exact two_zpow_le (by omega)
  exact absurd (h.below.trans_le (hstep.trans hlead)) (lt_irrefl x)

theorem Reaches.unique {e f : Int} {x : ℚ} (h : Reaches e x) (h' : Reaches f x) : e = f :=
  Int.le_antisymm (h'.le h) (h.le h')

/-- the binary logarithms of the two parts place a ratio up to one -/
theorem value_bounds {r : Ratio} (hr : r.den ≠ 0) (hn : r.num ≠ 0) :
    (2 : ℚ) ^ ((r.num.log2 : Int) - r.den.log2 - 1) ≤ r.value ∧
      r.value < 2 ^ ((r.num.log2 : Int) - r.den.log2 + 1) := by
  have hd : (0 : ℚ) < r.den := Nat.cast_pos.mpr (Nat.pos_of_ne_zero hr)
  have cast_pow (n : Nat) : ((2 ^ n : Nat) : ℚ) = 2 ^ (n : Int) := by
    rw [Nat.cast_pow, zpow_natCast, Nat.cast_ofNat]
  have hnum : (2 : ℚ) ^ (r.num.log2 : Int) ≤ r.num ∧
      (r.num : ℚ) < 2 ^ ((r.num.log2 + 1 : Nat) : Int) := by
    rw [← cast_pow, ← cast_pow, Nat.cast_le, Nat.cast_lt]
    exact ⟨Nat.log2_self_le hn, Nat.lt_log2_self⟩
  have hden : (2 : ℚ) ^ (r.den.log2 : Int) ≤ r.den ∧
      (r.den : ℚ) < 2 ^ ((r.den.log2 + 1 : Nat) : Int) := by
    rw [← cast_pow, ← cast_pow, Nat.cast_le, Nat.cast_lt]
    exact ⟨Nat.log2_self_le hr, Nat.lt_log2_self⟩
  constructor
  · rw [Ratio.value, le_div_iff₀ hd]
    refine le_trans ?_ hnum.1
    calc (2 : ℚ) ^ ((r.num.log2 : Int) - r.den.log2 - 1) * r.den
        ≤ 2 ^ ((r.num.log2 : Int) - r.den.log2 - 1) * 2 ^ ((r.den.log2 + 1 : Nat) : Int) :=
          mul_le_mul_of_nonneg_left hden.2.le (by positivity)
      _ = 2 ^ (r.num.log2 : Int) := by
          rw [← zpow_add₀ two_ne_zero]
          congr 1
          push_cast
          omega
  · rw [Ratio.value, div_lt_iff₀ hd]
    refine lt_of_lt_of_le hnum.2 ?_
    calc (2 : ℚ) ^ ((r.num.log2 + 1 : Nat) : Int)
        = 2 ^ ((r.num.log2 : Int) - r.den.log2 + 1) * 2 ^ (r.den.log2 : Int) := by
          rw [← zpow_add₀ two_ne_zero]
          congr 1
          push_cast
          omega
      _ ≤ 2 ^ ((r.num.log2 : Int) - r.den.log2 + 1) * r.den :=
          mul_le_mul_of_nonneg_left hden.1 (by positivity)

theorem reaches_exponentFor {r : Ratio} (hr : r.den ≠ 0) (hn : r.num ≠ 0) :
    Reaches (exponentFor r) r.value := by
  obtain ⟨hlow, hhigh⟩ := value_bounds hr hn
  unfold exponentFor
  generalize hk : (r.num.log2 : Int) - r.den.log2 = k at hlow hhigh
  simp only
  generalize he : max (k - 53) (-1074) = e
  have htwo : (2 : Nat) ≠ 0 := by decide
  have hscaled : Nat.pow 2 53 ≤ (r.shift 2 e).num / (r.shift 2 e).den ↔
      (2 : ℚ) ^ 53 * 2 ^ e ≤ r.value := by
    have hpos : (0 : ℚ) < 2 ^ e := by positivity
    rw [Ratio.le_div_iff (Ratio.den_shift_ne_zero hr htwo e), Ratio.value_shift,
      Nat.cast_ofNat, le_div_iff₀ hpos]
    norm_num
  simp only [hscaled]
  split
  · next h =>
    refine ⟨by omega, hhigh.trans_le ?_, .inr ?_⟩
    · rw [two_zpow_add]
      exact two_zpow_le (by push_cast; omega)
    · rw [two_zpow_add] at h ⊢
      rwa [show ((52 : Nat) : Int) + (e + 1) = ((53 : Nat) : Int) + e by push_cast; omega]
  · next h =>
    refine ⟨by omega, not_le.mp h, ?_⟩
    by_cases hleast : e = -1074
    · exact .inl hleast
    · refine .inr (le_trans ?_ hlow)
      rw [two_zpow_add]
      exact two_zpow_le (by push_cast; omega)

theorem exponentFor_eq {r : Ratio} (hr : r.den ≠ 0) (hn : r.num ≠ 0) {e : Int}
    (h : Reaches e r.value) : exponentFor r = e := (reaches_exponentFor hr hn).unique h

/-! ## rounding -/

/-- **Ratios of one value are rounded alike.** -/
theorem nearest?_congr (negative : Bool) {r s : Ratio} (hr : r.den ≠ 0) (hs : s.den ≠ 0)
    (h : r.value = s.value) : nearest? negative r = nearest? negative s := by
  have hzero : r.num = 0 ↔ s.num = 0 := by
    rw [← Ratio.value_eq_zero_iff hr, ← Ratio.value_eq_zero_iff hs, h]
  unfold nearest?
  by_cases hn : r.num = 0
  · rw [if_pos hn, if_pos (hzero.mp hn)]
  · have hn' : s.num ≠ 0 := fun h0 => hn (hzero.mpr h0)
    have hexp : exponentFor r = exponentFor s :=
      exponentFor_eq hr hn (h ▸ reaches_exponentFor hs hn')
    have htwo : (2 : Nat) ≠ 0 := by decide
    have hround : (r.shift 2 (exponentFor s)).round = (s.shift 2 (exponentFor s)).round := by
      refine Ratio.round_congr (Ratio.den_shift_ne_zero hr htwo _)
        (Ratio.den_shift_ne_zero hs htwo _) ?_
      rw [Ratio.value_shift, Ratio.value_shift, h]
    rw [if_neg hn, if_neg hn', hexp]
    simp only [hround]

/-- **A binary number is rounded to itself.** -/
theorem nearest?_of_value (x : Binary64) {r : Ratio} (hr : r.den ≠ 0)
    (h : r.value = x.mantissa * 2 ^ x.exponent) : nearest? x.negative r = some x := by
  obtain ⟨hlt, hleast, _, hlead⟩ := x.canonical
  have hpos : (0 : ℚ) < 2 ^ x.exponent := by positivity
  unfold nearest?
  by_cases hm : x.mantissa = 0
  · -- zero has the least exponent, so it is the zero of its sign
    have hn : r.num = 0 := by
      rw [← Ratio.value_eq_zero_iff hr, h, hm, Nat.cast_zero, zero_mul]
    have hexp : x.exponent = -1074 := hlead.resolve_left (by rw [hm]; decide)
    rw [if_pos hn]
    obtain ⟨negative, mantissa, exponent, canonical⟩ := x
    subst hm hexp
    rfl
  · have hn : r.num ≠ 0 := by
      rw [Ne, ← Ratio.value_eq_zero_iff hr, h]
      exact mul_ne_zero (Nat.cast_ne_zero.mpr hm) hpos.ne'
    have hreach : Reaches x.exponent r.value := by
      refine ⟨hleast, ?_, ?_⟩
      · rw [h]
        exact mul_lt_mul_of_pos_right (by exact_mod_cast hlt) hpos
      · rcases hlead with hlead | hlead
        · refine .inr ?_
          rw [h]
          exact mul_le_mul_of_nonneg_right (by exact_mod_cast hlead) hpos.le
        · exact .inl hlead
    have hround : (r.shift 2 x.exponent).round = x.mantissa := by
      refine Ratio.round_of_value (Ratio.den_shift_ne_zero hr two_ne_zero _) ?_
      rw [Ratio.value_shift, h, Nat.cast_ofNat, mul_div_assoc, div_self hpos.ne', mul_one]
    have hne : x.mantissa ≠ Nat.pow 2 53 := Nat.ne_of_lt hlt
    rw [if_neg hn, exponentFor_eq hr hn hreach]
    simp only [hround]
    rw [if_neg hne, of?, dif_pos x.canonical]

/-! ## decimals -/

theorem value_decimal (digits : Nat) (power : Int) :
    (Ratio.shift ⟨digits, 1⟩ 10 (-power)).value = digits * 10 ^ power := by
  rw [Ratio.value_shift, Ratio.value, zpow_neg, div_inv_eq_mul, Nat.cast_one, div_one,
    Nat.cast_ofNat]

theorem den_decimal_ne_zero (digits : Nat) (power : Int) :
    (Ratio.shift ⟨digits, 1⟩ 10 (-power)).den ≠ 0 :=
  Ratio.den_shift_ne_zero Nat.one_ne_zero (by decide) _

/-- decimals of one value are read as the same number -/
theorem ofDecimal?_congr (negative : Bool) {digits digits' : Nat} {power power' : Int}
    (h : (digits : ℚ) * 10 ^ power = digits' * 10 ^ power') :
    ofDecimal? negative digits power = ofDecimal? negative digits' power' :=
  nearest?_congr negative (den_decimal_ne_zero digits power) (den_decimal_ne_zero digits' power')
    (by rw [value_decimal, value_decimal, h])

/-- zeros behind the digits, with a lower power of ten -/
theorem ofDecimal?_mul_pow (negative : Bool) (digits k : Nat) (power : Int) :
    ofDecimal? negative (digits * 10 ^ k) power = ofDecimal? negative digits (power + k) := by
  refine ofDecimal?_congr negative ?_
  rw [zpow_add₀ (by norm_num), zpow_natCast]
  push_cast
  rw [mul_assoc, mul_comm ((10 : ℚ) ^ k)]

theorem value_exactDecimal (x : Binary64) :
    (x.exactDecimal.1 : ℚ) * 10 ^ x.exactDecimal.2 = x.mantissa * 2 ^ x.exponent := by
  unfold exactDecimal
  split
  · next h =>
    obtain ⟨k, hk⟩ := Int.eq_ofNat_of_zero_le h
    rw [hk]
    show ((x.mantissa * 2 ^ k : Nat) : ℚ) * 10 ^ (0 : Int) = x.mantissa * 2 ^ (k : Int)
    rw [zpow_zero, mul_one, zpow_natCast]
    push_cast
    rfl
  · next h =>
    obtain ⟨k, hk⟩ := Int.eq_ofNat_of_zero_le (Int.neg_nonneg_of_nonpos (Int.le_of_not_le h))
    have hexp : x.exponent = -(k : Int) := by omega
    rw [hexp]
    show ((x.mantissa * 5 ^ (- -(k : Int)).toNat : Nat) : ℚ) * 10 ^ (-(k : Int)) = _
    rw [Int.neg_neg, Int.toNat_natCast, zpow_neg, zpow_neg, zpow_natCast, zpow_natCast]
    have h10 : (10 : ℚ) ^ k = 2 ^ k * 5 ^ k := by rw [← mul_pow]; norm_num
    rw [h10]
    push_cast
    field_simp

/-- **The shortest digits of a number read back.** -/
theorem ofDecimal?_shortest (x : Binary64) :
    ofDecimal? x.negative x.shortest.1 x.shortest.2 = some x := by
  unfold shortest
  simp only
  cases hf : (List.range 17).findSome? fun (i : Nat) =>
      (x.onGrid? (leadingPower x.ratio - i)).map fun d => (d, leadingPower x.ratio - i) with
  | none =>
    refine nearest?_of_value x (den_decimal_ne_zero _ _) ?_
    rw [value_decimal]
    exact value_exactDecimal x
  | some p =>
    obtain ⟨i, _, hi⟩ := List.exists_of_findSome?_eq_some hf
    obtain ⟨d, hd, rfl⟩ := Option.map_eq_some_iff.mp hi
    exact of_decide_eq_true (readsBack_of_onGrid? hd)

end Binary64

end WhereClause.Number
