import WhereClause.Proofs.Json.Completeness

/-!
# Natural numbers read back

The decimal digits of a number are a numeral, which has this number for its value as long as a
significand has room for it.

* `head?_decimal`       no leading zero;
* `whole_decimal`       the digits are a whole part;
* `gatherWhole_of_le`   and gathered with none left over (`ofDigitChars_of_gatherWhole`);
* `spells_decimal`, `value_decimal`  the numeral and its value.
-/

set_option autoImplicit false

namespace WhereClause.Json

open WhereClause.Text WhereClause.Number WhereClause.Sql

/-! ## digits -/

theorem digitChar_ne_zero : ∀ n < 10, n ≠ 0 → Nat.digitChar n ≠ '0' := by decide

/-- zero is the one number whose digits start with a zero -/
theorem head?_decimal {n : Nat} (hn : n ≠ 0) : (decimal n).head? ≠ some '0' := by
  induction n using Nat.strongRecOn with
  | ind n ih =>
    rw [decimal, Nat.toDigits_eq_if (by decide)]
    split
    · next h =>
      rw [List.head?_cons]
      exact fun he => digitChar_ne_zero n h hn (Option.some.inj he)
    · next h =>
      have hhead := ih (n / 10) (by omega) (by omega)
      obtain ⟨c, ds, hds⟩ := List.exists_cons_of_ne_nil (decimal_ne_nil (n / 10))
      rw [hds] at hhead
      show (decimal (n / 10) ++ _).head? ≠ _
      rw [hds]
      exact hhead

/-- the digits of a number are written with no zero in front of others -/
theorem whole_decimal (n : Nat) (rest : List Char) : Whole (decimal n) (decimal n ++ rest) rest := by
  by_cases hn : n = 0
  · subst hn
    exact .zero rest
  · have hhead := head?_decimal hn
    have hall := allDigits_decimal n
    obtain ⟨c, ds, hds⟩ := List.exists_cons_of_ne_nil (decimal_ne_nil n)
    rw [hds] at hhead hall ⊢
    exact .digits (fun h => hhead (congrArg some h)) hall rest

/-! ## gathering -/

/-- digits further on only make a number greater -/
theorem le_ofDigitChars (s : Nat) (ds : List Char) : s ≤ Nat.ofDigitChars 10 ds s := by
  rw [Nat.ofDigitChars_eq_ofDigitChars_zero]
  have h : 1 * s ≤ 10 ^ ds.length * s := Nat.mul_le_mul_right s (Nat.pow_pos (by decide))
  omega

theorem ofDigitChars_cons (s : Nat) (c : Char) (ds : List Char) :
    Nat.ofDigitChars 10 (c :: ds) s = Nat.ofDigitChars 10 ds (s * 10 + digitValue c) := by
  rw [Nat.ofDigitChars_cons, Nat.mul_comm, digitValue]

/-- digits that there is room for are gathered as the number that they name -/
theorem gatherWhole_of_le {s : Nat} {ds : List Char}
    (h : Nat.ofDigitChars 10 ds s ≤ maxSignificand) :
    gatherWhole s ds = (Nat.ofDigitChars 10 ds s, 0) := by
  induction ds generalizing s with
  | nil => rfl
  | cons c ds ih =>
    rw [ofDigitChars_cons] at h
    have hroom : s * 10 + digitValue c ≤ maxSignificand := Nat.le_trans (le_ofDigitChars _ ds) h
    rw [gatherWhole, if_pos hroom, ih h, ofDigitChars_cons]

/-- digits are gathered as the number that they name if none is left over -/
theorem ofDigitChars_of_gatherWhole {s : Nat} {ds : List Char} (h : (gatherWhole s ds).2 = 0) :
    (gatherWhole s ds).1 = Nat.ofDigitChars 10 ds s := by
  induction ds generalizing s with
  | nil => rfl
  | cons c ds ih =>
    rw [gatherWhole] at h ⊢
    split at h
    · next hroom => rw [if_pos hroom, ih h, ofDigitChars_cons]
    · exact absurd h (Nat.succ_ne_zero ds.length)

theorem gatherWhole_decimal {n : Nat} (hn : n ≤ maxSignificand) :
    gatherWhole 0 (decimal n) = (n, 0) := by
  have hv : Nat.ofDigitChars 10 (decimal n) 0 = n := digitsValue_decimal n
  have h : Nat.ofDigitChars 10 (decimal n) 0 ≤ maxSignificand := by rwa [hv]
  rw [gatherWhole_of_le h, hv]

/-! ## numbers -/

theorem spells_decimal (n : Nat) (rest : List Char) :
    Numeral.Spells ⟨false, decimal n, none, none⟩ (decimal n ++ rest) rest :=
  .plain (whole_decimal n rest) (.none rest) (.none rest)

/-- **The numeral of a number has this number for its value**, up to the greatest significand. -/
theorem value_decimal {n : Nat} (hn : n ≤ maxSignificand) (rest : List Char) :
    Numeral.value ⟨false, decimal n, none, none⟩ rest = .ok (.integer n) := by
  unfold Numeral.value
  simp only [gatherWhole_decimal hn, Option.getD_none, gatherFraction]
  rfl

end WhereClause.Json
