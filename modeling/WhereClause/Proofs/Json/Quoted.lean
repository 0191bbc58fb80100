import WhereClause.Json.Quoted

/-!
# Strings read back

A string that has been written is read as it was, whatever its characters are and whatever stands
behind it. A character is written in one of three ways, and each way is read by a branch of its own.

* `escaped_cases`      the ways in which a character is written;
* `readChars_escaped`  one character, written and read in front of others;
* `readQuoted_quoted`  a whole string.
-/

set_option autoImplicit false

namespace WhereClause.Json

open WhereClause.Text

/-! ## how a character is written -/

/-- behind a backslash with one letter, with its code, or as it is -/
theorem escaped_cases (c : Char) :
    (∃ e, escaped c = ['\\', e] ∧ e ≠ 'u' ∧ shortEscape? e = some c) ∨
      (c.toNat < 0x20 ∧ escaped c =
        ['\\', 'u', '0', '0', Nat.digitChar (c.toNat / 16), Nat.digitChar (c.toNat % 16)]) ∨
      (escaped c = [c] ∧ c ≠ '"' ∧ c ≠ '\\' ∧ ¬ c.toNat < 0x20) := by
  rw [escaped]
  by_cases hq : c = '"'
  · subst hq
    exact .inl ⟨'"', by decide⟩
  by_cases hb : c = '\\'
  · subst hb
    exact .inl ⟨'\\', by decide⟩
  by_cases h : c = '\x08'
  · subst h
    exact .inl ⟨'b', by decide⟩
  by_cases h : c = '\t'
  · subst h
    exact .inl ⟨'t', by decide⟩
  by_cases h : c = '\n'
  · subst h
    exact .inl ⟨'n', by decide⟩
  by_cases h : c = '\x0c'
  · subst h
    exact .inl ⟨'f', by decide⟩
  by_cases h : c = '\r'
  · subst h
    exact .inl ⟨'r', by decide⟩
  by_cases hc : c.toNat < 0x20
  · refine .inr (.inl ⟨hc, ?_⟩)
    simp only [*, if_false, if_true]
  · refine .inr (.inr ⟨?_, hq, hb, hc⟩)
    simp only [*, if_false]

/-! ## codes -/

/-- the code of a control is read from its four digits -/
theorem hexUnit?_control : ∀ n < 0x20,
    hexUnit? '0' '0' (Nat.digitChar (n / 16)) (Nat.digitChar (n % 16)) = some n := by
  decide

theorem readUnit_of_hexUnit? {a b c d : Char} {u : Nat} (h : hexUnit? a b c d = some u)
    (cs : List Char) : readUnit (a :: b :: c :: d :: cs) = .ok (u, cs) := by
  simp only [readUnit, h, Option.map_some]

/-- a character that one unit makes is read from its code -/
theorem readCode_unit {c a₁ a₂ a₃ a₄ : Char} (hc : c.toNat < 0x10000)
    (h : hexUnit? a₁ a₂ a₃ a₄ = some c.toNat) (cs : List Char) :
    readCode (a₁ :: a₂ :: a₃ :: a₄ :: cs) = .ok (c, 4) := by
  have hvalid : c.toNat < 0xD800 ∨ 0xDFFF < c.toNat ∧ c.toNat < 0x110000 := c.valid
  have htrailing : isTrailing c.toNat = false := by
    simp only [isTrailing, Bool.and_eq_false_iff, decide_eq_false_iff_not]
    omega
  have hleading : isLeading c.toNat = false := by
    simp only [isLeading, Bool.and_eq_false_iff, decide_eq_false_iff_not]
    omega
  unfold readCode
  rw [readUnit_of_hexUnit? h]
  show (if isTrailing c.toNat = true then _ else if isLeading c.toNat = true then _ else _) = _
  rw [htrailing, hleading, if_neg Bool.false_ne_true, if_neg Bool.false_ne_true, Char.ofNat_toNat]

/-! ## reading what was written -/

/-- the characters of an escape are passed over -/
theorem readChars_append (xs cs : List Char) : readChars xs.length (xs ++ cs) = readChars 0 cs := by
  induction xs with
  | nil => rfl
  | cons x xs ih =>
    rw [List.length_cons, List.cons_append, readChars]
    exact ih

/-- an escape in front of characters that are read -/
theorem readChars_escape {c : Char} {xs cs ds rest : List Char}
    (he : readEscape (xs ++ cs) = .ok (c, xs.length)) (h : readChars 0 cs = .ok (ds, rest)) :
    readChars 0 ('\\' :: (xs ++ cs)) = .ok (c :: ds, rest) := by
  rw [readChars, if_neg (by decide), if_pos rfl, he]
  show (readChars xs.length (xs ++ cs) >>= fun r => .ok (c :: r.1, r.2)) = _
  rw [readChars_append, h]
  rfl

theorem readChars_escaped (c : Char) {cs ds rest : List Char}
    (h : readChars 0 cs = .ok (ds, rest)) : readChars 0 (escaped c ++ cs) = .ok (c :: ds, rest) := by
  obtain ⟨e, hw, hu, hs⟩ | ⟨hc, hw⟩ | ⟨hw, hq, hb, hc⟩ := escaped_cases c
  · have he : readEscape ([e] ++ cs) = .ok (c, 1) := by
      show readEscape (e :: cs) = _
      rw [readEscape, if_neg hu, hs]
    rw [hw]
    exact readChars_escape he h
  · have he : readEscape (['u', '0', '0', Nat.digitChar (c.toNat / 16),
        Nat.digitChar (c.toNat % 16)] ++ cs) = .ok (c, 5) := by
      show readEscape ('u' :: '0' :: '0' :: Nat.digitChar (c.toNat / 16) ::
        Nat.digitChar (c.toNat % 16) :: cs) = _
      rw [readEscape, if_pos rfl, readCode_unit (by omega) (hexUnit?_control _ hc)]
      rfl
    rw [hw]
    exact readChars_escape he h
  · rw [hw]
    show readChars 0 (c :: cs) = _
    rw [readChars, if_neg hq, if_neg hb, if_neg hc, h]
    rfl

theorem readChars_quoted (cs rest : List Char) :
    readChars 0 (cs.flatMap escaped ++ '"' :: rest) = .ok (cs, rest) := by
  induction cs with
  | nil =>
    show readChars 0 ('"' :: rest) = _
    rw [readChars, if_pos rfl]
  | cons c cs ih =>
    rw [List.flatMap_cons, List.append_assoc]
    exact readChars_escaped c ih

/-- a string as it is written, in front of a text -/
theorem toList_quoted_append (s : String) (rest : List Char) :
    (quoted s).toList ++ rest = '"' :: (s.toList.flatMap escaped ++ '"' :: rest) := by
  simp [quoted]

/-- **A string is read as it was written**, from behind its opening quote. -/
theorem readQuoted_quoted (s : String) (rest : List Char) :
    readQuoted (s.toList.flatMap escaped ++ '"' :: rest) = .ok (s, rest) := by
  rw [readQuoted, readChars_quoted]
  show Except.ok (String.ofList s.toList, rest) = _
  rw [String.ofList_toList]

end WhereClause.Json
