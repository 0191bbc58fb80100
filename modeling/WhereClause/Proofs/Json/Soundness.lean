import WhereClause.Json.Skip
import WhereClause.Proofs.Json.Grammar
import WhereClause.Proofs.Json.Numeral
import WhereClause.Proofs.Outcome

/-!
# What is read is what is written

A part that a reader takes off the front of a text is written there as the grammar has it. Each reader
has one lemma, and the lemmas are put together as the readers are.

* `blanks_skipSpace`         white space;
* `characters_of_readChars`  a string that is read, `exists_characters_of_skipChars` one that is
                             skipped;
* `spells_of_scanNumeral`    a numeral, and `exact_of_value`: an integer is what its numeral names;
* `items_of_bracketed`       items between brackets, whatever reads the items;
* `exists_spells_of_skipValue`  a value that is skipped.
-/

set_option autoImplicit false

namespace WhereClause.Json

open WhereClause.Text WhereClause.Number WhereClause.Sql

/-! ## white space and words -/

theorem blanks_skipSpace (cs : List Char) : Blanks cs (skipSpace cs) := by
  induction cs with
  | nil => exact .none []
  | cons c cs ih =>
    by_cases hc : isSpace c = true
    · rw [skipSpace, List.dropWhile_cons_of_pos hc]
      exact .more hc ih
    · rw [skipSpace, List.dropWhile_cons_of_neg hc]
      exact .none (c :: cs)

theorem blanks_of_skipSpace {cs ds : List Char} (h : skipSpace cs = ds) : Blanks cs ds :=
  h ▸ blanks_skipSpace cs

theorem append_of_readWord {letters cs rest : List Char} (h : readWord letters cs = .ok rest) :
    cs = letters ++ rest := by
  induction letters generalizing cs with
  | nil => exact Except.ok.inj h
  | cons l ls ih =>
    cases cs with
    | nil => cases h
    | cons c cs =>
      rw [readWord] at h
      split at h
      · next hc => rw [hc, ih h, List.cons_append]
      · cases h

theorem blanks_of_readEnd {cs : List Char} (h : readEnd cs = .ok ()) : Blanks cs [] := by
  unfold readEnd at h
  split at h
  · next hs => exact blanks_of_skipSpace hs
  · cases h

theorem blanks_of_readColon {cs rest : List Char} (h : readColon cs = .ok rest) :
    Blanks cs (':' :: rest) := by
  unfold readColon at h
  split at h
  · cases h
  · next c ds hs =>
    split at h
    · next hc =>
      cases h
      exact hc ▸ blanks_of_skipSpace hs
    · cases h

/-! ## escapes -/

theorem hexValue?_lt {c : Char} {n : Nat} (h : hexValue? c = some n) : n < 16 := by
  have hle {d e : Char} (h : d ≤ e) : d.toNat ≤ e.toNat := h
  unfold hexValue? at h
  split at h
  · next hc =>
    have := hle hc.2
    cases h
    simp only [Char.reduceToNat] at *
    omega
  · split at h
    · next hc =>
      have := hle hc.2
      cases h
      simp only [Char.reduceToNat] at *
      omega
    · split at h
      · next hc =>
        have := hle hc.2
        cases h
        simp only [Char.reduceToNat] at *
        omega
      · cases h

theorem hexUnit?_lt {a b c d : Char} {u : Nat} (h : hexUnit? a b c d = some u) : u < 0x10000 := by
  unfold hexUnit? at h
  simp only [Option.bind_eq_bind, Option.bind_eq_some_iff, Option.pure_def, Option.some.injEq] at h
  obtain ⟨x, hx, y, hy, z, hz, w, hw, rfl⟩ := h
  have := hexValue?_lt hx
  have := hexValue?_lt hy
  have := hexValue?_lt hz
  have := hexValue?_lt hw
  omega

theorem exists_of_readUnit {cs rest : List Char} {u : Nat} (h : readUnit cs = .ok (u, rest)) :
    ∃ a b c d, cs = a :: b :: c :: d :: rest ∧ hexUnit? a b c d = some u := by
  unfold readUnit at h
  dsimp only at h
  split at h
  · next r hr =>
    cases h
    split at hr
    · next a b c d rest' =>
      obtain ⟨v, hv, he⟩ := Option.map_eq_some_iff.mp hr
      cases he
      exact ⟨a, b, c, d, rfl, hv⟩
    · cases hr
  · split at h <;> cases h

theorem cons_of_readPairMark {mark : Char} {cs rest : List Char}
    (h : readPairMark mark cs = .ok rest) : cs = mark :: rest := by
  cases cs with
  | nil => cases h
  | cons c cs =>
    rw [readPairMark] at h
    split at h
    · next hc => rw [hc, Except.ok.inj h]
    · cases h

theorem toNat_ofNat {n : Nat} (h : n.isValidChar) : (Char.ofNat n).toNat = n := by
  rw [Char.ofNat, dif_pos h]
  rfl

theorem unitsOf_ofNat {u : Nat} (hu : u < 0x10000) (hleading : isLeading u = false)
    (htrailing : isTrailing u = false) : unitsOf (Char.ofNat u) = [u] := by
  have hvalid : u.isValidChar := by
    simp only [isLeading, isTrailing, Bool.and_eq_false_iff, decide_eq_false_iff_not] at *
    unfold Nat.isValidChar
    omega
  rw [unitsOf, toNat_ofNat hvalid, if_pos hu]

theorem unitsOf_pairChar {u v : Nat} (hu : isLeading u = true) (hv : isTrailing v = true) :
    unitsOf (pairChar u v) = [u, v] := by
  simp only [isLeading, isTrailing, Bool.and_eq_true, decide_eq_true_eq] at hu hv
  have hvalid : (0x10000 + (u - 0xD800) * 0x400 + (v - 0xDC00)).isValidChar := by
    unfold Nat.isValidChar
    omega
  rw [unitsOf, pairChar, toNat_ofNat hvalid, if_neg (by omega), List.cons.injEq, List.cons.injEq]
  exact ⟨by omega, by omega, rfl⟩

/-! ## strings -/

/-- the character of an escape by code has the units that are written -/
theorem characters_of_readCode {cs rest : List Char} {d : Char} {taken : Nat} {us : List Nat}
    (h : readCode cs = .ok (d, taken)) (hrest : Characters us (cs.drop taken) rest) :
    Characters (unitsOf d ++ us) ('\\' :: 'u' :: cs) rest := by
  unfold readCode at h
  obtain ⟨⟨u, c₁⟩, hu, h₁⟩ := bind_ok_iff.mp h
  clear h
  obtain ⟨a₁, a₂, a₃, a₄, rfl, ha⟩ := exists_of_readUnit hu
  dsimp only at h₁
  split at h₁
  · cases h₁
  · next htrailing =>
    split at h₁
    · next hleading =>
      obtain ⟨c₂, hmark, h₂⟩ := bind_ok_iff.mp h₁
      obtain ⟨c₃, hmark', h₃⟩ := bind_ok_iff.mp h₂
      obtain ⟨⟨v, c₄⟩, hv, h₄⟩ := bind_ok_iff.mp h₃
      clear h₁ h₂ h₃
      obtain ⟨b₁, b₂, b₃, b₄, rfl, hb⟩ := exists_of_readUnit hv
      rw [cons_of_readPairMark hmark, cons_of_readPairMark hmark'] at hrest ⊢
      dsimp only at h₄
      split at h₄
      · next hpair =>
        obtain ⟨rfl, rfl⟩ := Prod.mk.inj (Except.ok.inj h₄)
        rw [unitsOf_pairChar hleading hpair]
        exact .code ha (.code hb hrest)
      · cases h₄
    · next hleading =>
      cases h₁
      rw [unitsOf_ofNat (hexUnit?_lt ha) (Bool.eq_false_iff.mpr hleading)
        (Bool.eq_false_iff.mpr htrailing)]
      exact .code ha hrest

theorem characters_of_readEscape {cs rest : List Char} {d : Char} {taken : Nat} {us : List Nat}
    (h : readEscape cs = .ok (d, taken)) (hrest : Characters us (cs.drop taken) rest) :
    Characters (unitsOf d ++ us) ('\\' :: cs) rest := by
  cases cs with
  | nil => cases h
  | cons c cs =>
    rw [readEscape] at h
    split at h
    · next hc =>
      subst hc
      cases hr : readCode cs with
      | error e =>
        rw [hr] at h
        cases h
      | ok r =>
        rw [hr] at h
        cases h
        exact characters_of_readCode hr hrest
    · split at h
      · next he =>
        cases h
        exact .short he hrest
      · cases h

/-- **A string that is read is written as it is read**, behind the characters that an escape has
taken. -/
theorem characters_of_readChars {taken : Nat} {cs ds rest : List Char}
    (h : readChars taken cs = .ok (ds, rest)) : Characters (units ds) (cs.drop taken) rest := by
  induction taken, cs using readChars.induct generalizing ds with
  | case1 taken => cases h
  | case2 taken c cs ih => exact ih (by simpa only [readChars] using h)
  | case3 cs =>
    rw [readChars, if_pos rfl] at h
    cases h
    exact .close _
  | case4 cs hquote ih =>
    rw [readChars, if_neg hquote, if_pos rfl] at h
    obtain ⟨⟨d, taken⟩, hd, h⟩ := bind_ok_iff.mp h
    obtain ⟨⟨ds', rest'⟩, hds, h⟩ := bind_ok_iff.mp h
    cases h
    exact characters_of_readEscape hd (ih taken hds)
  | case5 c cs hquote hslash hcontrol =>
    rw [readChars, if_neg hquote, if_neg hslash, if_pos hcontrol] at h
    cases h
  | case6 c cs hquote hslash hcontrol ih =>
    rw [readChars, if_neg hquote, if_neg hslash, if_neg hcontrol] at h
    obtain ⟨⟨ds', rest'⟩, hds, h⟩ := bind_ok_iff.mp h
    cases h
    exact .plain hquote hslash hcontrol (ih hds)

theorem characters_of_readQuoted {cs rest : List Char} {s : String}
    (h : readQuoted cs = .ok (s, rest)) : Characters (units s.toList) cs rest := by
  obtain ⟨⟨ds, rest'⟩, hds, h⟩ := bind_ok_iff.mp h
  cases h
  rw [String.toList_ofList]
  exact characters_of_readChars hds

theorem exists_characters_of_skipEscape {cs rest : List Char} {taken : Nat} {us : List Nat}
    (h : skipEscape cs = .ok taken) (hrest : Characters us (cs.drop taken) rest) :
    ∃ us', Characters us' ('\\' :: cs) rest := by
  cases cs with
  | nil => cases h
  | cons c cs =>
    rw [skipEscape] at h
    split at h
    · next hc =>
      subst hc
      cases hr : readUnit cs with
      | error e =>
        rw [hr] at h
        cases h
      | ok r =>
        rw [hr] at h
        cases h
        obtain ⟨a₁, a₂, a₃, a₄, rfl, ha⟩ := exists_of_readUnit hr
        exact ⟨_, .code ha hrest⟩
    · split at h
      · next he =>
        obtain ⟨d, hd⟩ := Option.isSome_iff_exists.mp he
        cases h
        exact ⟨_, .short hd hrest⟩
      · cases h

/-- **A string that is skipped is a string**, of units that need not make characters. -/
theorem exists_characters_of_skipChars {taken : Nat} {cs rest : List Char}
    (h : skipChars taken cs = .ok ((), rest)) : ∃ us, Characters us (cs.drop taken) rest := by
  induction taken, cs using skipChars.induct with
  | case1 taken => cases h
  | case2 taken c cs ih => exact ih (by simpa only [skipChars] using h)
  | case3 cs =>
    rw [skipChars, if_pos rfl] at h
    cases h
    exact ⟨[], .close _⟩
  | case4 cs hquote ih =>
    rw [skipChars, if_neg hquote, if_pos rfl] at h
    obtain ⟨taken, htaken, h⟩ := bind_ok_iff.mp h
    obtain ⟨us, hus⟩ := ih taken h
    exact exists_characters_of_skipEscape htaken hus
  | case5 c cs hquote hslash hcontrol =>
    rw [skipChars, if_neg hquote, if_neg hslash, if_pos hcontrol] at h
    cases h
  | case6 c cs hquote hslash hcontrol ih =>
    rw [skipChars, if_neg hquote, if_neg hslash, if_neg hcontrol] at h
    obtain ⟨us, hus⟩ := ih h
    exact ⟨_, .plain hquote hslash hcontrol hus⟩

/-! ## numbers -/

theorem allDigits_takeDigits (cs : List Char) : AllDigits (takeDigits cs).1 :=
  fun _ hc => List.mem_takeWhile_imp hc

/-- the leading digits of a text that begins with one -/
theorem digits_of_takeDigits {c : Char} {cs ds rest : List Char} (hc : c.isDigit = true)
    (h : takeDigits (c :: cs) = (ds, rest)) : ds ≠ [] ∧ AllDigits ds ∧ c :: cs = ds ++ rest := by
  have happend := takeDigits_append (c :: cs)
  have hdigits := allDigits_takeDigits (c :: cs)
  have hds : (takeDigits (c :: cs)).1 = c :: cs.takeWhile Char.isDigit :=
    List.takeWhile_cons_of_pos hc
  rw [h] at happend hdigits hds
  have hne : ds ≠ [] := ne_of_eq_of_ne hds (List.cons_ne_nil c _)
  exact ⟨hne, hdigits, happend.symm⟩

theorem whole_of_scanWhole {atEnd : Fault} {cs ds rest : List Char}
    (h : scanWhole atEnd cs = .ok (ds, rest)) : Whole ds cs rest := by
  cases cs with
  | nil => cases h
  | cons c cs =>
    unfold scanWhole at h
    dsimp only at h
    split at h
    · next hc =>
      subst hc
      split at h
      · split at h
        · cases h
        · cases h
          exact .zero _
      · cases h
        exact .zero []
    · next hzero =>
      split at h
      · next hdigit =>
        obtain ⟨hne, hdigits, happend⟩ := digits_of_takeDigits hdigit (Except.ok.inj h)
        obtain ⟨d, ds, rfl⟩ := List.exists_cons_of_ne_nil hne
        have hd : c = d := (List.cons.inj happend).1
        rw [happend]
        exact .digits (hd ▸ hzero) hdigits rest
      · cases h

theorem digits_of_scanDigits {atEnd : Fault} {cs ds rest : List Char}
    (h : scanDigits atEnd cs = .ok (ds, rest)) : ds ≠ [] ∧ AllDigits ds ∧ cs = ds ++ rest := by
  cases cs with
  | nil => cases h
  | cons c cs =>
    rw [scanDigits] at h
    split at h
    · next hdigit => exact digits_of_takeDigits hdigit (Except.ok.inj h)
    · cases h

theorem fraction_of_scanFraction {atEnd : Fault} {cs rest : List Char}
    {fraction : Option (List Char)} (h : scanFraction atEnd cs = .ok (fraction, rest)) :
    Fraction fraction cs rest := by
  unfold scanFraction at h
  split at h
  · obtain ⟨⟨ds, ds'⟩, hds, h⟩ := bind_ok_iff.mp h
    cases h
    obtain ⟨hne, hdigits, rfl⟩ := digits_of_scanDigits hds
    exact .digits hne hdigits rest
  · cases h
    exact .none _

theorem sign_scanSign (cs : List Char) : Sign (scanSign cs).1 cs (scanSign cs).2 := by
  unfold scanSign
  split
  · exact .minus _
  · exact .plus _
  · exact .none _

theorem exponent_of_scanExponent {atEnd : Fault} {cs rest : List Char}
    {exponent : Option (Bool × List Char)} (h : scanExponent atEnd cs = .ok (exponent, rest)) :
    Exponent exponent cs rest := by
  unfold scanExponent at h
  split at h
  · next c cs =>
    split at h
    · next he =>
      obtain ⟨⟨ds, ds'⟩, hds, h⟩ := bind_ok_iff.mp h
      cases h
      obtain ⟨hne, hdigits, happend⟩ := digits_of_scanDigits hds
      exact .digits he (happend ▸ sign_scanSign cs) hne hdigits
    · cases h
      exact .none _
  · cases h
    exact .none _

/-- **A numeral is written as it is scanned.** -/
theorem spells_of_scanNumeral {atEnd : Fault} {cs rest : List Char} {x : Numeral}
    (h : scanNumeral atEnd cs = .ok (x, rest)) : x.Spells cs rest := by
  unfold scanNumeral at h
  split at h
  next negative c₀ hsign =>
  obtain ⟨⟨whole, c₁⟩, hwhole, h⟩ := bind_ok_iff.mp h
  obtain ⟨⟨fraction, c₂⟩, hfraction, h⟩ := bind_ok_iff.mp h
  obtain ⟨⟨exponent, c₃⟩, hexponent, h⟩ := bind_ok_iff.mp h
  cases h
  have hw := whole_of_scanWhole hwhole
  have hf := fraction_of_scanFraction hfraction
  have he := exponent_of_scanExponent hexponent
  split at hsign
  · cases hsign
    exact .minus hw hf he
  · cases hsign
    exact .plain hw hf he

/-! ## the values of numerals -/

theorem eq_of_integer? {negative : Bool} {significand : Nat} {n : Int}
    (h : Numeral.integer? negative significand = some n) :
    n = (if negative then -1 else 1) * significand := by
  unfold Numeral.integer? at h
  cases negative with
  | false =>
    rw [if_neg Bool.false_ne_true] at h ⊢
    rw [← Option.some.inj h, Int.one_mul]
  | true =>
    rw [if_pos rfl] at h ⊢
    split at h
    · cases h
    · rw [← Option.some.inj h, Int.neg_one_mul]

/-- **An integer is what its numeral names.** -/
theorem exact_of_value {x : Numeral} {rest : List Char} {n : Int}
    (h : x.value rest = .ok (.integer n)) : x.exact = n := by
  obtain ⟨negative, whole, fraction, exponent⟩ := x
  unfold Numeral.value at h
  cases exponent with
  | some e =>
    dsimp only at h
    split at h
    · split at h <;> cases h
    · split at h <;> cases h
  | none =>
    dsimp only at h
    split at h
    · next hplain =>
      obtain ⟨hfraction, hdropped⟩ := hplain
      obtain rfl := Option.isNone_iff_eq_none.mp hfraction
      rw [Option.getD_none, gatherFraction, ofDigitChars_of_gatherWhole hdropped] at h
      split at h
      · next m hm =>
        cases h
        rw [eq_of_integer? hm]
        simp [Numeral.exact, Numeral.power, digitsValue]
      · split at h <;> cases h
    · split at h <;> cases h

theorem exists_numeral_of_readNumber {cs rest : List Char} {n : Number}
    (h : readNumber cs = .ok (n, rest)) : ∃ x : Numeral, x.Spells cs rest ∧ x.value [] = .ok n := by
  obtain ⟨⟨x, rest'⟩, hx, h⟩ := bind_ok_iff.mp h
  obtain ⟨m, hm, h⟩ := bind_ok_iff.mp h
  cases h
  exact ⟨x, spells_of_scanNumeral hx, value_eq_ok hm []⟩

/-! ## items and members -/

section

variable {α : Type} {P : α → List Char → List Char → Prop} {item : Reader Fault α}

/-- items one after the other, if each is written as `P` has it -/
theorem items_of_items {b : Brackets} {bound cs rest : List Char} {xs : List α}
    (hitem : ∀ x cs rest, item cs = .ok (x, rest) → Behind P x cs rest)
    (h : items b item bound cs = .ok (xs, rest)) :
    ∃ y ys, xs = y :: ys ∧ Items P (y :: ys) cs (b.close :: rest) := by
  induction bound generalizing cs xs with
  | nil => cases h
  | cons _ bound ih =>
    rw [items] at h
    obtain ⟨⟨x, c₁⟩, hx, h⟩ := bind_ok_iff.mp h
    obtain ⟨c₀, hb, hx⟩ := hitem x cs c₁ hx
    dsimp only at h
    split at h
    · cases h
    · next c c₂ hs =>
      have hb₁ := blanks_of_skipSpace hs
      split at h
      · next hclose =>
        cases h
        exact ⟨x, [], rfl, .some hb hx (.none (hclose ▸ hb₁))⟩
      · split at h
        · next hcomma =>
          split at h
          · cases h
          · next d c₃ hs' =>
            split at h
            · cases h
            · obtain ⟨⟨xs', rest'⟩, hxs, h⟩ := bind_ok_iff.mp h
              cases h
              obtain ⟨y, ys, rfl, hys⟩ := ih hxs
              have hys' := hys.blanks (blanks_of_skipSpace hs')
              exact ⟨x, y :: ys, rfl, .some hb hx (hys'.further (hcomma ▸ hb₁))⟩
        · cases h

/-- **Items in brackets are written as they are read**, if each of them is. -/
theorem items_of_bracketed {b : Brackets} {cs rest : List Char} {xs : List α}
    (hitem : ∀ x cs rest, item cs = .ok (x, rest) → Behind P x cs rest)
    (h : bracketed b item cs = .ok (xs, rest)) : Items P xs cs (b.close :: rest) := by
  unfold bracketed at h
  split at h
  · cases h
  · next c c₁ hs =>
    have hb := blanks_of_skipSpace hs
    split at h
    · next hclose =>
      cases h
      exact .none (hclose ▸ hb)
    · obtain ⟨y, ys, rfl, hys⟩ := items_of_items hitem h
      exact hys.blanks hb

/-- a member is a key, a colon and a value as their readers take them -/
theorem exists_of_readMember {β κ : Type} {key : Reader Fault κ} {value : Reader Fault β}
    {m : κ × β} {cs rest : List Char} (h : readMember key value cs = .ok (m, rest)) :
    ∃ c₁ c₂ c₃, cs = '"' :: c₁ ∧ key c₁ = .ok (m.1, c₂) ∧ Blanks c₂ (':' :: c₃) ∧
      value c₃ = .ok (m.2, rest) := by
  unfold readMember at h
  split at h
  · obtain ⟨⟨k, c₂⟩, hk, h⟩ := bind_ok_iff.mp h
    obtain ⟨c₃, hcolon, h⟩ := bind_ok_iff.mp h
    obtain ⟨⟨v, c₄⟩, hv, h⟩ := bind_ok_iff.mp h
    cases h
    exact ⟨_, c₂, c₃, rfl, hk, blanks_of_readColon hcolon, hv⟩
  · cases h

/-- members with keys that characters make -/
theorem members_of_bracketed
    (hitem : ∀ x cs rest, item cs = .ok (x, rest) → Behind P x cs rest) {ms : List (String × α)}
    {cs rest : List Char}
    (h : bracketed curlyBrackets (readMember readQuoted item) cs = .ok (ms, rest)) :
    Items (Member P) (ms.map inUnits) cs ('\x7d' :: rest) := by
  refine Items.map_iff.mpr (items_of_bracketed (fun m cs rest hm => ?_) h)
  obtain ⟨c₁, c₂, c₃, rfl, hk, hb, hv⟩ := exists_of_readMember hm
  obtain ⟨c₄, hb', hv⟩ := hitem _ _ _ hv
  exact ⟨_, .none _, .mk (characters_of_readQuoted hk) hb hb' hv⟩

end

/-! ## skipping -/

theorem append_of_skippedWord {letters cs rest : List Char}
    (h : (readWord letters cs >>= fun cs => Except.ok ((), cs)) = .ok ((), rest)) :
    cs = letters ++ rest := by
  obtain ⟨c₁, hword, h⟩ := bind_ok_iff.mp h
  cases h
  exact append_of_readWord hword

section

variable {value : Reader Fault Unit}

/-- something written behind blanks, whatever it is -/
theorem exists_of_skipped
    (hvalue : ∀ {cs rest}, value cs = .ok ((), rest) → ∃ v, Behind Spells v cs rest) {x : Unit}
    {cs rest : List Char} (h : value cs = .ok (x, rest)) :
    Behind (fun _ cs rest => ∃ v, Spells v cs rest) x cs rest := by
  obtain ⟨v, c₁, hb, hv⟩ := hvalue h
  exact ⟨c₁, hb, v, hv⟩

theorem exists_of_skippedMember
    (hvalue : ∀ {cs rest}, value cs = .ok ((), rest) → ∃ v, Behind Spells v cs rest) {x : Unit × Unit}
    {cs rest : List Char} (h : readMember skipQuoted value cs = .ok (x, rest)) :
    Behind (fun _ cs rest => ∃ m, Member Spells m cs rest) x cs rest := by
  obtain ⟨c₁, c₂, c₃, rfl, hk, hb, hv⟩ := exists_of_readMember h
  obtain ⟨us, hus⟩ := exists_characters_of_skipChars hk
  obtain ⟨v, c₄, hb', hv⟩ := hvalue hv
  exact ⟨_, .none _, (us, v), .mk hus hb hb' hv⟩

end

theorem exists_spells_of_skipNested {bound cs rest : List Char}
    (h : skipNested bound cs = .ok ((), rest)) : ∃ v, Behind Spells v cs rest := by
  induction bound generalizing cs rest with
  | nil => cases h
  | cons _ bound ih =>
    rw [skipNested] at h
    split at h
    · cases h
    · next c c₁ hs =>
      suffices hspells : ∃ v, Spells v (c :: c₁) rest by
        obtain ⟨v, hv⟩ := hspells
        exact ⟨v, _, blanks_of_skipSpace hs, hv⟩
      split_ifs at h with hn ht hf hquote hnumber hsquare hcurly
      · rw [hn, append_of_skippedWord h]
        exact ⟨_, .null rest⟩
      · rw [ht, append_of_skippedWord h]
        exact ⟨_, .true rest⟩
      · rw [hf, append_of_skippedWord h]
        exact ⟨_, .false rest⟩
      · obtain ⟨us, hus⟩ := exists_characters_of_skipChars h
        rw [hquote]
        exact ⟨_, .string hus⟩
      · obtain ⟨⟨x, c₂⟩, hx, h⟩ := bind_ok_iff.mp h
        cases h
        exact ⟨_, .number (spells_of_scanNumeral hx)⟩
      · obtain ⟨⟨xs, c₂⟩, hxs, h⟩ := bind_ok_iff.mp h
        cases h
        obtain ⟨vs, hvs⟩ := (items_of_bracketed (fun _ _ _ => exists_of_skipped ih) hxs).exists_of
        rw [hsquare]
        exact ⟨_, .array hvs⟩
      · obtain ⟨⟨xs, c₂⟩, hxs, h⟩ := bind_ok_iff.mp h
        cases h
        obtain ⟨ms, hms⟩ :=
          (items_of_bracketed (fun _ _ _ => exists_of_skippedMember ih) hxs).exists_of
        rw [hcurly]
        exact ⟨_, .object hms⟩

/-- **A value that is skipped is a document.** -/
theorem exists_spells_of_skipValue {cs rest : List Char} (h : skipValue cs = .ok ((), rest)) :
    ∃ v, Behind Spells v cs rest := exists_spells_of_skipNested h

end WhereClause.Json
