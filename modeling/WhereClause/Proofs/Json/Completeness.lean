import WhereClause.Json.Skip
import WhereClause.Proofs.Json.Grammar
import WhereClause.Proofs.Json.Quoted
import WhereClause.Proofs.Outcome

/-!
# What is written is read

A part that stands at the front of a text as the grammar has it is taken off by its reader, whatever
stands behind it. Only a numeral minds what follows: a longer one must not.

* `readChars_of_characters`  a string whose units make characters, `skipChars_of_characters` any one;
* `scanNumeral_of_spells`    a numeral, so no text begins with two of them
                             (`Numeral.Spells.unique`);
* `bracketed_of_items`       items between brackets, whatever reads the items;
* `skipValue_of_spells`      a document that is skipped.
-/

set_option autoImplicit false

namespace WhereClause.Json

open WhereClause.Text WhereClause.Number WhereClause.Sql

/-! ## strings -/

/-- a character past the first plane is a leading half and a trailing one -/
theorem exists_halves {d : Char} (h : ¬ d.toNat < 0x10000) :
    ∃ u v, unitsOf d = [u, v] ∧ isLeading u = true ∧ isTrailing v = true ∧ pairChar u v = d := by
  have hrange := toNat_range d
  refine ⟨_, _, if_neg h, ?leading, ?trailing, ?pair⟩
  case leading =>
    simp only [isLeading, Bool.and_eq_true, decide_eq_true_eq]
    omega
  case trailing =>
    simp only [isTrailing, Bool.and_eq_true, decide_eq_true_eq]
    omega
  case pair =>
    have hcode : 0x10000 + (0xD800 + (d.toNat - 0x10000) / 0x400 - 0xD800) * 0x400 +
        (0xDC00 + (d.toNat - 0x10000) % 0x400 - 0xDC00) = d.toNat := by omega
    rw [pairChar, hcode, Char.ofNat_toNat]

/-- a character is read from the codes of its two halves -/
theorem readCode_pair {a₁ a₂ a₃ a₄ b₁ b₂ b₃ b₄ : Char} {u v : Nat} (hu : isLeading u = true)
    (hv : isTrailing v = true) (ha : hexUnit? a₁ a₂ a₃ a₄ = some u)
    (hb : hexUnit? b₁ b₂ b₃ b₄ = some v) (cs : List Char) :
    readCode (a₁ :: a₂ :: a₃ :: a₄ :: '\\' :: 'u' :: b₁ :: b₂ :: b₃ :: b₄ :: cs) =
      .ok (pairChar u v, 10) := by
  have htrailing : isTrailing u = false := by
    simp only [isLeading, isTrailing, Bool.and_eq_true, Bool.and_eq_false_iff, decide_eq_true_eq,
      decide_eq_false_iff_not] at hu ⊢
    omega
  unfold readCode
  rw [readUnit_of_hexUnit? ha]
  show (if isTrailing u = true then _ else if isLeading u = true then _ else _) = _
  rw [htrailing, hu, if_neg Bool.false_ne_true, if_pos rfl]
  show (readUnit (b₁ :: b₂ :: b₃ :: b₄ :: cs) >>= _) = _
  rw [readUnit_of_hexUnit? hb]
  show (if isTrailing v = true then _ else _) = _
  rw [hv, if_pos rfl]

/-- no character begins with a trailing half, so such a half is written by its code -/
theorem Characters.exists_code {v : Nat} {us : List Nat} {cs rest : List Char}
    (hv : isTrailing v = true) (h : Characters (v :: us) cs rest) :
    ∃ c₁ c₂ c₃ c₄ cs', cs = '\\' :: 'u' :: c₁ :: c₂ :: c₃ :: c₄ :: cs' ∧
      hexUnit? c₁ c₂ c₃ c₄ = some v ∧ Characters us cs' rest := by
  have hhead (d : Char) (us' : List Nat) : unitsOf d ++ us' ≠ v :: us := by
    intro heq
    have hd := toNat_range d
    simp only [isTrailing, Bool.and_eq_true, decide_eq_true_eq] at hv
    unfold unitsOf at heq
    split at heq <;>
    · have hfirst := (List.cons.inj heq).1
      omega
  generalize hus : v :: us = vs at h
  cases h with
  | close => cases hus
  | plain => exact absurd hus.symm (hhead _ _)
  | short => exact absurd hus.symm (hhead _ _)
  | @code c₁ c₂ c₃ c₄ _ _ cs' _ hu h =>
    cases hus
    exact ⟨c₁, c₂, c₃, c₄, cs', rfl, hu, h⟩

/-- **A string that is written is read**, if its units make characters. -/
theorem readChars_of_characters {ds cs rest : List Char} (h : Characters (units ds) cs rest) :
    readChars 0 cs = .ok (ds, rest) := by
  induction ds generalizing cs with
  | nil =>
    generalize hus : units [] = us at h
    cases h with
    | close => rw [readChars, if_pos rfl]
    | plain => exact absurd hus.symm (unitsOf_append_ne_nil _ _)
    | short => exact absurd hus.symm (unitsOf_append_ne_nil _ _)
    | code => cases hus
  | cons d ds ih =>
    generalize hus : units (d :: ds) = us at h
    rw [units_cons] at hus
    cases h with
    | close => exact absurd hus (unitsOf_append_ne_nil _ _)
    | plain hquote hslash hcontrol h =>
      obtain ⟨rfl, rfl⟩ := unitsOf_append_inj hus
      rw [readChars, if_neg hquote, if_neg hslash, if_neg hcontrol, ih h]
      rfl
    | @short e _ _ cs _ he h =>
      obtain ⟨rfl, rfl⟩ := unitsOf_append_inj hus
      have hread : readEscape ([e] ++ cs) = .ok (d, 1) := by
        have hu : e ≠ 'u' := by
          rintro rfl
          cases he
        show readEscape (e :: cs) = _
        rw [readEscape, if_neg hu, he]
      exact readChars_escape hread (ih h)
    | @code c₁ c₂ c₃ c₄ u us cs _ hu h =>
      by_cases hsmall : d.toNat < 0x10000
      · have hunits : unitsOf d = [d.toNat] := if_pos hsmall
        rw [hunits] at hus
        obtain ⟨rfl, rfl⟩ := List.cons.inj hus
        have hread : readEscape (['u', c₁, c₂, c₃, c₄] ++ cs) = .ok (d, 5) := by
          show readEscape ('u' :: c₁ :: c₂ :: c₃ :: c₄ :: cs) = _
          rw [readEscape, if_pos rfl, readCode_unit hsmall hu]
          rfl
        exact readChars_escape hread (ih h)
      · obtain ⟨l, v, hunits, hl, hv, hpair⟩ := exists_halves hsmall
        rw [hunits] at hus
        obtain ⟨rfl, rfl⟩ := List.cons.inj hus
        obtain ⟨b₁, b₂, b₃, b₄, cs, rfl, hb, h⟩ := h.exists_code hv
        have hread : readEscape (['u', c₁, c₂, c₃, c₄, '\\', 'u', b₁, b₂, b₃, b₄] ++ cs) =
            .ok (d, 11) := by
          show readEscape
            ('u' :: c₁ :: c₂ :: c₃ :: c₄ :: '\\' :: 'u' :: b₁ :: b₂ :: b₃ :: b₄ :: cs) = _
          rw [readEscape, if_pos rfl, readCode_pair hl hv hu hb, hpair]
          rfl
        exact readChars_escape hread (ih h)

theorem readQuoted_of_characters {s : String} {cs rest : List Char}
    (h : Characters (units s.toList) cs rest) : readQuoted cs = .ok (s, rest) := by
  unfold readQuoted
  rw [readChars_of_characters h]
  show Except.ok (String.ofList s.toList, rest) = _
  rw [String.ofList_toList]

/-- the characters of an escape are passed over -/
theorem skipChars_append (xs cs : List Char) : skipChars xs.length (xs ++ cs) = skipChars 0 cs := by
  induction xs with
  | nil => rfl
  | cons x xs ih =>
    rw [List.length_cons, List.cons_append, skipChars]
    exact ih

theorem skipChars_escape {xs cs : List Char} (he : skipEscape (xs ++ cs) = .ok xs.length) :
    skipChars 0 ('\\' :: (xs ++ cs)) = skipChars 0 cs := by
  rw [skipChars, if_neg (by decide), if_pos rfl, he]
  exact skipChars_append xs cs

/-- **A string that is written is skipped**, whatever its units are. -/
theorem skipChars_of_characters {us : List Nat} {cs rest : List Char}
    (h : Characters us cs rest) : skipChars 0 cs = .ok ((), rest) := by
  induction h with
  | close rest => rw [skipChars, if_pos rfl]
  | plain hquote hslash hcontrol _ ih =>
    rw [skipChars, if_neg hquote, if_neg hslash, if_neg hcontrol, ih]
  | @short e d us cs rest he _ ih =>
    have hskip : skipEscape ([e] ++ cs) = .ok 1 := by
      have hu : e ≠ 'u' := by
        rintro rfl
        cases he
      show skipEscape (e :: cs) = _
      rw [skipEscape, if_neg hu, he, if_pos Option.isSome_some]
    exact (skipChars_escape hskip).trans ih
  | @code c₁ c₂ c₃ c₄ u us cs rest hu _ ih =>
    have hskip : skipEscape (['u', c₁, c₂, c₃, c₄] ++ cs) = .ok 5 := by
      show skipEscape ('u' :: c₁ :: c₂ :: c₃ :: c₄ :: cs) = _
      rw [skipEscape, if_pos rfl, readUnit_of_hexUnit? hu]
      rfl
    exact (skipChars_escape hskip).trans ih

/-! ## numerals -/

/-- no digit is a sign -/
theorem head_digits {ds rest : List Char} (hne : ds ≠ []) (hd : AllDigits ds) :
    ∀ c, (ds ++ rest).head? = some c → c ≠ '+' ∧ c ≠ '-' := by
  obtain ⟨d, ds, rfl⟩ := List.exists_cons_of_ne_nil hne
  intro c hc
  have hdigit : c.isDigit = true := Option.some.inj hc ▸ hd d List.mem_cons_self
  constructor <;>
  · rintro rfl
    exact absurd hdigit (by decide)

theorem isWordChar_exponent {e : Char} (he : e = 'e' ∨ e = 'E') : isWordChar e = true := by
  rcases he with rfl | rfl <;> decide

/-- neither a digit nor a point stands where an exponent may -/
theorem Exponent.head {e : Option (Bool × List Char)} {cs rest : List Char}
    (h : Exponent e cs rest) (hr : endsNumeral rest = true) :
    ∀ c, cs.head? = some c → c.isDigit = false ∧ c ≠ '.' := by
  intro c hc
  cases h with
  | none => exact ⟨isDigit_of_endsNumeral hr hc, (of_endsNumeral hr hc).2⟩
  | digits he =>
    cases hc
    rcases he with rfl | rfl <;> decide

theorem Fraction.head {f : Option (List Char)} {cs rest : List Char} (h : Fraction f cs rest)
    (hr : ∀ c, rest.head? = some c → c.isDigit = false ∧ c ≠ '.') :
    ∀ c, cs.head? = some c → c.isDigit = false := by
  intro c hc
  cases h with
  | none => exact (hr c hc).1
  | digits =>
    cases hc
    rfl

theorem Whole.exists_cons {ws cs rest : List Char} (h : Whole ws cs rest) :
    ∃ c ds, cs = c :: ds ∧ c.isDigit = true := by
  cases h with
  | zero rest => exact ⟨'0', rest, rfl, rfl⟩
  | digits _ hd rest => exact ⟨_, _, rfl, hd _ List.mem_cons_self⟩

theorem scanWhole_of_whole (atEnd : Fault) {ws cs rest : List Char} (h : Whole ws cs rest)
    (hr : ∀ c, rest.head? = some c → c.isDigit = false) : scanWhole atEnd cs = .ok (ws, rest) := by
  cases h with
  | zero =>
    cases rest with
    | nil => rfl
    | cons d rest =>
      show (if d.isDigit = true then _ else _) = _
      rw [hr d rfl, if_neg Bool.false_ne_true]
  | @digits c ds hzero hd =>
    show (if c = '0' then _ else if c.isDigit = true then _ else _) = _
    rw [if_neg hzero, if_pos (hd c List.mem_cons_self)]
    exact congrArg Except.ok (takeDigits_run hd hr)

theorem scanDigits_run (atEnd : Fault) {ds rest : List Char} (hne : ds ≠ []) (hd : AllDigits ds)
    (hr : ∀ c, rest.head? = some c → c.isDigit = false) :
    scanDigits atEnd (ds ++ rest) = .ok (ds, rest) := by
  have hrun := takeDigits_run hd hr
  obtain ⟨d, ds, rfl⟩ := List.exists_cons_of_ne_nil hne
  show (if d.isDigit = true then _ else _) = _
  rw [if_pos (hd d List.mem_cons_self)]
  exact congrArg Except.ok hrun

theorem scanFraction_of_fraction (atEnd : Fault) {f : Option (List Char)} {cs rest : List Char}
    (h : Fraction f cs rest) (hr : ∀ c, rest.head? = some c → c.isDigit = false ∧ c ≠ '.') :
    scanFraction atEnd cs = .ok (f, rest) := by
  cases h with
  | none =>
    unfold scanFraction
    split
    · exact absurd rfl (hr '.' rfl).2
    · rfl
  | digits hne hd =>
    rw [scanFraction, scanDigits_run atEnd hne hd fun c hc => (hr c hc).1]
    rfl

theorem scanSign_of_sign {n : Bool} {cs rest : List Char} (h : Sign n cs rest)
    (hr : ∀ c, rest.head? = some c → c ≠ '+' ∧ c ≠ '-') : scanSign cs = (n, rest) := by
  cases h with
  | none =>
    unfold scanSign
    split
    · exact absurd rfl (hr '-' rfl).2
    · exact absurd rfl (hr '+' rfl).1
    · rfl
  | plus => rfl
  | minus => rfl

theorem scanExponent_of_exponent (atEnd : Fault) {e : Option (Bool × List Char)}
    {cs rest : List Char} (h : Exponent e cs rest) (hr : endsNumeral rest = true) :
    scanExponent atEnd cs = .ok (e, rest) := by
  cases h with
  | none =>
    cases cs with
    | nil => rfl
    | cons c cs =>
      have hword := (of_endsNumeral hr rfl).1
      have hne : ¬ (c = 'e' ∨ c = 'E') := by
        intro he
        rw [isWordChar_exponent he] at hword
        cases hword
      rw [scanExponent, if_neg hne]
  | digits he hs hne hd =>
    rw [scanExponent, if_pos he, scanSign_of_sign hs (head_digits hne hd)]
    show (scanDigits atEnd _ >>= _) = _
    rw [scanDigits_run atEnd hne hd fun c hc => isDigit_of_endsNumeral hr hc]
    rfl

theorem scan_of_parts (atEnd : Fault) (negative : Bool) {whole cs c₁ c₂ rest : List Char}
    {fraction : Option (List Char)} {exponent : Option (Bool × List Char)}
    (hw : Whole whole cs c₁) (hf : Fraction fraction c₁ c₂) (he : Exponent exponent c₂ rest)
    (hr : endsNumeral rest = true) :
    (do
      let (whole, cs) ← scanWhole atEnd cs
      let (fraction, cs) ← scanFraction atEnd cs
      let (exponent, cs) ← scanExponent atEnd cs
      .ok (Numeral.mk negative whole fraction exponent, cs)) =
      Except.ok (ε := Stop Fault) (Numeral.mk negative whole fraction exponent, rest) := by
  rw [scanWhole_of_whole atEnd hw (hf.head (he.head hr))]
  show (scanFraction atEnd c₁ >>= _) = _
  rw [scanFraction_of_fraction atEnd hf (he.head hr)]
  show (scanExponent atEnd c₂ >>= _) = _
  rw [scanExponent_of_exponent atEnd he hr]
  rfl

/-- **A numeral is scanned as it is written**, in front of what no numeral goes on into. -/
theorem scanNumeral_of_spells (atEnd : Fault) {x : Numeral} {cs rest : List Char}
    (h : x.Spells cs rest) (hr : endsNumeral rest = true) :
    scanNumeral atEnd cs = .ok (x, rest) := by
  cases h with
  | plain hw hf he =>
    obtain ⟨c, ds, hcs, hdigit⟩ := hw.exists_cons
    unfold scanNumeral
    split
    next negative c₀ hsign =>
    split at hsign
    · -- no hyphen begins the digits
      cases hcs
      exact absurd hdigit (by decide)
    · cases hsign
      exact scan_of_parts atEnd false hw hf he hr
  | minus hw hf he => exact scan_of_parts atEnd true hw hf he hr

/-- a number is none of the words, strings and brackets that values begin with -/
theorem ne_of_number {c : Char} (hc : c = '-' ∨ c.isDigit = true) (l : Char)
    (hl : ¬ (l = '-' ∨ l.isDigit)) : c ≠ l := by
  rintro rfl
  exact hl hc

/-- **A numeral is read in one way** in front of what no numeral goes on into. -/
theorem Numeral.Spells.unique {x y : Numeral} {cs rest rest' : List Char} (h : x.Spells cs rest)
    (h' : y.Spells cs rest') (hr : endsNumeral rest = true) (hr' : endsNumeral rest' = true) :
    x = y ∧ rest = rest' := by
  have hx := scanNumeral_of_spells .endOfValue h hr
  rw [scanNumeral_of_spells .endOfValue h' hr'] at hx
  cases hx
  exact ⟨rfl, rfl⟩

/-- a numeral begins with a hyphen or a digit -/
theorem Numeral.Spells.exists_cons {x : Numeral} {cs rest : List Char} (h : x.Spells cs rest) :
    ∃ c ds, cs = c :: ds ∧ (c = '-' ∨ c.isDigit = true) := by
  cases h with
  | plain hw =>
    obtain ⟨c, ds, hc, hdigit⟩ := hw.exists_cons
    exact ⟨c, ds, hc, .inr hdigit⟩
  | minus => exact ⟨'-', _, rfl, .inl rfl⟩

theorem double_eq_ok {negative : Bool} {significand : Nat} {power : Int} {n : Number}
    {rest : List Char}
    (h : (match scaled? significand power with
      | some d => .ok (.double (d.withSign negative))
      | none => .error ⟨.numberOutOfRange, rest, 0⟩) = Except.ok (ε := Stop Fault) n)
    (rest' : List Char) :
    (match scaled? significand power with
      | some d => .ok (.double (d.withSign negative))
      | none => .error ⟨.numberOutOfRange, rest', 0⟩) = Except.ok (ε := Stop Fault) n := by
  cases hs : scaled? significand power with
  | none =>
    rw [hs] at h
    cases h
  | some d =>
    rw [hs] at h
    exact h

/-- the value of a numeral depends on the text behind it in its errors only -/
theorem value_eq_ok {x : Numeral} {n : Number} {rest : List Char} (h : x.value rest = .ok n)
    (rest' : List Char) : x.value rest' = .ok n := by
  unfold Numeral.value at h ⊢
  dsimp only at h ⊢
  cases hx : x.exponent with
  | some e =>
    rw [hx] at h
    dsimp only at h ⊢
    cases hg : gatherExponent 0 e.2 with
    | ok p =>
      rw [hg] at h
      exact double_eq_ok h rest'
    | error left =>
      rw [hg] at h
      dsimp only at h ⊢
      split at h
      · cases h
      · next hzero =>
        rw [if_neg hzero]
        exact h
  | none =>
    rw [hx] at h
    dsimp only at h ⊢
    split at h
    · next hplain =>
      rw [if_pos hplain]
      split at h
      · exact h
      · exact double_eq_ok h rest'
    · next hplain =>
      rw [if_neg hplain]
      exact double_eq_ok h rest'

theorem readNumber_of_spells {x : Numeral} {n : Number} {cs rest : List Char}
    (h : x.Spells cs rest) (hn : x.value [] = .ok n) (hr : endsNumeral rest = true) :
    readNumber cs = .ok (n, rest) := by
  unfold readNumber
  rw [scanNumeral_of_spells .endOfValue h hr]
  show (x.value rest >>= _) = _
  rw [value_eq_ok hn rest]
  rfl

/-! ## blanks and words -/

/-- no blank stands in front of a text -/
def Solid (cs : List Char) : Prop := ∀ c, cs.head? = some c → isSpace c = false

theorem solid_cons {c : Char} {cs : List Char} (hc : isSpace c = false) : Solid (c :: cs) :=
  fun _ h => Option.some.inj h ▸ hc

theorem isSpace_of_isDigit {c : Char} (h : c.isDigit = true) : isSpace c = false := by
  unfold isSpace
  simp only [Bool.or_eq_false_iff, decide_eq_false_iff_not]
  refine ⟨⟨⟨?_, ?_⟩, ?_⟩, ?_⟩ <;>
  · rintro rfl
    exact absurd h (by decide)

theorem Blanks.eq_skipSpace {cs rest : List Char} (h : Blanks cs rest) (hr : Solid rest) :
    rest = skipSpace cs := by
  induction h with
  | none rest =>
    cases rest with
    | nil => rfl
    | cons c cs => rw [skipSpace_of_not_isSpace (hr c rfl)]
  | more hc _ ih => rw [ih hr, skipSpace, skipSpace, List.dropWhile_cons_of_pos hc]

theorem Blanks.unique {cs rest rest' : List Char} (h : Blanks cs rest) (h' : Blanks cs rest')
    (hr : Solid rest) (hr' : Solid rest') : rest = rest' := by
  rw [h.eq_skipSpace hr, h'.eq_skipSpace hr']

/-- a numeral may end in front of blanks -/
theorem Blanks.endsNumeral {cs rest : List Char} (h : Blanks cs rest)
    (hr : endsNumeral rest = true) : endsNumeral cs = true := by
  cases h with
  | none => exact hr
  | more hc =>
    simp only [isSpace, Bool.or_eq_true, decide_eq_true_eq] at hc
    rcases hc with ((rfl | rfl) | rfl) | rfl <;> rfl

theorem readEnd_of_blanks {cs : List Char} (h : Blanks cs []) : readEnd cs = .ok () := by
  unfold readEnd
  rw [← h.eq_skipSpace fun _ hc => nomatch hc]

theorem readColon_of_blanks {cs rest : List Char} (h : Blanks cs (':' :: rest)) :
    readColon cs = .ok rest := by
  unfold readColon
  rw [← h.eq_skipSpace (solid_cons rfl)]
  exact if_pos rfl

/-! ## items and members -/

section

variable {α β κ : Type}

theorem readMember_of_blanks {key : Reader Fault κ} {value : Reader Fault β} {k : κ} {v : β}
    {cs c₁ c₂ rest : List Char} (hk : key cs = .ok (k, c₁)) (hb : Blanks c₁ (':' :: c₂))
    (hv : value c₂ = .ok (v, rest)) : readMember key value ('"' :: cs) = .ok ((k, v), rest) := by
  rw [readMember, hk]
  show (readColon c₁ >>= _) = _
  rw [readColon_of_blanks hb]
  show (value c₂ >>= _) = _
  rw [hv]
  rfl

/-- a bracket that no blank, comma or numeral is taken for -/
structure Closes (close : Char) : Prop where
  solid : isSpace close = false
  comma : close ≠ ','
  ends : ∀ cs, endsNumeral (close :: cs) = true

theorem closes_square : Closes ']' := ⟨rfl, by decide, fun _ => rfl⟩

theorem closes_curly : Closes '\x7d' := ⟨rfl, by decide, fun _ => rfl⟩

/-- a text that an item in front of the bracket may begin -/
def Begins (close : Char) (cs : List Char) : Prop := Solid cs ∧ cs.head? ≠ some close

/-- an item that its reader takes, and a character at least with it -/
structure Taken (item : Reader Fault α) (close : Char) (x : α) (cs rest : List Char) : Prop where
  begins : Begins close cs
  shorter : rest.length < cs.length
  read : endsNumeral rest = true → item cs = .ok (x, rest)

variable {P : α → List Char → List Char → Prop} {item : Reader Fault α} {b : Brackets}

theorem Further.endsNumeral {xs : List α} {cs rest : List Char} (h : Further P xs cs rest)
    (hr : endsNumeral rest = true) : endsNumeral cs = true := by
  cases h with
  | none hb => exact hb.endsNumeral hr
  | more hb => exact hb.endsNumeral rfl

theorem items_last (hclose : Closes b.close) {x : α} {cs c₁ rest : List Char}
    (hread : item cs = .ok (x, c₁)) (hb : Blanks c₁ (b.close :: rest)) (d : Char)
    (bound : List Char) : items b item (d :: bound) cs = .ok ([x], rest) := by
  rw [items, hread]
  dsimp only [ok_bind]
  rw [← hb.eq_skipSpace (solid_cons hclose.solid)]
  exact if_pos rfl

theorem items_more (hclose : Closes b.close) {x : α} {xs : List α}
    {cs c₁ c₂ c₃ rest bound : List Char} (hread : item cs = .ok (x, c₁)) (hb : Blanks c₁ (',' :: c₂))
    (hb' : Blanks c₂ c₃) (hbegins : Begins b.close c₃) (hne : c₃ ≠ [])
    (hrest : items b item bound c₃ = .ok (xs, rest)) (d : Char) :
    items b item (d :: bound) cs = .ok (x :: xs, rest) := by
  rw [items, hread]
  dsimp only [ok_bind]
  rw [← hb.eq_skipSpace (solid_cons rfl)]
  show (if ',' = b.close then _ else if ',' = ',' then _ else _) = _
  rw [if_neg hclose.comma.symm, if_pos rfl, ← hb'.eq_skipSpace hbegins.1]
  cases c₃ with
  | nil => exact absurd rfl hne
  | cons e c₃ =>
    have he : e ≠ b.close := fun h => hbegins.2 (congrArg some h)
    show (if e = b.close then _ else _) = _
    rw [if_neg he, hrest]
    rfl

theorem items_of_further (hclose : Closes b.close) {x : α} {xs : List α}
    {cs c₁ rest bound : List Char} (hx : Taken item b.close x cs c₁)
    (hs : Further (Taken item b.close) xs c₁ (b.close :: rest))
    (hbound : cs.length ≤ bound.length) : items b item bound cs = .ok (x :: xs, rest) := by
  have hread := hx.read (hs.endsNumeral (hclose.ends rest))
  have hshorter := hx.shorter
  generalize hr : b.close :: rest = r at hs
  induction hs generalizing x cs bound with
  | none hb =>
    subst hr
    cases bound with
    | nil => exact absurd hbound (by rw [List.length_nil]; omega)
    | cons d bound => exact items_last hclose hread hb d bound
  | @more y ys c₁ c₂ c₃ c₄ _ hb hb' hy hs ih =>
    subst hr
    cases bound with
    | nil => exact absurd hbound (by rw [List.length_nil]; omega)
    | cons d bound =>
      have hcomma := hb.moves.length_le
      have hblanks := hb'.moves.length_le
      rw [List.length_cons] at hcomma hbound
      have hlength : c₃.length ≤ bound.length := by omega
      have hrest := ih hy hlength (hy.read (hs.endsNumeral (hclose.ends rest))) hy.shorter rfl
      have hne := List.ne_nil_of_length_pos (Nat.zero_lt_of_lt hy.shorter)
      exact items_more hclose hread hb hb' hy.begins hne hrest d

/-- **Items in brackets are read**, if each of them is. -/
theorem bracketed_of_items (hclose : Closes b.close) {xs : List α} {cs rest : List Char}
    (h : Items (Taken item b.close) xs cs (b.close :: rest)) :
    bracketed b item cs = .ok (xs, rest) := by
  unfold bracketed
  cases h with
  | none hb =>
    rw [← hb.eq_skipSpace (solid_cons hclose.solid)]
    exact if_pos rfl
  | @some x xs _ c₁ c₂ _ hb hx hs =>
    rw [← hb.eq_skipSpace hx.begins.1]
    cases c₁ with
    | nil => exact absurd hx.shorter (Nat.not_lt_zero _)
    | cons c c₁ =>
      have hc : c ≠ b.close := fun h => hx.begins.2 (congrArg some h)
      show (if c = b.close then _ else _) = _
      rw [if_neg hc]
      exact items_of_further hclose hx hs (Nat.le_refl _)

end

/-! ## documents -/

/-- neither a blank nor a closing bracket begins a document -/
theorem Spells.begins {v : Document} {cs rest : List Char} (h : Spells v cs rest) :
    Begins ']' cs := by
  cases h with
  | number h =>
    obtain ⟨c, ds, rfl, rfl | hdigit⟩ := h.exists_cons
    · exact ⟨solid_cons rfl, by simp⟩
    · refine ⟨solid_cons (isSpace_of_isDigit hdigit), ?_⟩
      rintro he
      cases he
      cases hdigit
  | _ => exact ⟨solid_cons rfl, by simp⟩

theorem Spells.shorter {v : Document} {cs rest : List Char} (h : Spells v cs rest) :
    rest.length < cs.length :=
  h.moves.length_lt fun _ h => by
    generalize hcs : [] = cs at h
    cases h with
    | number h =>
      obtain ⟨c, ds, rfl, -⟩ := h.exists_cons
      cases hcs
    | _ => cases hcs

section

variable {α : Type} {P : α → List Char → List Char → Prop}

theorem Member.exists_cons {m : List Nat × α} {cs rest : List Char} (h : Member P m cs rest) :
    ∃ c₁, cs = '"' :: c₁ := by
  cases h with
  | mk => exact ⟨_, rfl⟩

theorem Member.begins {m : List Nat × α} {cs rest : List Char} (h : Member P m cs rest) :
    Begins '\x7d' cs := by
  cases h with
  | mk => exact ⟨solid_cons rfl, by simp⟩

theorem Member.shorter {m : List Nat × α} {cs rest : List Char} (h : Member (Moves P) m cs rest) :
    rest.length < cs.length :=
  h.moves.length_lt fun _ h => nomatch h

end

/-- skipped behind blanks, with a bound as long as the text -/
def Skipped (cs rest : List Char) : Prop :=
  ∀ d bound ds, skipSpace ds = cs → cs.length ≤ bound.length + 1 → endsNumeral rest = true →
    skipNested (d :: bound) ds = .ok ((), rest)

theorem Skipped.read {v : Document} {cs rest bound ds : List Char} (h : Skipped cs rest)
    (hv : Spells v cs rest) (hb : Blanks ds cs) (hbound : cs.length ≤ bound.length)
    (hr : endsNumeral rest = true) : skipNested bound ds = .ok ((), rest) := by
  have hshorter := hv.shorter
  cases bound with
  | nil => exact absurd hbound (by rw [List.length_nil]; omega)
  | cons d bound => exact h d bound ds (hb.eq_skipSpace hv.begins.1).symm hbound hr

/-- a member with a value that is skipped -/
theorem taken_of_skipped {m : List Nat × Document} {cs rest bound : List Char}
    (h : Member (fun v cs rest => Spells v cs rest ∧ Skipped cs rest) m cs rest)
    (hbound : cs.length ≤ bound.length) :
    Taken (readMember skipQuoted (skipNested bound)) '\x7d' ((), ()) cs rest := by
  have hmoves : Member (Moves Spells) m cs rest := h.imp fun _ _ _ hv => hv.1.moves
  refine ⟨h.begins, hmoves.shorter, fun hr => ?_⟩
  cases h with
  | mk hk hb hb' hv =>
    have hkey := hk.moves.length_le
    have hcolon := hb.moves.length_le
    have hblanks := hb'.moves.length_le
    rw [List.length_cons] at hbound hcolon
    exact readMember_of_blanks (skipChars_of_characters hk) hb
      (hv.2.read hv.1 hb' (by omega) hr)

theorem Spells.skipped {v : Document} {cs rest : List Char} (h : Spells v cs rest) :
    Skipped cs rest := by
  induction h using Spells.inside_out with
  | null rest =>
    intro d bound ds hs _ _
    rw [skipNested, hs]
    rfl
  | true rest =>
    intro d bound ds hs _ _
    rw [skipNested, hs]
    rfl
  | false rest =>
    intro d bound ds hs _ _
    rw [skipNested, hs]
    rfl
  | @number x cs rest h =>
    intro d bound ds hs _ hr
    have hskip : skipNumber cs = .ok ((), rest) := by
      unfold skipNumber
      rw [scanNumeral_of_spells .invalidNumber h hr]
      rfl
    obtain ⟨c, cs, rfl, hc⟩ := h.exists_cons
    rw [skipNested, hs]
    show (if c = 'n' then _ else if c = 't' then _ else if c = 'f' then _ else if c = '"' then _
      else if c = '-' ∨ c.isDigit then skipNumber (c :: cs) else _) = _
    have hne := ne_of_number hc
    rw [if_neg (hne _ (by decide)), if_neg (hne _ (by decide)), if_neg (hne _ (by decide)),
      if_neg (hne _ (by decide)), if_pos hc, hskip]
  | string h =>
    intro d bound ds hs _ _
    rw [skipNested, hs]
    exact skipChars_of_characters h
  | @array vs cs rest h hs =>
    intro d bound ds hd hbound _
    have htaken : Items (Taken (skipNested bound) ']') (vs.map fun _ => ()) cs (']' :: rest) := by
      refine Items.map_iff.mpr ((hs.within (fun _ _ _ ⟨h, _⟩ => h.moves.length_le)
        (Nat.le_of_succ_le_succ hbound)).imp ?_)
      rintro v c r ⟨⟨hv, hskip⟩, hc⟩
      exact ⟨hv.begins, hv.shorter, hskip.read hv (.none _) hc⟩
    rw [skipNested, hd]
    show (bracketed skippedSquareBrackets (skipNested bound) cs >>= _) = _
    rw [bracketed_of_items closes_square htaken]
    rfl
  | @object ms cs rest h hs =>
    intro d bound ds hd hbound _
    have htaken : Items (Taken (readMember skipQuoted (skipNested bound)) '\x7d')
        (ms.map fun _ => ((), ())) cs ('\x7d' :: rest) := by
      refine Items.map_iff.mpr
        ((hs.within (fun _ _ _ hm => ?_) (Nat.le_of_succ_le_succ hbound)).imp ?_)
      · exact (hm.imp fun _ _ _ ⟨hv, _⟩ => hv.moves).moves.length_le
      · rintro m c r ⟨hm, hc⟩
        exact taken_of_skipped (hm.imp fun _ _ _ ⟨hv, hskip⟩ => ⟨hv, hskip⟩) hc
    rw [skipNested, hd]
    show (bracketed skippedCurlyBrackets (readMember skipQuoted (skipNested bound)) cs >>= _) = _
    rw [bracketed_of_items closes_curly htaken]
    rfl

/-- **A document that is written is skipped**, in front of what no numeral goes on into. -/
theorem skipValue_of_spells {v : Document} {cs c₁ rest : List Char} (hb : Blanks cs c₁)
    (h : Spells v c₁ rest) (hr : endsNumeral rest = true) : skipValue cs = .ok ((), rest) :=
  h.skipped.read h hb hb.moves.length_le hr

end WhereClause.Json
