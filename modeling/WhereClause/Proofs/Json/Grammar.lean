import Mathlib.Algebra.Field.Rat
import WhereClause.Json.Bracketed
import WhereClause.Json.Numeral
import WhereClause.Proofs.Sql.Numeral

/-!
# The grammar of JSON texts

What a text is as a document, apart from any reader of it. Numbers are exact here, and strings are
lists of 16-bit units: escapes may name the halves of surrogate pairs one by one, and a half alone
makes no character. Every relation is between a text and what is left of it behind the part that it
speaks of.

* `Document`   a document taken apart;
* `Spells`     how a document is written at the front of a text (`Spells.inside_out`: what is proved of
               documents is proved of those inside them first);
* `IsText`     a whole text, with blanks around its document;
* `IsObject`   a whole text with an object of the members given;
* `units_inj`  characters are told apart by their units;
* `Moves`      what is written at the front of a text may be written in front of any other rest.
-/

set_option autoImplicit false

namespace WhereClause.Json

open WhereClause.Text WhereClause.Sql

/-! ## documents -/

/-- a JSON document: its numbers are exact, its strings and keys lists of 16-bit units -/
inductive Document where
  | null
  | boolean (b : Bool)
  | number (value : ℚ)
  | string (units : List Nat)
  | array (elements : List Document)
  | object (members : List (List Nat × Document))

/-! ## strings -/

/-- the units of a character: two halves from `0x10000` on -/
def unitsOf (c : Char) : List Nat :=
  if c.toNat < 0x10000 then [c.toNat]
  else [0xD800 + (c.toNat - 0x10000) / 0x400, 0xDC00 + (c.toNat - 0x10000) % 0x400]

def units (cs : List Char) : List Nat := cs.flatMap unitsOf

theorem units_cons (c : Char) (cs : List Char) : units (c :: cs) = unitsOf c ++ units cs := rfl

/-- no character has a code among the halves of pairs, or past `0x10FFFF` -/
theorem toNat_range (c : Char) : c.toNat < 0xD800 ∨ 0xDFFF < c.toNat ∧ c.toNat < 0x110000 :=
  c.valid

theorem unitsOf_append_inj {c d : Char} {us vs : List Nat}
    (h : unitsOf c ++ us = unitsOf d ++ vs) : c = d ∧ us = vs := by
  have hc := toNat_range c
  have hd := toNat_range d
  have hcodes : c.toNat = d.toNat ∧ us = vs := by
    unfold unitsOf at h
    split at h <;> split at h <;>
      simp only [List.cons_append, List.nil_append, List.cons.injEq] at h
    · exact h
    -- a half stands first on one side only
    · omega
    · omega
    · exact ⟨by omega, h.2.2⟩
  exact ⟨Char.toNat_inj.mp hcodes.1, hcodes.2⟩

theorem unitsOf_append_ne_nil (c : Char) (us : List Nat) : unitsOf c ++ us ≠ [] := by
  unfold unitsOf
  split <;> exact List.cons_ne_nil _ _

theorem units_inj {cs ds : List Char} (h : units cs = units ds) : cs = ds := by
  induction cs generalizing ds with
  | nil =>
    cases ds with
    | nil => rfl
    | cons d ds => exact absurd h.symm (unitsOf_append_ne_nil d _)
  | cons c cs ih =>
    cases ds with
    | nil => exact absurd h (unitsOf_append_ne_nil c _)
    | cons d ds =>
      rw [units_cons, units_cons] at h
      obtain ⟨rfl, hrest⟩ := unitsOf_append_inj h
      rw [ih hrest]

/-- the units of a string from behind its opening quote on -/
inductive Characters : List Nat → List Char → List Char → Prop where
  | close (rest : List Char) : Characters [] ('"' :: rest) rest
  | plain {c : Char} {us : List Nat} {cs rest : List Char} (hquote : c ≠ '"') (hslash : c ≠ '\\')
      (hcontrol : ¬ c.toNat < 0x20) (h : Characters us cs rest) :
      Characters (unitsOf c ++ us) (c :: cs) rest
  | short {e d : Char} {us : List Nat} {cs rest : List Char} (he : shortEscape? e = some d)
      (h : Characters us cs rest) : Characters (unitsOf d ++ us) ('\\' :: e :: cs) rest
  | code {c₁ c₂ c₃ c₄ : Char} {u : Nat} {us : List Nat} {cs rest : List Char}
      (hu : hexUnit? c₁ c₂ c₃ c₄ = some u) (h : Characters us cs rest) :
      Characters (u :: us) ('\\' :: 'u' :: c₁ :: c₂ :: c₃ :: c₄ :: cs) rest

/-! ## numbers -/

/-- the digits before the point: no zero in front of others -/
inductive Whole : List Char → List Char → List Char → Prop where
  | zero (rest : List Char) : Whole ['0'] ('0' :: rest) rest
  | digits {c : Char} {ds : List Char} (hzero : c ≠ '0') (h : AllDigits (c :: ds))
      (rest : List Char) : Whole (c :: ds) (c :: ds ++ rest) rest

inductive Fraction : Option (List Char) → List Char → List Char → Prop where
  | none (rest : List Char) : Fraction none rest rest
  | digits {ds : List Char} (hne : ds ≠ []) (h : AllDigits ds) (rest : List Char) :
      Fraction (some ds) ('.' :: (ds ++ rest)) rest

/-- the sign of an exponent, and whether it is a negative one -/
inductive Sign : Bool → List Char → List Char → Prop where
  | none (rest : List Char) : Sign false rest rest
  | plus (rest : List Char) : Sign false ('+' :: rest) rest
  | minus (rest : List Char) : Sign true ('-' :: rest) rest

inductive Exponent : Option (Bool × List Char) → List Char → List Char → Prop where
  | none (rest : List Char) : Exponent none rest rest
  | digits {e : Char} {negative : Bool} {cs ds rest : List Char} (he : e = 'e' ∨ e = 'E')
      (hs : Sign negative cs (ds ++ rest)) (hne : ds ≠ []) (h : AllDigits ds) :
      Exponent (some (negative, ds)) (e :: cs) rest

/-- how a numeral is written -/
inductive Numeral.Spells : Numeral → List Char → List Char → Prop where
  | plain {whole : List Char} {fraction : Option (List Char)}
      {exponent : Option (Bool × List Char)} {cs c₁ c₂ rest : List Char}
      (hw : Whole whole cs c₁) (hf : Fraction fraction c₁ c₂) (he : Exponent exponent c₂ rest) :
      Numeral.Spells ⟨false, whole, fraction, exponent⟩ cs rest
  | minus {whole : List Char} {fraction : Option (List Char)}
      {exponent : Option (Bool × List Char)} {cs c₁ c₂ rest : List Char}
      (hw : Whole whole cs c₁) (hf : Fraction fraction c₁ c₂) (he : Exponent exponent c₂ rest) :
      Numeral.Spells ⟨true, whole, fraction, exponent⟩ ('-' :: cs) rest

/-- the power of ten that all digits of a numeral are to be multiplied by -/
def Numeral.power (x : Numeral) : ℤ :=
  let exponent : ℤ :=
    match x.exponent with
    | none => 0
    | some (negative, ds) => if negative then -(digitsValue ds) else digitsValue ds
  exponent - (x.fraction.getD []).length

/-- the number that a numeral names, with no rounding -/
def Numeral.exact (x : Numeral) : ℚ :=
  (if x.negative then -1 else 1) * digitsValue (x.whole ++ x.fraction.getD []) * 10 ^ x.power

/-! ## blanks, items and members -/

inductive Blanks : List Char → List Char → Prop where
  | none (rest : List Char) : Blanks rest rest
  | more {c : Char} {cs rest : List Char} (hc : isSpace c = true) (h : Blanks cs rest) :
      Blanks (c :: cs) rest

theorem Blanks.trans {cs ds es : List Char} (h : Blanks cs ds) (h' : Blanks ds es) :
    Blanks cs es := by
  induction h with
  | none _ => exact h'
  | more hc _ ih => exact .more hc (ih h')

section

variable {α : Type} (P : α → List Char → List Char → Prop)

/-- the items that follow another one, each behind a comma -/
inductive Further : List α → List Char → List Char → Prop where
  | none {cs rest : List Char} (hb : Blanks cs rest) : Further [] cs rest
  | more {x : α} {xs : List α} {cs c₁ c₂ c₃ rest : List Char} (hb : Blanks cs (',' :: c₁))
      (hb' : Blanks c₁ c₂) (h : P x c₂ c₃) (hs : Further xs c₃ rest) : Further (x :: xs) cs rest

/-- items with commas between them -/
inductive Items : List α → List Char → List Char → Prop where
  | none {cs rest : List Char} (hb : Blanks cs rest) : Items [] cs rest
  | some {x : α} {xs : List α} {cs c₁ c₂ rest : List Char} (hb : Blanks cs c₁) (h : P x c₁ c₂)
      (hs : Further P xs c₂ rest) : Items (x :: xs) cs rest

/-- a key in quotes, a colon and a value -/
inductive Member : List Nat × α → List Char → List Char → Prop where
  | mk {key : List Nat} {v : α} {cs c₁ c₂ c₃ rest : List Char} (hk : Characters key cs c₁)
      (hb : Blanks c₁ (':' :: c₂)) (hb' : Blanks c₂ c₃) (h : P v c₃ rest) :
      Member (key, v) ('"' :: cs) rest

/-- something behind blanks -/
def Behind (x : α) (cs rest : List Char) : Prop := ∃ c₁, Blanks cs c₁ ∧ P x c₁ rest

/-- a member by the units of its key -/
def inUnits (m : String × α) : List Nat × α := (units m.1.toList, m.2)

/-- a whole text with an object of the members given, and blanks around it -/
def IsObject (ms : List (List Nat × α)) (cs : List Char) : Prop :=
  ∃ c₁ rest, Blanks cs ('\x7b' :: c₁) ∧ Items (Member P) ms c₁ ('\x7d' :: rest) ∧ Blanks rest []

variable {P}

theorem Behind.blanks {x : α} {cs c₁ rest : List Char} (hb : Blanks cs c₁)
    (h : Behind P x c₁ rest) : Behind P x cs rest := by
  obtain ⟨c₂, hb', h⟩ := h
  exact ⟨c₂, hb.trans hb', h⟩

theorem Items.blanks {xs : List α} {cs c₁ rest : List Char} (hb : Blanks cs c₁)
    (h : Items P xs c₁ rest) : Items P xs cs rest := by
  cases h with
  | none hb' => exact .none (hb.trans hb')
  | some hb' h hs => exact .some (hb.trans hb') h hs

/-- items behind a comma -/
theorem Items.further {x : α} {xs : List α} {cs c₁ rest : List Char} (hb : Blanks cs (',' :: c₁))
    (h : Items P (x :: xs) c₁ rest) : Further P (x :: xs) cs rest := by
  cases h with
  | some hb' h hs => exact .more hb hb' h hs

theorem Further.imp {R : α → List Char → List Char → Prop}
    (h : ∀ x cs rest, P x cs rest → R x cs rest) {xs : List α} {cs rest : List Char}
    (hs : Further P xs cs rest) : Further R xs cs rest := by
  induction hs with
  | none hb => exact .none hb
  | more hb hb' hx _ ih => exact .more hb hb' (h _ _ _ hx) ih

theorem Items.imp {R : α → List Char → List Char → Prop}
    (h : ∀ x cs rest, P x cs rest → R x cs rest) {xs : List α} {cs rest : List Char}
    (hs : Items P xs cs rest) : Items R xs cs rest := by
  cases hs with
  | none hb => exact .none hb
  | some hb hx hs => exact .some hb (h _ _ _ hx) (hs.imp h)

variable {β : Type} {Q : β → List Char → List Char → Prop} {f : α → β}

theorem Further.map_iff {xs : List α} {cs rest : List Char} :
    Further Q (xs.map f) cs rest ↔ Further (fun x => Q (f x)) xs cs rest := by
  induction xs generalizing cs with
  | nil =>
    constructor <;>
    · intro h
      cases h with
      | none hb => exact .none hb
  | cons x xs ih =>
    constructor
    · intro h
      cases h with
      | more hb hb' hx hs => exact .more hb hb' hx (ih.mp hs)
    · intro h
      cases h with
      | more hb hb' hx hs => exact .more hb hb' hx (ih.mpr hs)

/-- items that are made of others -/
theorem Items.map_iff {xs : List α} {cs rest : List Char} :
    Items Q (xs.map f) cs rest ↔ Items (fun x => Q (f x)) xs cs rest := by
  cases xs with
  | nil =>
    constructor <;>
    · intro h
      cases h with
      | none hb => exact .none hb
  | cons x xs =>
    constructor
    · intro h
      cases h with
      | some hb hx hs => exact .some hb hx (Further.map_iff.mp hs)
    · intro h
      cases h with
      | some hb hx hs => exact .some hb hx (Further.map_iff.mpr hs)

theorem Further.exists_forall₂ {R : α → β → Prop} {xs : List α} {cs rest : List Char}
    (hs : Further (fun x cs rest => ∃ y, R x y ∧ Q y cs rest) xs cs rest) :
    ∃ ys, List.Forall₂ R xs ys ∧ Further Q ys cs rest := by
  induction hs with
  | none hb => exact ⟨[], .nil, .none hb⟩
  | more hb hb' hx _ ih =>
    obtain ⟨y, hxy, hy⟩ := hx
    obtain ⟨ys, hall, hys⟩ := ih
    exact ⟨y :: ys, .cons hxy hall, .more hb hb' hy hys⟩

/-- items that stand for others -/
theorem Items.exists_forall₂ {R : α → β → Prop} {xs : List α} {cs rest : List Char}
    (hs : Items (fun x cs rest => ∃ y, R x y ∧ Q y cs rest) xs cs rest) :
    ∃ ys, List.Forall₂ R xs ys ∧ Items Q ys cs rest := by
  cases hs with
  | none hb => exact ⟨[], .nil, .none hb⟩
  | some hb hx hs =>
    obtain ⟨y, hxy, hy⟩ := hx
    obtain ⟨ys, hall, hys⟩ := hs.exists_forall₂
    exact ⟨y :: ys, .cons hxy hall, .some hb hy hys⟩

/-- items, if something is written at each place -/
theorem Items.exists_of {xs : List α} {cs rest : List Char}
    (hs : Items (fun _ cs rest => ∃ y, Q y cs rest) xs cs rest) : ∃ ys, Items Q ys cs rest := by
  have hall : Items (fun _ cs rest => ∃ y, True ∧ Q y cs rest) xs cs rest :=
    hs.imp fun _ _ _ ⟨y, hy⟩ => ⟨y, trivial, hy⟩
  obtain ⟨ys, -, hys⟩ := hall.exists_forall₂
  exact ⟨ys, hys⟩

theorem Member.imp {R : α → List Char → List Char → Prop}
    (h : ∀ x cs rest, P x cs rest → R x cs rest) {m : List Nat × α} {cs rest : List Char}
    (hm : Member P m cs rest) : Member R m cs rest := by
  cases hm with
  | mk hk hb hb' hv => exact .mk hk hb hb' (h _ _ _ hv)

end

/-! ## documents as they are written -/

/-- how a document is written at the front of a text -/
inductive Spells : Document → List Char → List Char → Prop where
  | null (rest : List Char) : Spells .null ('n' :: 'u' :: 'l' :: 'l' :: rest) rest
  | true (rest : List Char) : Spells (.boolean true) ('t' :: 'r' :: 'u' :: 'e' :: rest) rest
  | false (rest : List Char) :
      Spells (.boolean false) ('f' :: 'a' :: 'l' :: 's' :: 'e' :: rest) rest
  | number {x : Numeral} {cs rest : List Char} (h : x.Spells cs rest) :
      Spells (.number x.exact) cs rest
  | string {us : List Nat} {cs rest : List Char} (h : Characters us cs rest) :
      Spells (.string us) ('"' :: cs) rest
  | array {vs : List Document} {cs rest : List Char} (h : Items Spells vs cs (']' :: rest)) :
      Spells (.array vs) ('[' :: cs) rest
  | object {ms : List (List Nat × Document)} {cs rest : List Char}
      (h : Items (Member Spells) ms cs ('\x7d' :: rest)) : Spells (.object ms) ('\x7b' :: cs) rest

/-- documents are proved of from the inside out, each where it is written -/
@[elab_as_elim]
theorem Spells.inside_out {motive : ∀ v cs rest, Spells v cs rest → Prop}
    (null : ∀ rest, motive _ _ _ (.null rest)) (true : ∀ rest, motive _ _ _ (.true rest))
    (false : ∀ rest, motive _ _ _ (.false rest))
    (number : ∀ {x : Numeral} {cs rest} (h : x.Spells cs rest), motive _ _ _ (.number h))
    (string : ∀ {us cs rest} (h : Characters us cs rest), motive _ _ _ (.string h))
    (array : ∀ {vs cs rest} (h : Items Spells vs cs (']' :: rest)),
      Items (fun v cs rest => ∃ h, motive v cs rest h) vs cs (']' :: rest) → motive _ _ _ (.array h))
    (object : ∀ {ms cs rest} (h : Items (Member Spells) ms cs ('\x7d' :: rest)),
      Items (Member fun v cs rest => ∃ h, motive v cs rest h) ms cs ('\x7d' :: rest) →
        motive _ _ _ (.object h))
    {v : Document} {cs rest : List Char} (h : Spells v cs rest) : motive v cs rest h := by
  refine @Spells.rec motive
    (fun vs cs rest _ => Items (fun v cs rest => ∃ h, motive v cs rest h) vs cs rest)
    (fun ms cs rest _ => Items (Member fun v cs rest => ∃ h, motive v cs rest h) ms cs rest)
    (fun vs cs rest _ => Further (fun v cs rest => ∃ h, motive v cs rest h) vs cs rest)
    (fun m cs rest _ => Member (fun v cs rest => ∃ h, motive v cs rest h) m cs rest)
    (fun ms cs rest _ => Further (Member fun v cs rest => ∃ h, motive v cs rest h) ms cs rest)
    null true false number string array object
    ?items_none ?items_some ?members_none ?members_some
    ?further_none ?further_more ?member ?members_further_none ?members_further_more v cs rest h
  case items_none => exact fun hb => .none hb
  case items_some => exact fun hb h _ hx hs => .some hb ⟨h, hx⟩ hs
  case members_none => exact fun hb => .none hb
  case members_some => exact fun hb _ _ hx hs => .some hb hx hs
  case further_none => exact fun hb => .none hb
  case further_more => exact fun hb hb' h _ hx hs => .more hb hb' ⟨h, hx⟩ hs
  case member => exact fun hk hb hb' h hv => .mk hk hb hb' ⟨h, hv⟩
  case members_further_none => exact fun hb => .none hb
  case members_further_more => exact fun hb hb' _ _ hx hs => .more hb hb' hx hs

/-- a whole text with its document -/
def IsText (v : Document) (cs : List Char) : Prop := ∃ rest, Behind Spells v cs rest ∧ Blanks rest []

/-! ## in front of another rest -/

/-- what is written here may be written in front of any other rest -/
def Moves {α : Type} (P : α → List Char → List Char → Prop) (x : α) (cs rest : List Char) : Prop :=
  ∃ ws, cs = ws ++ rest ∧ ∀ rest', P x (ws ++ rest') rest'

theorem Blanks.moves {cs rest : List Char} (h : Blanks cs rest) :
    Moves (fun _ : Unit => Blanks) () cs rest := by
  induction h with
  | none rest => exact ⟨[], rfl, .none⟩
  | @more c cs rest hc h ih =>
    obtain ⟨ws, rfl, hws⟩ := ih
    exact ⟨c :: ws, rfl, fun rest' => .more hc (hws rest')⟩

theorem Characters.moves {us : List Nat} {cs rest : List Char} (h : Characters us cs rest) :
    Moves Characters us cs rest := by
  induction h with
  | close rest => exact ⟨['"'], rfl, .close⟩
  | @plain c us cs rest hquote hslash hcontrol _ ih =>
    obtain ⟨ws, rfl, hws⟩ := ih
    exact ⟨c :: ws, rfl, fun rest' => .plain hquote hslash hcontrol (hws rest')⟩
  | @short e d us cs rest he _ ih =>
    obtain ⟨ws, rfl, hws⟩ := ih
    exact ⟨'\\' :: e :: ws, rfl, fun rest' => .short he (hws rest')⟩
  | @code c₁ c₂ c₃ c₄ u us cs rest hu _ ih =>
    obtain ⟨ws, rfl, hws⟩ := ih
    exact ⟨'\\' :: 'u' :: c₁ :: c₂ :: c₃ :: c₄ :: ws, rfl, fun rest' => .code hu (hws rest')⟩

theorem Whole.moves {ds cs rest : List Char} (h : Whole ds cs rest) : Moves Whole ds cs rest := by
  cases h with
  | zero => exact ⟨['0'], rfl, .zero⟩
  | digits hzero hd => exact ⟨_, rfl, .digits hzero hd⟩

theorem Fraction.moves {ds : Option (List Char)} {cs rest : List Char} (h : Fraction ds cs rest) :
    Moves Fraction ds cs rest := by
  cases h with
  | none => exact ⟨[], rfl, .none⟩
  | @digits ds hne hd => exact ⟨'.' :: ds, rfl, .digits hne hd⟩

theorem Exponent.moves {e : Option (Bool × List Char)} {cs rest : List Char}
    (h : Exponent e cs rest) : Moves Exponent e cs rest := by
  cases h with
  | none => exact ⟨[], rfl, .none⟩
  | @digits e negative cs ds rest he hs hne hd =>
    cases hs with
    | none => exact ⟨e :: ds, rfl, fun rest' => .digits he (.none _) hne hd⟩
    | plus => exact ⟨e :: '+' :: ds, rfl, fun rest' => .digits he (.plus _) hne hd⟩
    | minus => exact ⟨e :: '-' :: ds, rfl, fun rest' => .digits he (.minus _) hne hd⟩

theorem Numeral.Spells.moves {x : Numeral} {cs rest : List Char} (h : x.Spells cs rest) :
    Moves Numeral.Spells x cs rest := by
  cases h with
  | plain hw hf he =>
    obtain ⟨us, rfl, hus⟩ := hw.moves
    obtain ⟨vs, rfl, hvs⟩ := hf.moves
    obtain ⟨ws, rfl, hws⟩ := he.moves
    refine ⟨us ++ (vs ++ ws), by simp, fun rest' => ?_⟩
    rw [List.append_assoc, List.append_assoc]
    exact .plain (hus _) (hvs _) (hws _)
  | minus hw hf he =>
    obtain ⟨us, rfl, hus⟩ := hw.moves
    obtain ⟨vs, rfl, hvs⟩ := hf.moves
    obtain ⟨ws, rfl, hws⟩ := he.moves
    refine ⟨'-' :: (us ++ (vs ++ ws)), by simp, fun rest' => ?_⟩
    rw [List.cons_append, List.append_assoc, List.append_assoc]
    exact .minus (hus _) (hvs _) (hws _)

section

variable {α : Type} {P : α → List Char → List Char → Prop}

theorem Moves.imp {β : Type} {Q : β → List Char → List Char → Prop} {x : α} {y : β}
    (h : ∀ cs rest, P x cs rest → Q y cs rest) {cs rest : List Char} (hx : Moves P x cs rest) :
    Moves Q y cs rest := by
  obtain ⟨ws, rfl, hws⟩ := hx
  exact ⟨ws, rfl, fun rest' => h _ _ (hws rest')⟩

theorem Moves.length_le {x : α} {cs rest : List Char} (h : Moves P x cs rest) :
    rest.length ≤ cs.length := by
  obtain ⟨ws, rfl, -⟩ := h
  simp

/-- what takes characters away leaves fewer -/
theorem Moves.length_lt {x : α} {cs rest : List Char} (h : Moves P x cs rest)
    (hnil : ∀ rest, ¬ P x [] rest) : rest.length < cs.length := by
  obtain ⟨ws, rfl, hws⟩ := h
  cases ws with
  | nil => exact absurd (hws []) (hnil [])
  | cons w ws =>
    simp only [List.cons_append, List.length_cons, List.length_append]
    omega

theorem Further.moves {xs : List α} {cs rest : List Char} (h : Further (Moves P) xs cs rest) :
    Moves (Further P) xs cs rest := by
  induction h with
  | none hb => exact hb.moves.imp fun _ _ => .none
  | @more x xs cs c₁ c₂ c₃ rest hb hb' hx _ ih =>
    obtain ⟨bs, rfl, hbs⟩ := hb.moves
    obtain ⟨bs', rfl, hbs'⟩ := hb'.moves
    obtain ⟨us, rfl, hus⟩ := hx
    obtain ⟨ws, rfl, hws⟩ := ih
    refine ⟨bs ++ ',' :: (bs' ++ (us ++ ws)), by simp, fun rest' => ?_⟩
    simp only [List.append_assoc, List.cons_append]
    exact .more (hbs _) (hbs' _) (hus _) (hws _)

theorem Items.moves {xs : List α} {cs rest : List Char} (h : Items (Moves P) xs cs rest) :
    Moves (Items P) xs cs rest := by
  cases h with
  | none hb => exact hb.moves.imp fun _ _ => .none
  | some hb hx hs =>
    obtain ⟨bs, rfl, hbs⟩ := hb.moves
    obtain ⟨us, rfl, hus⟩ := hx
    obtain ⟨ws, rfl, hws⟩ := hs.moves
    refine ⟨bs ++ (us ++ ws), by simp, fun rest' => ?_⟩
    simp only [List.append_assoc]
    exact .some (hbs _) (hus _) (hws _)

/-- items of a text that is no longer than a bound are none of them longer -/
theorem Further.within {n : Nat} (hP : ∀ x cs rest, P x cs rest → rest.length ≤ cs.length)
    {xs : List α} {cs rest : List Char} (hs : Further P xs cs rest) (hn : cs.length ≤ n) :
    Further (fun x cs rest => P x cs rest ∧ cs.length ≤ n) xs cs rest := by
  induction hs with
  | none hb => exact .none hb
  | more hb hb' hx _ ih =>
    have hcomma := hb.moves.length_le
    have hblanks := hb'.moves.length_le
    have hitem := hP _ _ _ hx
    rw [List.length_cons] at hcomma
    exact .more hb hb' ⟨hx, by omega⟩ (ih (by omega))

theorem Items.within {n : Nat} (hP : ∀ x cs rest, P x cs rest → rest.length ≤ cs.length)
    {xs : List α} {cs rest : List Char} (hs : Items P xs cs rest) (hn : cs.length ≤ n) :
    Items (fun x cs rest => P x cs rest ∧ cs.length ≤ n) xs cs rest := by
  cases hs with
  | none hb => exact .none hb
  | some hb hx hs =>
    have hblanks := hb.moves.length_le
    have hitem := hP _ _ _ hx
    exact .some hb ⟨hx, by omega⟩ (hs.within hP (by omega))

theorem Member.moves {m : List Nat × α} {cs rest : List Char} (h : Member (Moves P) m cs rest) :
    Moves (Member P) m cs rest := by
  cases h with
  | mk hk hb hb' hv =>
    obtain ⟨us, rfl, hus⟩ := hk.moves
    obtain ⟨bs, rfl, hbs⟩ := hb.moves
    obtain ⟨bs', rfl, hbs'⟩ := hb'.moves
    obtain ⟨ws, rfl, hws⟩ := hv
    refine ⟨'"' :: (us ++ (bs ++ ':' :: (bs' ++ ws))), by simp, fun rest' => ?_⟩
    simp only [List.append_assoc, List.cons_append]
    exact .mk (hus _) (hbs _) (hbs' _) (hws _)

end

/-- **A document may be written in front of any other rest.** -/
theorem Spells.moves {v : Document} {cs rest : List Char} (h : Spells v cs rest) :
    Moves Spells v cs rest := by
  induction h using Spells.inside_out with
  | null rest => exact ⟨['n', 'u', 'l', 'l'], rfl, .null⟩
  | true rest => exact ⟨['t', 'r', 'u', 'e'], rfl, .true⟩
  | false rest => exact ⟨['f', 'a', 'l', 's', 'e'], rfl, .false⟩
  | number h => exact h.moves.imp fun _ _ => .number
  | string h =>
    obtain ⟨ws, rfl, hws⟩ := h.moves
    exact ⟨'"' :: ws, rfl, fun rest' => .string (hws rest')⟩
  | @array vs cs rest _ hs =>
    have hmoves : Items (Moves Spells) vs cs (']' :: rest) := hs.imp fun _ _ _ ⟨_, h⟩ => h
    obtain ⟨ws, rfl, hws⟩ := hmoves.moves
    refine ⟨'[' :: (ws ++ [']']), by simp, fun rest' => ?_⟩
    rw [List.cons_append, List.append_assoc]
    exact .array (hws _)
  | @object ms cs rest _ hs =>
    have hmoves : Items (Moves (Member Spells)) ms cs ('\x7d' :: rest) :=
      hs.imp fun _ _ _ hm => (hm.imp fun _ _ _ ⟨_, h⟩ => h).moves
    obtain ⟨ws, rfl, hws⟩ := hmoves.moves
    refine ⟨'\x7b' :: (ws ++ ['\x7d']), by simp, fun rest' => ?_⟩
    rw [List.cons_append, List.append_assoc]
    exact .object (hws _)

end WhereClause.Json
