import WhereClause.Proofs.Json.Completeness

/-!
# Texts have one document

No text is written as two documents. A part of a text may be: `12` begins with two numerals. So the
parts are compared in front of texts that no numeral goes on into, and behind an item nothing else
can follow.

* `Characters.unique`  strings;
* `Further.unique`, `Items.unique`  items, if each is only written once;
* `Spells.sole`    documents, by induction on the way in which they are written;
* `IsText.unique`  whole texts.
-/

set_option autoImplicit false

namespace WhereClause.Json

open WhereClause.Text WhereClause.Sql

/-! ## strings -/

theorem Characters.unique {us us' : List Nat} {cs rest rest' : List Char}
    (h : Characters us cs rest) (h' : Characters us' cs rest') : us = us' ∧ rest = rest' := by
  induction h generalizing us' with
  | close rest =>
    cases h' with
    | close => exact ⟨rfl, rfl⟩
    | plain hquote => exact absurd rfl hquote
  | plain hquote hslash _ _ ih =>
    cases h' with
    | close => exact absurd rfl hquote
    | plain _ _ _ h' =>
      obtain ⟨rfl, rfl⟩ := ih h'
      exact ⟨rfl, rfl⟩
    | short => exact absurd rfl hslash
    | code => exact absurd rfl hslash
  | short he _ ih =>
    cases h' with
    | plain _ hslash => exact absurd rfl hslash
    | short he' h' =>
      obtain ⟨rfl, rfl⟩ := ih h'
      obtain rfl := Option.some.inj (he.symm.trans he')
      exact ⟨rfl, rfl⟩
    | code => cases he
  | code hu _ ih =>
    cases h' with
    | plain _ hslash => exact absurd rfl hslash
    | short he' => cases he'
    | code hu' h' =>
      obtain ⟨rfl, rfl⟩ := ih h'
      obtain rfl := Option.some.inj (hu.symm.trans hu')
      exact ⟨rfl, rfl⟩

/-! ## items -/

section

variable {α : Type} {P : α → List Char → List Char → Prop}

/-- something that is written at the front of a text, and nothing else is -/
def Sole (P : α → List Char → List Char → Prop) (x : α) (cs rest : List Char) : Prop :=
  P x cs rest ∧ (endsNumeral rest = true →
    ∀ y rest', P y cs rest' → endsNumeral rest' = true → x = y ∧ rest = rest')

/-- a bracket that no item begins with -/
structure Encloses (P : α → List Char → List Char → Prop) (close : Char) : Prop
    extends Closes close where
  begins : ∀ {x : α} {cs rest : List Char}, P x cs rest → Begins close cs

variable {close : Char} {xs ys : List α} {cs rest rest' : List Char}

theorem Further.unique (hclose : Encloses P close) (h : Further (Sole P) xs cs (close :: rest))
    (h' : Further P ys cs (close :: rest')) : xs = ys ∧ rest = rest' := by
  have hsolid (cs : List Char) : Solid (close :: cs) := solid_cons hclose.solid
  generalize hr : close :: rest = r at h
  induction h generalizing ys with
  | none hb =>
    subst hr
    cases h' with
    | none hb' => exact ⟨rfl, (List.cons.inj (hb.unique hb' (hsolid _) (hsolid _))).2⟩
    | more hb' =>
      have heq := hb.unique hb' (hsolid _) (solid_cons rfl)
      exact absurd (List.cons.inj heq).1 hclose.comma
  | more hb hb₁ hx hs ih =>
    subst hr
    cases h' with
    | none hb' =>
      have heq := hb.unique hb' (solid_cons rfl) (hsolid _)
      exact absurd (List.cons.inj heq).1.symm hclose.comma
    | more hb' hb₁' hy hs' =>
      obtain ⟨-, rfl⟩ := List.cons.inj (hb.unique hb' (solid_cons rfl) (solid_cons rfl))
      obtain rfl := hb₁.unique hb₁' (hclose.begins hx.1).1 (hclose.begins hy).1
      obtain ⟨rfl, rfl⟩ := hx.2 (hs.endsNumeral (hclose.ends _)) _ _ hy
        (hs'.endsNumeral (hclose.ends _))
      obtain ⟨rfl, rfl⟩ := ih hs' rfl
      exact ⟨rfl, rfl⟩

/-- **Items in brackets are read in one way**, if each of them is. -/
theorem Items.unique (hclose : Encloses P close) (h : Items (Sole P) xs cs (close :: rest))
    (h' : Items P ys cs (close :: rest')) : xs = ys ∧ rest = rest' := by
  have hsolid (cs : List Char) : Solid (close :: cs) := solid_cons hclose.solid
  cases h with
  | none hb =>
    cases h' with
    | none hb' => exact ⟨rfl, (List.cons.inj (hb.unique hb' (hsolid _) (hsolid _))).2⟩
    | some hb' hy =>
      obtain rfl := hb.unique hb' (hsolid _) (hclose.begins hy).1
      exact absurd rfl (hclose.begins hy).2
  | some hb hx hs =>
    cases h' with
    | none hb' =>
      obtain rfl := hb.unique hb' (hclose.begins hx.1).1 (hsolid _)
      exact absurd rfl (hclose.begins hx.1).2
    | some hb' hy hs' =>
      obtain rfl := hb.unique hb' (hclose.begins hx.1).1 (hclose.begins hy).1
      obtain ⟨rfl, rfl⟩ := hx.2 (hs.endsNumeral (hclose.ends _)) _ _ hy
        (hs'.endsNumeral (hclose.ends _))
      obtain ⟨rfl, rfl⟩ := hs.unique hclose hs'
      exact ⟨rfl, rfl⟩

end

/-! ## documents -/

theorem encloses_square : Encloses Spells ']' := ⟨closes_square, Spells.begins⟩

theorem encloses_curly {α : Type} {P : α → List Char → List Char → Prop} :
    Encloses (Member P) '\x7d' := ⟨closes_curly, Member.begins⟩

theorem Member.sole {α : Type} {P : α → List Char → List Char → Prop}
    (hP : ∀ {v cs rest}, P v cs rest → Solid cs) {m : List Nat × α} {cs rest : List Char}
    (h : Member (Sole P) m cs rest) : Sole (Member P) m cs rest := by
  cases h with
  | mk hk hb hb' h =>
    refine ⟨.mk hk hb hb' h.1, fun hr m rest' hm hr' => ?_⟩
    cases hm with
    | mk hk₁ hb₁ hb₁' h₁ =>
      obtain ⟨rfl, rfl⟩ := hk.unique hk₁
      obtain ⟨-, rfl⟩ := List.cons.inj (hb.unique hb₁ (solid_cons rfl) (solid_cons rfl))
      obtain rfl := hb'.unique hb₁' (hP h.1) (hP h₁)
      obtain ⟨rfl, rfl⟩ := h.2 hr _ _ h₁ hr'
      exact ⟨rfl, rfl⟩

/-- what begins with neither a hyphen nor a digit is no number -/
theorem not_spells_number {x : Numeral} {c : Char} {cs rest : List Char}
    (hc : (c == '-' || c.isDigit) = false) : ¬ x.Spells (c :: cs) rest := by
  intro h
  obtain ⟨d, ds, hd, hfirst⟩ := h.exists_cons
  obtain ⟨hhyphen, hdigit⟩ := Bool.or_eq_false_iff.mp hc
  rw [← (List.cons.inj hd).1] at hfirst
  rcases hfirst with rfl | hdigit'
  · cases hhyphen
  · rw [hdigit] at hdigit'
    cases hdigit'

theorem Spells.array_sole {vs : List Document} {cs rest : List Char}
    (h : Spells (.array vs) ('[' :: cs) rest) (hs : Items (Sole Spells) vs cs (']' :: rest)) :
    Sole Spells (.array vs) ('[' :: cs) rest := by
  refine ⟨h, fun _ w rest' hw _ => ?_⟩
  cases hw with
  | number h => exact absurd h (not_spells_number rfl)
  | array hs' =>
    obtain ⟨rfl, rfl⟩ := hs.unique encloses_square hs'
    exact ⟨rfl, rfl⟩

theorem Spells.object_sole {ms : List (List Nat × Document)} {cs rest : List Char}
    (h : Spells (.object ms) ('\x7b' :: cs) rest)
    (hs : Items (Sole (Member Spells)) ms cs ('\x7d' :: rest)) :
    Sole Spells (.object ms) ('\x7b' :: cs) rest := by
  refine ⟨h, fun _ w rest' hw _ => ?_⟩
  cases hw with
  | number h => exact absurd h (not_spells_number rfl)
  | object hs' =>
    obtain ⟨rfl, rfl⟩ := hs.unique encloses_curly hs'
    exact ⟨rfl, rfl⟩

/-- **A document is written once**: no other one stands at the front of the same text, in front of what
no numeral goes on into. -/
theorem Spells.sole {v : Document} {cs rest : List Char} (h : Spells v cs rest) :
    Sole Spells v cs rest := by
  induction h using Spells.inside_out with
  | null rest =>
    refine ⟨.null rest, fun _ w rest' hw _ => ?_⟩
    cases hw with
    | null => exact ⟨rfl, rfl⟩
    | number h => exact absurd h (not_spells_number rfl)
  | true rest =>
    refine ⟨.true rest, fun _ w rest' hw _ => ?_⟩
    cases hw with
    | true => exact ⟨rfl, rfl⟩
    | number h => exact absurd h (not_spells_number rfl)
  | false rest =>
    refine ⟨.false rest, fun _ w rest' hw _ => ?_⟩
    cases hw with
    | false => exact ⟨rfl, rfl⟩
    | number h => exact absurd h (not_spells_number rfl)
  | number h =>
    refine ⟨.number h, fun hr w rest' hw hr' => ?_⟩
    cases hw with
    | number h' =>
      obtain ⟨rfl, rfl⟩ := h.unique h' hr hr'
      exact ⟨rfl, rfl⟩
    | _ => exact absurd h (not_spells_number rfl)
  | string h =>
    refine ⟨.string h, fun _ w rest' hw _ => ?_⟩
    cases hw with
    | number h => exact absurd h (not_spells_number rfl)
    | string h' =>
      obtain ⟨rfl, rfl⟩ := h.unique h'
      exact ⟨rfl, rfl⟩
  | array h hs => exact Spells.array_sole (.array h) (hs.imp fun _ _ _ ⟨_, hv⟩ => hv)
  | object h hs =>
    refine Spells.object_sole (.object h) (hs.imp fun _ _ _ hm => ?_)
    exact Member.sole (fun h => h.begins.1) (hm.imp fun _ _ _ ⟨_, hv⟩ => hv)

/-- **A text has one document.** -/
theorem IsText.unique {v w : Document} {cs : List Char} (h : IsText v cs) (h' : IsText w cs) :
    v = w := by
  obtain ⟨rest, ⟨c₁, hb, hv⟩, hrest⟩ := h
  obtain ⟨rest', ⟨c₁', hb', hw⟩, hrest'⟩ := h'
  obtain rfl := hb.unique hb' hv.begins.1 hw.begins.1
  exact (hv.sole.2 (hrest.endsNumeral rfl) w rest' hw (hrest'.endsNumeral rfl)).1

end WhereClause.Json
