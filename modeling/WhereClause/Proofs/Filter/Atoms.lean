import WhereClause.Proofs.Filter.Leaves
import WhereClause.Proofs.Filter.Structure

/-!
# The leaves of a tree

The tree of a query has the leaves of the query as its own, each compared as its operator says below
the negations around it.

* `Leaf.atom?`  a leaf as an atom;
* `conditionAtoms_entryConditions`  the atoms of the tree of a query are its leaves;
* `exists_atom_of_build`  in a query that has a condition each leaf is one.
-/

set_option autoImplicit false

namespace WhereClause.Filter

open WhereClause.Sql

/-- the operator of the key, or its complement below an odd number of negations, with field and
operand -/
def Leaf.atom? (l : Leaf) : Option Atom :=
  match Comparison.ofKey? l.key with
  | none => none
  | some k => ((Polarity.below l.negations).comparison k).atom? l.field l.operand

/-- in both tables a key stands for comparisons of one sort -/
theorem Comparison.of_ofKey? {key : String} {k : Comparison} (h : ofKey? key = some k)
    (p : Polarity) : (p.comparison k = .like ∨ p.comparison k = .notLike ↔ key = "$like") ∧
      ((p.comparison k).isMembership = true ↔ key = "$in" ∨ key = "$nin") := by
  unfold ofKey? at h
  split at h <;> cases h <;> cases p <;> decide

/-- the comparison of an atom is one of patterns, or of members, as the key of the leaf is -/
theorem Leaf.atom?_cases {l : Leaf} {a : Atom} (h : l.atom? = some a) :
    ∃ k : Comparison, k.atom? l.field l.operand = some a ∧
      (k = .like ∨ k = .notLike ↔ l.key = "$like") ∧
      (k.isMembership = true ↔ l.key = "$in" ∨ l.key = "$nin") := by
  obtain ⟨n, field, key, x⟩ := l
  rw [Leaf.atom?] at h
  cases hk : Comparison.ofKey? key with
  | none =>
    rw [hk] at h
    exact nomatch h
  | some k =>
    rw [hk] at h
    exact ⟨_, h, Comparison.of_ofKey? hk (.below n)⟩

/-- values of several operands are those of the first and of the others -/
theorem Operand.values?_cons {x : Operand} {xs : List Operand} {us : List Value}
    (h : values? (x :: xs) = some us) :
    ∃ v vs, x.value? = some v ∧ values? xs = some vs ∧ us = v :: vs := by
  rw [values?] at h
  split at h
  · next v vs hv hvs =>
    cases h
    exact ⟨v, vs, hv, hvs, rfl⟩
  · cases h

/-- only the array without elements is the list without values -/
theorem Operand.eq_of_value?_nil {x : Operand} (h : x.value? = some (.list [])) :
    x = .array [] := by
  cases x with
  | array xs =>
    obtain ⟨vs, hvs, he⟩ := Option.map_eq_some_iff.mp h
    cases he
    cases xs with
    | nil => rfl
    | cons x xs =>
      obtain ⟨_, _, _, _, hus⟩ := Operand.values?_cons hvs
      exact nomatch hus
  | object es => exact nomatch h
  | _ => exact nomatch h

theorem conditionAtoms_leafConditions (n : Nat) (field key : String) (x : Operand) :
    conditionAtoms (leafConditions (.below n) field key x) =
      [Leaf.mk n field key x].filterMap Leaf.atom? := by
  unfold leafConditions
  rw [List.filterMap_cons, Leaf.atom?]
  cases Comparison.ofKey? key with
  | none => rfl
  | some k =>
    simp only [conditionAtoms_map_atom]
    cases ((Polarity.below n).comparison k).atom? field x with
    | none => rfl
    | some a => rfl

theorem connectiveConditions_of_ne {p : Polarity} {key : String} {x : Operand}
    (hx : ∀ xs, x ≠ .array xs) : connectiveConditions p key x = [] := by
  unfold connectiveConditions
  split
  · rfl
  · split
    · next xs => exact absurd rfl (hx xs)
    · rfl

mutual

theorem conditionAtoms_entryConditions (n : Nat) : ∀ es : List (String × Operand),
    conditionAtoms (entryConditions (.below n) es) = (entryLeaves n es).filterMap Leaf.atom?
  | [] => rfl
  | (key, x) :: rest => by
    rw [entryConditions, entryLeaves, conditionAtoms_append, List.filterMap_append,
      conditionAtoms_entryConditions n rest]
    congr 1
    split
    · exact conditionAtoms_connectiveConditions n key x
    · exact conditionAtoms_fieldConditions n key x

theorem conditionAtoms_fieldConditions (n : Nat) (field : String) : ∀ x : Operand,
    conditionAtoms (fieldConditions (.below n) field x) =
      (fieldLeaves n field x).filterMap Leaf.atom?
  | .object es => conditionAtoms_operatorConditions n field es
  | .array xs => conditionAtoms_leafConditions n field "$in" (.array xs)
  | .null => conditionAtoms_leafConditions n field "$eq" .null
  | .boolean b => conditionAtoms_leafConditions n field "$eq" (.boolean b)
  | .number m => conditionAtoms_leafConditions n field "$eq" (.number m)
  | .string s => conditionAtoms_leafConditions n field "$eq" (.string s)
  | .timestamp t => conditionAtoms_leafConditions n field "$eq" (.timestamp t)

theorem conditionAtoms_operatorConditions (n : Nat) (field : String) :
    ∀ es : List (String × Operand), conditionAtoms (operatorConditions (.below n) field es) =
      (operatorLeaves n field es).filterMap Leaf.atom?
  | [] => rfl
  | (key, x) :: rest => by
    rw [operatorConditions, operatorLeaves, conditionAtoms_append, List.filterMap_append,
      conditionAtoms_operatorConditions n field rest]
    congr 1
    split
    · rw [← Polarity.below_succ]
      exact conditionAtoms_fieldConditions (n + 1) field x
    · exact conditionAtoms_leafConditions n field key x

theorem conditionAtoms_connectiveConditions (n : Nat) (key : String) (x : Operand) :
    conditionAtoms (connectiveConditions (.below n) key x) =
      (connectiveLeaves n key x).filterMap Leaf.atom? := by
  have other (hx : ∀ xs, x ≠ .array xs) (hl : connectiveLeaves n key x = []) :
      conditionAtoms (connectiveConditions (.below n) key x) =
        (connectiveLeaves n key x).filterMap Leaf.atom? := by
    rw [connectiveConditions_of_ne hx, hl]
    rfl
  match x with
  | .array xs =>
    unfold connectiveConditions connectiveLeaves
    rw [Form.ofKey?_eq]
    cases Connective.ofKey? key with
    | none => rfl
    | some k =>
      show conditionAtoms (groupOf k _) = (elementLeaves (n + k.form.negations) xs).filterMap _
      rw [conditionAtoms_groupOf, ← Polarity.below_negations,
        partAtoms_elementConditions (n + k.form.negations) xs]
  | .null => exact other (fun _ h => nomatch h) rfl
  | .boolean b => exact other (fun _ h => nomatch h) rfl
  | .number m => exact other (fun _ h => nomatch h) rfl
  | .string s => exact other (fun _ h => nomatch h) rfl
  | .timestamp t => exact other (fun _ h => nomatch h) rfl
  | .object es => exact other (fun _ h => nomatch h) rfl

theorem partAtoms_elementConditions (n : Nat) : ∀ xs : List Operand,
    partAtoms (elementConditions (.below n) xs) = (elementLeaves n xs).filterMap Leaf.atom?
  | [] => rfl
  | .object es :: rest => by
    rw [elementConditions, elementLeaves, partAtoms_append, partAtoms_partOf,
      List.filterMap_append, conditionAtoms_entryConditions n es,
      partAtoms_elementConditions n rest]
  | .null :: rest => partAtoms_elementConditions n rest
  | .boolean b :: rest => partAtoms_elementConditions n rest
  | .number m :: rest => partAtoms_elementConditions n rest
  | .string s :: rest => partAtoms_elementConditions n rest
  | .timestamp t :: rest => partAtoms_elementConditions n rest
  | .array xs :: rest => partAtoms_elementConditions n rest

end

theorem exists_ok_of_mapM {ε α β : Type} {f : α → Except ε β} {xs : List α} {ys : List β}
    (h : xs.mapM f = .ok ys) : ∀ x ∈ xs, ∃ y, f x = .ok y := by
  induction xs generalizing ys with
  | nil => exact fun x hx => absurd hx List.not_mem_nil
  | cons x xs ih =>
    rw [List.mapM_cons] at h
    cases hx : f x with
    | error e =>
      rw [hx] at h
      exact nomatch h
    | ok y =>
      rw [hx] at h
      cases hxs : xs.mapM f with
      | error e =>
        rw [hxs] at h
        exact nomatch h
      | ok zs => exact List.forall_mem_cons.mpr ⟨⟨y, hx⟩, ih hxs⟩

theorem Leaf.exists_atom {o : Options} {l : Leaf} {t : Piece} (h : l.print o = .ok t) :
    ∃ a, l.atom? = some a ∧ t = a.piece o := by
  rw [Leaf.print] at h
  rw [Leaf.atom?]
  cases hk : Comparison.ofKey? l.key with
  | none =>
    rw [hk] at h
    exact nomatch h
  | some k =>
    rw [hk] at h
    simp only [← Polarity.comparison_below] at h
    exact ((print_yields o l.key l.field l.operand _).of_ok h).2

/-- leaves are printed as the texts of their atoms -/
theorem eq_map_text_of_mapM {o : Options} {ls : List Leaf} {ts : List String}
    (h : ls.mapM (Leaf.print o) = .ok (ts.map .ok)) :
    ts = (ls.filterMap Leaf.atom?).map (Atom.text o) := by
  induction ls generalizing ts with
  | nil =>
    cases ts with
    | nil => rfl
    | cons t ts => exact nomatch h
  | cons l ls ih =>
    rw [List.mapM_cons] at h
    obtain ⟨p, hp, hrest⟩ := bind_ok_iff.mp h
    obtain ⟨ps, hps, he⟩ := bind_ok_iff.mp hrest
    obtain ⟨t, us, rfl, rfl, rfl⟩ := List.map_eq_cons_iff.mp (Except.ok.inj he).symm
    obtain ⟨a, ha, ht⟩ := Leaf.exists_atom hp
    rw [List.filterMap_cons, ha, List.map_cons, ← ih hps, Atom.text_of_piece ht.symm]

/-- where there is a condition, every leaf is an atom of it -/
theorem exists_atom_of_build {c : Configuration} {p : Polarity} {q : Query} {sql : String}
    (h : q.build c p = .ok sql) : ∀ l ∈ q.leaves p.negations, ∃ a, l.atom? = some a := by
  obtain ⟨ts, hts, _⟩ := exists_woven_of_build h
  intro l hl
  obtain ⟨t, ht⟩ := exists_ok_of_mapM hts l hl
  obtain ⟨a, ha, _⟩ := Leaf.exists_atom ht
  exact ⟨a, ha⟩

theorem Query.conditionAtoms_conditions (p : Polarity) (q : Query) :
    conditionAtoms (q.conditions p) = (q.leaves p.negations).filterMap Leaf.atom? := by
  have h := conditionAtoms_entryConditions p.negations q
  rwa [Polarity.below_negations_self] at h

/-- a condition is woven from the texts of its atoms -/
theorem woven_of_build {c : Configuration} {p : Polarity} {q : Query} {sql : String}
    (h : q.build c p = .ok sql) :
    let ts := (conditionAtoms (q.conditions p)).map (Atom.text c.options)
    (q.leaves p.negations).mapM (Leaf.print c.options) = .ok (ts.map .ok) ∧ Woven ts sql := by
  obtain ⟨ts, hts, hwoven⟩ := exists_woven_of_build h
  rw [q.conditionAtoms_conditions p, ← eq_map_text_of_mapM hts]
  exact ⟨hts, hwoven⟩

end WhereClause.Filter
