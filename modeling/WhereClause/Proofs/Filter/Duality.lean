import WhereClause.Proofs.Filter.Atoms

/-!
# The two tables as duals

A query compiled with one table and with the other has one tree. Its groups, its fields and its values
are the same, and each atom of the one is the complement of the atom in its place in the other.

* `Atom.complement`   the atom that holds when another one does not;
* `conditions_flip`   the tree of a query in the other table;
* `build_flip`        the two outcomes of the compiler.

Below `$not`, and inside `$nor` and `$nand`, the tables change on both sides, so the two walks stay
opposite to each other all the way down.
-/

set_option autoImplicit false

namespace WhereClause.Filter

open WhereClause.Sql

/-! ## complements -/

namespace Atom

/-- the opposite comparison of the same field with the same value, or the other constant -/
def complement : Atom → Atom
  | .compare k field v => .compare k.opposite field v
  | .constant b => .constant !b

theorem complement_complement (a : Atom) : a.complement.complement = a := by
  cases a with
  | compare k field v => rw [complement, complement, Comparison.opposite_opposite]
  | constant b => rw [complement, complement, Bool.not_not]

end Atom

theorem Comparison.atom?_opposite (field : String) (x : Operand) (k : Comparison) :
    k.opposite.atom? field x = (k.atom? field x).map Atom.complement := by
  have literal (f g : Value → Atom) (h : ∀ v, g v = (f v).complement) :
      x.value?.map g = (x.value?.map f).map Atom.complement := by
    rw [Option.map_map]
    exact congrArg (x.value?.map ·) (funext h)
  have pattern (k : Comparison) : (x.pattern?.map fun s =>
        Atom.compare k.opposite field (.string ("%" ++ s ++ "%"))) =
      (x.pattern?.map fun s => Atom.compare k field (.string ("%" ++ s ++ "%"))).map
        Atom.complement := by
    rw [Option.map_map]
    rfl
  cases k with
  | like => exact pattern .like
  | notLike => exact pattern .notLike
  | isIn => exact literal _ _ fun v => by cases v.members <;> rfl
  | notIn => exact literal _ _ fun v => by cases v.members <;> rfl
  | equal => exact literal _ _ fun v => rfl
  | notEqual => exact literal _ _ fun v => rfl
  | greater => exact literal _ _ fun v => rfl
  | greaterOrEqual => exact literal _ _ fun v => rfl
  | less => exact literal _ _ fun v => rfl
  | lessOrEqual => exact literal _ _ fun v => rfl

theorem Polarity.inside_flip (p : Polarity) (k : Connective) :
    p.flip.inside k = (p.inside k).flip := by
  unfold inside
  split
  · rfl
  · rfl

/-! ## the tree in the other table -/

theorem leafConditions_flip (p : Polarity) (field key : String) (x : Operand) :
    leafConditions p.flip field key x =
      mapConditions Atom.complement (leafConditions p field key x) := by
  unfold leafConditions
  split
  · rw [Polarity.comparison_flip, Comparison.complement_eq_opposite, Comparison.atom?_opposite,
      mapConditions_map_atom, Option.toList_map]
  · rfl

mutual

theorem entryConditions_flip (p : Polarity) : ∀ es : List (String × Operand),
    entryConditions p.flip es = mapConditions Atom.complement (entryConditions p es)
  | [] => rfl
  | (key, x) :: rest => by
    rw [entryConditions, entryConditions, mapConditions_append, entryConditions_flip p rest]
    congr 1
    split
    · exact connectiveConditions_flip p key x
    · exact fieldConditions_flip p key x

theorem fieldConditions_flip (p : Polarity) (field : String) : ∀ x : Operand,
    fieldConditions p.flip field x = mapConditions Atom.complement (fieldConditions p field x)
  | .object es => operatorConditions_flip p field es
  | .array xs => leafConditions_flip p field "$in" (.array xs)
  | .null => leafConditions_flip p field "$eq" .null
  | .boolean b => leafConditions_flip p field "$eq" (.boolean b)
  | .number n => leafConditions_flip p field "$eq" (.number n)
  | .string s => leafConditions_flip p field "$eq" (.string s)
  | .timestamp t => leafConditions_flip p field "$eq" (.timestamp t)

theorem operatorConditions_flip (p : Polarity) (field : String) : ∀ es : List (String × Operand),
    operatorConditions p.flip field es =
      mapConditions Atom.complement (operatorConditions p field es)
  | [] => rfl
  | (key, x) :: rest => by
    rw [operatorConditions, operatorConditions, mapConditions_append,
      operatorConditions_flip p field rest]
    congr 1
    split
    · exact fieldConditions_flip p.flip field x
    · exact leafConditions_flip p field key x

theorem connectiveConditions_flip (p : Polarity) (key : String) (x : Operand) :
    connectiveConditions p.flip key x =
      mapConditions Atom.complement (connectiveConditions p key x) := by
  have other (hx : ∀ xs, x ≠ .array xs) : connectiveConditions p.flip key x =
      mapConditions Atom.complement (connectiveConditions p key x) := by
    rw [connectiveConditions_of_ne hx, connectiveConditions_of_ne hx]
    rfl
  match x with
  | .array xs =>
    unfold connectiveConditions
    cases Connective.ofKey? key with
    | none => rfl
    | some k =>
      show groupOf k (elementConditions (p.flip.inside k) xs) =
        mapConditions Atom.complement (groupOf k (elementConditions (p.inside k) xs))
      rw [mapConditions_groupOf, Polarity.inside_flip, elementConditions_flip (p.inside k) xs]
  | .null => exact other fun _ h => nomatch h
  | .boolean b => exact other fun _ h => nomatch h
  | .number n => exact other fun _ h => nomatch h
  | .string s => exact other fun _ h => nomatch h
  | .timestamp t => exact other fun _ h => nomatch h
  | .object es => exact other fun _ h => nomatch h

theorem elementConditions_flip (p : Polarity) : ∀ xs : List Operand,
    elementConditions p.flip xs = mapParts Atom.complement (elementConditions p xs)
  | [] => rfl
  | .object es :: rest => by
    rw [elementConditions, elementConditions, mapParts_append, mapParts_partOf,
      entryConditions_flip p es, elementConditions_flip p rest]
  | .null :: rest => elementConditions_flip p rest
  | .boolean b :: rest => elementConditions_flip p rest
  | .number n :: rest => elementConditions_flip p rest
  | .string s :: rest => elementConditions_flip p rest
  | .timestamp t :: rest => elementConditions_flip p rest
  | .array xs :: rest => elementConditions_flip p rest

end

/-- a tree in the other table has the complements in the places of the atoms, and nothing else is
changed -/
theorem conditions_flip (p : Polarity) (q : Query) :
    q.conditions p.flip = mapConditions Atom.complement (q.conditions p) :=
  entryConditions_flip p q

/-! ## the compiler with both tables -/

/-- a tree and the tree of its complements are both empty or both not -/
theorem conjunctionText_complement_eq_empty (o : Options) (ts : List (Condition Atom)) :
    conjunctionText o (mapConditions Atom.complement ts) = "" ↔ conjunctionText o ts = "" := by
  rw [conjunctionText_eq_empty, conjunctionText_eq_empty]
  cases ts with
  | nil => exact ⟨fun _ => rfl, fun _ => rfl⟩
  | cons t ts => exact ⟨fun h => (nomatch h), fun h => (nomatch h)⟩

/-- **The tables are duals.** From both of them the compiler fails with the same error, or it gives
the text of one tree and the text of the same tree with the complements of its atoms; the one is empty
exactly when the other is. -/
theorem build_flip (c : Configuration) (p : Polarity) (q : Query) :
    Agree (fun s t => s = conjunctionText c.options (q.conditions p) ∧
        t = conjunctionText c.options (mapConditions Atom.complement (q.conditions p)) ∧
        (s = "" ↔ t = ""))
      (q.build c p) (q.build c p.flip) := by
  have h := build_yields c p q
  have h' := build_yields c p.flip q
  rw [conditions_flip] at h'
  refine h.agree h' fun s t hs ht => ?_
  subst hs ht
  exact ⟨rfl, rfl, (conjunctionText_complement_eq_empty c.options _).symm⟩

example :
    let q : Query := [("a", .object [("$gt", .number (.integer 1)), ("$in", .array [])]),
      ("$nor", .array [.object [("b", .null)], .object [("c", .object [("$not", .string "x")])]])]
    q.build {} .direct = .ok "`a` > 1 AND 1 = 0 AND (`b` != NULL) OR (`c` = 'x')" ∧
      q.build {} .negated = .ok "`a` <= 1 AND 1 = 1 AND (`b` = NULL) OR (`c` != 'x')" := ⟨rfl, rfl⟩

end WhereClause.Filter
