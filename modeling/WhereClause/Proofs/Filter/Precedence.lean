import WhereClause.Proofs.Filter.Exposure
import WhereClause.Proofs.Filter.Reading

/-!
# Precedence

What the text of a condition says against what the query says. With truth values for the
comparisons, in their order, both have one: the text as it is read by its parentheses and by the
precedence of `AND` over `OR`, the query by its own structure.

* `Query.value`          what a query says;
* `readValue_of_build`   what the text of its condition says;
* where the query holds, the text does, and they say the same unless a `$nor` of several parts
  stands beside another condition.
-/

set_option autoImplicit false

namespace WhereClause.Filter

open WhereClause.Sql

/-! ## the trees of queries have no empty groups -/

theorem filled_leafConditions (p : Polarity) (field key : String) (x : Operand) :
    FilledConditions (leafConditions p field key x) := by
  unfold leafConditions
  split
  · next k _ =>
    cases (p.comparison k).atom? field x with
    | none => trivial
    | some a => exact ⟨trivial, trivial⟩
  · trivial

mutual

theorem filled_entryConditions (p : Polarity) : ∀ es : List (String × Operand),
    FilledConditions (entryConditions p es)
  | [] => trivial
  | (key, x) :: rest => by
    rw [entryConditions, filledConditions_append]
    refine ⟨?_, filled_entryConditions p rest⟩
    split
    · exact filled_connectiveConditions p key x
    · exact filled_fieldConditions p key x

theorem filled_fieldConditions (p : Polarity) (field : String) : ∀ x : Operand,
    FilledConditions (fieldConditions p field x)
  | .object es => filled_operatorConditions p field es
  | .array xs => filled_leafConditions p field "$in" (.array xs)
  | .null => filled_leafConditions p field "$eq" .null
  | .boolean b => filled_leafConditions p field "$eq" (.boolean b)
  | .number n => filled_leafConditions p field "$eq" (.number n)
  | .string s => filled_leafConditions p field "$eq" (.string s)
  | .timestamp t => filled_leafConditions p field "$eq" (.timestamp t)

theorem filled_operatorConditions (p : Polarity) (field : String) :
    ∀ es : List (String × Operand), FilledConditions (operatorConditions p field es)
  | [] => trivial
  | (key, x) :: rest => by
    rw [operatorConditions, filledConditions_append]
    refine ⟨?_, filled_operatorConditions p field rest⟩
    split
    · exact filled_fieldConditions p.flip field x
    · exact filled_leafConditions p field key x

theorem filled_connectiveConditions (p : Polarity) (key : String) (x : Operand) :
    FilledConditions (connectiveConditions p key x) := by
  have other (hx : ∀ xs, x ≠ .array xs) : FilledConditions (connectiveConditions p key x) := by
    rw [connectiveConditions_of_ne hx]
    trivial
  match x with
  | .array xs =>
    unfold connectiveConditions
    cases Connective.ofKey? key with
    | none => trivial
    | some k => exact filledConditions_groupOf k (filled_elementConditions (p.inside k) xs)
  | .null => exact other fun _ h => nomatch h
  | .boolean b => exact other fun _ h => nomatch h
  | .number n => exact other fun _ h => nomatch h
  | .string s => exact other fun _ h => nomatch h
  | .timestamp t => exact other fun _ h => nomatch h
  | .object es => exact other fun _ h => nomatch h

theorem filled_elementConditions (p : Polarity) : ∀ xs : List Operand,
    FilledParts (elementConditions p xs)
  | [] => trivial
  | .object es :: rest => by
    rw [elementConditions, filledParts_append]
    exact ⟨filledParts_partOf (filled_entryConditions p es), filled_elementConditions p rest⟩
  | .null :: rest => filled_elementConditions p rest
  | .boolean b :: rest => filled_elementConditions p rest
  | .number n :: rest => filled_elementConditions p rest
  | .string s :: rest => filled_elementConditions p rest
  | .timestamp t :: rest => filled_elementConditions p rest
  | .array xs :: rest => filled_elementConditions p rest

end

/-! ## queries and their texts -/

/-- what a query says, if its comparisons have the truth values `v 0`, `v 1` and so on in their
order: all its conditions hold, where of a `$and` or `$nand` each part does, of a `$or` or `$nor` any -/
def Query.value (p : Polarity) (q : Query) (v : Nat → Bool) : Bool :=
  conjunctionHolds (assignConditions v 0 (q.conditions p))

variable {c : Configuration} {p : Polarity} {q : Query} {sql : String}

theorem conditions_ne_nil_of_build (h : q.build c p = .ok sql) (hne : sql ≠ "") :
    q.conditions p ≠ [] := by
  intro he
  have htext := ((build_yields c p q).of_ok h).2
  exact hne (htext.trans ((conjunctionText_eq_empty c.options).mpr he))

theorem filled_conditions (p : Polarity) (q : Query) : FilledConditions (q.conditions p) :=
  filled_entryConditions p q

/-- what the text of a condition says -/
theorem readValue_of_build (hs : ∀ l ∈ q.leaves p.negations, l.isScalar = true)
    (h : q.build c p = .ok sql) (hne : sql ≠ "") (v : Nat → Bool) :
    readValue c.options.dialect sql v =
      some (anyHolds (grouping (assignConditions v 0 (q.conditions p)))) := by
  have hq := conditions_ne_nil_of_build h hne
  have hf := filledConditions_assign v 0 _ (filled_conditions p q)
  have hread := readFormula_conjunctionItems (assignConditions_ne_nil v 0 hq) hf
  rw [readValue, readLine_of_build hs h]
  show (readFormula (assignItems v 0 _)).map Formula.holds = _
  rw [assignItems_map, assignItems_conjunction, hread]
  rfl

/-- **What the text of a condition says against what the query says.** The text is read, its
comparisons are those of the leaves, and it holds where the query does. It says just what the query
says if and only if no `$nor` of several parts stands beside another condition. -/
theorem readValue_build_iff (c : Configuration) (p : Polarity) (q : Query) {sql : String}
    (hs : ∀ l ∈ q.leaves p.negations, l.isScalar = true) (h : q.build c p = .ok sql)
    (hne : sql ≠ "") :
    readComparisons c.options.dialect sql =
        some (((q.leaves p.negations).filterMap Leaf.atom?).map (Atom.tokens c.options)) ∧
      (∀ v, ∃ b, readValue c.options.dialect sql v = some b ∧ (q.value p v = true → b = true)) ∧
      ((∀ v, readValue c.options.dialect sql v = some (q.value p v)) ↔
        ¬ Exposed (q.conditions p)) := by
  have hread := readValue_of_build hs h hne
  have hq := conditions_ne_nil_of_build h hne
  have hf := filled_conditions p q
  refine ⟨?_, fun v => ⟨_, hread v, ?_⟩, ?_, ?_⟩
  · rw [readComparisons, readLine_of_build hs h, ← q.conditionAtoms_conditions p,
      ← itemAtoms_conjunctionItems, ← itemAtoms_map]
    rfl
  · exact anyHolds_grouping _ (assignConditions_ne_nil v 0 hq) (filledConditions_assign v 0 _ hf)
  · intro hall hx
    obtain ⟨us, hshape, htrue, hfalse⟩ := exists_misread hx hf
    obtain ⟨v, rfl⟩ := exists_assign hshape
    have hv := (hread v).symm.trans (hall v)
    rw [htrue, Query.value, hfalse] at hv
    exact nomatch hv
  · intro hx v
    have hxv : ¬ Exposed (assignConditions v 0 (q.conditions p)) := fun he =>
      hx (exposed_of_shape (shape_assignConditions v 0 _) he)
    rw [hread v, Query.value, holds_grouping (assignConditions_ne_nil v 0 hq)
      (filledConditions_assign v 0 _ hf) hxv]

/-- a `$nor` of two parts behind a field -/
def norBesideField : Query :=
  [("x", .number (.integer 1)), ("$nor", .array [.object [("a", .number (.integer 1))],
    .object [("b", .number (.integer 2))]])]

theorem readValue_build_iff_nor_beside_field :
    norBesideField.build {} .direct = .ok "`x` = 1 AND (`a` != 1) OR (`b` != 2)" ∧
      Exposed (norBesideField.conditions .direct) ∧
      ¬ ∀ v, readValue .mysql "`x` = 1 AND (`a` != 1) OR (`b` != 2)" v =
        some (norBesideField.value .direct v) := by
  have h : norBesideField.build {} .direct = .ok "`x` = 1 AND (`a` != 1) OR (`b` != 2)" := by rfl
  have hs : ∀ l ∈ norBesideField.leaves Polarity.direct.negations, l.isScalar = true := by decide
  have hx : Exposed (norBesideField.conditions .direct) :=
    @Exposed.beside _ [.atom _] [] _ _ _ (.inl (List.cons_ne_nil _ _))
  obtain ⟨_, _, hiff⟩ := readValue_build_iff {} .direct norBesideField hs h (by decide)
  exact ⟨h, hx, fun hall => hiff.mp hall hx⟩

/-- where `x` is something else, the text of the query above may hold -/
theorem readValue_nor_beside_field : norBesideField.build {} .direct =
      .ok "`x` = 1 AND (`a` != 1) OR (`b` != 2)" ∧
    readValue .mysql "`x` = 1 AND (`a` != 1) OR (`b` != 2)" (fun i => i ≠ 0) = some true ∧
      norBesideField.value .direct (fun i => i ≠ 0) = false := by
  have h : norBesideField.build {} .direct = .ok "`x` = 1 AND (`a` != 1) OR (`b` != 2)" := by rfl
  have hs : ∀ l ∈ norBesideField.leaves Polarity.direct.negations, l.isScalar = true := by decide
  have hread := readValue_of_build hs h (by decide) fun i => i ≠ 0
  refine ⟨h, hread.trans ?_, ?_⟩
  · rfl
  · rfl

end WhereClause.Filter
