import WhereClause.Proofs.Filter.Negation

/-!
# Negation of one field

The operators of a field make one conjunction of comparisons, however `$not` is nested in them. With
`$not` before all of them each comparison stands in its place as its complement. The conjunction and
the one of the complements exclude each other. They need not be opposite to each other: neither of
them holds, where one comparison does and another does not.

* `fieldAtoms`          the comparisons of one field;
* `fieldConditions_eq`  they are all that the field makes;
* `fieldAtoms_not`      those of the field with `$not`;
* `Valuation`           truth values that respect complements;
* `build_not_excludes`  what a field selects and what its negation selects.
-/

set_option autoImplicit false

namespace WhereClause.Filter

open WhereClause.Sql

/-! ## conjunctions of comparisons -/

variable {α : Type}

/-- conditions without groups -/
def Flat (ts : List (Condition α)) : Prop := (conditionAtoms ts).map .atom = ts

theorem Flat.append {ts us : List (Condition α)} (ht : Flat ts) (hu : Flat us) :
    Flat (ts ++ us) := by
  unfold Flat
  rw [conditionAtoms_append, List.map_append, ht, hu]

theorem flat_map_atom (as : List α) : Flat (as.map .atom) :=
  congrArg (List.map Condition.atom) (conditionAtoms_map_atom as)

/-- comparisons as a conjunction -/
def atomsText (o : Options) (as : List Atom) : String :=
  " AND ".intercalate (as.map (Atom.text o))

theorem conjunctionText_map_atom (o : Options) (as : List Atom) :
    conjunctionText o (as.map .atom) = atomsText o as := by
  have h : conditionTexts o (as.map .atom) = as.map (Atom.text o) := by
    induction as with
    | nil => rfl
    | cons a as ih => exact congrArg (a.text o :: ·) ih
  rw [conjunctionText, h, atomsText]

/-! ## the comparisons of one field -/

theorem flat_leafConditions (p : Polarity) (field key : String) (x : Operand) :
    Flat (leafConditions p field key x) := by
  unfold leafConditions
  split
  · exact flat_map_atom _
  · exact flat_map_atom []

mutual

/-- no operator of a field makes a group -/
theorem flat_fieldConditions (p : Polarity) (field : String) : ∀ x : Operand,
    Flat (fieldConditions p field x)
  | .object es => flat_operatorConditions p field es
  | .array xs => flat_leafConditions p field "$in" (.array xs)
  | .null => flat_leafConditions p field "$eq" .null
  | .boolean b => flat_leafConditions p field "$eq" (.boolean b)
  | .number n => flat_leafConditions p field "$eq" (.number n)
  | .string s => flat_leafConditions p field "$eq" (.string s)
  | .timestamp t => flat_leafConditions p field "$eq" (.timestamp t)

theorem flat_operatorConditions (p : Polarity) (field : String) : ∀ es : List (String × Operand),
    Flat (operatorConditions p field es)
  | [] => flat_map_atom []
  | (key, x) :: rest => by
    rw [operatorConditions]
    refine .append ?_ (flat_operatorConditions p field rest)
    split
    · exact flat_fieldConditions p.flip field x
    · exact flat_leafConditions p field key x

end

/-- the comparisons that the operand of a field makes, in their order -/
def fieldAtoms (p : Polarity) (field : String) (x : Operand) : List Atom :=
  conditionAtoms (fieldConditions p field x)

theorem fieldConditions_eq (p : Polarity) (field : String) (x : Operand) :
    fieldConditions p field x = (fieldAtoms p field x).map .atom :=
  (flat_fieldConditions p field x).symm

/-- with the other table each comparison is turned around -/
theorem fieldAtoms_flip (p : Polarity) (field : String) (x : Operand) :
    fieldAtoms p.flip field x = (fieldAtoms p field x).map Atom.complement := by
  rw [fieldAtoms, fieldConditions_flip, fieldConditions_eq, mapConditions_map_atom,
    conditionAtoms_map_atom]

theorem fieldAtoms_not (p : Polarity) (field : String) (x : Operand) :
    fieldAtoms p field (.object [("$not", x)]) = (fieldAtoms p field x).map Atom.complement := by
  rw [← fieldAtoms_flip, fieldAtoms, fieldConditions_not, fieldAtoms]

/-! ## the query of one field -/

variable {field : String}

theorem conditions_single (hfield : isOperatorKey field = false) (p : Polarity) (x : Operand) :
    (Query.single field x).conditions p = (fieldAtoms p field x).map .atom := by
  show (if isOperatorKey field then _ else fieldConditions p field x) ++ [] = _
  rw [hfield, List.append_nil, ← fieldConditions_eq]
  rfl

theorem negated_single (hfield : isOperatorKey field = false) (x : Operand) :
    (Query.single field x).negated = .single field (.object [("$not", x)]) := by
  show [(field, if isOperatorKey field then _ else _)] = _
  rw [hfield]
  rfl

/-- the condition of a field alone -/
theorem eq_atomsText_of_build (hfield : isOperatorKey field = false) {c : Configuration}
    {p : Polarity} {x : Operand} {sql : String}
    (h : (Query.single field x).build c p = .ok sql) :
    sql = atomsText c.options (fieldAtoms p field x) := by
  rw [((build_yields c p _).of_ok h).2, conditions_single hfield, conjunctionText_map_atom]

/-- the negation of a field is a filter if the field is, with room for one level more -/
theorem exists_build_not (hfield : isOperatorKey field = false) {c : Configuration} {p : Polarity}
    {x : Operand} {sql : String} (h : (Query.single field x).build c p = .ok sql)
    (hroom : (Query.single field (.object [("$not", x)])).nesting ≤ c.maxDepth) :
    ∃ sql', (Query.single field (.object [("$not", x)])).build c p = .ok sql' := by
  obtain ⟨_, hq, hshown⟩ := (exists_build_iff c p _).mp ⟨sql, h⟩
  rw [← negated_single hfield x] at hroom ⊢
  exact (exists_build_iff c p _).mpr ⟨hroom, isQuery_negated hq, isShown_negated hshown⟩

/-! ## truth values -/

/-- truth values of comparisons, where the constants have their own -/
structure Valuation where
  holds : Atom → Bool
  holds_complement : ∀ a, holds a.complement = !holds a
  holds_constant : ∀ b, holds (.constant b) = b

/-- one of each comparison and its complement -/
def Comparison.isLeading : Comparison → Bool
  | .equal | .greater | .less | .like | .isIn => true
  | _ => false

theorem Comparison.isLeading_opposite (k : Comparison) :
    k.opposite.isLeading = !k.isLeading := by
  cases k <;> rfl

namespace Valuation

/-- any truth values of the leading comparisons make a valuation -/
def ofLeading (leading : Comparison → String → Value → Bool) : Valuation where
  holds
    | .compare k field v =>
      if k.isLeading then leading k field v else !leading k.opposite field v
    | .constant b => b
  holds_complement a := by
    cases a with
    | constant b => rfl
    | compare k field v =>
      show (if k.opposite.isLeading then leading k.opposite field v
          else !leading k.opposite.opposite field v) =
        !(if k.isLeading then leading k field v else !leading k.opposite field v)
      rw [Comparison.isLeading_opposite, Comparison.opposite_opposite]
      cases k.isLeading with
      | true => rfl
      | false => exact (Bool.not_not _).symm
  holds_constant _ := rfl

variable (v : Valuation)

/-- comparisons and their complements do not all hold, unless there are none -/
theorem not_both {as : List Atom} (h : as ≠ []) :
    ¬ (as.all v.holds = true ∧ (as.map Atom.complement).all v.holds = true) := by
  cases as with
  | nil => exact absurd rfl h
  | cons a as =>
    rintro ⟨hall, hnone⟩
    rw [List.all_cons, Bool.and_eq_true] at hall
    rw [List.map_cons, List.all_cons, v.holds_complement, hall.1] at hnone
    exact nomatch hnone

theorem all_complement_single (a : Atom) :
    ([a].map Atom.complement).all v.holds = !([a].all v.holds) := by
  rw [List.map_singleton, List.all_cons, List.all_cons, List.all_nil, Bool.and_true, Bool.and_true,
    v.holds_complement]

end Valuation

example :
    let v := Valuation.ofLeading fun k _ _ => k = .greater
    let as : List Atom := [.compare .greater "a" .null, .compare .equal "a" .null]
    as.all v.holds = false ∧ (as.map Atom.complement).all v.holds = false := ⟨rfl, rfl⟩

/-! ## a field and its negation -/

/-- **`$not` excludes what a field selects.** A field with a condition has a conjunction of
comparisons, and with `$not` it has the conjunction of their complements in the same order. Both never
hold at once, and exactly one of them does where there is one comparison. -/
theorem build_not_excludes (c : Configuration) (p : Polarity) {field : String}
    (hfield : isOperatorKey field = false) (x : Operand) {sql : String}
    (h : (Query.single field x).build c p = .ok sql) (hne : sql ≠ "")
    (hroom : (Query.single field (.object [("$not", x)])).nesting ≤ c.maxDepth) :
    let as := fieldAtoms p field x
    let bs := fieldAtoms p field (.object [("$not", x)])
    sql = atomsText c.options as ∧
      (Query.single field (.object [("$not", x)])).build c p = .ok (atomsText c.options bs) ∧
      bs = as.map Atom.complement ∧
      ∀ v : Valuation, ¬ (as.all v.holds = true ∧ bs.all v.holds = true) ∧
        (as.length = 1 → bs.all v.holds = !as.all v.holds) := by
  intro as bs
  have hsql : sql = atomsText c.options as := eq_atomsText_of_build hfield h
  have hbs : bs = as.map Atom.complement := fieldAtoms_not p field x
  obtain ⟨sql', h'⟩ := exists_build_not hfield h hroom
  -- the empty conjunction would hold for the field and for its negation
  have has : as ≠ [] := by
    intro has
    rw [hsql, has] at hne
    exact hne String.intercalate_nil
  refine ⟨hsql, ?_, hbs, fun v => ⟨?_, fun hlength => ?_⟩⟩
  · rw [h', eq_atomsText_of_build hfield h']
  · rw [hbs]
    exact v.not_both has
  · obtain ⟨a, ha⟩ := List.length_eq_one_iff.mp hlength
    rw [hbs, ha]
    exact v.all_complement_single a

/-- a shorthand, an empty list and a negation below a negation, with the limit reached; then one
comparison beside an operand that selects everything -/
theorem build_not_excludes_nested :
    let x : Operand := .object [("$gt", .number (.integer 1)),
      ("$not", .object [("$in", .array []), ("$not", .string "?")])]
    let y : Operand := .object [("$not", .object [("$like", .string "?"), ("$not", .object [])])]
    ((Query.single "a" (.object [("$not", x)])).build { maxDepth := 3 } .direct =
        .ok "`a` <= 1 AND 1 = 0 AND `a` != '?'" ∧
      ∀ v : Valuation, ¬ ((fieldAtoms .direct "a" x).all v.holds = true ∧
        (fieldAtoms .direct "a" (.object [("$not", x)])).all v.holds = true)) ∧
    ((Query.single "a" (.object [("$not", y)])).build { maxDepth := 3 } .negated =
        .ok "`a` NOT LIKE '%?%'" ∧
      ∀ v : Valuation, (fieldAtoms .negated "a" (.object [("$not", y)])).all v.holds =
        !(fieldAtoms .negated "a" y).all v.holds) := by
  intro x y
  have hx : (Query.single "a" x).build { maxDepth := 3 } .direct =
    .ok "`a` > 1 AND 1 = 1 AND `a` = '?'" := by rfl
  have hy : (Query.single "a" y).build { maxDepth := 3 } .negated = .ok "`a` LIKE '%?%'" := by rfl
  obtain ⟨-, hx', -, hxv⟩ :=
    build_not_excludes { maxDepth := 3 } .direct (by decide) x hx (by decide) (by decide)
  obtain ⟨-, hy', -, hyv⟩ :=
    build_not_excludes { maxDepth := 3 } .negated (by decide) y hy (by decide) (by decide)
  exact ⟨⟨hx', fun v => (hxv v).1⟩, hy', fun v => (hyv v).2 rfl⟩

end WhereClause.Filter
