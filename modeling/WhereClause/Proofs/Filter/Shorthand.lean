import WhereClause.Proofs.Filter.Fields

/-!
# Shorthands

A value beside a field stands for `$eq` with this value, and an array for `$in` with it. The same is
so for an operand of `$not`. A single value beside `$in` or `$nin` stands for the array that holds
it. Here all of these are spelled out, at every field of a query and of the queries inside
connectives.

* `Query.spelledOut`      the query without shorthands;
* `conditions_spelledOut` it has the same tree;
* `faults_spelledOut`     it has the same errors in the same order;
* `build_spelledOut`      it is compiled to the same.
-/

set_option autoImplicit false

namespace WhereClause.Filter

open WhereClause.Calendar WhereClause.Sql

/-! ## the query without shorthands -/

/-- a single value as an array -/
def spellMembers : Operand → Operand
  | .array xs => .array xs
  | .object es => .object es
  | x => .array [x]

mutual

/-- what stands beside a field, or beside `$not`, as operators -/
def spellField : Operand → Operand
  | .object es => .object (spellOperators es)
  | .array xs => .object [("$in", .array xs)]
  | x => .object [("$eq", x)]

def spellOperators : List (String × Operand) → List (String × Operand)
  | [] => []
  | (key, x) :: rest =>
    (key, if key = "$not" then spellField x
      else if key = "$in" ∨ key = "$nin" then spellMembers x
      else x) :: spellOperators rest

end

def Query.spelledOut (q : Query) : Query := q.mapFields fun _ => spellField

/-! ## one comparison -/

theorem mem_membershipKeys {key : String} (h : key = "$in" ∨ key = "$nin") {k : Comparison}
    (hk : Comparison.ofKey? key = some k) : k = .isIn ∨ k = .notIn := by
  rcases h with rfl | rfl
  · cases hk
    exact .inl rfl
  · cases hk
    exact .inr rfl

/-- a membership test of a value is one of the array that holds it -/
theorem atom?_spellMembers {k : Comparison} (hk : k = .isIn ∨ k = .notIn) (field : String)
    (x : Operand) : k.atom? field (spellMembers x) = k.atom? field x := by
  rcases hk with rfl | rfl
  · cases x <;> rfl
  · cases x <;> rfl

theorem leafConditions_spellMembers (p : Polarity) (field : String) {key : String}
    (h : key = "$in" ∨ key = "$nin") (x : Operand) :
    leafConditions p field key (spellMembers x) = leafConditions p field key x := by
  unfold leafConditions
  split
  · next k hk =>
    have hp : p.comparison k = .isIn ∨ p.comparison k = .notIn := by
      rcases mem_membershipKeys h hk with rfl | rfl <;> cases p <;> decide
    rw [atom?_spellMembers hp field x]
  · rfl

theorem leafFaults_spellMembers {key : String} (h : key = "$in" ∨ key = "$nin") (x : Operand) :
    leafFaults key (spellMembers x) = leafFaults key x := by
  rcases h with rfl | rfl
  · cases x <;> rfl
  · cases x <;> rfl

/-! ## its tree -/

/-- one operator that is a comparison -/
theorem fieldConditions_operator (p : Polarity) (field : String) {key : String}
    (hkey : key ≠ "$not") (x : Operand) :
    fieldConditions p field (.object [(key, x)]) = leafConditions p field key x := by
  rw [fieldConditions, operatorConditions, operatorConditions, if_neg hkey, List.append_nil]

mutual

theorem fieldConditions_spellField (p : Polarity) (field : String) : ∀ x : Operand,
    fieldConditions p field (spellField x) = fieldConditions p field x
  | .object es => operatorConditions_spellOperators p field es
  | .array xs => fieldConditions_operator p field (by decide) (.array xs)
  | .null => fieldConditions_operator p field (by decide) .null
  | .boolean b => fieldConditions_operator p field (by decide) (.boolean b)
  | .number n => fieldConditions_operator p field (by decide) (.number n)
  | .string s => fieldConditions_operator p field (by decide) (.string s)
  | .timestamp t => fieldConditions_operator p field (by decide) (.timestamp t)

theorem operatorConditions_spellOperators (p : Polarity) (field : String) :
    ∀ es : List (String × Operand),
      operatorConditions p field (spellOperators es) = operatorConditions p field es
  | [] => rfl
  | (key, x) :: rest => by
    rw [spellOperators, operatorConditions, operatorConditions,
      operatorConditions_spellOperators p field rest]
    congr 1
    by_cases hnot : key = "$not"
    · rw [if_pos hnot, if_pos hnot, if_pos hnot]
      exact fieldConditions_spellField p.flip field x
    · rw [if_neg hnot, if_neg hnot, if_neg hnot]
      split
      · next hkey => exact leafConditions_spellMembers p field hkey x
      · rfl

end

theorem conditions_spelledOut (p : Polarity) (q : Query) :
    q.spelledOut.conditions p = q.conditions p :=
  conditions_mapFields (fun _ p field x => fieldConditions_spellField p field x) p q

/-! ## its errors -/

theorem leafWalk_spellMembers (z : Zone) {key : String} (h : key = "$in" ∨ key = "$nin")
    (x : Operand) : leafWalk z key (spellMembers x) = leafWalk z key x := by
  have hstops : leafStops z (spellMembers x) = leafStops z x := by
    cases x <;> rfl
  exact Walk.ext (leafFaults_spellMembers h x) hstops

variable (c : Configuration)

mutual

theorem fieldWalk_spellField (depth : Nat) : ∀ x : Operand,
    fieldWalk c depth (spellField x) = fieldWalk c depth x
  | .object es => fieldWalk_spellOperators depth es
  | .array xs => fieldWalk_leaf c depth (by decide) (.array xs)
  | .null => fieldWalk_leaf c depth (by decide) .null
  | .boolean b => fieldWalk_leaf c depth (by decide) (.boolean b)
  | .number n => fieldWalk_leaf c depth (by decide) (.number n)
  | .string s => fieldWalk_leaf c depth (by decide) (.string s)
  | .timestamp t => fieldWalk_leaf c depth (by decide) (.timestamp t)

theorem fieldWalk_spellOperators (depth : Nat) : ∀ es : List (String × Operand),
    fieldWalk c depth (.object (spellOperators es)) = fieldWalk c depth (.object es)
  | [] => rfl
  | (key, x) :: rest => by
    rw [spellOperators, fieldWalk_cons, fieldWalk_cons, fieldWalk_spellOperators depth rest]
    congr 1
    by_cases hnot : key = "$not"
    · rw [if_pos hnot, if_pos hnot, if_pos hnot, fieldWalk_spellField (depth + 1) x]
    · rw [if_neg hnot, if_neg hnot, if_neg hnot]
      split
      · next hkey => exact leafWalk_spellMembers c.options.zone hkey x
      · rfl

end

theorem faults_spelledOut (q : Query) : q.spelledOut.faults c = q.faults c := by
  have hfields : KeepsWalks Eq c fun _ => spellField := fun _ depth x =>
    (fieldWalk_spellField c depth x).symm
  exact congrArg Walk.faults (walk_mapFields Walk.congruence_eq hfields q).symm

/-! ## both compiled -/

/-- **Shorthands mean what they stand for**, at every level of a query and with both tables: without
them the same condition comes out, or the same error. -/
theorem build_spelledOut (p : Polarity) (q : Query) : q.spelledOut.build c p = q.build c p :=
  build_congr (conditions_spelledOut p q) (faults_spelledOut c q)

example :
    let q : Query := [("a", .null), ("b", .object [("$not", .array [.boolean true])]),
      ("$or", .array [.null,
        .object [("c", .object [("$not", .string "x"), ("$nin", .string "y")])]])]
    q.spelledOut = [("a", .object [("$eq", .null)]),
        ("b", .object [("$not", .object [("$in", .array [.boolean true])])]),
        ("$or", .array [.null, .object [("c", .object [("$not", .object [("$eq", .string "x")]),
          ("$nin", .array [.string "y"])])]])] ∧
      q.spelledOut.build {} .direct =
        .ok "`a` = NULL AND `b` NOT IN (true) AND ((`c` != 'x' AND `c` NOT IN ('y')))" := ⟨rfl, rfl⟩

end WhereClause.Filter
