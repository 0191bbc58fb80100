import WhereClause.Proofs.Filter.Duality
import WhereClause.Proofs.Filter.Grammar

/-!
# Negation at the fields

A query can be negated as a whole by starting with the other table, or at its leaves by `$not` before
the operand of each field. Both give the same text. The second way makes one level more.

* `Query.negated`       the query with `$not` at each of its fields;
* `conditions_negated`  its tree is the tree of the query in the other table;
* `nesting_negated`     it is at most one level deeper;
* `build_negated`       what the one way compiles to the other way does.
-/

set_option autoImplicit false

namespace WhereClause.Filter

open WhereClause.Calendar WhereClause.Sql

/-! ## the query negated at its fields -/

mutual

/-- the fields have `$not` before their operands, and the connectives stay -/
def negateEntries : List (String × Operand) → List (String × Operand)
  | [] => []
  | (key, x) :: rest =>
    (key, if isOperatorKey key then negateFilters x else .object [("$not", x)]) ::
      negateEntries rest

def negateFilters : Operand → Operand
  | .array xs => .array (negateElements xs)
  | x => x

/-- what is no object stays as it is -/
def negateElements : List Operand → List Operand
  | [] => []
  | .object es :: rest => .object (negateEntries es) :: negateElements rest
  | x :: rest => x :: negateElements rest

end

def Query.negated (q : Query) : Query := negateEntries q

/-! ## its tree -/

/-- the one operator `$not` before an operand -/
theorem fieldConditions_not (p : Polarity) (field : String) (x : Operand) :
    fieldConditions p field (.object [("$not", x)]) = fieldConditions p.flip field x := by
  rw [fieldConditions, operatorConditions, operatorConditions, if_pos rfl, List.append_nil]

mutual

theorem entryConditions_negate (p : Polarity) : ∀ es : List (String × Operand),
    entryConditions p (negateEntries es) = entryConditions p.flip es
  | [] => rfl
  | (key, x) :: rest => by
    rw [negateEntries, entryConditions, entryConditions, entryConditions_negate p rest]
    congr 1
    cases isOperatorKey key with
    | true => exact connectiveConditions_negate p key x
    | false => exact fieldConditions_not p key x

theorem connectiveConditions_negate (p : Polarity) (key : String) : ∀ x : Operand,
    connectiveConditions p key (negateFilters x) = connectiveConditions p.flip key x
  | .array xs => by
    unfold connectiveConditions
    cases Connective.ofKey? key with
    | none => rfl
    | some k =>
      show groupOf k (elementConditions (p.inside k) (negateElements xs)) =
        groupOf k (elementConditions (p.flip.inside k) xs)
      rw [elementConditions_negate (p.inside k) xs, Polarity.inside_flip]
  | .null => rfl
  | .boolean b => rfl
  | .number n => rfl
  | .string s => rfl
  | .timestamp t => rfl
  | .object es => rfl

theorem elementConditions_negate (p : Polarity) : ∀ xs : List Operand,
    elementConditions p (negateElements xs) = elementConditions p.flip xs
  | [] => rfl
  | .object es :: rest => by
    rw [negateElements, elementConditions, elementConditions, entryConditions_negate p es,
      elementConditions_negate p rest]
  | .null :: rest => elementConditions_negate p rest
  | .boolean b :: rest => elementConditions_negate p rest
  | .number n :: rest => elementConditions_negate p rest
  | .string s :: rest => elementConditions_negate p rest
  | .timestamp t :: rest => elementConditions_negate p rest
  | .array xs :: rest => elementConditions_negate p rest

end

theorem conditions_negated (p : Polarity) (q : Query) :
    q.negated.conditions p = q.conditions p.flip := entryConditions_negate p q

/-! ## its nesting -/

theorem fieldNesting_not (x : Operand) :
    fieldNesting (.object [("$not", x)]) = fieldNesting x + 1 := by
  rw [fieldNesting, operatorNesting, operatorNesting, if_pos rfl, Nat.max_zero]

mutual

theorem entryNesting_negate : ∀ es : List (String × Operand),
    entryNesting (negateEntries es) ≤ entryNesting es + 1
  | [] => Nat.zero_le _
  | (key, x) :: rest => by
    have hrest := entryNesting_negate rest
    rw [negateEntries, entryNesting, entryNesting]
    cases isOperatorKey key with
    | true =>
      show max (connectiveNesting (negateFilters x)) _ ≤ max (connectiveNesting x) _ + 1
      have hx := connectiveNesting_negate x
      omega
    | false =>
      show max (fieldNesting (.object [("$not", x)])) _ ≤ max (fieldNesting x) _ + 1
      rw [fieldNesting_not]
      omega

theorem connectiveNesting_negate : ∀ x : Operand,
    connectiveNesting (negateFilters x) ≤ connectiveNesting x + 1
  | .array xs => elementNesting_negate xs
  | .null => Nat.le_succ _
  | .boolean _ => Nat.le_succ _
  | .number _ => Nat.le_succ _
  | .string _ => Nat.le_succ _
  | .timestamp _ => Nat.le_succ _
  | .object _ => Nat.le_succ _

theorem elementNesting_negate : ∀ xs : List Operand,
    elementNesting (negateElements xs) ≤ elementNesting xs + 1
  | [] => Nat.zero_le _
  | .object es :: rest => by
    have hes := entryNesting_negate es
    have hrest := elementNesting_negate rest
    rw [negateElements, elementNesting, elementNesting]
    omega
  | .null :: rest => elementNesting_negate rest
  | .boolean _ :: rest => elementNesting_negate rest
  | .number _ :: rest => elementNesting_negate rest
  | .string _ :: rest => elementNesting_negate rest
  | .timestamp _ :: rest => elementNesting_negate rest
  | .array _ :: rest => elementNesting_negate rest

end

/-- a query negated at its fields is one level deeper at most -/
theorem nesting_negated (q : Query) : q.negated.nesting ≤ q.nesting + 1 := entryNesting_negate q

/-! ## its grammar -/

theorem IsFieldOperand.not {x : Operand} (h : IsFieldOperand x) :
    IsFieldOperand (.object [("$not", x)]) :=
  .operators (List.forall_mem_singleton.mpr (.not rfl h))

mutual

theorem isEntry_negateEntries : ∀ es : List (String × Operand),
    (∀ e ∈ es, IsEntry e.1 e.2) → ∀ e ∈ negateEntries es, IsEntry e.1 e.2
  | [], _ => fun _ h => absurd h List.not_mem_nil
  | (key, x) :: rest, h => by
    obtain ⟨hx, hrest⟩ := List.forall_mem_cons.mp h
    rw [negateEntries, List.forall_mem_cons]
    refine ⟨?_, isEntry_negateEntries rest hrest⟩
    cases hkey : isOperatorKey key with
    | true => exact isEntry_negateFilters hkey x hx
    | false =>
      cases hx with
      | field _ h => exact .field hkey h.not
      | connective hk _ => exact absurd (hkey.symm.trans (isOperatorKey_of_mem hk)) (by decide)

theorem isEntry_negateFilters {key : String} (hkey : isOperatorKey key = true) : ∀ x : Operand,
    IsEntry key x → IsEntry key (negateFilters x)
  | .array xs, h => by
    cases h with
    | field hk _ => exact absurd (hk.symm.trans hkey) (by decide)
    | connective hk h => exact .connective hk (isFilter_negateElements xs h)
  | .null, h => h
  | .boolean _, h => h
  | .number _, h => h
  | .string _, h => h
  | .timestamp _, h => h
  | .object _, h => h

theorem isFilter_negateElements : ∀ xs : List Operand,
    (∀ x ∈ xs, IsFilter x) → ∀ x ∈ negateElements xs, IsFilter x
  | [], _ => fun _ h => absurd h List.not_mem_nil
  | .object es :: rest, h => by
    obtain ⟨hes, hrest⟩ := List.forall_mem_cons.mp h
    cases hes with
    | query hes =>
      rw [negateElements, List.forall_mem_cons]
      exact ⟨.query (isEntry_negateEntries es hes), isFilter_negateElements rest hrest⟩
  | .null :: rest, h => by
    show ∀ x ∈ Operand.null :: negateElements rest, IsFilter x
    rw [List.forall_mem_cons]
    exact ⟨.null, isFilter_negateElements rest (List.forall_mem_cons.mp h).2⟩
  | .boolean _ :: _, h => nomatch h _ List.mem_cons_self
  | .number _ :: _, h => nomatch h _ List.mem_cons_self
  | .string _ :: _, h => nomatch h _ List.mem_cons_self
  | .timestamp _ :: _, h => nomatch h _ List.mem_cons_self
  | .array _ :: _, h => nomatch h _ List.mem_cons_self

end

theorem isQuery_negated {q : Query} (h : IsQuery q) : IsQuery q.negated :=
  isEntry_negateEntries q h

/-! ## its timestamps -/

theorem Operand.timestamps_not (x : Operand) :
    (Operand.object [("$not", x)]).timestamps = x.timestamps := List.append_nil x.timestamps

mutual

theorem entryTimestamps_negate : ∀ es : List (String × Operand),
    entryTimestamps (negateEntries es) = entryTimestamps es
  | [] => rfl
  | (key, x) :: rest => by
    rw [negateEntries, entryTimestamps, entryTimestamps, entryTimestamps_negate rest]
    congr 1
    cases isOperatorKey key with
    | true => exact timestamps_negateFilters x
    | false => exact x.timestamps_not

theorem timestamps_negateFilters : ∀ x : Operand, (negateFilters x).timestamps = x.timestamps
  | .array xs => operandTimestamps_negate xs
  | .null => rfl
  | .boolean _ => rfl
  | .number _ => rfl
  | .string _ => rfl
  | .timestamp _ => rfl
  | .object _ => rfl

theorem operandTimestamps_negate : ∀ xs : List Operand,
    operandTimestamps (negateElements xs) = operandTimestamps xs
  | [] => rfl
  | x :: rest => by
    have hrest := operandTimestamps_negate rest
    cases x with
    | object es =>
      show entryTimestamps (negateEntries es) ++ operandTimestamps (negateElements rest) =
        entryTimestamps es ++ operandTimestamps rest
      rw [entryTimestamps_negate es, hrest]
    | _ => exact congrArg (_ ++ ·) hrest

end

theorem isShown_negated {z : Zone} {q : Query} (h : q.IsShown z) : q.negated.IsShown z := by
  rw [Query.IsShown, Query.timestamps, Query.negated, entryTimestamps_negate]
  exact h

/-! ## both ways compiled -/

/-- **Starting with the other table is `$not` at each field.** Whatever condition a query has from
one table, its negation at the fields has from the other, with room for one level more. -/
theorem build_negated (c : Configuration) (p : Polarity) (q : Query) {sql : String}
    (h : q.build c p.flip = .ok sql) :
    q.negated.build { c with maxDepth := c.maxDepth + 1 } p = .ok sql := by
  let c' : Configuration := { c with maxDepth := c.maxDepth + 1 }
  obtain ⟨hdepth, hq, hshown⟩ := (exists_build_iff c p.flip q).mp ⟨sql, h⟩
  have hroom : q.negated.nesting ≤ c'.maxDepth :=
    Nat.le_trans (nesting_negated q) (Nat.succ_le_succ hdepth)
  obtain ⟨sql', h'⟩ := (exists_build_iff c' p q.negated).mpr
    ⟨hroom, isQuery_negated hq, isShown_negated hshown⟩
  rw [h', ((build_yields c' p q.negated).of_ok h').2, conditions_negated,
    ((build_yields c p.flip q).of_ok h).2]

/-- all four connectives, an empty field filter, a double negation and an element left out, with the
limit of the query reached -/
theorem build_negated_nested_connectives :
    let q : Query := [("a", .object []), ("$nand", .array [.null, .object [("$or", .array [
        .object [("b", .object [("$not", .object [("$not", .number (.integer 1))])])],
        .object [("$nor", .array [.object [("c.d", .array [.string "?"])]])]])],
      .object [("$and", .array [.object []])]])]
    let sql := "(((`b` = 1) OR ((`c`.`d` NOT IN ('?')))))"
    q.build { maxDepth := 4 } .negated = .ok sql ∧
      q.negated.build { maxDepth := 5 } .direct = .ok sql := by
  intro q sql
  have h : q.build { maxDepth := 4 } .negated = .ok sql := by rfl
  exact ⟨h, build_negated { maxDepth := 4 } .direct q h⟩

end WhereClause.Filter
