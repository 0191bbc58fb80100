import WhereClause.Proofs.Filter.Tokens

/-!
# Queries of one shape

Two queries have one shape if they are the same once the texts of field names and of string operands
are taken out. Keys of operators, kinds of operands, numbers and lengths of lists are part of it.

* `Query.blank`      a query without these texts;
* `faults_blank`     what is wrong with a query depends on its shape alone;
* `blankTokens_conditions`  and so do the tokens of its condition, up to what names and strings say.

No text that a user gives, whatever characters it has, ends a string or a name or starts a token.
-/

set_option autoImplicit false
set_option linter.unusedVariables false

namespace WhereClause.Filter

open WhereClause.Calendar WhereClause.Sql

/-! ## taking the texts out -/

mutual

def Operand.blank : Operand → Operand
  | .string _ => .string ""
  | .array xs => .array (blankOperands xs)
  | x => x

def blankOperands : List Operand → List Operand
  | [] => []
  | x :: xs => x.blank :: blankOperands xs

end

mutual

def blankEntries : List (String × Operand) → List (String × Operand)
  | [] => []
  | (key, x) :: rest =>
    (if isOperatorKey key then (key, blankFilters x) else ("", blankField x)) :: blankEntries rest

def blankField : Operand → Operand
  | .object es => .object (blankOperators es)
  | x => x.blank

def blankOperators : List (String × Operand) → List (String × Operand)
  | [] => []
  | (key, x) :: rest =>
    (key, if key = "$not" then blankField x else x.blank) :: blankOperators rest

def blankFilters : Operand → Operand
  | .array xs => .array (blankElements xs)
  | x => x

def blankElements : List Operand → List Operand
  | [] => []
  | .object es :: rest => .object (blankEntries es) :: blankElements rest
  | x :: rest => x :: blankElements rest

end

def Query.blank (q : Query) : Query := blankEntries q

/-! ## values without texts -/

mutual

def Value.blank : Value → Value
  | .string _ => .string ""
  | .list vs => .list (blankValues vs)
  | v => v

def blankValues : List Value → List Value
  | [] => []
  | v :: vs => Value.blank v :: blankValues vs

end

mutual

theorem value?_blank : ∀ x : Operand, x.blank.value? = x.value?.map Value.blank
  | .null => rfl
  | .boolean b => rfl
  | .number n => rfl
  | .string s => rfl
  | .timestamp t => rfl
  | .object es => rfl
  | .array xs => by
    rw [Operand.blank, Operand.value?, values?_blank xs, Operand.value?, Option.map_map,
      Option.map_map]
    rfl

theorem values?_blank : ∀ xs : List Operand,
    Operand.values? (blankOperands xs) = (Operand.values? xs).map blankValues
  | [] => rfl
  | x :: xs => by
    rw [blankOperands, Operand.values?, value?_blank x, values?_blank xs, Operand.values?]
    cases x.value? with
    | none => rfl
    | some v =>
      cases Operand.values? xs with
      | none => rfl
      | some vs => rfl

end

variable (o : Options)

mutual

theorem tokens_blank : ∀ v : Value,
    ((Value.blank v).tokens o).map Token.blank = (v.tokens o).map Token.blank
  | .null => rfl
  | .boolean b => rfl
  | .number n => rfl
  | .string s => rfl
  | .timestamp t => rfl
  | .list vs => by
    rw [Value.blank, Value.tokens, Value.tokens, map_intercalate, map_intercalate,
      elementTokens_blank vs]

theorem elementTokens_blank : ∀ vs : List Value,
    (elementTokens o (blankValues vs)).map (fun ts => ts.map Token.blank) =
      (elementTokens o vs).map fun ts => ts.map Token.blank
  | [] => rfl
  | .list ws :: vs => by
    rw [blankValues, Value.blank, elementTokens, elementTokens, List.map_cons, List.map_cons,
      elementTokens_blank vs]
    congr 1
    rw [List.cons_append, List.cons_append, List.map_cons, List.map_cons, List.map_append,
      List.map_append, map_intercalate, map_intercalate, elementTokens_blank ws]
  | .null :: vs => congrArg (_ :: ·) (elementTokens_blank vs)
  | .boolean b :: vs => congrArg (_ :: ·) (elementTokens_blank vs)
  | .number n :: vs => congrArg (_ :: ·) (elementTokens_blank vs)
  | .string s :: vs => congrArg (_ :: ·) (elementTokens_blank vs)
  | .timestamp t :: vs => congrArg (_ :: ·) (elementTokens_blank vs)

end

theorem members_blank (v : Value) : (Value.blank v).members = blankValues v.members := by
  cases v <;> rfl

/-! ## comparisons without texts -/

/-- the tokens of an atom, without what names and strings say -/
def Atom.blankTokens (a : Atom) : List Token := (a.tokens o).map Token.blank

theorem blankTokens_compare (k : Comparison) (field field' : String) (v : Value) :
    (Atom.compare k field' (Value.blank v)).blankTokens o =
      (Atom.compare k field v).blankTokens o := by
  have hlist : List.map Token.blank (if k.isMembership then
        .symbol "(" :: (Value.blank v).tokens o ++ [.symbol ")"] else (Value.blank v).tokens o) =
      List.map Token.blank (if k.isMembership then
        .symbol "(" :: v.tokens o ++ [.symbol ")"] else v.tokens o) := by
    split
    · rw [List.cons_append, List.cons_append, List.map_cons, List.map_cons, List.map_append,
        List.map_append, tokens_blank]
    · exact tokens_blank o v
  rw [Atom.blankTokens, Atom.blankTokens, Atom.tokens, Atom.tokens, List.map_cons, List.map_cons,
    List.map_append, List.map_append, hlist]
  rfl

theorem pattern?_blank (x : Operand) : x.blank.pattern?.isSome = x.pattern?.isSome := by
  cases x <;> rfl

theorem kind_blank (x : Operand) : x.blank.kind = x.kind := by cases x <;> rfl

/-- an atom of an operand without texts -/
theorem atom?_blank (k : Comparison) (field field' : String) (x : Operand) :
    (k.atom? field' x.blank).map (Atom.blankTokens o) =
      (k.atom? field x).map (Atom.blankTokens o) := by
  have pattern : ((x.blank.pattern?.map fun s =>
      Atom.compare k field' (.string ("%" ++ s ++ "%"))).map (Atom.blankTokens o)) =
      (x.pattern?.map fun s => Atom.compare k field (.string ("%" ++ s ++ "%"))).map
        (Atom.blankTokens o) := by
    have hs := pattern?_blank x
    cases hx : x.pattern? with
    | none =>
      rw [hx] at hs
      have hnone : x.blank.pattern? = none := by simpa using hs
      rw [hnone]
      rfl
    | some s =>
      rw [hx] at hs
      obtain ⟨t, ht⟩ := Option.isSome_iff_exists.mp hs
      rw [ht]
      have hl := blankTokens_compare o k field field' (.string ("%" ++ s ++ "%"))
      have hr := blankTokens_compare o k field' field' (.string ("%" ++ t ++ "%"))
      exact congrArg some (hr.symm.trans hl)
  have value (f g : Value → Atom)
      (h : ∀ v, (g (Value.blank v)).blankTokens o = (f v).blankTokens o) :
      (x.blank.value?.map g).map (Atom.blankTokens o) =
        (x.value?.map f).map (Atom.blankTokens o) := by
    rw [value?_blank]
    cases x.value? with
    | none => rfl
    | some v => exact congrArg some (h v)
  cases k with
  | like => exact pattern
  | notLike => exact pattern
  | isIn =>
    refine value _ _ fun v => ?_
    rw [members_blank]
    cases v.members with
    | nil => rfl
    | cons w ws => exact blankTokens_compare o .isIn field field' (.list (w :: ws))
  | notIn =>
    refine value _ _ fun v => ?_
    rw [members_blank]
    cases v.members with
    | nil => rfl
    | cons w ws => exact blankTokens_compare o .notIn field field' (.list (w :: ws))
  | equal => exact value _ _ (blankTokens_compare o _ field field')
  | notEqual => exact value _ _ (blankTokens_compare o _ field field')
  | greater => exact value _ _ (blankTokens_compare o _ field field')
  | greaterOrEqual => exact value _ _ (blankTokens_compare o _ field field')
  | less => exact value _ _ (blankTokens_compare o _ field field')
  | lessOrEqual => exact value _ _ (blankTokens_compare o _ field field')

theorem leafConditions_blank (p : Polarity) (field field' key : String) (x : Operand) :
    mapConditions (Atom.blankTokens o) (leafConditions p field' key x.blank) =
      mapConditions (Atom.blankTokens o) (leafConditions p field key x) := by
  have atoms (a : Option Atom) : mapConditions (Atom.blankTokens o) (a.toList.map .atom) =
      (a.map (Atom.blankTokens o)).toList.map .atom := by
    cases a <;> rfl
  unfold leafConditions
  split
  · rw [atoms, atoms, atom?_blank o _ field field']
  · rfl

theorem leafFaults_blank (key : String) (x : Operand) : leafFaults key x.blank = leafFaults key x := by
  have hv : x.blank.value?.isSome = x.value?.isSome := by rw [value?_blank, Option.isSome_map]
  unfold leafFaults
  split
  · unfold Comparison.faults
    rw [hv, pattern?_blank, kind_blank]
  · rfl

mutual

theorem timestamps_blank : ∀ x : Operand, x.blank.timestamps = x.timestamps
  | .array xs => operandTimestamps_blank xs
  | .null => rfl
  | .boolean b => rfl
  | .number n => rfl
  | .string s => rfl
  | .timestamp t => rfl
  | .object es => rfl

theorem operandTimestamps_blank : ∀ xs : List Operand,
    operandTimestamps (blankOperands xs) = operandTimestamps xs
  | [] => rfl
  | x :: xs => by
    rw [blankOperands, operandTimestamps, timestamps_blank x, operandTimestamps_blank xs,
      operandTimestamps]

end

theorem leafWalk_blank (z : Zone) (key : String) (x : Operand) :
    leafWalk z key x.blank = leafWalk z key x := by
  have hshown : x.blank.IsShown z ↔ x.IsShown z := by
    rw [Operand.IsShown, timestamps_blank, Operand.IsShown]
  exact Walk.ext (leafFaults_blank key x) (leafStops_congr hshown)

/-! ## queries without texts -/

variable (p : Polarity)

mutual

theorem fieldConditions_blank (p : Polarity) (field field' : String) : ∀ x : Operand,
    mapConditions (Atom.blankTokens o) (fieldConditions p field' (blankField x)) =
      mapConditions (Atom.blankTokens o) (fieldConditions p field x)
  | .object es => operatorConditions_blank p field field' es
  | .array xs => leafConditions_blank o p field field' "$in" (.array xs)
  | .null => leafConditions_blank o p field field' "$eq" .null
  | .boolean b => leafConditions_blank o p field field' "$eq" (.boolean b)
  | .number n => leafConditions_blank o p field field' "$eq" (.number n)
  | .string s => leafConditions_blank o p field field' "$eq" (.string s)
  | .timestamp t => leafConditions_blank o p field field' "$eq" (.timestamp t)

theorem operatorConditions_blank (p : Polarity) (field field' : String) :
    ∀ es : List (String × Operand),
      mapConditions (Atom.blankTokens o) (operatorConditions p field' (blankOperators es)) =
        mapConditions (Atom.blankTokens o) (operatorConditions p field es)
  | [] => rfl
  | (key, x) :: rest => by
    rw [blankOperators, operatorConditions, operatorConditions, mapConditions_append,
      mapConditions_append, operatorConditions_blank p field field' rest]
    congr 1
    split
    · exact fieldConditions_blank p.flip field field' x
    · exact leafConditions_blank o p field field' key x

end

/-- the key that takes the place of a field is one of a field -/
theorem isOperatorKey_empty : isOperatorKey "" = false := by decide

mutual

theorem entryConditions_blank (p : Polarity) : ∀ es : List (String × Operand),
    mapConditions (Atom.blankTokens o) (entryConditions p (blankEntries es)) =
      mapConditions (Atom.blankTokens o) (entryConditions p es)
  | [] => rfl
  | (key, x) :: rest => by
    rw [blankEntries]
    cases hkey : isOperatorKey key with
    | true =>
      show mapConditions _ (entryConditions p ((key, blankFilters x) :: blankEntries rest)) = _
      rw [entryConditions, entryConditions, mapConditions_append, mapConditions_append, hkey,
        entryConditions_blank p rest]
      congr 1
      exact connectiveConditions_blank p key x
    | false =>
      show mapConditions _ (entryConditions p (("", blankField x) :: blankEntries rest)) = _
      rw [entryConditions, entryConditions, mapConditions_append, mapConditions_append, hkey,
        isOperatorKey_empty, entryConditions_blank p rest]
      congr 1
      exact fieldConditions_blank o p key "" x

theorem connectiveConditions_blank (p : Polarity) (key : String) : ∀ x : Operand,
    mapConditions (Atom.blankTokens o) (connectiveConditions p key (blankFilters x)) =
      mapConditions (Atom.blankTokens o) (connectiveConditions p key x)
  | .array xs => by
    unfold connectiveConditions
    cases Connective.ofKey? key with
    | none => rfl
    | some k =>
      show mapConditions _ (groupOf k (elementConditions (p.inside k) (blankElements xs))) =
        mapConditions _ (groupOf k (elementConditions (p.inside k) xs))
      rw [mapConditions_groupOf, mapConditions_groupOf, elementConditions_blank (p.inside k) xs]
  | .null => rfl
  | .boolean b => rfl
  | .number n => rfl
  | .string s => rfl
  | .timestamp t => rfl
  | .object es => rfl

theorem elementConditions_blank (p : Polarity) : ∀ xs : List Operand,
    mapParts (Atom.blankTokens o) (elementConditions p (blankElements xs)) =
      mapParts (Atom.blankTokens o) (elementConditions p xs)
  | [] => rfl
  | .object es :: rest => by
    rw [blankElements, elementConditions, elementConditions, mapParts_append, mapParts_append,
      mapParts_partOf, mapParts_partOf, entryConditions_blank p es, elementConditions_blank p rest]
  | .null :: rest => elementConditions_blank p rest
  | .boolean b :: rest => elementConditions_blank p rest
  | .number n :: rest => elementConditions_blank p rest
  | .string s :: rest => elementConditions_blank p rest
  | .timestamp t :: rest => elementConditions_blank p rest
  | .array xs :: rest => elementConditions_blank p rest

end

/-- the tokens of a tree, without what names and strings say, are made of those of its atoms -/
theorem blankTokens_conjunction (ts : List (Condition Atom)) :
    (conjunctionTokens o ts).map Token.blank =
      itemTokens id (conjunctionItems (mapConditions (Atom.blankTokens o) ts)) := by
  rw [conjunctionItems_map, conjunctionTokens, itemTokens, List.map_flatMap, itemTokens,
    List.flatMap_map]
  congr 1
  funext i
  cases i <;> rfl

/-- **The tokens depend on the shape alone**, up to what names and strings say. -/
theorem blankTokens_conditions (q : Query) :
    (conjunctionTokens o (q.blank.conditions p)).map Token.blank =
      (conjunctionTokens o (q.conditions p)).map Token.blank := by
  rw [blankTokens_conjunction, blankTokens_conjunction]
  exact congrArg (fun ts => itemTokens id (conjunctionItems ts)) (entryConditions_blank o p q)

/-! ## what is wrong with queries without texts -/

variable (c : Configuration)

mutual

theorem fieldWalk_blank (depth : Nat) : ∀ x : Operand,
    fieldWalk c depth (blankField x) = fieldWalk c depth x
  | .object es => operatorWalk_blank depth es
  | .array xs => leafWalk_blank c.options.zone "$in" (.array xs)
  | .null => rfl
  | .boolean b => rfl
  | .number n => rfl
  | .string s => rfl
  | .timestamp t => rfl

theorem operatorWalk_blank (depth : Nat) : ∀ es : List (String × Operand),
    fieldWalk c depth (.object (blankOperators es)) = fieldWalk c depth (.object es)
  | [] => rfl
  | (key, x) :: rest => by
    rw [blankOperators, fieldWalk_cons, fieldWalk_cons, operatorWalk_blank depth rest]
    congr 1
    split
    · rw [fieldWalk_blank (depth + 1) x]
    · exact leafWalk_blank c.options.zone key x

end

mutual

theorem entryWalk_blank (depth : Nat) : ∀ es : List (String × Operand),
    entryWalk c depth (blankEntries es) = entryWalk c depth es
  | [] => rfl
  | (key, x) :: rest => by
    rw [blankEntries]
    cases hkey : isOperatorKey key with
    | true =>
      show entryWalk c depth ((key, blankFilters x) :: blankEntries rest) = _
      rw [entryWalk_cons, entryWalk_cons, hkey, entryWalk_blank depth rest,
        connectiveFaults_blank depth key x]
      rfl
    | false =>
      show entryWalk c depth (("", blankField x) :: blankEntries rest) = _
      rw [entryWalk_cons, entryWalk_cons, hkey, isOperatorKey_empty, entryWalk_blank depth rest,
        fieldWalk_blank c depth x]
      rfl

theorem connectiveFaults_blank (depth : Nat) (key : String) : ∀ x : Operand,
    connectiveFaults c depth key (blankFilters x) = connectiveFaults c depth key x
  | .array xs => by
    unfold connectiveFaults
    cases Connective.ofKey? key with
    | none => rfl
    | some k => exact elementFaults_blank depth key xs
  | .null => rfl
  | .boolean b => rfl
  | .number n => rfl
  | .string s => rfl
  | .timestamp t => rfl
  | .object es => rfl

theorem elementFaults_blank (depth : Nat) (key : String) : ∀ xs : List Operand,
    elementFaults c depth key (blankElements xs) = elementFaults c depth key xs
  | [] => rfl
  | .object es :: rest => by
    rw [blankElements, elementFaults_cons, elementFaults_cons, entryWalk_blank (depth + 1) es,
      elementFaults_blank depth key rest]
  | .null :: rest => elementFaults_blank depth key rest
  | .boolean b :: rest => congrArg (_ :: ·) (elementFaults_blank depth key rest)
  | .number n :: rest => congrArg (_ :: ·) (elementFaults_blank depth key rest)
  | .string s :: rest => congrArg (_ :: ·) (elementFaults_blank depth key rest)
  | .timestamp t :: rest => congrArg (_ :: ·) (elementFaults_blank depth key rest)
  | .array xs :: rest => congrArg (_ :: ·) (elementFaults_blank depth key rest)

end

theorem faults_blank (q : Query) : q.blank.faults c = q.faults c :=
  congrArg Walk.faults (entryWalk_blank c 0 q)

/-! ## no text leaves its token -/

/-- the tokens of a condition are those of the tree of the query -/
theorem lex_of_build {c : Configuration} {p : Polarity} {q : Query} {sql : String}
    (h : q.build c p = .ok sql) :
    lex c.options.dialect sql.toList = some (conjunctionTokens c.options (q.conditions p)) := by
  rw [((build_yields c p q).of_ok h).2]
  exact (lexes_conjunction c.options (q.conditions p)).lex_eq

/-- **No text that a user gives leaves its token.** The condition has the tokens of the tree of the
query, its names and strings are those of the leaves, and a query of the same shape has the same
tokens but for what these say. -/
theorem lex_build (c : Configuration) (p : Polarity) (q : Query) {sql : String}
    (h : q.build c p = .ok sql) :
    ∃ ts, lex c.options.dialect sql.toList = some ts ∧
      ts = conjunctionTokens c.options (q.conditions p) ∧
      ts.filterMap Token.name? = (q.leaves p.negations).flatMap Leaf.names ∧
      ts.filterMap Token.string? =
        (q.leaves p.negations).flatMap (Leaf.strings c.options.zone) ∧
      ∀ q' : Query, q'.blank = q.blank → ∃ sql' us, q'.build c p = .ok sql' ∧
        lex c.options.dialect sql'.toList = some us ∧
        us.map Token.blank = ts.map Token.blank := by
  refine ⟨_, lex_of_build h, rfl, names_of_build h, strings_of_build h, fun q' hq => ?_⟩
  have hfaults : q'.faults c = [] := by
    rw [← faults_blank c q', hq, faults_blank, ((build_yields c p q).of_ok h).1]
  obtain ⟨sql', h'⟩ := (build_yields c p q').ok_iff.mpr hfaults
  refine ⟨sql', _, h', lex_of_build h', ?_⟩
  rw [← blankTokens_conditions, hq, blankTokens_conditions]

/-- texts with quotes, a comment and a backslash in the places of plain ones -/
theorem lex_build_hostile_texts :
    let q : Query := [("a.b", .object [("$like", .string "c")]),
      ("$nor", .array [.object [("d", .array [.string "e", .null])]])]
    let q' : Query := [("`.\"", .object [("$like", .string "' OR 1 = 1 -- ")]),
      ("$nor", .array [.object [("?", .array [.string "\\'", .null])]])]
    q.build {} .direct = .ok "`a`.`b` LIKE '%c%' AND (`d` NOT IN ('e', NULL))" ∧
      q'.blank = q.blank ∧
      ∃ (ts : List Token) (sql' : String) (us : List Token),
        ts.filterMap Token.name? = [["a", "b"], ["d"]] ∧
        ts.filterMap Token.string? = ["%c%", "e"] ∧ q'.build {} .direct = .ok sql' ∧
        lex .mysql sql'.toList = some us ∧ us.map Token.blank = ts.map Token.blank := by
  intro q q'
  have h : q.build {} .direct = .ok "`a`.`b` LIKE '%c%' AND (`d` NOT IN ('e', NULL))" := by rfl
  have hq : q'.blank = q.blank := by rfl
  obtain ⟨ts, _, _, hnames, hstrings, hshape⟩ := lex_build {} .direct q h
  obtain ⟨sql', us, h', hlex, hus⟩ := hshape q' hq
  exact ⟨h, hq, ts, sql', us, hnames, hstrings, h', hlex, hus⟩

end WhereClause.Filter
