import WhereClause.Proofs.Filter.Atoms

/-!
# The offsets of instants

An instant is held with the offset that it was given with, and written as the clocks of a zone show
it, so its offset is nowhere in a condition.

* `Query.plain`        a query with all instants given at the offset zero;
* `conditions_plain`   its tree has the values without their offsets;
* `faults_plain`       it has the same errors;
* `build_plain`        it is compiled to the same.
-/

set_option autoImplicit false
set_option linter.unusedVariables false

namespace WhereClause.Filter

open WhereClause.Calendar WhereClause.Sql

/-! ## values without offsets -/

/-- the same time or instant, given at the offset zero -/
def plainTime : Timestamp → Timestamp
  | .zoned utc _ => .zoned utc 0
  | t => t

theorem shownText_plainTime (z : Zone) (t : Timestamp) :
    (plainTime t).shownText z = t.shownText z := by
  cases t <;> rfl

theorem isShown_plainTime {z : Zone} {t : Timestamp} : (plainTime t).IsShown z ↔ t.IsShown z := by
  cases t <;> rfl

mutual

def Value.plain : Value → Value
  | .timestamp t => .timestamp (plainTime t)
  | .list vs => .list (plainValues vs)
  | v => v

def plainValues : List Value → List Value
  | [] => []
  | v :: vs => Value.plain v :: plainValues vs

end

def Atom.plain : Atom → Atom
  | .compare k field v => .compare k field (Value.plain v)
  | a => a

mutual

theorem literal_plain (o : Options) : ∀ v : Value, (Value.plain v).literal o = v.literal o
  | .null => rfl
  | .boolean b => rfl
  | .number n => rfl
  | .string s => rfl
  | .timestamp t => congrArg o.dialect.quoteString (shownText_plainTime o.zone t)
  | .list vs => congrArg (String.intercalate ", ") (elementLiterals_plain o vs)

theorem elementLiterals_plain (o : Options) : ∀ vs : List Value,
    Value.elementLiterals o (plainValues vs) = Value.elementLiterals o vs
  | [] => rfl
  | .list ws :: vs => by
    rw [plainValues, Value.plain, Value.elementLiterals, Value.elementLiterals,
      elementLiterals_plain o ws, elementLiterals_plain o vs]
  | .null :: vs => congrArg (_ :: ·) (elementLiterals_plain o vs)
  | .boolean b :: vs => congrArg (_ :: ·) (elementLiterals_plain o vs)
  | .number n :: vs => congrArg (_ :: ·) (elementLiterals_plain o vs)
  | .string s :: vs => congrArg (_ :: ·) (elementLiterals_plain o vs)
  | .timestamp t :: vs => by
    show _ :: _ = _ :: _
    rw [elementLiterals_plain o vs]
    exact congrArg (· :: _) (literal_plain o (.timestamp t))

end

theorem Atom.text_plain (o : Options) (a : Atom) : a.plain.text o = a.text o := by
  cases a with
  | compare k field v =>
    show k.text o field (Value.plain v) = k.text o field v
    rw [Comparison.text, Comparison.text, literal_plain]
  | constant b => rfl

/-! ## operands without offsets -/

mutual

def Operand.plain : Operand → Operand
  | .timestamp t => .timestamp (plainTime t)
  | .array xs => .array (plainElements xs)
  | .object es => .object (plainEntries es)
  | x => x

def plainElements : List Operand → List Operand
  | [] => []
  | x :: xs => x.plain :: plainElements xs

def plainEntries : List (String × Operand) → List (String × Operand)
  | [] => []
  | (key, x) :: rest => (key, x.plain) :: plainEntries rest

end

def Query.plain (q : Query) : Query := plainEntries q

mutual

theorem value?_plain : ∀ x : Operand, x.plain.value? = x.value?.map Value.plain
  | .null => rfl
  | .boolean b => rfl
  | .number n => rfl
  | .string s => rfl
  | .timestamp t => rfl
  | .object es => rfl
  | .array xs => by
    rw [Operand.plain, Operand.value?, values?_plain xs, Operand.value?, Option.map_map,
      Option.map_map]
    rfl

theorem values?_plain : ∀ xs : List Operand,
    Operand.values? (plainElements xs) = (Operand.values? xs).map plainValues
  | [] => rfl
  | x :: xs => by
    rw [plainElements, Operand.values?, value?_plain x, values?_plain xs, Operand.values?]
    cases x.value? with
    | none => rfl
    | some v =>
      cases Operand.values? xs with
      | none => rfl
      | some vs => rfl

end

theorem pattern?_plain (x : Operand) : x.plain.pattern? = x.pattern? := by cases x <;> rfl

theorem kind_plain (x : Operand) : x.plain.kind = x.kind := by cases x <;> rfl

theorem members_plain (v : Value) : (Value.plain v).members = plainValues v.members := by
  cases v <;> rfl

/-! ## comparisons without offsets -/

theorem atom?_plain (k : Comparison) (field : String) (x : Operand) :
    k.atom? field x.plain = (k.atom? field x).map Atom.plain := by
  have pattern (k : Comparison) : (x.plain.pattern?.map fun s =>
        Atom.compare k field (.string ("%" ++ s ++ "%"))) =
      (x.pattern?.map fun s => Atom.compare k field (.string ("%" ++ s ++ "%"))).map
        Atom.plain := by
    rw [pattern?_plain, Option.map_map]
    rfl
  have value (f : Value → Atom) (h : ∀ v, f (Value.plain v) = (f v).plain) :
      x.plain.value?.map f = (x.value?.map f).map Atom.plain := by
    rw [value?_plain, Option.map_map, Option.map_map]
    exact congrArg (x.value?.map ·) (funext h)
  cases k with
  | like => exact pattern .like
  | notLike => exact pattern .notLike
  | isIn => exact value _ fun v => by rw [members_plain]; cases v.members <;> rfl
  | notIn => exact value _ fun v => by rw [members_plain]; cases v.members <;> rfl
  | equal => exact value _ fun v => rfl
  | notEqual => exact value _ fun v => rfl
  | greater => exact value _ fun v => rfl
  | greaterOrEqual => exact value _ fun v => rfl
  | less => exact value _ fun v => rfl
  | lessOrEqual => exact value _ fun v => rfl

theorem leafConditions_plain (p : Polarity) (field key : String) (x : Operand) :
    leafConditions p field key x.plain =
      mapConditions Atom.plain (leafConditions p field key x) := by
  unfold leafConditions
  split
  · rw [atom?_plain, mapConditions_map_atom, Option.toList_map]
  · rfl

theorem leafFaults_plain (key : String) (x : Operand) :
    leafFaults key x.plain = leafFaults key x := by
  have hvalue : x.plain.value?.isSome = x.value?.isSome := by rw [value?_plain, Option.isSome_map]
  unfold leafFaults
  split
  · unfold Comparison.faults
    rw [hvalue, pattern?_plain, kind_plain]
  · rfl

mutual

theorem timestamps_plain : ∀ x : Operand, x.plain.timestamps = x.timestamps.map plainTime
  | .timestamp t => rfl
  | .array xs => operandTimestamps_plain xs
  | .object es => entryTimestamps_plain es
  | .null => rfl
  | .boolean b => rfl
  | .number n => rfl
  | .string s => rfl

theorem operandTimestamps_plain : ∀ xs : List Operand,
    operandTimestamps (plainElements xs) = (operandTimestamps xs).map plainTime
  | [] => rfl
  | x :: xs => by
    rw [plainElements, operandTimestamps, timestamps_plain x, operandTimestamps_plain xs,
      operandTimestamps, List.map_append]

theorem entryTimestamps_plain : ∀ es : List (String × Operand),
    entryTimestamps (plainEntries es) = (entryTimestamps es).map plainTime
  | [] => rfl
  | (key, x) :: es => by
    rw [plainEntries, entryTimestamps, timestamps_plain x, entryTimestamps_plain es,
      entryTimestamps, List.map_append]

end

theorem isShown_plain {z : Zone} {x : Operand} : x.plain.IsShown z ↔ x.IsShown z := by
  unfold Operand.IsShown
  rw [timestamps_plain]
  simp only [List.forall_mem_map, isShown_plainTime]

theorem leafWalk_plain (z : Zone) (key : String) (x : Operand) :
    leafWalk z key x.plain = leafWalk z key x :=
  Walk.ext (leafFaults_plain key x) (leafStops_congr isShown_plain)

/-! ## trees without offsets -/

mutual

theorem fieldConditions_plain (p : Polarity) (field : String) : ∀ x : Operand,
    fieldConditions p field x.plain = mapConditions Atom.plain (fieldConditions p field x)
  | .object es => operatorConditions_plain p field es
  | .array xs => leafConditions_plain p field "$in" (.array xs)
  | .null => leafConditions_plain p field "$eq" .null
  | .boolean b => leafConditions_plain p field "$eq" (.boolean b)
  | .number n => leafConditions_plain p field "$eq" (.number n)
  | .string s => leafConditions_plain p field "$eq" (.string s)
  | .timestamp t => leafConditions_plain p field "$eq" (.timestamp t)

theorem operatorConditions_plain (p : Polarity) (field : String) :
    ∀ es : List (String × Operand), operatorConditions p field (plainEntries es) =
      mapConditions Atom.plain (operatorConditions p field es)
  | [] => rfl
  | (key, x) :: rest => by
    rw [plainEntries, operatorConditions, operatorConditions, mapConditions_append,
      operatorConditions_plain p field rest]
    congr 1
    split
    · exact fieldConditions_plain p.flip field x
    · exact leafConditions_plain p field key x

end

/-- what is no list says nothing inside a connective -/
theorem connectiveConditions_plain_of_ne (p : Polarity) (key : String) {x : Operand}
    (hx : ∀ xs, x ≠ .array xs) : connectiveConditions p key x.plain =
      mapConditions Atom.plain (connectiveConditions p key x) := by
  have hplain : ∀ xs, x.plain ≠ .array xs := by
    cases x with
    | array xs => exact absurd rfl (hx xs)
    | _ => exact fun _ h => nomatch h
  rw [connectiveConditions_of_ne hx, connectiveConditions_of_ne hplain]
  rfl

mutual

theorem entryConditions_plain (p : Polarity) : ∀ es : List (String × Operand),
    entryConditions p (plainEntries es) = mapConditions Atom.plain (entryConditions p es)
  | [] => rfl
  | (key, x) :: rest => by
    rw [plainEntries, entryConditions, entryConditions, mapConditions_append,
      entryConditions_plain p rest]
    congr 1
    split
    · exact connectiveConditions_plain p key x
    · exact fieldConditions_plain p key x

theorem connectiveConditions_plain (p : Polarity) (key : String) : ∀ x : Operand,
    connectiveConditions p key x.plain =
      mapConditions Atom.plain (connectiveConditions p key x)
  | .array xs => by
    rw [Operand.plain]
    unfold connectiveConditions
    cases Connective.ofKey? key with
    | none => rfl
    | some k =>
      show groupOf k (elementConditions (p.inside k) (plainElements xs)) =
        mapConditions Atom.plain (groupOf k (elementConditions (p.inside k) xs))
      rw [mapConditions_groupOf, elementConditions_plain (p.inside k) xs]
  | .null => connectiveConditions_plain_of_ne p key fun _ h => nomatch h
  | .boolean b => connectiveConditions_plain_of_ne p key fun _ h => nomatch h
  | .number n => connectiveConditions_plain_of_ne p key fun _ h => nomatch h
  | .string s => connectiveConditions_plain_of_ne p key fun _ h => nomatch h
  | .timestamp t => connectiveConditions_plain_of_ne p key fun _ h => nomatch h
  | .object es => connectiveConditions_plain_of_ne p key fun _ h => nomatch h

theorem elementConditions_plain (p : Polarity) : ∀ xs : List Operand,
    elementConditions p (plainElements xs) = mapParts Atom.plain (elementConditions p xs)
  | [] => rfl
  | .object es :: rest => by
    rw [plainElements, Operand.plain, elementConditions, elementConditions, mapParts_append,
      mapParts_partOf, entryConditions_plain p es, elementConditions_plain p rest]
  | .null :: rest => elementConditions_plain p rest
  | .boolean b :: rest => elementConditions_plain p rest
  | .number n :: rest => elementConditions_plain p rest
  | .string s :: rest => elementConditions_plain p rest
  | .timestamp t :: rest => elementConditions_plain p rest
  | .array xs :: rest => elementConditions_plain p rest

end

/-! ## errors without offsets -/

variable (c : Configuration)

mutual

theorem fieldWalk_plain (depth : Nat) : ∀ x : Operand,
    fieldWalk c depth x.plain = fieldWalk c depth x
  | .object es => operatorWalk_plain depth es
  | .array xs => leafWalk_plain c.options.zone "$in" (.array xs)
  | .null => rfl
  | .boolean b => rfl
  | .number n => rfl
  | .string s => rfl
  | .timestamp t => leafWalk_plain c.options.zone "$eq" (.timestamp t)

theorem operatorWalk_plain (depth : Nat) : ∀ es : List (String × Operand),
    fieldWalk c depth (.object (plainEntries es)) = fieldWalk c depth (.object es)
  | [] => rfl
  | (key, x) :: rest => by
    rw [plainEntries, fieldWalk_cons, fieldWalk_cons, operatorWalk_plain depth rest]
    congr 1
    split
    · rw [fieldWalk_plain (depth + 1) x]
    · exact leafWalk_plain c.options.zone key x

end

mutual

theorem entryWalk_plain (depth : Nat) : ∀ es : List (String × Operand),
    entryWalk c depth (plainEntries es) = entryWalk c depth es
  | [] => rfl
  | (key, x) :: rest => by
    rw [plainEntries, entryWalk_cons, entryWalk_cons, entryWalk_plain depth rest]
    congr 1
    split
    · rw [connectiveFaults_plain depth key x]
    · exact fieldWalk_plain c depth x

theorem connectiveFaults_plain (depth : Nat) (key : String) : ∀ x : Operand,
    connectiveFaults c depth key x.plain = connectiveFaults c depth key x
  | .array xs => by
    rw [Operand.plain]
    unfold connectiveFaults
    split
    · rfl
    · exact elementFaults_plain depth key xs
  | .null => rfl
  | .boolean b => rfl
  | .number n => rfl
  | .string s => rfl
  | .timestamp t => rfl
  | .object es => by
    unfold connectiveFaults
    split <;> rfl

theorem elementFaults_plain (depth : Nat) (key : String) : ∀ xs : List Operand,
    elementFaults c depth key (plainElements xs) = elementFaults c depth key xs
  | [] => rfl
  | .object es :: rest => by
    rw [plainElements, Operand.plain, elementFaults_cons, elementFaults_cons,
      entryWalk_plain (depth + 1) es, elementFaults_plain depth key rest]
  | .null :: rest => elementFaults_plain depth key rest
  | .boolean b :: rest => congrArg (_ :: ·) (elementFaults_plain depth key rest)
  | .number n :: rest => congrArg (_ :: ·) (elementFaults_plain depth key rest)
  | .string s :: rest => congrArg (_ :: ·) (elementFaults_plain depth key rest)
  | .timestamp t :: rest => congrArg (_ :: ·) (elementFaults_plain depth key rest)
  | .array xs :: rest => congrArg (_ :: ·) (elementFaults_plain depth key rest)

end

/-! ## queries without offsets -/

theorem conditions_plain (p : Polarity) (q : Query) :
    q.plain.conditions p = mapConditions Atom.plain (q.conditions p) := entryConditions_plain p q

theorem faults_plain (q : Query) : q.plain.faults c = q.faults c :=
  congrArg Walk.faults (entryWalk_plain c 0 q)

mutual

/-- a change of atoms that keeps their texts keeps the texts of trees -/
theorem Condition.text_map {o : Options} {f : Atom → Atom} (hf : ∀ a, (f a).text o = a.text o) :
    ∀ t : Condition Atom, (t.map f).text o = t.text o
  | .atom a => hf a
  | .group k parts => by
    rw [Condition.map, Condition.text, partTexts_map hf parts, Condition.text]

theorem conditionTexts_map {o : Options} {f : Atom → Atom} (hf : ∀ a, (f a).text o = a.text o) :
    ∀ ts : List (Condition Atom), conditionTexts o (mapConditions f ts) = conditionTexts o ts
  | [] => rfl
  | t :: ts => by
    rw [mapConditions, conditionTexts, t.text_map hf, conditionTexts_map hf ts, conditionTexts]

theorem partTexts_map {o : Options} {f : Atom → Atom} (hf : ∀ a, (f a).text o = a.text o) :
    ∀ ps : List (List (Condition Atom)), partTexts o (mapParts f ps) = partTexts o ps
  | [] => rfl
  | p :: ps => by
    rw [mapParts, partTexts, conditionTexts_map hf p, partTexts_map hf ps, partTexts]

end

/-- **Offsets do not matter.** A query is compiled as if all instants were given in UTC. -/
theorem build_plain (p : Polarity) (q : Query) : q.plain.build c p = q.build c p := by
  have h := build_yields c p q.plain
  rw [conditions_plain, faults_plain] at h
  refine (h.agree (build_yields c p q) fun s t hs ht => ?_).eq
  rw [hs, ht, conjunctionText, conditionTexts_map (Atom.text_plain c.options), conjunctionText]

end WhereClause.Filter
