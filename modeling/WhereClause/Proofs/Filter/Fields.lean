import WhereClause.Proofs.Filter.Structure

/-!
# Queries changed at their fields

The operands of all fields of a query, and of the queries inside its connectives, are changed each
on its own, and the rest of the query stays. What such a change keeps at one field it keeps in the
query.

* `Query.mapFields`      a query with the operands of its fields changed;
* `conditions_mapFields` the tree is kept;
* `walk_mapFields`       the errors are kept, or what else a relation of walks keeps.
-/

set_option autoImplicit false

namespace WhereClause.Filter

open WhereClause.Sql

/-- where an operand stands: the numbers of the entries and elements on the way to it, the last one
first -/
abbrev Position := List Nat

mutual

def mapEntries (f : Position → Operand → Operand) (place : Position) (i : Nat) :
    List (String × Operand) → List (String × Operand)
  | [] => []
  | (key, x) :: rest =>
    (key, if isOperatorKey key then mapFilters f (i :: place) x else f (i :: place) x) ::
      mapEntries f place (i + 1) rest

def mapFilters (f : Position → Operand → Operand) (place : Position) : Operand → Operand
  | .array xs => .array (mapElements f place 0 xs)
  | x => x

/-- what is no object stays as it is -/
def mapElements (f : Position → Operand → Operand) (place : Position) (i : Nat) :
    List Operand → List Operand
  | [] => []
  | .object es :: rest =>
    .object (mapEntries f (i :: place) 0 es) :: mapElements f place (i + 1) rest
  | x :: rest => x :: mapElements f place (i + 1) rest

end

/-- a query with the operands of its fields changed, each by what stands for its position -/
def Query.mapFields (f : Position → Operand → Operand) (q : Query) : Query := mapEntries f [] 0 q

variable {f : Position → Operand → Operand}

/-! ## the tree -/

/-- a change that keeps the trees of fields -/
def KeepsTrees (f : Position → Operand → Operand) : Prop :=
  ∀ (place : Position) (p : Polarity) (field : String) (x : Operand),
    fieldConditions p field (f place x) = fieldConditions p field x

mutual

theorem entryConditions_mapEntries (h : KeepsTrees f) (p : Polarity) (place : Position) (i : Nat) :
    ∀ es : List (String × Operand),
      entryConditions p (mapEntries f place i es) = entryConditions p es
  | [] => rfl
  | (key, x) :: rest => by
    rw [mapEntries, entryConditions, entryConditions,
      entryConditions_mapEntries h p place (i + 1) rest]
    congr 1
    cases isOperatorKey key with
    | true => exact connectiveConditions_mapFilters h p (i :: place) key x
    | false => exact h (i :: place) p key x

theorem connectiveConditions_mapFilters (h : KeepsTrees f) (p : Polarity) (place : Position)
    (key : String) : ∀ x : Operand,
      connectiveConditions p key (mapFilters f place x) = connectiveConditions p key x
  | .array xs => by
    unfold connectiveConditions
    cases Connective.ofKey? key with
    | none => rfl
    | some k => exact congrArg (groupOf k) (elementConditions_mapElements h (p.inside k) place 0 xs)
  | .null => rfl
  | .boolean b => rfl
  | .number n => rfl
  | .string s => rfl
  | .timestamp t => rfl
  | .object es => rfl

theorem elementConditions_mapElements (h : KeepsTrees f) (p : Polarity) (place : Position)
    (i : Nat) : ∀ xs : List Operand,
      elementConditions p (mapElements f place i xs) = elementConditions p xs
  | [] => rfl
  | .object es :: rest => by
    rw [mapElements, elementConditions, elementConditions,
      entryConditions_mapEntries h p (i :: place) 0 es,
      elementConditions_mapElements h p place (i + 1) rest]
  | .null :: rest => elementConditions_mapElements h p place (i + 1) rest
  | .boolean b :: rest => elementConditions_mapElements h p place (i + 1) rest
  | .number n :: rest => elementConditions_mapElements h p place (i + 1) rest
  | .string s :: rest => elementConditions_mapElements h p place (i + 1) rest
  | .timestamp t :: rest => elementConditions_mapElements h p place (i + 1) rest
  | .array xs :: rest => elementConditions_mapElements h p place (i + 1) rest

end

/-- a change that keeps the tree of each field keeps the tree of the query -/
theorem conditions_mapFields (h : KeepsTrees f) (p : Polarity) (q : Query) :
    (q.mapFields f).conditions p = q.conditions p := entryConditions_mapEntries h p [] 0 q

/-! ## the errors -/

/-- a relation of walks that is kept by one walk after the other, and when a level is left -/
structure Walk.Congruence (R : Walk → Walk → Prop) : Prop where
  refl : ∀ w, R w w
  append : ∀ {w w' v v'}, R w w' → R v v' → R (w ++ v) (w' ++ v')
  close : ∀ {w w'}, R w w' → R w.close w'.close

theorem Walk.congruence_eq : Walk.Congruence Eq where
  refl _ := rfl
  append := by
    rintro w _ v _ rfl rfl
    rfl
  close := by
    rintro w _ rfl
    rfl

variable {R : Walk → Walk → Prop} {c : Configuration}

/-- the same errors before walks that are related -/
theorem Walk.Congruence.behind (hR : Walk.Congruence R) (es : List Error) {fs fs' : List Error}
    (h : R (.of fs) (.of fs')) : R (.of (es ++ fs)) (.of (es ++ fs')) := hR.append (hR.refl (.of es)) h

/-- a change that keeps the walks through fields, up to a relation -/
def KeepsWalks (R : Walk → Walk → Prop) (c : Configuration) (f : Position → Operand → Operand) :
    Prop :=
  ∀ (place : Position) (depth : Nat) (x : Operand),
    R (fieldWalk c depth x) (fieldWalk c depth (f place x))

mutual

theorem entryWalk_mapEntries (hR : Walk.Congruence R) (h : KeepsWalks R c f) (depth : Nat)
    (place : Position) (i : Nat) : ∀ es : List (String × Operand),
      R (entryWalk c depth es) (entryWalk c depth (mapEntries f place i es))
  | [] => hR.refl _
  | (key, x) :: rest => by
    rw [mapEntries, entryWalk_cons, entryWalk_cons]
    refine hR.append ?_ (entryWalk_mapEntries hR h depth place (i + 1) rest)
    cases isOperatorKey key with
    | true => exact connectiveFaults_mapFilters hR h depth (i :: place) key x
    | false => exact h (i :: place) depth x

theorem connectiveFaults_mapFilters (hR : Walk.Congruence R) (h : KeepsWalks R c f) (depth : Nat)
    (place : Position) (key : String) : ∀ x : Operand,
      R (.of (connectiveFaults c depth key x))
        (.of (connectiveFaults c depth key (mapFilters f place x)))
  | .array xs => by
    unfold connectiveFaults
    cases Connective.ofKey? key with
    | none => exact hR.refl _
    | some k => exact elementFaults_mapElements hR h depth place key 0 xs
  | .null => hR.refl _
  | .boolean b => hR.refl _
  | .number n => hR.refl _
  | .string s => hR.refl _
  | .timestamp t => hR.refl _
  | .object es => hR.refl _

theorem elementFaults_mapElements (hR : Walk.Congruence R) (h : KeepsWalks R c f) (depth : Nat)
    (place : Position) (key : String) (i : Nat) : ∀ xs : List Operand,
      R (.of (elementFaults c depth key xs))
        (.of (elementFaults c depth key (mapElements f place i xs)))
  | [] => hR.refl _
  | .object es :: rest => by
    have hes := hR.close (entryWalk_mapEntries hR h (depth + 1) (i :: place) 0 es)
    have hrest := elementFaults_mapElements hR h depth place key (i + 1) rest
    rw [mapElements, elementFaults_cons, elementFaults_cons]
    exact hR.behind _ (hR.append hes hrest)
  | .null :: rest => elementFaults_mapElements hR h depth place key (i + 1) rest
  | .boolean b :: rest =>
    hR.behind [_] (elementFaults_mapElements hR h depth place key (i + 1) rest)
  | .number n :: rest =>
    hR.behind [_] (elementFaults_mapElements hR h depth place key (i + 1) rest)
  | .string s :: rest =>
    hR.behind [_] (elementFaults_mapElements hR h depth place key (i + 1) rest)
  | .timestamp t :: rest =>
    hR.behind [_] (elementFaults_mapElements hR h depth place key (i + 1) rest)
  | .array xs :: rest =>
    hR.behind [_] (elementFaults_mapElements hR h depth place key (i + 1) rest)

end

/-- a change that keeps the walk through each field keeps the walk through the query -/
theorem walk_mapFields (hR : Walk.Congruence R) (h : KeepsWalks R c f) (q : Query) :
    R (entryWalk c 0 q) (entryWalk c 0 (q.mapFields f)) := entryWalk_mapEntries hR h 0 [] 0 q

end WhereClause.Filter
