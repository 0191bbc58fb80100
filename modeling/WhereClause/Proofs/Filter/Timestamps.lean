import WhereClause.Filter.Query
import WhereClause.Proofs.Sql.Shown

/-!
# The timestamps of a query

A condition can be written only if the clocks of the zone show every timestamp that is compared. The
timestamps are those of the operands, at any depth.

* `Operand.timestamps`, `Query.timestamps`  the timestamps in an operand and in a query;
* `Operand.IsShown`, `Query.IsShown`        the clocks of a zone show them all;
* `Query.isShown_iff`                       a query is shown if its operands are;
* `Operand.timestamps_of_value?`            an operand and the value it stands for have the same.
-/

set_option autoImplicit false

namespace WhereClause.Filter

open WhereClause.Calendar WhereClause.Sql

mutual

def Operand.timestamps : Operand → List Timestamp
  | .timestamp t => [t]
  | .array xs => operandTimestamps xs
  | .object es => entryTimestamps es
  | _ => []

def operandTimestamps : List Operand → List Timestamp
  | [] => []
  | x :: xs => x.timestamps ++ operandTimestamps xs

def entryTimestamps : List (String × Operand) → List Timestamp
  | [] => []
  | (_, x) :: es => x.timestamps ++ entryTimestamps es

end

def Query.timestamps (q : Query) : List Timestamp := entryTimestamps q

/-- the clocks of a zone show every timestamp in an operand -/
def Operand.IsShown (z : Zone) (x : Operand) : Prop := ∀ t ∈ x.timestamps, t.IsShown z

instance (z : Zone) (x : Operand) : Decidable (x.IsShown z) :=
  inferInstanceAs (Decidable (∀ t ∈ x.timestamps, t.IsShown z))

/-- the clocks of a zone show every timestamp in a query -/
def Query.IsShown (z : Zone) (q : Query) : Prop := ∀ t ∈ q.timestamps, t.IsShown z

instance (z : Zone) (q : Query) : Decidable (q.IsShown z) :=
  inferInstanceAs (Decidable (∀ t ∈ q.timestamps, t.IsShown z))

mutual

theorem Operand.timestamps_of_value? : ∀ {x : Operand} {v : Value}, x.value? = some v →
    v.timestamps = x.timestamps
  | .null, v, h => by
    cases h
    rfl
  | .boolean b, v, h => by
    cases h
    rfl
  | .number n, v, h => by
    cases h
    rfl
  | .string s, v, h => by
    cases h
    rfl
  | .timestamp t, v, h => by
    cases h
    rfl
  | .array xs, v, h => by
    obtain ⟨vs, hvs, rfl⟩ := Option.map_eq_some_iff.mp h
    exact timestamps_of_values? hvs
  | .object es, v, h => nomatch h

theorem timestamps_of_values? : ∀ {xs : List Operand} {vs : List Value},
    Operand.values? xs = some vs → Value.elementTimestamps vs = operandTimestamps xs
  | [], vs, h => by
    cases h
    rfl
  | x :: xs, vs, h => by
    rw [Operand.values?] at h
    split at h
    · next v ws hv hws =>
      cases h
      rw [Value.elementTimestamps, operandTimestamps, Operand.timestamps_of_value? hv,
        timestamps_of_values? hws]
    · exact nomatch h

end

theorem mem_entryTimestamps_iff {t : Timestamp} {es : List (String × Operand)} :
    t ∈ entryTimestamps es ↔ ∃ e ∈ es, t ∈ e.2.timestamps := by
  induction es with
  | nil => simp [entryTimestamps]
  | cons e es ih => simp [entryTimestamps, ih]

theorem mem_operandTimestamps_iff {t : Timestamp} {xs : List Operand} :
    t ∈ operandTimestamps xs ↔ ∃ x ∈ xs, t ∈ x.timestamps := by
  induction xs with
  | nil => simp [operandTimestamps]
  | cons x xs ih => simp [operandTimestamps, ih]

variable {z : Zone}

theorem Query.isShown_iff {q : Query} : q.IsShown z ↔ ∀ e ∈ q, e.2.IsShown z := by
  constructor
  · intro h e he t ht
    exact h t (mem_entryTimestamps_iff.mpr ⟨e, he, ht⟩)
  · intro h t ht
    obtain ⟨e, he, ht⟩ := mem_entryTimestamps_iff.mp ht
    exact h e he t ht

theorem Operand.isShown_array_iff {xs : List Operand} :
    (Operand.array xs).IsShown z ↔ ∀ x ∈ xs, x.IsShown z := by
  constructor
  · intro h x hx t ht
    exact h t (mem_operandTimestamps_iff.mpr ⟨x, hx, ht⟩)
  · intro h t ht
    obtain ⟨x, hx, ht⟩ := mem_operandTimestamps_iff.mp ht
    exact h x hx t ht

theorem Operand.isShown_object_iff {es : List (String × Operand)} :
    (Operand.object es).IsShown z ↔ ∀ e ∈ es, e.2.IsShown z := Query.isShown_iff

theorem Operand.isShown_of_value? {x : Operand} {v : Value} (h : x.value? = some v) :
    v.IsShown z ↔ x.IsShown z := by
  rw [Value.IsShown, Operand.IsShown, Operand.timestamps_of_value? h]

end WhereClause.Filter
