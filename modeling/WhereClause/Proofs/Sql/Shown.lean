import WhereClause.Proofs.Calendar.Clocks
import WhereClause.Sql.Builder
import WhereClause.Sql.Template

/-!
# Values that have a literal

A value has a literal if the clocks of the zone show every timestamp in it. Which literal that is does
not depend on the ends of the calendar, so it is said for all values.

* `Value.literal`     the literal of a value, in a calendar without ends;
* `Value.IsShown`     the clocks of a zone show all timestamps in a value;
* `Value.literal?_eq`, `Value.rendered_eq`  what is written for a value, by these two.
-/

set_option autoImplicit false

namespace WhereClause.Sql

open WhereClause.Calendar

namespace Value

/-! ## timestamps in values -/

mutual

def timestamps : Value → List Timestamp
  | .timestamp t => [t]
  | .list vs => elementTimestamps vs
  | _ => []

def elementTimestamps : List Value → List Timestamp
  | [] => []
  | v :: vs => v.timestamps ++ elementTimestamps vs

end

/-- the clocks of a zone show every timestamp in a value -/
def IsShown (z : Zone) (v : Value) : Prop := ∀ t ∈ v.timestamps, t.IsShown z

instance (z : Zone) (v : Value) : Decidable (v.IsShown z) :=
  inferInstanceAs (Decidable (∀ t ∈ v.timestamps, t.IsShown z))

variable {z : Zone}

theorem isShown_of_timestamps_eq_nil {v : Value} (h : v.timestamps = []) : v.IsShown z := by
  intro t ht
  rw [h] at ht
  exact absurd ht List.not_mem_nil

theorem isShown_timestamp_iff {t : Timestamp} : (Value.timestamp t).IsShown z ↔ t.IsShown z :=
  List.forall_mem_singleton

theorem isShown_list_cons_iff {v : Value} {vs : List Value} :
    (Value.list (v :: vs)).IsShown z ↔ v.IsShown z ∧ (Value.list vs).IsShown z :=
  List.forall_mem_append

/-! ## literals -/

variable (o : Options)

mutual

/-- a value as a literal, in a calendar without ends -/
def literal (o : Options) : Value → String
  | .null => "NULL"
  | .boolean true => "true"
  | .boolean false => "false"
  | .number n => n.text
  | .string s => o.dialect.quoteString s
  | .timestamp t => o.dialect.quoteString (t.shownText o.zone)
  | .list vs => String.intercalate ", " (elementLiterals o vs)

/-- the elements of a list, the lists among them in parentheses -/
def elementLiterals (o : Options) : List Value → List String
  | [] => []
  | .list vs :: rest =>
    ("(" ++ String.intercalate ", " (elementLiterals o vs) ++ ")") :: elementLiterals o rest
  | v :: rest => literal o v :: elementLiterals o rest

end

/-- the literal of a value inside a list -/
def memberLiteral : Value → String
  | .list vs => "(" ++ (Value.list vs).literal o ++ ")"
  | v => v.literal o

theorem elementLiterals_cons (v : Value) (vs : List Value) :
    elementLiterals o (v :: vs) = v.memberLiteral o :: elementLiterals o vs := by
  cases v <;> rfl

/-- the literal of a value inside a list, if it has one -/
def memberLiteral? : Value → Option String
  | .list vs => ((Value.list vs).literal? o).map fun s => "(" ++ s ++ ")"
  | v => v.literal? o

theorem elementLiterals?_cons (v : Value) (vs : List Value) :
    elementLiterals? o (v :: vs) =
      (v.memberLiteral? o).bind fun s => (elementLiterals? o vs).map (s :: ·) := by
  cases v with
  | list us =>
    rw [elementLiterals?, memberLiteral?, literal?]
    cases elementLiterals? o us <;> cases elementLiterals? o vs <;> rfl
  | _ =>
    rw [elementLiterals?, memberLiteral?]
    · cases literal? o _ <;> cases elementLiterals? o vs <;> rfl
    all_goals exact nofun

theorem memberLiteral?_eq {v : Value}
    (h : v.literal? o = if v.IsShown o.zone then some (v.literal o) else none) :
    v.memberLiteral? o = if v.IsShown o.zone then some (v.memberLiteral o) else none := by
  cases v with
  | list vs =>
    rw [memberLiteral?, h]
    split <;> rfl
  | _ => exact h

mutual

/-- **A value has a literal if its timestamps are shown**, and has none otherwise. -/
theorem literal?_eq : ∀ v : Value,
    v.literal? o = if v.IsShown o.zone then some (v.literal o) else none
  | .null => (if_pos (isShown_of_timestamps_eq_nil rfl)).symm
  | .boolean true => (if_pos (isShown_of_timestamps_eq_nil rfl)).symm
  | .boolean false => (if_pos (isShown_of_timestamps_eq_nil rfl)).symm
  | .number _ => (if_pos (isShown_of_timestamps_eq_nil rfl)).symm
  | .string _ => (if_pos (isShown_of_timestamps_eq_nil rfl)).symm
  | .timestamp t => by
    simp only [literal?, Timestamp.text?_eq, isShown_timestamp_iff]
    split <;> rfl
  | .list vs => by
    rw [literal?, elementLiterals?_eq vs, literal]
    split <;> rfl

theorem elementLiterals?_eq : ∀ vs : List Value, elementLiterals? o vs =
    if (Value.list vs).IsShown o.zone then some (elementLiterals o vs) else none
  | [] => (if_pos (isShown_of_timestamps_eq_nil rfl)).symm
  | v :: vs => by
    simp only [elementLiterals?_cons, memberLiteral?_eq o (literal?_eq v), elementLiterals?_eq vs,
      elementLiterals_cons, isShown_list_cons_iff]
    by_cases hv : v.IsShown o.zone
    · by_cases hvs : (Value.list vs).IsShown o.zone <;> simp [hv, hvs]
    · simp [hv]

end

theorem rendered_eq (v : Value) : v.rendered o =
    if v.IsShown o.zone then .ok (v.literal o) else .error .outsideCalendar := by
  rw [rendered, literal?_eq]
  by_cases hv : v.IsShown o.zone
  · rw [if_pos hv, if_pos hv]
  · rw [if_neg hv, if_neg hv]

end Value

end WhereClause.Sql
