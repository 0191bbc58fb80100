import WhereClause.Proofs.Filter.Agreement
import WhereClause.Proofs.Filter.Timestamps
import WhereClause.Proofs.Filter.Tree

/-!
# The structure of a condition

The condition of a query is the text of a tree: comparisons, and groups of parts that a connective
holds together. The tree says what is compared and how the comparisons are grouped, and nothing of
quotes and escapes. Beside it stands what is wrong with a query, in the order in which a walk from
left to right meets it. A comparison that cannot be written ends the program, but not where the walk
meets it: the comparisons of one level are written when the level is left.

* `Query.conditions`  the tree of a query, compiled with a table from the start;
* `conjunctionText`   a tree as text, in a calendar without ends;
* `Query.faults`      the errors in a query, each where it is met;
* `build_yields`      the compiler fails with the first error that is met, and gives the text of the
                      tree if there is none.
-/

set_option autoImplicit false

namespace WhereClause.Filter

open WhereClause.Calendar WhereClause.Sql

/-! ## atoms -/

/-- a condition that has no others inside -/
inductive Atom where
  | compare (k : Comparison) (field : String) (v : Value)
  /-- a membership test that no value passes, or that every value passes -/
  | constant (b : Bool)

def Atom.text (o : Options) : Atom → String
  | .compare k field v => k.text o field v
  | .constant true => "1 = 1"
  | .constant false => "1 = 0"

/-- the clocks of a zone show every timestamp that is compared with -/
def Atom.IsShown (z : Zone) : Atom → Prop
  | .compare _ _ v => v.IsShown z
  | .constant _ => True

instance (z : Zone) : (a : Atom) → Decidable (a.IsShown z)
  | .compare _ _ v => inferInstanceAs (Decidable (v.IsShown z))
  | .constant _ => inferInstanceAs (Decidable True)

/-- an atom as text, if it can be written -/
def Atom.piece (o : Options) (a : Atom) : Piece :=
  if a.IsShown o.zone then .ok (a.text o) else .error .outsideCalendar

theorem Atom.text_of_piece {o : Options} {a : Atom} {t : String} (h : a.piece o = .ok t) :
    a.text o = t := by
  unfold Atom.piece at h
  split at h
  · exact Except.ok.inj h
  · exact nomatch h

namespace Comparison

/-- a field compared with an operand, if the operand is one for this comparison -/
def atom? (field : String) (x : Operand) (k : Comparison) : Option Atom :=
  match k with
  | .like | .notLike => x.pattern?.map fun s => .compare k field (.string ("%" ++ s ++ "%"))
  | .isIn | .notIn => x.value?.map fun v =>
    match v.members with
    | [] => .constant (k = .notIn)
    | vs => .compare k field (.list vs)
  | _ => x.value?.map fun v => .compare k field v

/-- what is wrong with the operand of a comparison -/
def faults (key : String) (x : Operand) (k : Comparison) : List Error :=
  match k with
  | .like | .notLike =>
    if x.pattern?.isSome then [] else [.invalidOperand key (.noText x.kind)]
  | _ => if x.value?.isSome then [] else [.invalidOperand key (.noValue x.kind)]

end Comparison

/-- an atom is compared with a pattern or with a value, or it is a test against no values -/
theorem Comparison.atom?_cases {k : Comparison} {field : String} {x : Operand} {a : Atom}
    (h : k.atom? field x = some a) :
    (k = .like ∨ k = .notLike) ∧ (∃ s, x.pattern? = some s ∧
        a = .compare k field (.string ("%" ++ s ++ "%"))) ∨
      (k = .isIn ∨ k = .notIn) ∧ (x.value? = some (.list []) ∧ a = .constant (k = .notIn) ∨
        ∃ v, x.value? = some v ∧ v.members ≠ [] ∧ a = .compare k field (.list (v.members))) ∨
      (k.isMembership = false ∧ k ≠ .like ∧ k ≠ .notLike) ∧
        ∃ v, x.value? = some v ∧ a = .compare k field v := by
  have plain (hk : k.isMembership = false ∧ k ≠ .like ∧ k ≠ .notLike)
      (h : (x.value?.map fun v => Atom.compare k field v) = some a) :
      (k.isMembership = false ∧ k ≠ .like ∧ k ≠ .notLike) ∧
        ∃ v, x.value? = some v ∧ a = .compare k field v := by
    obtain ⟨v, hv, he⟩ := Option.map_eq_some_iff.mp h
    exact ⟨hk, v, hv, he.symm⟩
  have pattern (h : (x.pattern?.map fun s => Atom.compare k field (.string ("%" ++ s ++ "%"))) =
      some a) : ∃ s, x.pattern? = some s ∧ a = .compare k field (.string ("%" ++ s ++ "%")) := by
    obtain ⟨s, hs, he⟩ := Option.map_eq_some_iff.mp h
    exact ⟨s, hs, he.symm⟩
  have members (h : (x.value?.map fun v => match v.members with
      | [] => Atom.constant (k = .notIn)
      | vs => .compare k field (.list vs)) = some a) :
      x.value? = some (.list []) ∧ a = .constant (k = .notIn) ∨
        ∃ v, x.value? = some v ∧ v.members ≠ [] ∧ a = .compare k field (.list (v.members)) := by
    obtain ⟨v, hv, he⟩ := Option.map_eq_some_iff.mp h
    cases hm : v.members with
    | nil =>
      rw [hm] at he
      cases v with
      | list vs =>
        cases hm
        exact .inl ⟨hv, he.symm⟩
      | _ => exact nomatch hm
    | cons w ws =>
      rw [hm] at he
      exact .inr ⟨v, hv, by rw [hm]; exact List.cons_ne_nil w ws, by rw [hm]; exact he.symm⟩
  cases k with
  | like => exact .inl ⟨.inl rfl, pattern h⟩
  | notLike => exact .inl ⟨.inr rfl, pattern h⟩
  | isIn => exact .inr (.inl ⟨.inl rfl, members h⟩)
  | notIn => exact .inr (.inl ⟨.inr rfl, members h⟩)
  | _ => exact .inr (.inr (plain (by decide) h))

/-- a comparison has the timestamps of its operand -/
theorem Comparison.isShown_of_atom? {z : Zone} {k : Comparison} {field : String} {x : Operand}
    {a : Atom} (h : k.atom? field x = some a) : a.IsShown z ↔ x.IsShown z := by
  obtain ⟨-, s, hs, rfl⟩ | ⟨-, ⟨hv, rfl⟩ | ⟨v, hv, -, rfl⟩⟩ | ⟨-, v, hv, rfl⟩ := atom?_cases h
  · have hx : x.timestamps = [] := by
      cases x with
      | string s => rfl
      | number n => rfl
      | boolean b => rfl
      | _ => cases hs
    rw [Operand.IsShown, hx]
    exact iff_of_true (Value.isShown_of_timestamps_eq_nil rfl) (List.forall_mem_nil _)
  · rw [← Operand.isShown_of_value? hv]
    exact iff_of_true trivial (Value.isShown_of_timestamps_eq_nil rfl)
  · rw [← Operand.isShown_of_value? hv]
    exact Value.isShown_members
  · exact Operand.isShown_of_value? hv

def Connective.ofKey? : String → Option Connective
  | "$and" => some and
  | "$or" => some or
  | "$nor" => some nor
  | "$nand" => some nand
  | _ => none

theorem Form.ofKey?_eq (key : String) : Form.ofKey? key = (Connective.ofKey? key).map (·.form) := by
  unfold Form.ofKey?
  split
  · rfl
  · rfl
  · rfl
  · rfl
  · unfold Connective.ofKey?
    split <;> first | contradiction | rfl

/-! ## trees as text -/

mutual

def Condition.text (o : Options) : Condition Atom → String
  | .atom a => a.text o
  | .group k parts => k.render (partTexts o parts)

def conditionTexts (o : Options) : List (Condition Atom) → List String
  | [] => []
  | t :: ts => t.text o :: conditionTexts o ts

def partTexts (o : Options) : List (List (Condition Atom)) → List String
  | [] => []
  | p :: ps => " AND ".intercalate (conditionTexts o p) :: partTexts o ps

end

/-- conditions that all have to hold -/
def conjunctionText (o : Options) (ts : List (Condition Atom)) : String :=
  " AND ".intercalate (conditionTexts o ts)

/-! ## the tree of a query -/

def leafConditions (p : Polarity) (field key : String) (x : Operand) : List (Condition Atom) :=
  match Comparison.ofKey? key with
  | some k => ((p.comparison k).atom? field x).toList.map .atom
  | none => []

mutual

/-- the conditions of the entries of a query -/
def entryConditions (p : Polarity) : List (String × Operand) → List (Condition Atom)
  | [] => []
  | (key, x) :: rest =>
    (if isOperatorKey key then connectiveConditions p key x else fieldConditions p key x) ++
      entryConditions p rest

def fieldConditions (p : Polarity) (field : String) : Operand → List (Condition Atom)
  | .object es => operatorConditions p field es
  | .array xs => leafConditions p field "$in" (.array xs)
  | x => leafConditions p field "$eq" x

def operatorConditions (p : Polarity) (field : String) :
    List (String × Operand) → List (Condition Atom)
  | [] => []
  | (key, x) :: rest =>
    (if key = "$not" then fieldConditions p.flip field x else leafConditions p field key x) ++
      operatorConditions p field rest

def connectiveConditions (p : Polarity) (key : String) (x : Operand) : List (Condition Atom) :=
  match Connective.ofKey? key with
  | none => []
  | some k =>
    match x with
    | .array xs => groupOf k (elementConditions (p.inside k) xs)
    | _ => []

def elementConditions (p : Polarity) : List Operand → List (List (Condition Atom))
  | [] => []
  | .object es :: rest => partOf (entryConditions p es) ++ elementConditions p rest
  | _ :: rest => elementConditions p rest

end

/-! ## what is wrong with a query -/

/-- a level that is deeper than the limit -/
def depthFaults (c : Configuration) (depth : Nat) : List Error :=
  if c.maxDepth < depth then [.nestingTooDeep c.maxDepth] else []

def leafFaults (key : String) (x : Operand) : List Error :=
  match Comparison.ofKey? key with
  | some k => k.faults key x
  | none => [.unknownOperator key]

/-- no error that is returned, but the end of the program -/
def stop : Error := .rendering .outsideCalendar

/-- the end of the program at a comparison that cannot be written -/
def leafStops (z : Zone) (x : Operand) : List Error := if x.IsShown z then [] else [stop]

/-- the ends of the program at the comparisons of a field that are written together -/
def fieldStops (z : Zone) : Operand → List Error
  | .object es => es.flatMap fun e => if e.1 = "$not" then [] else leafStops z e.2
  | x => leafStops z x

/-- the ends of the program at the comparisons of a query that are written together -/
def entryStops (z : Zone) (es : List (String × Operand)) : List Error :=
  es.flatMap fun e => if isOperatorKey e.1 then [] else fieldStops z e.2

section

variable {z : Zone}

theorem leafStops_congr {x y : Operand} (h : x.IsShown z ↔ y.IsShown z) :
    leafStops z x = leafStops z y := by
  simp only [leafStops, h]

theorem eq_stop_of_mem_leafStops {x : Operand} {e : Error} (h : e ∈ leafStops z x) : e = stop := by
  unfold leafStops at h
  split at h
  · exact absurd h List.not_mem_nil
  · exact List.mem_singleton.mp h

theorem eq_stop_of_mem_fieldStops {x : Operand} {e : Error} (h : e ∈ fieldStops z x) : e = stop := by
  cases x with
  | object es =>
    obtain ⟨entry, _, hmem⟩ := List.mem_flatMap.mp h
    split at hmem
    · exact absurd hmem List.not_mem_nil
    · exact eq_stop_of_mem_leafStops hmem
  | _ => exact eq_stop_of_mem_leafStops h

theorem eq_stop_of_mem_entryStops {es : List (String × Operand)} {e : Error}
    (h : e ∈ entryStops z es) : e = stop := by
  obtain ⟨entry, _, hmem⟩ := List.mem_flatMap.mp h
  split at hmem
  · exact absurd hmem List.not_mem_nil
  · exact eq_stop_of_mem_fieldStops hmem

end

mutual

def entryFaults (c : Configuration) (depth : Nat) : List (String × Operand) → List Error
  | [] => []
  | (key, x) :: rest =>
    (if isOperatorKey key then connectiveFaults c depth key x else fieldFaults c depth x) ++
      entryFaults c depth rest

def fieldFaults (c : Configuration) (depth : Nat) : Operand → List Error
  | .object es => operatorFaults c depth es
  | .array xs => leafFaults "$in" (.array xs)
  | x => leafFaults "$eq" x

def operatorFaults (c : Configuration) (depth : Nat) : List (String × Operand) → List Error
  | [] => []
  | (key, x) :: rest =>
    (if key = "$not" then
        depthFaults c (depth + 1) ++ (fieldFaults c (depth + 1) x ++ fieldStops c.options.zone x)
      else leafFaults key x) ++ operatorFaults c depth rest

def connectiveFaults (c : Configuration) (depth : Nat) (key : String) (x : Operand) : List Error :=
  match Connective.ofKey? key with
  | none => [.unknownOperator key]
  | some _ =>
    match x with
    | .array xs => elementFaults c depth key xs
    | x => [.invalidOperand key (.noFilters x.kind)]

def elementFaults (c : Configuration) (depth : Nat) (key : String) : List Operand → List Error
  | [] => []
  | .null :: rest => elementFaults c depth key rest
  | .object es :: rest =>
    depthFaults c (depth + 1) ++
      (entryFaults c (depth + 1) es ++ entryStops c.options.zone es ++ elementFaults c depth key rest)
  | x :: rest => .invalidOperand key (.arrayOf x.kind) :: elementFaults c depth key rest

end

/-- what a walk meets at one level of a query, and the ends of the program when it leaves the level -/
@[ext]
structure Walk where
  met : List Error
  left : List Error
  left_stops : ∀ e ∈ left, e = stop

namespace Walk

/-- nothing is met when the level is left -/
def of (es : List Error) : Walk := ⟨es, [], fun _ h => absurd h List.not_mem_nil⟩

/-- one walk after the other at the same level -/
def append (w v : Walk) : Walk :=
  ⟨w.met ++ v.met, w.left ++ v.left, List.forall_mem_append.mpr ⟨w.left_stops, v.left_stops⟩⟩

instance : Append Walk := ⟨append⟩

theorem append_of_nil (w : Walk) : w ++ of [] = w :=
  Walk.ext (List.append_nil w.met) (List.append_nil w.left)

/-- what is met at a level until it has been left -/
def faults (w : Walk) : List Error := w.met ++ w.left

/-- a level that is left, seen from the one above it -/
def close (w : Walk) : Walk := of w.faults

@[simp] theorem faults_of (es : List Error) : (of es).faults = es := List.append_nil es

@[simp] theorem faults_close (w : Walk) : w.close.faults = w.faults := faults_of w.faults

theorem mem_faults_append {e : Error} {w v : Walk} :
    e ∈ (w ++ v).faults ↔ e ∈ w.faults ∨ e ∈ v.faults := by
  show e ∈ (w.met ++ v.met) ++ (w.left ++ v.left) ↔ e ∈ w.met ++ w.left ∨ e ∈ v.met ++ v.left
  simp only [List.mem_append]
  rw [or_or_or_comm]

theorem faults_append_eq_nil {w v : Walk} :
    (w ++ v).faults = [] ↔ w.faults = [] ∧ v.faults = [] := by
  simp only [List.eq_nil_iff_forall_not_mem, mem_faults_append, not_or, forall_and]

end Walk

def leafWalk (z : Zone) (key : String) (x : Operand) : Walk :=
  ⟨leafFaults key x, leafStops z x, fun _ => eq_stop_of_mem_leafStops⟩

def fieldWalk (c : Configuration) (depth : Nat) (x : Operand) : Walk :=
  ⟨fieldFaults c depth x, fieldStops c.options.zone x, fun _ => eq_stop_of_mem_fieldStops⟩

def entryWalk (c : Configuration) (depth : Nat) (es : List (String × Operand)) : Walk :=
  ⟨entryFaults c depth es, entryStops c.options.zone es, fun _ => eq_stop_of_mem_entryStops⟩

section

variable (c : Configuration) (depth : Nat)

/-- the operand of `$not` is a level of its own -/
theorem fieldWalk_cons (key : String) (x : Operand) (rest : List (String × Operand)) :
    fieldWalk c depth (.object ((key, x) :: rest)) =
      (if key = "$not" then .of (depthFaults c (depth + 1)) ++ (fieldWalk c (depth + 1) x).close
        else leafWalk c.options.zone key x) ++ fieldWalk c depth (.object rest) := by
  have hmet : operatorFaults c depth ((key, x) :: rest) =
      (if key = "$not" then depthFaults c (depth + 1) ++ (fieldWalk c (depth + 1) x).faults
        else leafFaults key x) ++ operatorFaults c depth rest := by
    rw [operatorFaults]
    rfl
  have hleft : fieldStops c.options.zone (.object ((key, x) :: rest)) =
      (if key = "$not" then [] else leafStops c.options.zone x) ++
        fieldStops c.options.zone (.object rest) := List.flatMap_cons
  by_cases h : key = "$not"
  · rw [if_pos h] at hmet hleft ⊢
    exact Walk.ext hmet hleft
  · rw [if_neg h] at hmet hleft ⊢
    exact Walk.ext hmet hleft

theorem entryWalk_cons (key : String) (x : Operand) (rest : List (String × Operand)) :
    entryWalk c depth ((key, x) :: rest) =
      (if isOperatorKey key then .of (connectiveFaults c depth key x) else fieldWalk c depth x) ++
        entryWalk c depth rest := by
  have hmet : entryFaults c depth ((key, x) :: rest) =
      (if isOperatorKey key then connectiveFaults c depth key x else fieldFaults c depth x) ++
        entryFaults c depth rest := by
    rw [entryFaults]
  have hleft : entryStops c.options.zone ((key, x) :: rest) =
      (if isOperatorKey key then [] else fieldStops c.options.zone x) ++
        entryStops c.options.zone rest := List.flatMap_cons
  cases h : isOperatorKey key with
  | true =>
    rw [h, if_pos rfl] at hmet hleft
    exact Walk.ext hmet hleft
  | false =>
    rw [h, if_neg Bool.false_ne_true] at hmet hleft
    exact Walk.ext hmet hleft

/-! ### one operator, one entry -/

theorem fieldWalk_not (x : Operand) : fieldWalk c depth (.object [("$not", x)]) =
    .of (depthFaults c (depth + 1)) ++ (fieldWalk c (depth + 1) x).close := by
  rw [fieldWalk_cons, if_pos rfl]
  exact Walk.append_of_nil _

theorem fieldWalk_leaf {key : String} (hkey : key ≠ "$not") (x : Operand) :
    fieldWalk c depth (.object [(key, x)]) = leafWalk c.options.zone key x := by
  rw [fieldWalk_cons, if_neg hkey]
  exact Walk.append_of_nil _

theorem entryWalk_field {key : String} (hkey : isOperatorKey key = false) (x : Operand) :
    entryWalk c depth [(key, x)] = fieldWalk c depth x := by
  rw [entryWalk_cons, hkey]
  exact Walk.append_of_nil _

theorem entryWalk_connective {key : String} (hkey : isOperatorKey key = true) (x : Operand) :
    entryWalk c depth [(key, x)] = .of (connectiveFaults c depth key x) := by
  rw [entryWalk_cons, hkey]
  exact Walk.append_of_nil _

/-! ### elements -/

/-- an element of a connective is a level of its own -/
theorem elementFaults_cons (key : String) (es : List (String × Operand)) (rest : List Operand) :
    elementFaults c depth key (.object es :: rest) =
      depthFaults c (depth + 1) ++ ((entryWalk c (depth + 1) es).faults ++
        elementFaults c depth key rest) := by
  rw [elementFaults]
  rfl

end

namespace Query

def conditions (p : Polarity) (q : Query) : List (Condition Atom) := entryConditions p q

def faults (c : Configuration) (q : Query) : List Error := (entryWalk c 0 q).faults

end Query

/-! ## texts that spell a tree -/

variable (o : Options)

theorem conditionTexts_append (ts us : List (Condition Atom)) :
    conditionTexts o (ts ++ us) = conditionTexts o ts ++ conditionTexts o us := by
  induction ts with
  | nil => rfl
  | cons t ts ih => rw [List.cons_append, conditionTexts, ih, conditionTexts, List.cons_append]

theorem conditionTexts_eq_nil {ts : List (Condition Atom)} : conditionTexts o ts = [] ↔ ts = [] := by
  cases ts with
  | nil => exact ⟨fun _ => rfl, fun _ => rfl⟩
  | cons t ts => exact ⟨fun h => (nomatch h), fun h => (nomatch h)⟩

theorem Condition.text_ne_empty (t : Condition Atom) : t.text o ≠ "" := by
  cases t with
  | atom a =>
    rw [Condition.text]
    cases a with
    | compare k field v => exact k.text_ne_empty o field v
    | constant b =>
      cases b with
      | true => exact (by decide : "1 = 1" ≠ "")
      | false => exact (by decide : "1 = 0" ≠ "")
  | group k parts =>
    intro h
    rw [Condition.text, Connective.render] at h
    have h1 := (String.append_eq_empty_iff.mp h).2
    cases k <;> exact absurd h1 (by decide)

theorem conjunctionText_append {ts us : List (Condition Atom)} (ht : ts ≠ []) (hu : us ≠ []) :
    conjunctionText o (ts ++ us) = conjunctionText o ts ++ " AND " ++ conjunctionText o us := by
  unfold conjunctionText
  rw [conditionTexts_append]
  exact String.intercalate_append_of_ne_nil (mt (conditionTexts_eq_nil o).mp ht)
    (mt (conditionTexts_eq_nil o).mp hu)

/-- only the conjunction of nothing is written as the empty text -/
theorem conjunctionText_eq_empty {ts : List (Condition Atom)} :
    conjunctionText o ts = "" ↔ ts = [] := by
  constructor
  · intro h
    cases ts with
    | nil => rfl
    | cons t ts =>
      exfalso
      cases ts with
      | nil => exact t.text_ne_empty o (by simpa [conjunctionText, conditionTexts] using h)
      | cons u us =>
        rw [conjunctionText, conditionTexts, conditionTexts, String.intercalate_cons_cons] at h
        have h1 := (String.append_eq_empty_iff.mp h).1
        exact t.text_ne_empty o (String.append_eq_empty_iff.mp h1).1
  · rintro rfl
    exact String.intercalate_nil

/-- texts, each of them for some of the conditions, in their order -/
inductive Spells : List String → List (Condition Atom) → Prop where
  | nil : Spells [] []
  | cons {ss : List String} {ts us : List (Condition Atom)} (ht : ts ≠ []) (h : Spells ss us) :
      Spells (conjunctionText o ts :: ss) (ts ++ us)

namespace Spells

variable {o}

theorem append {ss rs : List String} {ts us : List (Condition Atom)} (h : Spells o ss ts)
    (h' : Spells o rs us) : Spells o (ss ++ rs) (ts ++ us) := by
  induction h with
  | nil => exact h'
  | cons ht _ ih =>
    rw [List.append_assoc]
    exact .cons ht ih

theorem single {ts : List (Condition Atom)} (ht : ts ≠ []) : Spells o [conjunctionText o ts] ts := by
  have h := Spells.cons (o := o) ht .nil
  rwa [List.append_nil] at h

theorem condition (t : Condition Atom) : Spells o [t.text o] [t] := by
  have h := Spells.single (o := o) (List.cons_ne_nil t [])
  rwa [conjunctionText, conditionTexts, conditionTexts, String.intercalate_singleton] at h

/-- the texts with `AND` between them are the text of the tree -/
theorem intercalate {ss : List String} {ts : List (Condition Atom)} (h : Spells o ss ts) :
    " AND ".intercalate ss = conjunctionText o ts := by
  induction h with
  | nil => rfl
  | @cons ss ts us ht h ih =>
    cases h with
    | nil => rw [String.intercalate_singleton, List.append_nil]
    | @cons rs vs ws hv h =>
      have hne : vs ++ ws ≠ [] := fun he => hv (List.append_eq_nil_iff.mp he).1
      rw [String.intercalate_cons_cons, ih, conjunctionText_append o ht hne]

theorem partsOf {ss : List String} {ts : List (Condition Atom)} (h : Spells o ss ts) :
    Spells o (Filter.partsOf (" AND ".intercalate ss)) ts := by
  rw [h.intercalate]
  unfold Filter.partsOf
  split
  · next he =>
    rw [(conjunctionText_eq_empty o).mp (String.isEmpty_iff.mp he)]
    exact .nil
  · next he =>
    refine single fun ht => he ?_
    rw [ht]
    rfl

end Spells

/-- pieces, each a text for some of the conditions or the reason why there is none -/
inductive SpellsPieces : List Piece → List (Condition Atom) → List Error → Prop where
  | nil : SpellsPieces [] [] []
  | text {ps : List Piece} {ts us : List (Condition Atom)} {es : List Error} (ht : ts ≠ [])
      (h : SpellsPieces ps us es) : SpellsPieces (.ok (conjunctionText o ts) :: ps) (ts ++ us) es
  | missing {ps : List Piece} {ts us : List (Condition Atom)} {es : List Error} (e : RenderError)
      (h : SpellsPieces ps us es) : SpellsPieces (.error e :: ps) (ts ++ us) (.rendering e :: es)

namespace SpellsPieces

variable {o}

theorem append {ps qs : List Piece} {ts us : List (Condition Atom)} {es fs : List Error}
    (h : SpellsPieces o ps ts es) (h' : SpellsPieces o qs us fs) :
    SpellsPieces o (ps ++ qs) (ts ++ us) (es ++ fs) := by
  induction h with
  | nil => exact h'
  | text ht _ ih =>
    rw [List.append_assoc]
    exact .text ht ih
  | missing e _ ih =>
    rw [List.append_assoc]
    exact .missing e ih

/-- texts alone -/
theorem texts {ss : List String} {ts : List (Condition Atom)} (h : Spells o ss ts) :
    SpellsPieces o (ss.map .ok) ts [] := by
  induction h with
  | nil => exact .nil
  | cons ht _ ih => exact .text ht ih

theorem atom (a : Atom) : SpellsPieces o [a.piece o] [.atom a]
    (if a.IsShown o.zone then [] else [stop]) := by
  rw [Atom.piece]
  split
  · exact texts (.condition (.atom a))
  · show SpellsPieces o [_] ([.atom a] ++ []) [stop]
    exact .missing .outsideCalendar .nil

/-- pieces are joined to the text of the tree, and the first that is none ends it -/
theorem join_yields {ps : List Piece} {ts : List (Condition Atom)} {es : List Error}
    (h : SpellsPieces o ps ts es) :
    Yields (fun t => Spells o (Filter.partsOf t) ts ∧ t = conjunctionText o ts) (joinPieces ps)
      es := by
  have hmap : Yields (fun ss => Spells o ss ts) (ps.mapM (Except.mapError Error.rendering)) es := by
    induction h with
    | nil => exact .ok .nil
    | text ht _ ih =>
      rw [List.mapM_cons]
      exact ih.bind_ok fun ss h => .ok (.cons ht h)
    | missing e _ _ =>
      rw [List.mapM_cons]
      exact .error _ _
  exact hmap.bind_ok fun ss h => .ok ⟨h.partsOf, h.intercalate⟩

end SpellsPieces

theorem partTexts_append (ps qs : List (List (Condition Atom))) :
    partTexts o (ps ++ qs) = partTexts o ps ++ partTexts o qs := by
  induction ps with
  | nil => rfl
  | cons p ps ih => rw [List.cons_append, partTexts, ih, partTexts, List.cons_append]

theorem partTexts_partOf (ts : List (Condition Atom)) :
    partTexts o (partOf ts) = Filter.partsOf (conjunctionText o ts) := by
  unfold partOf Filter.partsOf
  cases ts with
  | nil => rfl
  | cons t ts =>
    have hne : ¬ (conjunctionText o (t :: ts)).isEmpty := fun he =>
      List.cons_ne_nil t ts ((conjunctionText_eq_empty o).mp (String.isEmpty_iff.mp he))
    rw [if_neg hne]
    rfl

theorem spells_groupOf (k : Connective) (ps : List (List (Condition Atom))) :
    Spells o (k.form.print (partTexts o ps)) (groupOf k ps) := by
  cases ps with
  | nil => exact .nil
  | cons p ps => exact .condition (.group k (p :: ps))

/-! ## the printer prints the tree -/

theorem print_yields (key field : String) (x : Operand) (k : Comparison) :
    Yields (fun p => ∃ a, k.atom? field x = some a ∧ p = a.piece o) (k.print o key field x)
      (k.faults key x) := by
  have plain (v : Value) : k.piece o field v = (Atom.compare k field v).piece o := k.piece_eq o field v
  have pattern : Yields (fun p => ∃ a,
        (x.pattern?.map fun s => Atom.compare k field (.string ("%" ++ s ++ "%"))) = some a ∧
          p = a.piece o)
      (k.printPattern o key field x)
      (if x.pattern?.isSome then [] else [.invalidOperand key (.noText x.kind)]) := by
    unfold Comparison.printPattern
    cases x.pattern? with
    | some s => exact .ok ⟨_, rfl, plain _⟩
    | none => exact .error _ _
  have membership (hk : k = .isIn ∨ k = .notIn) : Yields (fun p => ∃ a,
        (x.value?.map fun v => match v.members with
          | [] => Atom.constant (k = Comparison.notIn)
          | vs => .compare k field (.list vs)) = some a ∧ p = a.piece o)
      (k.printMembership o key field x)
      (if x.value?.isSome then [] else [.invalidOperand key (.noValue x.kind)]) := by
    unfold Comparison.printMembership
    cases x.value? with
    | none => exact .error _ _
    | some v =>
      rw [Option.map_some, Option.map_some]
      cases v.members with
      | nil => rcases hk with rfl | rfl <;> exact .ok ⟨_, rfl, rfl⟩
      | cons w ws => exact .ok ⟨_, rfl, plain _⟩
  have value : Yields (fun p => ∃ a, x.value?.map (Atom.compare k field) = some a ∧ p = a.piece o)
      (k.printValue o key field x)
      (if x.value?.isSome then [] else [.invalidOperand key (.noValue x.kind)]) := by
    unfold Comparison.printValue
    cases x.value? with
    | some v => exact .ok ⟨_, rfl, plain v⟩
    | none => exact .error _ _
  cases k with
  | like => exact pattern
  | notLike => exact pattern
  | isIn => exact membership (.inl rfl)
  | notIn => exact membership (.inr rfl)
  | _ => exact value

/-- the operand of a comparison is wrong below any number of negations, or below none -/
theorem Comparison.faults_opposite (key : String) (x : Operand) (k : Comparison) :
    k.opposite.faults key x = k.faults key x := by cases k <;> rfl

theorem leaf_yields (n : Nat) (field key : String) (x : Operand) :
    Yields (fun ps => SpellsPieces o ps (leafConditions (.below n) field key x) (leafStops o.zone x))
      (do .ok [← Leaf.print o ⟨n, field, key, x⟩]) (leafFaults key x) := by
  rw [Leaf.print, leafConditions, leafFaults]
  cases Comparison.ofKey? key with
  | none => exact .error _ _
  | some k =>
    have hf : k.faults key x = ((Polarity.below n).comparison k).faults key x := by
      rw [Polarity.comparison_below]
      split
      · rfl
      · rw [Comparison.faults_opposite]
    simp only [hf, ← Polarity.comparison_below]
    refine (print_yields o key field x _).bind_ok fun p ⟨a, ha, hp⟩ => ?_
    have hatom := SpellsPieces.atom (o := o) a
    simp only [Comparison.isShown_of_atom? ha] at hatom
    rw [ha, hp]
    exact .ok hatom

variable (c : Configuration)

theorem checkDepth_yields (depth : Nat) :
    Yields (fun _ => depth ≤ c.maxDepth) (c.checkDepth depth) (depthFaults c depth) := by
  unfold Configuration.checkDepth depthFaults
  split
  · exact .error _ _
  · next h => exact .ok (Nat.le_of_not_lt h)

mutual

theorem printEntries_yields (n depth : Nat) : ∀ es : List (String × Operand),
    Yields (fun ps => SpellsPieces c.options ps (entryConditions (.below n) es)
        (entryStops c.options.zone es))
      (printEntries c n depth es) (entryFaults c depth es)
  | [] => .ok .nil
  | (key, x) :: rest => by
    rw [printEntries, entryConditions, entryFaults, entryStops, List.flatMap_cons]
    refine .bind ?_ fun ps h => (printEntries_yields n depth rest).bind_ok fun qs h' =>
      .ok (SpellsPieces.append h h')
    split
    · exact printConnective_yields n depth key x
    · exact printField_yields n depth key x

theorem printField_yields (n depth : Nat) (field : String) : ∀ x : Operand,
    Yields (fun ps => SpellsPieces c.options ps (fieldConditions (.below n) field x)
        (fieldStops c.options.zone x))
      (printField c n depth field x) (fieldFaults c depth x)
  | .object es => printOperators_yields n depth field es
  | .array xs => leaf_yields c.options n field "$in" (.array xs)
  | .null => leaf_yields c.options n field "$eq" .null
  | .boolean b => leaf_yields c.options n field "$eq" (.boolean b)
  | .number m => leaf_yields c.options n field "$eq" (.number m)
  | .string s => leaf_yields c.options n field "$eq" (.string s)
  | .timestamp t => leaf_yields c.options n field "$eq" (.timestamp t)

theorem printOperators_yields (n depth : Nat) (field : String) : ∀ es : List (String × Operand),
    Yields (fun ps => SpellsPieces c.options ps (operatorConditions (.below n) field es)
        (fieldStops c.options.zone (.object es)))
      (printOperators c n depth field es) (operatorFaults c depth es)
  | [] => .ok .nil
  | (key, x) :: rest => by
    rw [printOperators, operatorConditions, operatorFaults, fieldStops, List.flatMap_cons]
    refine .bind ?_ fun ps h => (printOperators_yields n depth field rest).bind_ok fun qs h' =>
      .ok (SpellsPieces.append h h')
    split
    · refine (checkDepth_yields c (depth + 1)).bind fun _ _ => ?_
      rw [← Polarity.below_succ]
      exact (printField_yields (n + 1) (depth + 1) field x).bind fun ps h =>
        h.join_yields.bind_ok fun t ht => .ok (.texts ht.1)
    · exact leaf_yields c.options n field key x

theorem printConnective_yields (n depth : Nat) (key : String) (x : Operand) :
    Yields (fun ps => SpellsPieces c.options ps (connectiveConditions (.below n) key x) [])
      (printConnective c n depth key x) (connectiveFaults c depth key x) := by
  unfold printConnective connectiveConditions connectiveFaults
  rw [Form.ofKey?_eq]
  cases Connective.ofKey? key with
  | none => exact .error _ _
  | some k =>
    match x with
    | .array xs =>
      show Yields (fun ps => SpellsPieces c.options ps (groupOf k _) []) _
        (elementFaults c depth key xs)
      rw [← Polarity.below_negations]
      refine (printElements_yields (n + k.form.negations) depth key xs).bind_ok fun ss h => ?_
      rw [h]
      exact .ok (.texts (spells_groupOf c.options k _))
    | .null => exact .error _ _
    | .boolean b => exact .error _ _
    | .number m => exact .error _ _
    | .string s => exact .error _ _
    | .timestamp t => exact .error _ _
    | .object es => exact .error _ _

theorem printElements_yields (n depth : Nat) (key : String) : ∀ xs : List Operand,
    Yields (fun ss => ss = partTexts c.options (elementConditions (.below n) xs))
      (printElements c n depth key xs) (elementFaults c depth key xs)
  | [] => .ok rfl
  | .null :: rest => printElements_yields n depth key rest
  | .object es :: rest => by
    rw [printElements, elementConditions, elementFaults, List.append_assoc]
    refine (checkDepth_yields c (depth + 1)).bind fun _ _ =>
      (printEntries_yields n (depth + 1) es).bind fun ps h =>
        h.join_yields.bind fun t ht =>
          (printElements_yields n depth key rest).bind_ok fun rs h' => .ok ?_
    rw [partTexts_append, partTexts_partOf, ← ht.2, h']
  | .boolean b :: _ => .error _ _
  | .number m :: _ => .error _ _
  | .string s :: _ => .error _ _
  | .timestamp t :: _ => .error _ _
  | .array xs :: _ => .error _ _

end

/-- **What the compiler does with a query**: it fails with the first error that is met, and without
any error it gives the text of the tree. -/
theorem build_yields (p : Polarity) (q : Query) :
    Yields (fun sql => sql = conjunctionText c.options (q.conditions p)) (q.build c p)
      (q.faults c) := by
  rw [← Polarity.below_negations_self p, Query.build_below, Query.print]
  exact (printEntries_yields c p.negations 0 q).bind fun ps h => h.join_yields.mono fun t ht => ht.2

/-- what has the same tree and the same errors is compiled to the same -/
theorem build_congr {c : Configuration} {p : Polarity} {q q' : Query}
    (hconditions : q'.conditions p = q.conditions p) (hfaults : q'.faults c = q.faults c) :
    q'.build c p = q.build c p := by
  have h := build_yields c p q
  have h' := build_yields c p q'
  rw [hconditions, hfaults] at h'
  exact (h'.agree h fun s t hs ht => hs.trans ht.symm).eq

end WhereClause.Filter
