import WhereClause.Proofs.Filter.Structure

/-!
# Which queries have a condition

A grammar says which keys may stand where and with which operands. It knows neither tables nor
errors, and how deep a query is nested is counted apart from it.

* `IsQuery`             the queries of the grammar;
* `Query.nesting`       how many levels `$not` and the connectives make;
* `entryWalk_iff`       a walk meets nothing exactly in the queries of the grammar that are not nested
                        too deep and have timestamps that the zone shows;
* `entryWalk_reported`  what a walk can meet.

Together they say what the compiler accepts, and how it refuses the rest.
-/

set_option autoImplicit false

namespace WhereClause.Filter

open WhereClause.Calendar WhereClause.Sql

/-! ## the grammar -/

/-- an operand without an object at any depth -/
inductive Operand.IsValue : Operand → Prop where
  | null : IsValue .null
  | boolean (b : Bool) : IsValue (.boolean b)
  | number (n : Number) : IsValue (.number n)
  | string (s : String) : IsValue (.string s)
  | timestamp (t : Timestamp) : IsValue (.timestamp t)
  | array {xs : List Operand} (h : ∀ x ∈ xs, x.IsValue) : IsValue (.array xs)

inductive Operand.IsPattern : Operand → Prop where
  | string (s : String) : IsPattern (.string s)
  | number (n : Number) : IsPattern (.number n)
  | boolean (b : Bool) : IsPattern (.boolean b)

/-- the keys of the comparisons that take any value -/
def valueKeys : List String := ["$eq", "$ne", "$gt", "$gte", "$lt", "$lte", "$in", "$nin"]

def connectiveKeys : List String := ["$and", "$or", "$nor", "$nand"]

mutual

/-- what may stand beside a field or beside `$not` -/
inductive IsFieldOperand : Operand → Prop where
  | value {x : Operand} (h : x.IsValue) : IsFieldOperand x
  | operators {es : List (String × Operand)} (h : ∀ e ∈ es, IsOperator e.1 e.2) :
      IsFieldOperand (.object es)

inductive IsOperator : String → Operand → Prop where
  | not {key : String} {x : Operand} (hk : key = "$not") (h : IsFieldOperand x) :
      IsOperator key x
  | like {key : String} {x : Operand} (hk : key = "$like") (h : x.IsPattern) : IsOperator key x
  | compare {key : String} {x : Operand} (hk : key ∈ valueKeys) (h : x.IsValue) : IsOperator key x

end

mutual

inductive IsEntry : String → Operand → Prop where
  | field {key : String} {x : Operand} (hk : isOperatorKey key = false) (h : IsFieldOperand x) :
      IsEntry key x
  | connective {key : String} {xs : List Operand} (hk : key ∈ connectiveKeys)
      (h : ∀ x ∈ xs, IsFilter x) : IsEntry key (.array xs)

/-- what may stand in the array of a connective -/
inductive IsFilter : Operand → Prop where
  | null : IsFilter .null
  | query {es : List (String × Operand)} (h : ∀ e ∈ es, IsEntry e.1 e.2) : IsFilter (.object es)

end

def IsQuery (q : Query) : Prop := ∀ e ∈ q, IsEntry e.1 e.2

/-! ## nesting -/

mutual

def fieldNesting : Operand → Nat
  | .object es => operatorNesting es
  | _ => 0

def operatorNesting : List (String × Operand) → Nat
  | [] => 0
  | (key, x) :: rest =>
    max (if key = "$not" then fieldNesting x + 1 else 0) (operatorNesting rest)

end

mutual

def entryNesting : List (String × Operand) → Nat
  | [] => 0
  | (key, x) :: rest =>
    max (if isOperatorKey key then connectiveNesting x else fieldNesting x) (entryNesting rest)

def connectiveNesting : Operand → Nat
  | .array xs => elementNesting xs
  | _ => 0

/-- only objects make a level of their own -/
def elementNesting : List Operand → Nat
  | [] => 0
  | .object es :: rest => max (entryNesting es + 1) (elementNesting rest)
  | _ :: rest => elementNesting rest

end

def Query.nesting (q : Query) : Nat := entryNesting q

theorem forall_mem_and {α : Type} {P Q : α → Prop} {xs : List α} :
    (∀ x ∈ xs, P x ∧ Q x) ↔ (∀ x ∈ xs, P x) ∧ ∀ x ∈ xs, Q x := by
  simp only [imp_and, forall_and]

/-! ## the operands of comparisons -/

mutual

theorem isSome_value? : ∀ x : Operand, x.value?.isSome ↔ x.IsValue
  | .null => ⟨fun _ => .null, fun _ => rfl⟩
  | .boolean b => ⟨fun _ => .boolean b, fun _ => rfl⟩
  | .number n => ⟨fun _ => .number n, fun _ => rfl⟩
  | .string s => ⟨fun _ => .string s, fun _ => rfl⟩
  | .timestamp t => ⟨fun _ => .timestamp t, fun _ => rfl⟩
  | .object es => ⟨fun h => (nomatch h), fun h => (nomatch h)⟩
  | .array xs => by
    rw [Operand.value?, Option.isSome_map, isSome_values? xs]
    constructor
    · exact .array
    · intro h
      cases h with
      | array h => exact h

theorem isSome_values? : ∀ xs : List Operand, (Operand.values? xs).isSome ↔ ∀ x ∈ xs, x.IsValue
  | [] => ⟨fun _ _ h => absurd h List.not_mem_nil, fun _ => rfl⟩
  | x :: xs => by
    rw [List.forall_mem_cons, ← isSome_value? x, ← isSome_values? xs, Operand.values?]
    cases x.value? with
    | none => exact ⟨fun h => (nomatch h), fun h => (nomatch h.1)⟩
    | some v =>
      cases Operand.values? xs with
      | none => exact ⟨fun h => (nomatch h), fun h => (nomatch h.2)⟩
      | some vs => exact ⟨fun _ => ⟨rfl, rfl⟩, fun _ => rfl⟩

end

theorem isSome_pattern? (x : Operand) : x.pattern?.isSome ↔ x.IsPattern := by
  cases x with
  | string s => exact ⟨fun _ => .string s, fun _ => rfl⟩
  | number n => exact ⟨fun _ => .number n, fun _ => rfl⟩
  | boolean b =>
    cases b with
    | true => exact ⟨fun _ => .boolean true, fun _ => rfl⟩
    | false => exact ⟨fun _ => .boolean false, fun _ => rfl⟩
  | null => exact ⟨fun h => (nomatch h), fun h => (nomatch h)⟩
  | timestamp t => exact ⟨fun h => (nomatch h), fun h => (nomatch h)⟩
  | array xs => exact ⟨fun h => (nomatch h), fun h => (nomatch h)⟩
  | object es => exact ⟨fun h => (nomatch h), fun h => (nomatch h)⟩

theorem ofKey?_like_or_value {key : String} {k : Comparison} (h : Comparison.ofKey? key = some k) :
    key = "$like" ∧ k = .like ∨ key ∈ valueKeys ∧ key ≠ "$like" ∧ k ≠ .like ∧ k ≠ .notLike := by
  unfold Comparison.ofKey? at h
  split at h <;> cases h <;> decide

theorem ofKey?_of_mem {key : String} (h : key ∈ valueKeys) : Comparison.ofKey? key ≠ none := by
  have hall : ∀ k ∈ valueKeys, Comparison.ofKey? k ≠ none := by decide
  exact hall key h

theorem eq_mem_valueKeys : "$eq" ∈ valueKeys := by decide

theorem in_mem_valueKeys : "$in" ∈ valueKeys := by decide

theorem connectiveOfKey?_eq_none (key : String) :
    Connective.ofKey? key = none ↔ key ∉ connectiveKeys := by
  constructor
  · intro h hk
    have hall : ∀ k ∈ connectiveKeys, Connective.ofKey? k ≠ none := by decide
    exact hall key hk h
  · intro h
    unfold Connective.ofKey?
    split <;> first | rfl | exact absurd (by decide) h

theorem isOperatorKey_of_mem {key : String} (h : key ∈ connectiveKeys) :
    isOperatorKey key = true := by
  have hall : ∀ k ∈ connectiveKeys, isOperatorKey k = true := by decide
  exact hall key h

theorem unless_eq_nil {b : Bool} {e : Error} : (if b then [] else [e]) = [] ↔ b = true := by
  cases b with
  | true => exact ⟨fun _ => rfl, fun _ => rfl⟩
  | false => exact ⟨fun h => (nomatch h), fun h => (nomatch h)⟩

/-- beside `$not` stands what may stand beside a field -/
theorem isOperator_not {x : Operand} : IsOperator "$not" x ↔ IsFieldOperand x := by
  refine ⟨fun h => ?_, .not rfl⟩
  cases h with
  | not _ h => exact h
  | like hk _ => exact absurd hk (by decide)
  | compare hk _ => exact absurd hk (by decide)

/-- the comparisons with their operands in the grammar are those without an error -/
theorem leafFaults_iff {key : String} (hkey : key ≠ "$not") (x : Operand) :
    leafFaults key x = [] ↔ IsOperator key x := by
  unfold leafFaults
  cases h : Comparison.ofKey? key with
  | none =>
    refine ⟨fun hf => (nomatch hf), fun ho => ?_⟩
    cases ho with
    | not hk _ => exact absurd hk hkey
    | like hk _ =>
      rw [hk] at h
      exact nomatch h
    | compare hk _ => exact absurd h (ofKey?_of_mem hk)
  | some k =>
    obtain ⟨hk, hl⟩ | ⟨hk, hne, hl, hn⟩ := ofKey?_like_or_value h
    · have hf : k.faults key x = [] ↔ x.pattern?.isSome := by
        rw [hl]
        exact unless_eq_nil
      show k.faults key x = [] ↔ _
      rw [hf, isSome_pattern?]
      refine ⟨.like hk, fun ho => ?_⟩
      cases ho with
      | not hk' _ => exact absurd hk' hkey
      | like _ hx => exact hx
      | compare hk' _ =>
        rw [hk] at hk'
        exact absurd hk' (by decide)
    · have hf : k.faults key x = [] ↔ x.value?.isSome := by
        cases k <;> first | contradiction | exact unless_eq_nil
      show k.faults key x = [] ↔ _
      rw [hf, isSome_value?]
      refine ⟨.compare hk, fun ho => ?_⟩
      cases ho with
      | not hk' _ => exact absurd hk' hkey
      | like hk' _ => exact absurd hk' hne
      | compare _ hx => exact hx

theorem leafStops_eq_nil_iff {z : Zone} {x : Operand} : leafStops z x = [] ↔ x.IsShown z := by
  unfold leafStops
  split
  · next h => exact ⟨fun _ => h, fun _ => rfl⟩
  · next h => exact ⟨fun he => (nomatch he), fun hx => absurd hx h⟩

theorem leafWalk_iff (z : Zone) {key : String} (hkey : key ≠ "$not") (x : Operand) :
    (leafWalk z key x).faults = [] ↔ IsOperator key x ∧ x.IsShown z :=
  List.append_eq_nil_iff.trans (and_congr (leafFaults_iff hkey x) leafStops_eq_nil_iff)

theorem isFieldOperand_object {es : List (String × Operand)} :
    IsFieldOperand (.object es) ↔ ∀ e ∈ es, IsOperator e.1 e.2 := by
  refine ⟨fun h => ?_, .operators⟩
  cases h with
  | operators h => exact h
  | value h => exact nomatch h

theorem isEntry_field {key : String} (hkey : isOperatorKey key = false) {x : Operand} :
    IsEntry key x ↔ IsFieldOperand x := by
  refine ⟨fun h => ?_, .field hkey⟩
  cases h with
  | field _ h => exact h
  | connective hk _ =>
    rw [isOperatorKey_of_mem hk] at hkey
    exact nomatch hkey

theorem isFilter_object {es : List (String × Operand)} :
    IsFilter (.object es) ↔ ∀ e ∈ es, IsEntry e.1 e.2 := by
  refine ⟨fun h => ?_, .query⟩
  cases h with
  | query h => exact h

/-! ## no error -/

/-- nothing is met exactly if something is valid and its nesting keeps to the limit -/
def Settles (c : Configuration) (depth : Nat) (w : Walk) (valid : Prop) (nesting : Nat) : Prop :=
  w.faults = [] ↔ valid ∧ depth + nesting ≤ c.maxDepth

namespace Settles

variable {c : Configuration} {depth : Nat}

theorem append {w v : Walk} {P Q : Prop} {m n : Nat} (h : Settles c depth w P m)
    (h' : Settles c depth v Q n) : Settles c depth (w ++ v) (P ∧ Q) (max m n) := by
  unfold Settles at *
  rw [Walk.faults_append_eq_nil, h, h']
  constructor
  · rintro ⟨⟨hp, hm⟩, hq, hn⟩
    exact ⟨⟨hp, hq⟩, by omega⟩
  · rintro ⟨⟨hp, hq⟩, hmn⟩
    exact ⟨⟨hp, by omega⟩, hq, by omega⟩

theorem congr {w : Walk} {P Q : Prop} {n : Nat} (h : Settles c depth w P n)
    (hpq : P ↔ Q) : Settles c depth w Q n := by
  unfold Settles at *
  rw [h, hpq]

/-- something that makes no level -/
theorem flat (hd : depth ≤ c.maxDepth) {w : Walk} {P : Prop} (h : w.faults = [] ↔ P) :
    Settles c depth w P 0 := by
  unfold Settles
  rw [h]
  exact ⟨fun hp => ⟨hp, hd⟩, fun hp => hp.1⟩

theorem error (e : Error) (es : List Error) {P : Prop} (hp : ¬ P) (n : Nat) :
    Settles c depth (.of (e :: es)) P n :=
  ⟨fun h => (nomatch h), fun h => absurd h.1 hp⟩

/-- something one level deeper -/
theorem deeper {w : Walk} {P : Prop} {n : Nat}
    (h : depth + 1 ≤ c.maxDepth → Settles c (depth + 1) w P n) :
    Settles c depth (.of (depthFaults c (depth + 1)) ++ w.close) P (n + 1) := by
  unfold Settles
  rw [Walk.faults_append_eq_nil, Walk.faults_close, Walk.faults_of, depthFaults]
  split
  · refine ⟨fun hf => (nomatch hf.1), fun ⟨_, hn⟩ => ?_⟩
    omega
  · have hs := h (by omega)
    unfold Settles at hs
    have hn : depth + 1 + n = depth + (n + 1) := by omega
    rw [hs, hn]
    exact and_iff_right rfl

end Settles

variable (c : Configuration)

/-- a value beside a field is compared as beside the operator that it stands for -/
theorem valueWalk_iff {depth : Nat} (hd : depth ≤ c.maxDepth) {key : String}
    (hkey : key ∈ valueKeys) (x : Operand) (hx : ∀ es, x ≠ .object es) :
    Settles c depth (leafWalk c.options.zone key x)
      (IsFieldOperand x ∧ x.IsShown c.options.zone) 0 := by
  have hnot : key ≠ "$not" := by
    rintro rfl
    exact absurd hkey (by decide)
  refine .flat hd ((leafWalk_iff _ hnot x).trans (and_congr_left' ⟨fun h => ?_, fun h => ?_⟩))
  · cases h with
    | not hk _ => exact absurd hk hnot
    | like hk _ =>
      rw [hk] at hkey
      exact absurd hkey (by decide)
    | compare _ h => exact .value h
  · cases h with
    | value h => exact .compare hkey h
    | operators _ => exact absurd rfl (hx _)

mutual

theorem fieldWalk_iff (depth : Nat) (hd : depth ≤ c.maxDepth) : ∀ x : Operand,
    Settles c depth (fieldWalk c depth x) (IsFieldOperand x ∧ x.IsShown c.options.zone)
      (fieldNesting x)
  | .object es => (operatorWalk_iff depth hd es).congr <| by
    rw [isFieldOperand_object, Operand.isShown_object_iff]
    exact forall_mem_and
  | .array xs => valueWalk_iff c hd in_mem_valueKeys (.array xs) fun _ h => nomatch h
  | .null => valueWalk_iff c hd eq_mem_valueKeys .null fun _ h => nomatch h
  | .boolean b => valueWalk_iff c hd eq_mem_valueKeys (.boolean b) fun _ h => nomatch h
  | .number n => valueWalk_iff c hd eq_mem_valueKeys (.number n) fun _ h => nomatch h
  | .string s => valueWalk_iff c hd eq_mem_valueKeys (.string s) fun _ h => nomatch h
  | .timestamp t => valueWalk_iff c hd eq_mem_valueKeys (.timestamp t) fun _ h => nomatch h

theorem operatorWalk_iff (depth : Nat) (hd : depth ≤ c.maxDepth) :
    ∀ es : List (String × Operand), Settles c depth (fieldWalk c depth (.object es))
      (∀ e ∈ es, IsOperator e.1 e.2 ∧ e.2.IsShown c.options.zone) (operatorNesting es)
  | [] => .flat hd ⟨fun _ _ h => absurd h List.not_mem_nil, fun _ => rfl⟩
  | (key, x) :: rest => by
    rw [fieldWalk_cons, operatorNesting, List.forall_mem_cons]
    refine .append ?_ (operatorWalk_iff depth hd rest)
    split
    · next hkey =>
      subst hkey
      exact .deeper fun hd' =>
        (fieldWalk_iff (depth + 1) hd' x).congr (and_congr_left' isOperator_not.symm)
    · next hkey => exact .flat hd (leafWalk_iff _ hkey x)

end

mutual

/-- **A walk meets nothing** exactly in the queries of the grammar that are not nested too deep, if
the zone shows their timestamps. -/
theorem entryWalk_iff (depth : Nat) (hd : depth ≤ c.maxDepth) :
    ∀ es : List (String × Operand), Settles c depth (entryWalk c depth es)
      (∀ e ∈ es, IsEntry e.1 e.2 ∧ e.2.IsShown c.options.zone) (entryNesting es)
  | [] => .flat hd ⟨fun _ _ h => absurd h List.not_mem_nil, fun _ => rfl⟩
  | (key, x) :: rest => by
    rw [entryWalk_cons, entryNesting, List.forall_mem_cons]
    refine .append ?_ (entryWalk_iff depth hd rest)
    split
    · next hkey => exact connectiveFaults_iff depth hd hkey x
    · next hkey =>
      have hfield := isEntry_field (x := x) (Bool.eq_false_iff.mpr hkey)
      exact (fieldWalk_iff c depth hd x).congr (and_congr_left' hfield.symm)

theorem connectiveFaults_iff (depth : Nat) (hd : depth ≤ c.maxDepth) {key : String}
    (hkey : isOperatorKey key = true) (x : Operand) :
    Settles c depth (.of (connectiveFaults c depth key x))
      (IsEntry key x ∧ x.IsShown c.options.zone) (connectiveNesting x) := by
  have entry : IsEntry key x → key ∈ connectiveKeys ∧ ∃ xs, x = .array xs ∧ ∀ y ∈ xs, IsFilter y := by
    intro h
    cases h with
    | field hk _ =>
      rw [hkey] at hk
      exact nomatch hk
    | connective hk h => exact ⟨hk, _, rfl, h⟩
  unfold connectiveFaults
  cases hk : Connective.ofKey? key with
  | none =>
    have hmem := (connectiveOfKey?_eq_none key).mp hk
    exact .error _ _ (fun h => hmem (entry h.1).1) _
  | some k =>
    have hmem : key ∈ connectiveKeys := by
      by_cases h : key ∈ connectiveKeys
      · exact h
      · rw [(connectiveOfKey?_eq_none key).mpr h] at hk
        exact nomatch hk
    have other (hx : ∀ xs, x ≠ .array xs) (e : Error) :
        Settles c depth (.of [e]) (IsEntry key x ∧ x.IsShown c.options.zone)
          (connectiveNesting x) := by
      refine .error _ _ (fun h => ?_) _
      obtain ⟨_, xs, hxs, _⟩ := entry h.1
      exact hx xs hxs
    match x with
    | .array xs =>
      have hentry : IsEntry key (.array xs) ↔ ∀ y ∈ xs, IsFilter y := by
        refine ⟨fun h => ?_, .connective hmem⟩
        obtain ⟨_, ys, hys, h⟩ := entry h
        cases hys
        exact h
      refine (elementFaults_iff depth hd key xs).congr ?_
      rw [hentry, Operand.isShown_array_iff]
      exact forall_mem_and
    | .null => exact other (fun _ h => (nomatch h)) _
    | .boolean b => exact other (fun _ h => (nomatch h)) _
    | .number m => exact other (fun _ h => (nomatch h)) _
    | .string s => exact other (fun _ h => (nomatch h)) _
    | .timestamp t => exact other (fun _ h => (nomatch h)) _
    | .object es => exact other (fun _ h => (nomatch h)) _

theorem elementFaults_iff (depth : Nat) (hd : depth ≤ c.maxDepth) (key : String) :
    ∀ xs : List Operand, Settles c depth (.of (elementFaults c depth key xs))
      (∀ x ∈ xs, IsFilter x ∧ x.IsShown c.options.zone) (elementNesting xs)
  | [] => .flat hd ⟨fun _ _ h => absurd h List.not_mem_nil, fun _ => rfl⟩
  | .null :: rest => (elementFaults_iff depth hd key rest).congr <| by
    rw [List.forall_mem_cons]
    exact (and_iff_right ⟨.null, fun _ h => absurd h List.not_mem_nil⟩).symm
  | .object es :: rest => by
    have hes (h : depth + 1 ≤ c.maxDepth) : Settles c (depth + 1) (entryWalk c (depth + 1) es)
        (IsFilter (.object es) ∧ (Operand.object es).IsShown c.options.zone) (entryNesting es) := by
      rw [isFilter_object, Operand.isShown_object_iff, ← forall_mem_and]
      exact entryWalk_iff (depth + 1) h es
    rw [elementFaults_cons, elementNesting, List.forall_mem_cons, ← List.append_assoc]
    exact (Settles.deeper hes).append (elementFaults_iff depth hd key rest)
  | .boolean b :: rest => .error _ _ (fun h => nomatch (h _ List.mem_cons_self).1) _
  | .number m :: rest => .error _ _ (fun h => nomatch (h _ List.mem_cons_self).1) _
  | .string s :: rest => .error _ _ (fun h => nomatch (h _ List.mem_cons_self).1) _
  | .timestamp t :: rest => .error _ _ (fun h => nomatch (h _ List.mem_cons_self).1) _
  | .array xs :: rest => .error _ _ (fun h => nomatch (h _ List.mem_cons_self).1) _

end

theorem faults_eq_nil_iff (q : Query) :
    q.faults c = [] ↔ q.nesting ≤ c.maxDepth ∧ IsQuery q ∧ q.IsShown c.options.zone := by
  have h : q.faults c = [] ↔ _ ∧ 0 + q.nesting ≤ c.maxDepth :=
    entryWalk_iff c 0 (Nat.zero_le _) q
  rw [h, forall_mem_and, ← Query.isShown_iff, Nat.zero_add, and_comm]
  rfl

/-! ## what an error says -/

mutual

/-- the keys of all objects, at any depth -/
def Operand.keys : Operand → List String
  | .array xs => elementKeys xs
  | .object es => entryKeys es
  | _ => []

def elementKeys : List Operand → List String
  | [] => []
  | x :: xs => x.keys ++ elementKeys xs

def entryKeys : List (String × Operand) → List String
  | [] => []
  | (key, x) :: rest => key :: x.keys ++ entryKeys rest

end

def Query.keys (q : Query) : List String := entryKeys q

/-- the errors that can be met where these keys are -/
inductive Reported (c : Configuration) (keys : List String) : Error → Prop where
  | unknownOperator {key : String} (h : key ∈ keys) : Reported c keys (.unknownOperator key)
  | invalidOperand (key : String) (reason : Mismatch) : Reported c keys (.invalidOperand key reason)
  | nestingTooDeep : Reported c keys (.nestingTooDeep c.maxDepth)

/-- errors that are reported, and the end of the program only if something is not shown -/
def AllReported (c : Configuration) (keys : List String) (shown : Prop) (es : List Error) : Prop :=
  ∀ e ∈ es, Reported c keys e ∨ e = stop ∧ ¬ shown

namespace AllReported

variable {c} {P Q : Prop}

theorem nil (keys : List String) (P : Prop) : AllReported c keys P [] :=
  fun _ h => absurd h List.not_mem_nil

theorem single {keys : List String} {e : Error} (h : Reported c keys e) :
    AllReported c keys P [e] := by
  intro e' he
  rw [List.mem_singleton.mp he]
  exact .inl h

theorem weaken {keys keys' : List String} (hk : ∀ key ∈ keys, key ∈ keys') (hQ : Q → P)
    {es : List Error} (h : AllReported c keys P es) : AllReported c keys' Q es := by
  intro e he
  obtain he | ⟨rfl, hP⟩ := h e he
  · cases he with
    | unknownOperator hm => exact .inl (.unknownOperator (hk _ hm))
    | invalidOperand key reason => exact .inl (.invalidOperand key reason)
    | nestingTooDeep => exact .inl .nestingTooDeep
  · exact .inr ⟨rfl, mt hQ hP⟩

theorem both {keys : List String} {es fs : List Error} (h : AllReported c keys P es)
    (h' : AllReported c keys P fs) : AllReported c keys P (es ++ fs) := by
  intro e he
  rcases List.mem_append.mp he with he | he
  · exact h e he
  · exact h' e he

theorem append {keys keys' : List String} {es fs : List Error} (h : AllReported c keys P es)
    (h' : AllReported c keys' Q fs) : AllReported c (keys ++ keys') (P ∧ Q) (es ++ fs) :=
  both (h.weaken (fun _ => List.mem_append_left keys') And.left)
    (h'.weaken (fun _ => List.mem_append_right keys) And.right)

theorem walks {keys keys' : List String} {w v : Walk} (h : AllReported c keys P w.faults)
    (h' : AllReported c keys' Q v.faults) :
    AllReported c (keys ++ keys') (P ∧ Q) (w ++ v).faults :=
  fun e he => append h h' e (List.mem_append.mpr (Walk.mem_faults_append.mp he))

theorem depthFaults (keys : List String) (P : Prop) (depth : Nat) :
    AllReported c keys P (Filter.depthFaults c depth) := by
  unfold Filter.depthFaults
  split
  · exact single .nestingTooDeep
  · exact nil keys P

theorem leafStops (keys : List String) (z : Zone) (x : Operand) :
    AllReported c keys (x.IsShown z) (Filter.leafStops z x) := by
  unfold Filter.leafStops
  split
  · exact nil keys _
  · next h =>
    intro e he
    exact .inr ⟨List.mem_singleton.mp he, h⟩

/-- a key that is none of a comparison is named -/
theorem leafWalk {key : String} {keys : List String} (z : Zone)
    (h : Comparison.ofKey? key = none → key ∈ keys) (x : Operand) :
    AllReported c keys (x.IsShown z) (Filter.leafWalk z key x).faults := by
  show AllReported c keys _ (Filter.leafFaults key x ++ Filter.leafStops z x)
  refine both ?_ (leafStops keys z x)
  unfold Filter.leafFaults
  cases hk : Comparison.ofKey? key with
  | none => exact single (.unknownOperator (h hk))
  | some k =>
    show AllReported c keys _ (k.faults key x)
    unfold Comparison.faults
    split
    · split
      · exact nil keys _
      · exact single (.invalidOperand _ _)
    · split
      · exact nil keys _
      · exact single (.invalidOperand _ _)
    · split
      · exact nil keys _
      · exact single (.invalidOperand _ _)

theorem valueWalk {key : String} (hkey : key ∈ valueKeys) (keys : List String) (z : Zone)
    (x : Operand) : AllReported c keys (x.IsShown z) (Filter.leafWalk z key x).faults :=
  leafWalk z (fun h => absurd h (ofKey?_of_mem hkey)) x

/-- an element that is no filter -/
theorem noFilter {keys : List String} {es : List Error} (e : Mismatch) (key : String) (x : Operand)
    (h : AllReported c keys Q es) :
    AllReported c (x.keys ++ keys) (P ∧ Q) (.invalidOperand key e :: es) :=
  append (single (.invalidOperand key e)) h

end AllReported

mutual

theorem fieldWalk_reported (depth : Nat) : ∀ x : Operand,
    AllReported c x.keys (x.IsShown c.options.zone) (fieldWalk c depth x).faults
  | .object es => (operatorWalk_reported depth es).weaken (fun _ => id) Operand.isShown_object_iff.mp
  | .array xs => .valueWalk in_mem_valueKeys _ _ (.array xs)
  | .null => .valueWalk eq_mem_valueKeys _ _ .null
  | .boolean b => .valueWalk eq_mem_valueKeys _ _ (.boolean b)
  | .number n => .valueWalk eq_mem_valueKeys _ _ (.number n)
  | .string s => .valueWalk eq_mem_valueKeys _ _ (.string s)
  | .timestamp t => .valueWalk eq_mem_valueKeys _ _ (.timestamp t)

theorem operatorWalk_reported (depth : Nat) : ∀ es : List (String × Operand),
    AllReported c (entryKeys es) (∀ e ∈ es, e.2.IsShown c.options.zone)
      (fieldWalk c depth (.object es)).faults
  | [] => .nil _ _
  | (key, x) :: rest => by
    rw [fieldWalk_cons, entryKeys, List.forall_mem_cons]
    refine .walks ?_ (operatorWalk_reported depth rest)
    split
    · have hx := (fieldWalk_reported (depth + 1) x).weaken (fun _ => List.mem_cons_of_mem key) id
      have h := (AllReported.depthFaults (c := c) (key :: x.keys) _ (depth + 1)).both hx
      exact fun e he => h e <| List.mem_append.mpr <| by
        rw [Walk.mem_faults_append, Walk.faults_close, Walk.faults_of] at he
        exact he
    · exact .leafWalk _ (fun _ => List.mem_cons_self) x

end

mutual

/-- an error names a key of the query, or an operand, or the limit -/
theorem entryWalk_reported (depth : Nat) : ∀ es : List (String × Operand),
    AllReported c (entryKeys es) (∀ e ∈ es, e.2.IsShown c.options.zone) (entryWalk c depth es).faults
  | [] => .nil _ _
  | (key, x) :: rest => by
    rw [entryWalk_cons, entryKeys, List.forall_mem_cons]
    refine .walks ?_ (entryWalk_reported depth rest)
    split
    · rw [Walk.faults_of]
      exact connectiveFaults_reported depth key x
    · exact (fieldWalk_reported c depth x).weaken (fun _ => List.mem_cons_of_mem key) id

theorem connectiveFaults_reported (depth : Nat) (key : String) (x : Operand) :
    AllReported c (key :: x.keys) (x.IsShown c.options.zone) (connectiveFaults c depth key x) := by
  unfold connectiveFaults
  cases Connective.ofKey? key with
  | none => exact .single (.unknownOperator List.mem_cons_self)
  | some k =>
    match x with
    | .array xs =>
      exact (elementFaults_reported depth key xs).weaken (fun _ => List.mem_cons_of_mem key)
        Operand.isShown_array_iff.mp
    | .null => exact .single (.invalidOperand _ _)
    | .boolean b => exact .single (.invalidOperand _ _)
    | .number n => exact .single (.invalidOperand _ _)
    | .string s => exact .single (.invalidOperand _ _)
    | .timestamp t => exact .single (.invalidOperand _ _)
    | .object es => exact .single (.invalidOperand _ _)

theorem elementFaults_reported (depth : Nat) (key : String) : ∀ xs : List Operand,
    AllReported c (elementKeys xs) (∀ x ∈ xs, x.IsShown c.options.zone)
      (elementFaults c depth key xs)
  | [] => .nil _ _
  | x :: rest => by
    have hrest := elementFaults_reported depth key rest
    rw [elementKeys, List.forall_mem_cons]
    match x with
    | .null => exact hrest.weaken (fun _ => id) And.right
    | .object es =>
      rw [elementFaults_cons]
      have hes := (entryWalk_reported (depth + 1) es).weaken (fun _ => id)
        Operand.isShown_object_iff.mp
      exact .both (.depthFaults _ _ _) (hes.append hrest)
    | .boolean b => exact .noFilter _ key (.boolean b) hrest
    | .number m => exact .noFilter _ key (.number m) hrest
    | .string s => exact .noFilter _ key (.string s) hrest
    | .timestamp t => exact .noFilter _ key (.timestamp t) hrest
    | .array xs => exact .noFilter _ key (.array xs) hrest

end

theorem faults_reported (q : Query) :
    AllReported c q.keys (q.IsShown c.options.zone) (q.faults c) :=
  (entryWalk_reported c 0 q).weaken (fun _ => id) Query.isShown_iff.mp

/-! ## what the compiler accepts -/

theorem exists_build_iff (p : Polarity) (q : Query) : (∃ sql, q.build c p = .ok sql) ↔
    q.nesting ≤ c.maxDepth ∧ IsQuery q ∧ q.IsShown c.options.zone :=
  (build_yields c p q).ok_iff.trans (faults_eq_nil_iff c q)

end WhereClause.Filter
