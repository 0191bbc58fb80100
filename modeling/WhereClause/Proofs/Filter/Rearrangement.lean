import WhereClause.Proofs.Filter.Composition
import WhereClause.Proofs.Filter.Atoms

/-!
# Queries in another order

The entries of an object may stand in another order, at any level and however often. A walk then
meets the same comparisons and the same errors, only in another order.

* `Rearranged`          operands that differ in the order of entries alone;
* `Interchangeable`     operands that can take each other's place, whatever they stand beside;
* `build_rearranged`    both queries are compiled or neither is;
* `atoms_rearranged`    and then they have the same comparisons.
-/

set_option autoImplicit false

namespace WhereClause.Filter

open WhereClause.Calendar WhereClause.Sql

/-! ## the order of entries -/

inductive Rearranged : Operand → Operand → Prop where
  | refl (x : Operand) : Rearranged x x
  | trans {x y z : Operand} (h : Rearranged x y) (h' : Rearranged y z) : Rearranged x z
  | perm {es fs : List (String × Operand)} (h : es.Perm fs) : Rearranged (.object es) (.object fs)
  | inObject (before behind : List (String × Operand)) (key : String) {x y : Operand}
      (h : Rearranged x y) :
      Rearranged (.object (before ++ (key, x) :: behind)) (.object (before ++ (key, y) :: behind))
  | inArray (before behind : List Operand) {x y : Operand} (h : Rearranged x y) :
      Rearranged (.array (before ++ x :: behind)) (.array (before ++ y :: behind))

/-- a query with its entries in another order, or those inside of it -/
def Query.Rearranged (q q' : Query) : Prop := Filter.Rearranged (.object q) (.object q')

/-! ## operands in each other's place -/

/-- the entries of an object -/
def Operand.entries : Operand → List (String × Operand)
  | .object es => es
  | _ => []

/-- the same in some order, at a level and when it is left -/
structure Walk.Perm (w v : Walk) : Prop where
  met : w.met.Perm v.met
  left : w.left.Perm v.left

namespace Walk.Perm

theorem refl (w : Walk) : Walk.Perm w w := ⟨.refl _, .refl _⟩

theorem trans {u v w : Walk} (h : Walk.Perm u v) (h' : Walk.Perm v w) : Walk.Perm u w :=
  ⟨h.met.trans h'.met, h.left.trans h'.left⟩

theorem faults {w v : Walk} (h : Walk.Perm w v) : w.faults.Perm v.faults := h.met.append h.left

end Walk.Perm

/-- the same as values, and the same conditions and errors in some order, wherever they stand -/
structure Interchangeable (x y : Operand) : Prop where
  value : x.value? = y.value?
  pattern : x.pattern? = y.pattern?
  kind : x.kind = y.kind
  shown : ∀ z, x.IsShown z ↔ y.IsShown z
  fieldAtoms : ∀ p field, (conditionAtoms (fieldConditions p field x)).Perm
    (conditionAtoms (fieldConditions p field y))
  fieldWalk : ∀ c depth, Walk.Perm (Filter.fieldWalk c depth x) (Filter.fieldWalk c depth y)
  connectiveAtoms : ∀ p key, (conditionAtoms (connectiveConditions p key x)).Perm
    (conditionAtoms (connectiveConditions p key y))
  connectiveFaults : ∀ c depth key, (Filter.connectiveFaults c depth key x).Perm
    (Filter.connectiveFaults c depth key y)
  entryAtoms : ∀ p, (conditionAtoms (entryConditions p x.entries)).Perm
    (conditionAtoms (entryConditions p y.entries))
  entryWalk : ∀ c depth,
    Walk.Perm (Filter.entryWalk c depth x.entries) (Filter.entryWalk c depth y.entries)

theorem leafConditions_congr {x y : Operand} (hv : x.value? = y.value?)
    (hp : x.pattern? = y.pattern?) (p : Polarity) (field key : String) :
    leafConditions p field key x = leafConditions p field key y := by
  unfold leafConditions Comparison.atom?
  rw [hv, hp]

theorem leafFaults_congr {x y : Operand} (hv : x.value? = y.value?)
    (hp : x.pattern? = y.pattern?) (hk : x.kind = y.kind) (key : String) :
    leafFaults key x = leafFaults key y := by
  unfold leafFaults Comparison.faults
  rw [hv, hp, hk]

theorem partAtoms_element (p : Polarity) (x : Operand) :
    partAtoms (elementConditions p [x]) = conditionAtoms (entryConditions p x.entries) := by
  cases x with
  | object es =>
    rw [elementConditions_object, partAtoms_partOf]
    rfl
  | _ => rfl

/-- an element has the errors of its entries, or it is none of a connective -/
theorem elementFaults_single (c : Configuration) (depth : Nat) (key : String) (x : Operand) :
    elementFaults c depth key [x] =
      if x.kind = "object" then depthFaults c (depth + 1) ++ (entryWalk c (depth + 1) x.entries).faults
      else if x.kind = "null" then [] else [.invalidOperand key (.arrayOf x.kind)] := by
  cases x with
  | object es => exact elementFaults_object c depth es
  | _ => rfl

/-! ## what is made of them one by one -/

section

variable {α β γ : Type} {f : List α → List β} {g : List β → List γ}

theorem OneByOne.comp (hf : OneByOne f) (hg : OneByOne g) : OneByOne fun as => g (f as) := by
  intro as bs
  show g (f (as ++ bs)) = g (f as) ++ g (f bs)
  rw [hf, hg]

theorem oneByOne_conditionAtoms : OneByOne (conditionAtoms (α := α)) := conditionAtoms_append

theorem oneByOne_partAtoms : OneByOne (partAtoms (α := α)) := partAtoms_append

end

theorem oneByOne_operatorAtoms (p : Polarity) (field : String) :
    OneByOne fun es => conditionAtoms (operatorConditions p field es) :=
  (oneByOne_operatorConditions p field).comp oneByOne_conditionAtoms

theorem oneByOne_entryAtoms (p : Polarity) :
    OneByOne fun es => conditionAtoms (entryConditions p es) :=
  (oneByOne_entryConditions p).comp oneByOne_conditionAtoms

theorem oneByOne_elementAtoms (p : Polarity) :
    OneByOne fun xs => partAtoms (elementConditions p xs) :=
  (oneByOne_elementConditions p).comp oneByOne_partAtoms

theorem values?_congr (before behind : List Operand) {x y : Operand} (h : x.value? = y.value?) :
    Operand.values? (before ++ x :: behind) = Operand.values? (before ++ y :: behind) := by
  induction before with
  | nil =>
    show Operand.values? (x :: behind) = Operand.values? (y :: behind)
    rw [Operand.values?, Operand.values?, h]
  | cons z zs ih => rw [List.cons_append, List.cons_append, Operand.values?, Operand.values?, ih]

theorem value?_array_congr {xs ys : List Operand} (h : Operand.values? xs = Operand.values? ys) :
    (Operand.array xs).value? = (Operand.array ys).value? := by
  rw [Operand.value?, Operand.value?, h]

namespace Interchangeable

variable {x y z : Operand}

theorem refl (x : Operand) : Interchangeable x x where
  value := rfl
  pattern := rfl
  kind := rfl
  shown _ := Iff.rfl
  fieldAtoms _ _ := .refl _
  fieldWalk _ _ := .refl _
  connectiveAtoms _ _ := .refl _
  connectiveFaults _ _ _ := .refl _
  entryAtoms _ := .refl _
  entryWalk _ _ := .refl _

theorem trans (h : Interchangeable x y) (h' : Interchangeable y z) : Interchangeable x z where
  value := h.value.trans h'.value
  pattern := h.pattern.trans h'.pattern
  kind := h.kind.trans h'.kind
  shown z := (h.shown z).trans (h'.shown z)
  fieldAtoms p field := (h.fieldAtoms p field).trans (h'.fieldAtoms p field)
  fieldWalk c depth := (h.fieldWalk c depth).trans (h'.fieldWalk c depth)
  connectiveAtoms p key := (h.connectiveAtoms p key).trans (h'.connectiveAtoms p key)
  connectiveFaults c depth key :=
    (h.connectiveFaults c depth key).trans (h'.connectiveFaults c depth key)
  entryAtoms p := (h.entryAtoms p).trans (h'.entryAtoms p)
  entryWalk c depth := (h.entryWalk c depth).trans (h'.entryWalk c depth)

/-- beside a key of an operator -/
theorem operator (h : Interchangeable x y) (key : String) :
    (∀ p field, (conditionAtoms (operatorConditions p field [(key, x)])).Perm
      (conditionAtoms (operatorConditions p field [(key, y)]))) ∧
    ∀ c depth, Walk.Perm (Filter.fieldWalk c depth (.object [(key, x)]))
      (Filter.fieldWalk c depth (.object [(key, y)])) := by
  by_cases hkey : key = "$not"
  · subst hkey
    constructor
    · intro p field
      rw [operatorConditions_not, operatorConditions_not]
      exact h.fieldAtoms p.flip field
    · intro c depth
      rw [fieldWalk_not, fieldWalk_not]
      exact ⟨(h.fieldWalk c (depth + 1)).faults.append_left _, .refl _⟩
  · constructor
    · intro p field
      rw [operatorConditions_leaf p field hkey, operatorConditions_leaf p field hkey,
        leafConditions_congr h.value h.pattern]
    · intro c depth
      rw [fieldWalk_leaf c depth hkey, fieldWalk_leaf c depth hkey]
      exact ⟨.of_eq (leafFaults_congr h.value h.pattern h.kind key),
        .of_eq (leafStops_congr (h.shown _))⟩

/-- beside a key of an entry -/
theorem entry (h : Interchangeable x y) (key : String) :
    (∀ p, (conditionAtoms (entryConditions p [(key, x)])).Perm
      (conditionAtoms (entryConditions p [(key, y)]))) ∧
    ∀ c depth,
      Walk.Perm (Filter.entryWalk c depth [(key, x)]) (Filter.entryWalk c depth [(key, y)]) := by
  cases hkey : isOperatorKey key with
  | true =>
    constructor
    · intro p
      rw [entryConditions_connective p hkey, entryConditions_connective p hkey]
      exact h.connectiveAtoms p key
    · intro c depth
      rw [entryWalk_connective c depth hkey, entryWalk_connective c depth hkey]
      exact ⟨h.connectiveFaults c depth key, .refl _⟩
  | false =>
    constructor
    · intro p
      rw [entryConditions_field p hkey, entryConditions_field p hkey]
      exact h.fieldAtoms p key
    · intro c depth
      rw [entryWalk_field c depth hkey, entryWalk_field c depth hkey]
      exact h.fieldWalk c depth

/-- among the elements of a connective -/
theorem element (h : Interchangeable x y) :
    (∀ p, (partAtoms (elementConditions p [x])).Perm (partAtoms (elementConditions p [y]))) ∧
    ∀ c depth key, (elementFaults c depth key [x]).Perm (elementFaults c depth key [y]) := by
  constructor
  · intro p
    rw [partAtoms_element, partAtoms_element]
    exact h.entryAtoms p
  · intro c depth key
    rw [elementFaults_single, elementFaults_single, h.kind]
    split
    · exact (h.entryWalk c (depth + 1)).faults.append_left _
    · exact .refl _

/-- objects, given what their entries are as operators and as entries of a query -/
theorem object {es fs : List (String × Operand)}
    (shown : ∀ z, (Operand.object es).IsShown z ↔ (Operand.object fs).IsShown z)
    (operatorAtoms : ∀ p field, (conditionAtoms (operatorConditions p field es)).Perm
      (conditionAtoms (operatorConditions p field fs)))
    (operatorWalk : ∀ c depth,
      Walk.Perm (Filter.fieldWalk c depth (.object es)) (Filter.fieldWalk c depth (.object fs)))
    (entryAtoms : ∀ p,
      (conditionAtoms (entryConditions p es)).Perm (conditionAtoms (entryConditions p fs)))
    (entryWalk : ∀ c depth,
      Walk.Perm (Filter.entryWalk c depth es) (Filter.entryWalk c depth fs)) :
    Interchangeable (.object es) (.object fs) where
  value := rfl
  pattern := rfl
  kind := rfl
  shown := shown
  fieldAtoms := operatorAtoms
  fieldWalk := operatorWalk
  connectiveAtoms p key := by
    have hnone (gs : List (String × Operand)) : connectiveConditions p key (.object gs) = [] :=
      connectiveConditions_of_ne fun _ h => by cases h
    rw [hnone, hnone]
  connectiveFaults c depth key := by
    unfold Filter.connectiveFaults
    exact .refl _
  entryAtoms := entryAtoms
  entryWalk := entryWalk

/-- lists, given what they are as values and as elements of a connective -/
theorem array {xs ys : List Operand} (values : Operand.values? xs = Operand.values? ys)
    (shown : ∀ z, (Operand.array xs).IsShown z ↔ (Operand.array ys).IsShown z)
    (elementAtoms : ∀ p,
      (partAtoms (elementConditions p xs)).Perm (partAtoms (elementConditions p ys)))
    (elementFaults : ∀ c depth key,
      (Filter.elementFaults c depth key xs).Perm (Filter.elementFaults c depth key ys)) :
    Interchangeable (.array xs) (.array ys) where
  value := value?_array_congr values
  pattern := rfl
  kind := rfl
  shown := shown
  fieldAtoms p field := by
    have hsame := leafConditions_congr (value?_array_congr values) rfl p field "$in"
    exact .of_eq (congrArg conditionAtoms hsame)
  fieldWalk c depth :=
    ⟨.of_eq (leafFaults_congr (value?_array_congr values) rfl rfl "$in"),
      .of_eq (leafStops_congr (shown _))⟩
  connectiveAtoms p key := by
    unfold connectiveConditions
    split
    · exact .refl _
    · next k _ =>
      show (conditionAtoms (groupOf k _)).Perm (conditionAtoms (groupOf k _))
      rw [conditionAtoms_groupOf, conditionAtoms_groupOf]
      exact elementAtoms (p.inside k)
  connectiveFaults c depth key := by
    unfold Filter.connectiveFaults
    split
    · exact .refl _
    · exact elementFaults c depth key
  entryAtoms _ := .refl _
  entryWalk _ _ := .refl _

theorem object_of_perm {es fs : List (String × Operand)} (h : es.Perm fs) :
    Interchangeable (.object es) (.object fs) := by
  apply object
  · intro z
    rw [Operand.isShown_object_iff, Operand.isShown_object_iff]
    exact forall_congr' fun e => imp_congr_left h.mem_iff
  · intro p field
    exact (oneByOne_operatorAtoms p field).perm h
  · intro c depth
    exact ⟨(oneByOne_operatorFaults c depth).perm h, (oneByOne_fieldStops c.options.zone).perm h⟩
  · intro p
    exact (oneByOne_entryAtoms p).perm h
  · intro c depth
    exact ⟨(oneByOne_entryFaults c depth).perm h, (oneByOne_entryStops c.options.zone).perm h⟩

theorem inObject (h : Interchangeable x y) (before behind : List (String × Operand))
    (key : String) : Interchangeable (.object (before ++ (key, x) :: behind))
      (.object (before ++ (key, y) :: behind)) := by
  obtain ⟨hoperator, hoperators⟩ := h.operator key
  obtain ⟨hentry, hentries⟩ := h.entry key
  apply object
  · intro z
    simp only [Operand.isShown_object_iff, List.forall_mem_append, List.forall_mem_cons, h.shown z]
  · intro p field
    exact (oneByOne_operatorAtoms p field).perm_of_single before behind (hoperator p field)
  · intro c depth
    have hmet : (operatorFaults c depth [(key, x)]).Perm (operatorFaults c depth [(key, y)]) :=
      (hoperators c depth).met
    exact ⟨(oneByOne_operatorFaults c depth).perm_of_single before behind hmet,
      (oneByOne_fieldStops c.options.zone).perm_of_single before behind (hoperators c depth).left⟩
  · intro p
    exact (oneByOne_entryAtoms p).perm_of_single before behind (hentry p)
  · intro c depth
    have hmet : (entryFaults c depth [(key, x)]).Perm (entryFaults c depth [(key, y)]) :=
      (hentries c depth).met
    exact ⟨(oneByOne_entryFaults c depth).perm_of_single before behind hmet,
      (oneByOne_entryStops c.options.zone).perm_of_single before behind (hentries c depth).left⟩

theorem inArray (h : Interchangeable x y) (before behind : List Operand) :
    Interchangeable (.array (before ++ x :: behind)) (.array (before ++ y :: behind)) := by
  obtain ⟨helement, helements⟩ := h.element
  apply array
  · exact values?_congr before behind h.value
  · intro z
    simp only [Operand.isShown_array_iff, List.forall_mem_append, List.forall_mem_cons, h.shown z]
  · intro p
    exact (oneByOne_elementAtoms p).perm_of_single before behind (helement p)
  · intro c depth key
    exact (oneByOne_elementFaults c depth key).perm_of_single before behind
      (helements c depth key)

end Interchangeable

/-- **The order of entries changes nothing but the order.** -/
theorem Rearranged.interchangeable {x y : Operand} (h : Rearranged x y) : Interchangeable x y := by
  induction h with
  | refl x => exact .refl x
  | trans _ _ ih ih' => exact ih.trans ih'
  | perm h => exact .object_of_perm h
  | inObject before behind key _ ih => exact ih.inObject before behind key
  | inArray before behind _ ih => exact ih.inArray before behind

/-! ## queries -/

variable {c : Configuration} {p : Polarity} {q q' : Query}

theorem faults_rearranged (h : q.Rearranged q') : (q.faults c).Perm (q'.faults c) :=
  (h.interchangeable.entryWalk c 0).faults

theorem atoms_rearranged (h : q.Rearranged q') :
    (conditionAtoms (q.conditions p)).Perm (conditionAtoms (q'.conditions p)) :=
  h.interchangeable.entryAtoms p

/-- **A query is compiled exactly if it is with its entries in another order.** -/
theorem build_rearranged (h : q.Rearranged q') :
    (∃ sql, q.build c p = .ok sql) ↔ ∃ sql, q'.build c p = .ok sql := by
  rw [(build_yields c p q).ok_iff, (build_yields c p q').ok_iff]
  have hperm := faults_rearranged (c := c) h
  exact ⟨fun hnone => List.perm_nil.mp (hnone ▸ hperm.symm),
    fun hnone => List.perm_nil.mp (hnone ▸ hperm)⟩

end WhereClause.Filter
