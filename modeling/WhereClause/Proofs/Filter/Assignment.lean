import WhereClause.Proofs.Filter.Tree

/-!
# Truth values

The leaves of a tree, or of a line, are given truth values in their order. A tree of truth values
has one itself: a conjunction holds if all of it does, and the connective of a group says whether all
of its parts have to hold or any of them.

* `Condition.holds`         the truth value of a tree;
* `assignItems_conjunction` the line of a tree has the truth values of the tree;
* `exists_assign`           each tree of truth values is given by some assignment.
-/

set_option autoImplicit false
set_option linter.unusedVariables false

namespace WhereClause.Filter

variable {α β : Type}

/-! ## trees of truth values -/

/-- whether all parts of a group have to hold, or one of them -/
def Connective.isAll : Connective → Bool
  | .and | .nand => true
  | .or | .nor => false

mutual

def Condition.holds : Condition Bool → Bool
  | .atom b => b
  | .group k parts => if k.isAll then allParts parts else anyPart parts

/-- all conditions hold -/
def conjunctionHolds : List (Condition Bool) → Bool
  | [] => true
  | t :: ts => t.holds && conjunctionHolds ts

def allParts : List (List (Condition Bool)) → Bool
  | [] => true
  | p :: ps => conjunctionHolds p && allParts ps

def anyPart : List (List (Condition Bool)) → Bool
  | [] => false
  | p :: ps => conjunctionHolds p || anyPart ps

end

/-! ## truth values for leaves -/

/-- values in the places of the comparisons of a line, from the `i`-th on -/
def assignItems (v : Nat → β) (i : Nat) : List (Item α) → List (Item β)
  | [] => []
  | .atom _ :: is => .atom (v i) :: assignItems v (i + 1) is
  | .opening :: is => .opening :: assignItems v i is
  | .closing :: is => .closing :: assignItems v i is
  | .and :: is => .and :: assignItems v i is
  | .or :: is => .or :: assignItems v i is

mutual

/-- values in the places of the leaves, from the `i`-th on -/
def Condition.assign (v : Nat → β) (i : Nat) : Condition α → Condition β
  | .atom _ => .atom (v i)
  | .group k parts => .group k (assignParts v i parts)

def assignConditions (v : Nat → β) (i : Nat) : List (Condition α) → List (Condition β)
  | [] => []
  | t :: ts => t.assign v i :: assignConditions v (i + t.atoms.length) ts

def assignParts (v : Nat → β) (i : Nat) : List (List (Condition α)) → List (List (Condition β))
  | [] => []
  | p :: ps => assignConditions v i p :: assignParts v (i + (conditionAtoms p).length) ps

end

variable (v : Nat → β)

theorem assignItems_append (is js : List (Item α)) (i : Nat) :
    assignItems v i (is ++ js) =
      assignItems v i is ++ assignItems v (i + (itemAtoms is).length) js := by
  induction is generalizing i with
  | nil => rfl
  | cons a is ih =>
    cases a with
    | atom a =>
      have h := ih (i + 1)
      rw [Nat.add_assoc, Nat.add_comm 1] at h
      exact congrArg (Item.atom (v i) :: ·) h
    | opening => exact congrArg (Item.opening :: ·) (ih i)
    | closing => exact congrArg (Item.closing :: ·) (ih i)
    | and => exact congrArg (Item.and :: ·) (ih i)
    | or => exact congrArg (Item.or :: ·) (ih i)

/-- what a comparison is does not matter -/
theorem assignItems_map {γ : Type} (f : α → γ) (is : List (Item α)) (i : Nat) :
    assignItems v i (is.map (Item.map f)) = assignItems v i is := by
  induction is generalizing i with
  | nil => rfl
  | cons a is ih =>
    cases a with
    | atom a => exact congrArg (Item.atom (v i) :: ·) (ih (i + 1))
    | opening => exact congrArg (Item.opening :: ·) (ih i)
    | closing => exact congrArg (Item.closing :: ·) (ih i)
    | and => exact congrArg (Item.and :: ·) (ih i)
    | or => exact congrArg (Item.or :: ·) (ih i)

theorem Connective.assignItems_glue (k : Connective) (i : Nat) :
    assignItems v i (k.opening (α := α)) = k.opening ∧
      assignItems v i (k.joint (α := α)) = k.joint ∧
      assignItems v i (k.closing (α := α)) = k.closing := by
  cases k <;> exact ⟨rfl, rfl, rfl⟩

mutual

theorem Condition.assignItems_items (i : Nat) : ∀ t : Condition α,
    assignItems v i t.items = (t.assign v i).items
  | .atom a => rfl
  | .group k parts => by
    obtain ⟨ho, _, _⟩ := k.assignItems_glue (α := α) v i
    obtain ⟨hao, _, _⟩ := k.itemAtoms_glue (α := α)
    have hp := assignItems_parts k i parts
    rw [Condition.items, assignItems_append, assignItems_append, ho, hao]
    rw [List.length_nil, Nat.add_zero, hp, (k.assignItems_glue v _).2.2]
    rfl

theorem assignItems_conditions (i : Nat) : ∀ ts : List (Condition α),
    assignItems v i ([Item.and].intercalate (conditionItems ts)) =
      [Item.and].intercalate (conditionItems (assignConditions v i ts))
  | [] => rfl
  | [t] => by
    rw [assignConditions, assignConditions, conditionItems, conditionItems, conditionItems,
      conditionItems, List.intercalate_singleton, List.intercalate_singleton]
    exact t.assignItems_items i
  | t :: u :: ts => by
    have h := assignItems_conditions (i + t.atoms.length) (u :: ts)
    have ht : (itemAtoms (t.items ++ [Item.and])).length = t.atoms.length := by
      rw [itemAtoms_append, t.itemAtoms_items]
      exact congrArg List.length (List.append_nil _)
    have hne : conditionItems (u :: ts) ≠ [] := List.cons_ne_nil _ _
    rw [conditionItems, intercalate_cons _ _ hne, assignItems_append, ht, h, assignItems_append,
      t.assignItems_items i]
    exact (intercalate_cons _ _ (List.cons_ne_nil _ _)).symm

theorem assignItems_parts (k : Connective) (i : Nat) : ∀ ps : List (List (Condition α)),
    assignItems v i (k.joint.intercalate (partItems ps)) =
      k.joint.intercalate (partItems (assignParts v i ps))
  | [] => rfl
  | [p] => by
    rw [assignParts, assignParts, partItems, partItems, partItems, partItems,
      List.intercalate_singleton, List.intercalate_singleton]
    exact assignItems_conditions i p
  | p :: q :: ps => by
    have h := assignItems_parts k (i + (conditionAtoms p).length) (q :: ps)
    have hp : (itemAtoms ([Item.and].intercalate (conditionItems p) ++ k.joint)).length =
        (conditionAtoms p).length := by
      rw [itemAtoms_append, k.itemAtoms_glue.2.1, List.append_nil]
      exact congrArg List.length (itemAtoms_conjunctionItems p)
    have hne : partItems (q :: ps) ≠ [] := List.cons_ne_nil _ _
    rw [partItems, intercalate_cons _ _ hne, assignItems_append, hp, h, assignItems_append,
      assignItems_conditions i p, (k.assignItems_glue v _).2.1]
    exact (intercalate_cons _ _ (List.cons_ne_nil _ _)).symm

end

/-- **The line of a tree has the values of the tree.** -/
theorem assignItems_conjunction (i : Nat) (ts : List (Condition α)) :
    assignItems v i (conjunctionItems ts) = conjunctionItems (assignConditions v i ts) :=
  assignItems_conditions v i ts

/-! ## shapes -/

/-- trees without what stands at their leaves -/
def shape (ts : List (Condition α)) : List (Condition Unit) := mapConditions (fun _ => ()) ts

mutual

theorem Condition.length_atoms_map (f : α → β) : ∀ t : Condition α,
    (t.map f).atoms.length = t.atoms.length
  | .atom a => rfl
  | .group k parts => length_partAtoms_map f parts

theorem length_conditionAtoms_map (f : α → β) : ∀ ts : List (Condition α),
    (conditionAtoms (mapConditions f ts)).length = (conditionAtoms ts).length
  | [] => rfl
  | t :: ts => by
    rw [mapConditions, conditionAtoms, conditionAtoms, List.length_append, List.length_append,
      t.length_atoms_map f, length_conditionAtoms_map f ts]

theorem length_partAtoms_map (f : α → β) : ∀ ps : List (List (Condition α)),
    (partAtoms (mapParts f ps)).length = (partAtoms ps).length
  | [] => rfl
  | p :: ps => by
    rw [mapParts, partAtoms, partAtoms, List.length_append, List.length_append,
      length_conditionAtoms_map f p, length_partAtoms_map f ps]

end

mutual

/-- what stands at a leaf does not matter -/
theorem Condition.assign_map {γ : Type} (f : α → γ) (i : Nat) : ∀ t : Condition α,
    (t.map f).assign v i = t.assign v i
  | .atom a => rfl
  | .group k parts => congrArg (Condition.group k) (assignParts_map f i parts)

theorem assignConditions_map {γ : Type} (f : α → γ) (i : Nat) : ∀ ts : List (Condition α),
    assignConditions v i (mapConditions f ts) = assignConditions v i ts
  | [] => rfl
  | t :: ts => by
    rw [mapConditions, assignConditions, assignConditions, t.assign_map f i,
      t.length_atoms_map f, assignConditions_map f _ ts]

theorem assignParts_map {γ : Type} (f : α → γ) (i : Nat) : ∀ ps : List (List (Condition α)),
    assignParts v i (mapParts f ps) = assignParts v i ps
  | [] => rfl
  | p :: ps => by
    rw [mapParts, assignParts, assignParts, assignConditions_map f i p,
      length_conditionAtoms_map f p, assignParts_map f _ ps]

end

mutual

theorem Condition.shape_assign (i : Nat) : ∀ t : Condition α,
    (t.assign v i).map (fun _ => ()) = t.map fun _ => ()
  | .atom a => rfl
  | .group k parts => congrArg (Condition.group k) (shape_assignParts i parts)

theorem shape_assignConditions (i : Nat) : ∀ ts : List (Condition α),
    shape (assignConditions v i ts) = shape ts
  | [] => rfl
  | t :: ts => by
    rw [assignConditions, shape, mapConditions, t.shape_assign i, shape, mapConditions]
    exact congrArg _ (shape_assignConditions _ ts)

theorem shape_assignParts (i : Nat) : ∀ ps : List (List (Condition α)),
    mapParts (fun _ => ()) (assignParts v i ps) = mapParts (fun _ => ()) ps
  | [] => rfl
  | p :: ps => by
    rw [assignParts, mapParts, shape_assignParts _ ps, mapParts]
    exact congrArg (· :: _) (shape_assignConditions i p)

end

/-- trees of one shape get the same values -/
theorem assignConditions_of_shape {ts : List (Condition α)} {us : List (Condition β)}
    (h : shape ts = shape us) (i : Nat) : assignConditions v i ts = assignConditions v i us := by
  have hts := assignConditions_map v (fun _ => ()) i ts
  have hus := assignConditions_map v (fun _ => ()) i us
  have hshape : mapConditions (fun _ => ()) ts = mapConditions (fun _ => ()) us := h
  rw [← hts, ← hus, hshape]

/-! ## every tree of values is given -/

/-- the values from the `i`-th on -/
def Lists (v : Nat → β) (i : Nat) (bs : List β) : Prop := (List.range' i bs.length).map v = bs

variable {v}

theorem Lists.of_append {i : Nat} {bs cs : List β} (h : Lists v i (bs ++ cs)) :
    Lists v i bs ∧ Lists v (i + bs.length) cs := by
  rw [Lists, List.length_append, ← List.range'_append_1, List.map_append] at h
  have hlength : ((List.range' i bs.length).map v).length = bs.length := by
    rw [List.length_map, List.length_range']
  exact List.append_inj h hlength

mutual

theorem Condition.assign_self (i : Nat) : ∀ t : Condition β, Lists v i t.atoms → t.assign v i = t
  | .atom b, h => congrArg Condition.atom (List.head_eq_of_cons_eq h)
  | .group k parts, h => congrArg (Condition.group k) (assignParts_self i parts h)

theorem assignConditions_self (i : Nat) : ∀ ts : List (Condition β), Lists v i (conditionAtoms ts) →
    assignConditions v i ts = ts
  | [], _ => rfl
  | t :: ts, h => by
    obtain ⟨ht, hts⟩ := Lists.of_append h
    rw [assignConditions, t.assign_self i ht, assignConditions_self _ ts hts]

theorem assignParts_self (i : Nat) : ∀ ps : List (List (Condition β)), Lists v i (partAtoms ps) →
    assignParts v i ps = ps
  | [], _ => rfl
  | p :: ps, h => by
    obtain ⟨hp, hps⟩ := Lists.of_append h
    rw [assignParts, assignConditions_self i p hp, assignParts_self _ ps hps]

end

theorem lists_getD (bs : List β) (b : β) : Lists (fun j => bs.getD j b) 0 bs := by
  refine List.ext_getElem (by simp) fun j h _ => ?_
  simp at h
  simp [h]

/-- a tree of truth values with the shape of a tree is given by an assignment -/
theorem exists_assign {ts : List (Condition α)} {us : List (Condition Bool)}
    (h : shape us = shape ts) : ∃ v : Nat → Bool, assignConditions v 0 ts = us := by
  refine ⟨fun j => (conditionAtoms us).getD j false, ?_⟩
  rw [assignConditions_of_shape _ h.symm]
  exact assignConditions_self 0 us (lists_getD _ _)

end WhereClause.Filter
