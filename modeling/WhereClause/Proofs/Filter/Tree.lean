import WhereClause.Filter.Operator
import WhereClause.Proofs.Intercalate

/-!
# Trees of conditions

A tree has comparisons as its leaves, and its groups are what a connective holds together: several
parts, each of them a conjunction of trees.

* `Condition.atoms`  the leaves in their order;
* `Condition.items`  a tree laid out in one line, with parentheses and `AND` and `OR`;
* `itemAtoms_conjunctionItems`  the leaves keep their order in the line;
* `conjunctionItems_map`  the line of a tree depends on its leaves only where they stand.
-/

set_option autoImplicit false

namespace WhereClause.Filter

/-! ## trees -/

inductive Condition (α : Type) where
  | atom (a : α)
  /-- the parts are conjunctions -/
  | group (k : Connective) (parts : List (List (Condition α)))

variable {α β γ : Type}

/-- a group; without parts there is none -/
def groupOf (k : Connective) (parts : List (List (Condition α))) : List (Condition α) :=
  if parts.isEmpty then [] else [.group k parts]

/-- a conjunction as a part of a group; an empty one is left out -/
def partOf (ts : List (Condition α)) : List (List (Condition α)) :=
  if ts.isEmpty then [] else [ts]

/-! ## leaves -/

mutual

def Condition.map (f : α → β) : Condition α → Condition β
  | .atom a => .atom (f a)
  | .group k parts => .group k (mapParts f parts)

def mapConditions (f : α → β) : List (Condition α) → List (Condition β)
  | [] => []
  | t :: ts => t.map f :: mapConditions f ts

def mapParts (f : α → β) : List (List (Condition α)) → List (List (Condition β))
  | [] => []
  | p :: ps => mapConditions f p :: mapParts f ps

end

mutual

def Condition.atoms : Condition α → List α
  | .atom a => [a]
  | .group _ parts => partAtoms parts

def conditionAtoms : List (Condition α) → List α
  | [] => []
  | t :: ts => t.atoms ++ conditionAtoms ts

def partAtoms : List (List (Condition α)) → List α
  | [] => []
  | p :: ps => conditionAtoms p ++ partAtoms ps

end

theorem mapConditions_append (f : α → β) (ts us : List (Condition α)) :
    mapConditions f (ts ++ us) = mapConditions f ts ++ mapConditions f us := by
  induction ts with
  | nil => rfl
  | cons t ts ih => rw [List.cons_append, mapConditions, ih, mapConditions, List.cons_append]

theorem mapConditions_ne_nil (f : α → β) {ts : List (Condition α)} (h : ts ≠ []) :
    mapConditions f ts ≠ [] := by
  cases ts with
  | nil => exact absurd rfl h
  | cons t ts => exact List.cons_ne_nil _ _

theorem mapParts_append (f : α → β) (ps qs : List (List (Condition α))) :
    mapParts f (ps ++ qs) = mapParts f ps ++ mapParts f qs := by
  induction ps with
  | nil => rfl
  | cons p ps ih => rw [List.cons_append, mapParts, ih, mapParts, List.cons_append]

theorem mapConditions_map_atom (f : α → β) (as : List α) :
    mapConditions f (as.map .atom) = (as.map f).map .atom := by
  induction as with
  | nil => rfl
  | cons a as ih => exact congrArg (Condition.atom (f a) :: ·) ih

theorem mapConditions_groupOf (f : α → β) (k : Connective) (ps : List (List (Condition α))) :
    mapConditions f (groupOf k ps) = groupOf k (mapParts f ps) := by
  cases ps with
  | nil => rfl
  | cons p ps => rfl

theorem mapParts_partOf (f : α → β) (ts : List (Condition α)) :
    mapParts f (partOf ts) = partOf (mapConditions f ts) := by
  cases ts with
  | nil => rfl
  | cons t ts => rfl

theorem conditionAtoms_append (ts us : List (Condition α)) :
    conditionAtoms (ts ++ us) = conditionAtoms ts ++ conditionAtoms us := by
  induction ts with
  | nil => rfl
  | cons t ts ih =>
    rw [List.cons_append, conditionAtoms, ih, conditionAtoms, List.append_assoc]

theorem partAtoms_append (ps qs : List (List (Condition α))) :
    partAtoms (ps ++ qs) = partAtoms ps ++ partAtoms qs := by
  induction ps with
  | nil => rfl
  | cons p ps ih => rw [List.cons_append, partAtoms, ih, partAtoms, List.append_assoc]

theorem conditionAtoms_map_atom (as : List α) : conditionAtoms (as.map .atom) = as := by
  induction as with
  | nil => rfl
  | cons a as ih => exact congrArg (a :: ·) ih

theorem conditionAtoms_groupOf (k : Connective) (ps : List (List (Condition α))) :
    conditionAtoms (groupOf k ps) = partAtoms ps := by
  cases ps with
  | nil => rfl
  | cons p ps => exact List.append_nil _

theorem partAtoms_partOf (ts : List (Condition α)) :
    partAtoms (partOf ts) = conditionAtoms ts := by
  cases ts with
  | nil => rfl
  | cons t ts => exact List.append_nil _

/-! ## a tree in one line -/

/-- what a line is made of -/
inductive Item (α : Type) where
  | atom (a : α)
  | opening
  | closing
  | and
  | or

namespace Item

def map (f : α → β) : Item α → Item β
  | .atom a => .atom (f a)
  | .opening => .opening
  | .closing => .closing
  | .and => .and
  | .or => .or

def atom? : Item α → Option α
  | .atom a => some a
  | _ => none

end Item

namespace Connective

/-- before the first part -/
def opening : Connective → List (Item α)
  | or => [.opening, .opening]
  | _ => [.opening]

/-- between two parts -/
def joint : Connective → List (Item α)
  | and | nand => [.closing, .and, .opening]
  | or | nor => [.closing, .or, .opening]

/-- behind the last part -/
def closing : Connective → List (Item α)
  | or => [.closing, .closing]
  | _ => [.closing]

end Connective

mutual

def Condition.items : Condition α → List (Item α)
  | .atom a => [.atom a]
  | .group k parts => k.opening ++ k.joint.intercalate (partItems parts) ++ k.closing

/-- each of several trees -/
def conditionItems : List (Condition α) → List (List (Item α))
  | [] => []
  | t :: ts => t.items :: conditionItems ts

/-- each of several conjunctions -/
def partItems : List (List (Condition α)) → List (List (Item α))
  | [] => []
  | p :: ps => [Item.and].intercalate (conditionItems p) :: partItems ps

end

/-- a conjunction in one line -/
def conjunctionItems (ts : List (Condition α)) : List (Item α) :=
  [Item.and].intercalate (conditionItems ts)

/-! ## leaves in the line -/

theorem Connective.map_items (f : α → β) (k : Connective) :
    k.opening.map (Item.map f) = k.opening ∧ k.joint.map (Item.map f) = k.joint ∧
      k.closing.map (Item.map f) = k.closing := by
  cases k <;> exact ⟨rfl, rfl, rfl⟩

mutual

theorem Condition.items_map (f : α → β) : ∀ t : Condition α,
    (t.map f).items = t.items.map (Item.map f)
  | .atom a => rfl
  | .group k parts => by
    obtain ⟨ho, hj, hc⟩ := k.map_items f
    rw [Condition.map, Condition.items, Condition.items, partItems_map f parts, List.map_append,
      List.map_append, map_intercalate, ho, hj, hc]

theorem conditionItems_map (f : α → β) : ∀ ts : List (Condition α),
    conditionItems (mapConditions f ts) = (conditionItems ts).map fun is => is.map (Item.map f)
  | [] => rfl
  | t :: ts => by
    rw [mapConditions, conditionItems, t.items_map f, conditionItems_map f ts, conditionItems,
      List.map_cons]

theorem partItems_map (f : α → β) : ∀ ps : List (List (Condition α)),
    partItems (mapParts f ps) = (partItems ps).map fun is => is.map (Item.map f)
  | [] => rfl
  | p :: ps => by
    rw [mapParts, partItems, conditionItems_map f p, partItems_map f ps, partItems, List.map_cons,
      map_intercalate]
    rfl

end

theorem conjunctionItems_map (f : α → β) (ts : List (Condition α)) :
    conjunctionItems (mapConditions f ts) = (conjunctionItems ts).map (Item.map f) := by
  rw [conjunctionItems, conditionItems_map, conjunctionItems, map_intercalate]
  rfl

/-- the leaves in a line -/
def itemAtoms (is : List (Item α)) : List α := is.filterMap Item.atom?

theorem itemAtoms_append (is js : List (Item α)) :
    itemAtoms (is ++ js) = itemAtoms is ++ itemAtoms js := List.filterMap_append

theorem itemAtoms_map (f : α → β) (is : List (Item α)) :
    itemAtoms (is.map (Item.map f)) = (itemAtoms is).map f := by
  induction is with
  | nil => rfl
  | cons i is ih =>
    cases i with
    | atom a => exact congrArg (f a :: ·) ih
    | _ => exact ih

/-- lines with nothing but glue between them -/
theorem itemAtoms_intercalate {j : List (Item α)} (hj : itemAtoms j = [])
    (xs : List (List (Item α))) : itemAtoms (j.intercalate xs) = xs.flatMap itemAtoms :=
  filterMap_intercalate Item.atom? hj xs

theorem Connective.itemAtoms_glue (k : Connective) : itemAtoms (k.opening (α := α)) = [] ∧
    itemAtoms (k.joint (α := α)) = [] ∧ itemAtoms (k.closing (α := α)) = [] := by
  cases k <;> exact ⟨rfl, rfl, rfl⟩

mutual

theorem Condition.itemAtoms_items : ∀ t : Condition α, itemAtoms t.items = t.atoms
  | .atom a => rfl
  | .group k parts => by
    obtain ⟨ho, hj, hc⟩ := k.itemAtoms_glue (α := α)
    rw [Condition.items, itemAtoms_append, itemAtoms_append, ho, hc, itemAtoms_intercalate hj,
      flatMap_partItems parts, List.append_nil]
    rfl

theorem flatMap_conditionItems : ∀ ts : List (Condition α),
    (conditionItems ts).flatMap itemAtoms = conditionAtoms ts
  | [] => rfl
  | t :: ts => by
    rw [conditionItems, List.flatMap_cons, t.itemAtoms_items, flatMap_conditionItems ts,
      conditionAtoms]

theorem flatMap_partItems : ∀ ps : List (List (Condition α)),
    (partItems ps).flatMap itemAtoms = partAtoms ps
  | [] => rfl
  | p :: ps => by
    rw [partItems, List.flatMap_cons, itemAtoms_intercalate (by rfl), flatMap_conditionItems p,
      flatMap_partItems ps, partAtoms]

end

theorem itemAtoms_conjunctionItems (ts : List (Condition α)) :
    itemAtoms (conjunctionItems ts) = conditionAtoms ts := by
  rw [conjunctionItems, itemAtoms_intercalate (by rfl), flatMap_conditionItems]

theorem conditionAtoms_mapConditions (f : α → β) (ts : List (Condition α)) :
    conditionAtoms (mapConditions f ts) = (conditionAtoms ts).map f := by
  rw [← itemAtoms_conjunctionItems, conjunctionItems_map, itemAtoms_map,
    itemAtoms_conjunctionItems]

end WhereClause.Filter
