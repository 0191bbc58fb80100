/-!
# Lists with something between them

What is done to every element is done to the lists and to what stands between them
(`flatMap_intercalate`, `map_intercalate`), and what leaves nothing of the latter leaves the lists
side by side (`filterMap_intercalate`). What stands around each of the lists may as well stand between
them (`intercalate_map_wrap`).
-/

set_option autoImplicit false

namespace WhereClause

variable {α β : Type}

/-- one list before others -/
theorem intercalate_cons (j x : List α) {xs : List (List α)} (h : xs ≠ []) :
    j.intercalate (x :: xs) = x ++ j ++ j.intercalate xs := by
  obtain ⟨y, ys, rfl⟩ := List.exists_cons_of_ne_nil h
  rw [List.intercalate_cons_cons]

/-- each list but the first with what stands in front of it -/
theorem intercalate_cons_eq_flatMap (j x : List α) (xs : List (List α)) :
    j.intercalate (x :: xs) = x ++ xs.flatMap fun y => j ++ y := by
  induction xs generalizing x with
  | nil => rw [List.intercalate_singleton, List.flatMap_nil, List.append_nil]
  | cons y ys ih =>
    rw [List.intercalate_cons_cons, ih, List.flatMap_cons]
    simp only [List.append_assoc]

theorem intercalate_append (j : List α) {xs ys : List (List α)} (hx : xs ≠ []) (hy : ys ≠ []) :
    j.intercalate (xs ++ ys) = j.intercalate xs ++ j ++ j.intercalate ys := by
  induction xs with
  | nil => exact absurd rfl hx
  | cons x xs ih =>
    cases xs with
    | nil => rw [List.singleton_append, intercalate_cons j x hy, List.intercalate_singleton]
    | cons z zs =>
      have hne : z :: zs ≠ [] := List.cons_ne_nil z zs
      have happ : (z :: zs) ++ ys ≠ [] := List.cons_ne_nil z (zs ++ ys)
      rw [List.cons_append, intercalate_cons j x happ, ih hne, intercalate_cons j x hne]
      simp only [List.append_assoc]

/-- what stands around each list goes into what stands between them -/
theorem intercalate_map_wrap (a b j : List α) {xs : List (List α)} (h : xs ≠ []) :
    j.intercalate (xs.map fun x => a ++ x ++ b) = a ++ (b ++ j ++ a).intercalate xs ++ b := by
  induction xs with
  | nil => exact absurd rfl h
  | cons x xs ih =>
    cases xs with
    | nil => rw [List.map_singleton, List.intercalate_singleton, List.intercalate_singleton]
    | cons y ys =>
      have hne : y :: ys ≠ [] := List.cons_ne_nil y ys
      have hmap : (y :: ys).map (fun x => a ++ x ++ b) ≠ [] := List.cons_ne_nil _ _
      rw [List.map_cons, intercalate_cons j _ hmap, ih hne, intercalate_cons _ x hne]
      simp only [List.append_assoc]

theorem flatMap_intercalate (f : α → List β) (j : List α) (xs : List (List α)) :
    (j.intercalate xs).flatMap f = (j.flatMap f).intercalate (xs.map fun x => x.flatMap f) := by
  induction xs with
  | nil => rfl
  | cons x xs ih =>
    cases xs with
    | nil => simp
    | cons y ys =>
      rw [List.map_cons, List.map_cons, List.intercalate_cons_cons, List.intercalate_cons_cons,
        List.flatMap_append, List.flatMap_append, ih, List.map_cons]

theorem map_intercalate (f : α → β) (j : List α) (xs : List (List α)) :
    (j.intercalate xs).map f = (j.map f).intercalate (xs.map fun x => x.map f) := by
  simp only [List.map_eq_flatMap, flatMap_intercalate]

theorem filterMap_intercalate (f : α → Option β) {j : List α} (hj : j.filterMap f = [])
    (xs : List (List α)) : (j.intercalate xs).filterMap f = xs.flatMap fun x => x.filterMap f := by
  induction xs with
  | nil => rfl
  | cons x xs ih =>
    cases xs with
    | nil => simp
    | cons y ys =>
      rw [List.intercalate_cons_cons, List.filterMap_append, List.filterMap_append, hj, ih,
        List.append_nil]
      rfl

end WhereClause
