import Mathlib.Data.List.Forall2
import Mathlib.Data.List.Induction
import WhereClause.Entries

/-!
# Entries and the pairs they were made of

Pairs are inserted one after the other: the key of a new one goes to the end, a known key keeps its
place.

* `keys_ofPairs`       the keys, each at its first place among the pairs;
* `get?_foldl_insert`  what is found is what was inserted last;
* `mem_ofPairs_iff`    the entries, each with the value of the last pair of its key;
* `forall₂_ofPairs`    pairs that correspond make entries that correspond.
-/

set_option autoImplicit false

namespace WhereClause.Entries

variable {κ α : Type}

theorem keys_append (ps qs : List (κ × α)) : keys (ps ++ qs) = keys ps ++ keys qs :=
  List.map_append

theorem mem_keys_of_mem {k : κ} {x : α} {es : Entries κ α} (h : (k, x) ∈ es) : k ∈ keys es :=
  List.mem_map_of_mem h

variable [DecidableEq κ]

/-! ## keys -/

theorem ofPairs_concat (ps : List (κ × α)) (p : κ × α) :
    ofPairs (ps ++ [p]) = insert p.1 p.2 (ofPairs ps) := by
  rw [ofPairs, List.foldl_append]
  rfl

/-- an element behind others is another one only if it is none of them -/
theorem eraseDups_concat (ks : List κ) (k : κ) :
    (ks ++ [k]).eraseDups = if k ∈ ks then ks.eraseDups else ks.eraseDups ++ [k] := by
  rw [List.eraseDups_append]
  by_cases hk : k ∈ ks
  · rw [if_pos hk, List.removeAll, List.filter_cons_of_neg (by simpa using hk)]
    simp
  · rw [if_neg hk, List.removeAll, List.filter_cons_of_pos (by simpa using hk)]
    rfl

/-- **Each key stands once, where it stands first** among the pairs. -/
theorem keys_ofPairs (ps : List (κ × α)) : keys (ofPairs ps) = (keys ps).eraseDups := by
  -- from the end: the last pair is the last one that is inserted
  induction ps using List.reverseRecOn with
  | nil => rfl
  | append_singleton ps p ih =>
    have hkeys : keys (ps ++ [p]) = keys ps ++ [p.1] := keys_append ps [p]
    rw [ofPairs_concat, keys_insert, ih, hkeys, eraseDups_concat]
    simp only [List.mem_eraseDups]

/-! ## values -/

/-- the value of the last pair with a key -/
def last? (k : κ) (ps : List (κ × α)) : Option α := get? k ps.reverse

theorem get?_append (k : κ) (es fs : List (κ × α)) :
    get? k (es ++ fs) = (get? k es).or (get? k fs) := by
  induction es with
  | nil => rfl
  | cons e es ih =>
    rw [List.cons_append, get?, get?]
    split
    · rfl
    · exact ih

theorem last?_cons (k : κ) (p : κ × α) (ps : List (κ × α)) :
    last? k (p :: ps) = (last? k ps).or (get? k [p]) := by
  rw [last?, List.reverse_cons, get?_append, last?]

theorem get?_insert_pair (k : κ) (p : κ × α) (es : Entries κ α) :
    get? k (insert p.1 p.2 es) = (get? k [p]).or (get? k es) := by
  rw [get?_insert, get?]
  split <;> rfl

/-- **What is found is what was inserted last**, or what was there before. -/
theorem get?_foldl_insert (k : κ) (ps : List (κ × α)) (es : Entries κ α) :
    get? k (ps.foldl (fun es p => insert p.1 p.2 es) es) = (last? k ps).or (get? k es) := by
  induction ps generalizing es with
  | nil => rfl
  | cons p ps ih =>
    rw [List.foldl_cons, ih, last?_cons, get?_insert_pair, Option.or_assoc]

theorem get?_ofPairs (k : κ) (ps : List (κ × α)) : get? k (ofPairs ps) = last? k ps := by
  rw [ofPairs, get?_foldl_insert, get?, Option.or_none]

/-- an entry is what is found for its key, if no key stands twice -/
theorem mem_iff_get? {k : κ} {x : α} {es : Entries κ α} (hes : (keys es).Nodup) :
    (k, x) ∈ es ↔ get? k es = some x := by
  induction es with
  | nil => exact ⟨fun h => absurd h List.not_mem_nil, fun h => nomatch h⟩
  | cons e es ih =>
    obtain ⟨he, hes⟩ := List.nodup_cons.mp hes
    rw [List.mem_cons, get?, ih hes]
    by_cases hk : e.1 = k
    · have hnone : ¬ get? k es = some x := fun h => he (hk ▸ mem_keys_of_mem ((ih hes).mpr h))
      rw [if_pos hk, or_iff_left hnone, Option.some.injEq]
      constructor
      · rintro rfl
        rfl
      · rintro rfl
        rw [← hk]
    · rw [if_neg hk, or_iff_right]
      rintro rfl
      exact hk rfl

/-- **Each entry has the value of the last pair of its key.** -/
theorem mem_ofPairs_iff {k : κ} {x : α} {ps : List (κ × α)} :
    (k, x) ∈ ofPairs ps ↔ last? k ps = some x := by
  rw [mem_iff_get? (nodup_keys_ofPairs ps), get?_ofPairs]

/-! ## pairs that correspond -/

section

variable {β : Type} {R : κ × α → κ × β → Prop}

theorem forall₂_insert (hkeys : ∀ p q, R p q → p.1 = q.1) {p : κ × α} {q : κ × β} (h : R p q)
    {es : Entries κ α} {fs : Entries κ β} (hes : List.Forall₂ R es fs) :
    List.Forall₂ R (insert p.1 p.2 es) (insert q.1 q.2 fs) := by
  obtain ⟨k, x⟩ := p
  obtain ⟨l, y⟩ := q
  obtain rfl : k = l := hkeys _ _ h
  dsimp only
  induction hes with
  | nil => exact .cons h .nil
  | @cons e f es fs he hes ih =>
    rw [insert, insert, ← hkeys e f he]
    split
    · exact .cons h hes
    · exact .cons he ih

/-- pairs that correspond, with the same keys, make entries that correspond -/
theorem forall₂_ofPairs (hkeys : ∀ p q, R p q → p.1 = q.1) {ps : List (κ × α)} {qs : List (κ × β)}
    (h : List.Forall₂ R ps qs) : List.Forall₂ R (ofPairs ps) (ofPairs qs) := by
  suffices hfoldl : ∀ {es : Entries κ α} {fs : Entries κ β}, List.Forall₂ R es fs →
      List.Forall₂ R (ps.foldl (fun es p => insert p.1 p.2 es) es)
        (qs.foldl (fun es p => insert p.1 p.2 es) fs) from hfoldl .nil
  induction h with
  | nil => exact fun hes => hes
  | cons hp _ ih => exact fun hes => ih (forall₂_insert hkeys hp hes)

end

end WhereClause.Entries
