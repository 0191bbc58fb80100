/-!
# Entries in order of insertion

A list of keys with their values. `Entries.insert` keeps each key once: a new key goes to the end,
a known key keeps its place and takes the new value.

* `keys_insert`          the keys after an insertion;
* `nodup_keys_insert`    an insertion repeats no key;
* `get?_insert`          what is found after an insertion;
* `Entries.ofPairs`      all pairs inserted in turn (`nodup_keys_ofPairs`).
-/

set_option autoImplicit false

namespace WhereClause

/-- keys and values in order -/
abbrev Entries (κ α : Type) := List (κ × α)

namespace Entries

variable {κ α : Type}

def keys (es : Entries κ α) : List κ := es.map Prod.fst

theorem keys_nil : keys ([] : Entries κ α) = [] := rfl

theorem keys_cons (e : κ × α) (es : Entries κ α) : keys (e :: es) = e.1 :: keys es := rfl

variable [DecidableEq κ]

/-- the value at the first place that has the key -/
def get? (k : κ) : Entries κ α → Option α
  | [] => none
  | e :: es => if e.1 = k then some e.2 else get? k es

def insert (k : κ) (v : α) : Entries κ α → Entries κ α
  | [] => [(k, v)]
  | e :: es => if e.1 = k then (k, v) :: es else e :: insert k v es

/-- the pairs inserted one by one, first to last, into no entries -/
def ofPairs (ps : List (κ × α)) : Entries κ α :=
  ps.foldl (fun es p => insert p.1 p.2 es) []

/-! ## keys -/

theorem keys_insert (k : κ) (v : α) (es : Entries κ α) :
    keys (insert k v es) = if k ∈ keys es then keys es else keys es ++ [k] := by
  induction es with
  | nil => simp [insert, keys]
  | cons e es ih =>
    by_cases h : e.1 = k
    · simp [insert, keys, h]
    · have h' : k ≠ e.1 := fun hk => h hk.symm
      by_cases hm : k ∈ keys es
      · simp [insert, h, h', keys_cons, ih, hm]
      · simp [insert, h, h', keys_cons, ih, hm]

theorem nodup_keys_insert (k : κ) (v : α) {es : Entries κ α} (h : (keys es).Nodup) :
    (keys (insert k v es)).Nodup := by
  rw [keys_insert]
  split
  · exact h
  · next hk =>
    rw [List.nodup_append]
    refine ⟨h, by simp, fun a ha b hb => ?_⟩
    rw [List.mem_singleton] at hb
    rintro rfl
    exact hk (hb ▸ ha)

theorem nodup_keys_foldl_insert (ps : List (κ × α)) {es : Entries κ α}
    (h : (keys es).Nodup) :
    (keys (ps.foldl (fun es p => insert p.1 p.2 es) es)).Nodup := by
  induction ps generalizing es with
  | nil => exact h
  | cons p ps ih => exact ih (nodup_keys_insert p.1 p.2 h)

theorem nodup_keys_ofPairs (ps : List (κ × α)) : (keys (ofPairs ps)).Nodup :=
  nodup_keys_foldl_insert ps List.nodup_nil

/-! ## values -/

theorem get?_insert (k j : κ) (v : α) (es : Entries κ α) :
    get? j (insert k v es) = if k = j then some v else get? j es := by
  induction es with
  | nil => simp [insert, get?]
  | cons e es ih =>
    by_cases h : e.1 = k
    · by_cases hj : k = j <;> simp [insert, get?, h, hj]
    · by_cases hj : e.1 = j
      · have : ¬ k = j := fun hk => h (hj.trans hk.symm)
        rw [insert, if_neg h, if_neg this, get?, get?, if_pos hj, if_pos hj]
      · simp [insert, get?, h, hj, ih]

end Entries

end WhereClause
