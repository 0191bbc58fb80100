import WhereClause.Proofs.Filter.Levels

/-!
# The limit of the nesting

For each query there is a least limit. Below it the compiler reports the limit, whatever else is wrong
with the query, and from it on the outcome is always the same.

* `HasThreshold`        errors whose first one depends on the limit in this way only;
* `faults_threshold`    the errors that a walk meets are such;
* `build_threshold`     the outcomes of the compiler under all limits.

The least limit is the deepest level that the walk enters before another error stops it. In a query
without such an error it is the nesting of the query.
-/

set_option autoImplicit false

namespace WhereClause.Filter

open WhereClause.Calendar WhereClause.Sql

/-! ## errors under all limits -/

/-- the first error is the limit below `n`, and from `n` on it does not depend on the limit -/
def HasThreshold (f : Nat → List Error) (n : Nat) (first : Option Error) : Prop :=
  ∀ m, (f m).head? = if m < n then some (.nestingTooDeep m) else first

def Thresholded (f : Nat → List Error) : Prop := ∃ n first, HasThreshold f n first

namespace Thresholded

/-- errors that have nothing to do with the limit -/
theorem const (es : List Error) : Thresholded fun _ => es :=
  ⟨0, es.head?, fun m => (if_neg (Nat.not_lt_zero m)).symm⟩

theorem depthFaults (o : Options) (depth : Nat) : Thresholded fun m => depthFaults ⟨o, m⟩ depth := by
  refine ⟨depth, none, fun m => ?_⟩
  simp only [Filter.depthFaults]
  split
  · rfl
  · rfl

/-- one walk after the other: the second is only reached if the first meets no error -/
theorem append {f g : Nat → List Error} (hf : Thresholded f) (hg : Thresholded g) :
    Thresholded fun m => f m ++ g m := by
  obtain ⟨k, e, hf⟩ := hf
  obtain ⟨n, first, hg⟩ := hg
  cases e with
  | some e =>
    refine ⟨k, some e, fun m => ?_⟩
    rw [List.head?_append, hf m]
    split
    · rfl
    · rfl
  | none =>
    refine ⟨max k n, first, fun m => ?_⟩
    rw [List.head?_append, hf m, hg m]
    by_cases hm : m < k
    · have hmn : m < max k n := by omega
      rw [if_pos hm, if_pos hmn]
      rfl
    · have hmn : m < max k n ↔ m < n := by omega
      simp only [if_neg hm, Option.none_or, hmn]

end Thresholded

/-! ## the walk through a query -/

variable (o : Options)

mutual

theorem entryFaults_threshold (depth : Nat) : ∀ es : List (String × Operand),
    Thresholded fun m => entryFaults ⟨o, m⟩ depth es
  | [] => .const []
  | (key, x) :: rest => by
    simp only [entryFaults]
    refine .append ?_ (entryFaults_threshold depth rest)
    split
    · exact connectiveFaults_threshold depth key x
    · exact fieldFaults_threshold depth x

theorem fieldFaults_threshold (depth : Nat) : ∀ x : Operand,
    Thresholded fun m => fieldFaults ⟨o, m⟩ depth x
  | .object es => operatorFaults_threshold depth es
  | .array xs => .const (leafFaults "$in" (.array xs))
  | .null => .const (leafFaults "$eq" .null)
  | .boolean b => .const (leafFaults "$eq" (.boolean b))
  | .number n => .const (leafFaults "$eq" (.number n))
  | .string s => .const (leafFaults "$eq" (.string s))
  | .timestamp t => .const (leafFaults "$eq" (.timestamp t))

theorem operatorFaults_threshold (depth : Nat) : ∀ es : List (String × Operand),
    Thresholded fun m => operatorFaults ⟨o, m⟩ depth es
  | [] => .const []
  | (key, x) :: rest => by
    simp only [operatorFaults]
    refine .append ?_ (operatorFaults_threshold depth rest)
    split
    · refine .append (.depthFaults o (depth + 1)) ?_
      exact .append (fieldFaults_threshold (depth + 1) x) (.const (fieldStops o.zone x))
    · exact .const (leafFaults key x)

theorem connectiveFaults_threshold (depth : Nat) (key : String) (x : Operand) :
    Thresholded fun m => connectiveFaults ⟨o, m⟩ depth key x := by
  unfold connectiveFaults
  cases Connective.ofKey? key with
  | none => exact .const _
  | some k =>
    match x with
    | .array xs => exact elementFaults_threshold depth key xs
    | .null => exact .const _
    | .boolean b => exact .const _
    | .number n => exact .const _
    | .string s => exact .const _
    | .timestamp t => exact .const _
    | .object es => exact .const _

theorem elementFaults_threshold (depth : Nat) (key : String) : ∀ xs : List Operand,
    Thresholded fun m => elementFaults ⟨o, m⟩ depth key xs
  | [] => .const []
  | x :: rest => by
    have hrest := elementFaults_threshold depth key rest
    cases x with
    | null => exact hrest
    | object es =>
      have hes := (entryFaults_threshold (depth + 1) es).append (.const (entryStops o.zone es))
      exact .append (.depthFaults o (depth + 1)) (hes.append hrest)
    | _ => exact .append (.const [_]) hrest

end

theorem faults_threshold (q : Query) : Thresholded fun m => q.faults ⟨o, m⟩ :=
  (entryFaults_threshold o 0 q).append (.const (entryStops o.zone q))

/-! ## what the threshold is -/

variable {o : Options} {q : Query} {n : Nat} {first : Option Error}

/-- an error that comes under more than one limit does not name the limit -/
theorem HasThreshold.first_ne (h : HasThreshold (fun m => q.faults ⟨o, m⟩) n first) (limit : Nat) :
    first ≠ some (.nestingTooDeep limit) := by
  rintro rfl
  have named (m : Nat) (hm : n ≤ m) : limit = m := by
    have hhead := h m
    rw [if_neg (Nat.not_lt.mpr hm)] at hhead
    obtain hreported | ⟨hstop, _⟩ := faults_reported ⟨o, m⟩ q _ (List.mem_of_head? hhead)
    · cases hreported with
      | nestingTooDeep => rfl
    · exact nomatch hstop
  have h1 := named n (Nat.le_refl n)
  have h2 := named (n + 1) (Nat.le_succ n)
  omega

/-- a query with no other error in it is stopped below its nesting -/
theorem HasThreshold.eq_nesting (h : HasThreshold (fun m => q.faults ⟨o, m⟩) n none) :
    n = q.nesting := by
  have none_iff (m : Nat) : q.faults ⟨o, m⟩ = [] ↔ n ≤ m := by
    rw [← List.head?_eq_none_iff, h m]
    split
    · exact ⟨fun hm => (nomatch hm), fun hm => by omega⟩
    · exact ⟨fun _ => by omega, fun _ => rfl⟩
  have valid_iff (m : Nat) : q.faults ⟨o, m⟩ = [] ↔ q.nesting ≤ m ∧ IsQuery q ∧ q.IsShown o.zone :=
    faults_eq_nil_iff ⟨o, m⟩ q
  have hle := (valid_iff n).mp ((none_iff n).mpr (Nat.le_refl n))
  have hge := (none_iff q.nesting).mp ((valid_iff q.nesting).mpr ⟨Nat.le_refl _, hle.2⟩)
  omega

/-- where the limit is reported first in one walk and then in another, it is so up to a higher one -/
theorem HasThreshold.le_of_head {o' : Options} {n' : Nat} {first' : Option Error}
    (h : HasThreshold (fun m => q.faults ⟨o, m⟩) n first)
    (h' : HasThreshold (fun m => q.faults ⟨o', m⟩) n' first')
    (hhead : ∀ m, (q.faults ⟨o', m⟩).head? = some (.nestingTooDeep m) →
      (q.faults ⟨o, m⟩).head? = some (.nestingTooDeep m)) : n' ≤ n := by
  refine Nat.le_of_not_lt fun hlt => ?_
  have hfirst := hhead n ((h' n).trans (if_pos hlt))
  exact h.first_ne n (((h n).trans (if_neg (Nat.lt_irrefl n))).symm.trans hfirst)

/-! ## the limit and the zone -/

/-- the clocks of UTC show what the calendar has -/
theorem isShown_utc (q : Query) : q.IsShown .utc := by
  intro t _
  cases t with
  | naive s => trivial
  | zoned utc k => exact .inl rfl

/-- apart from the ends of the program the errors are those by the clocks of UTC -/
theorem filter_faults_ne_stop (o : Options) (m : Nat) (q : Query) :
    (q.faults ⟨o, m⟩).filter (· ≠ stop) = q.faults ⟨{ zone := .utc }, m⟩ := by
  have halike : Alike (· ≠ stop) ⟨o, m⟩ ⟨{ zone := .utc }, m⟩ 0 0 := by
    refine ⟨fun _ => rfl, fun x => ?_⟩
    have hnone (z : Zone) : (leafStops z x).filter (· ≠ stop) = [] := by
      refine List.filter_eq_nil_iff.mpr fun e he => ?_
      rw [eq_stop_of_mem_leafStops he]
      simp
    rw [hnone, hnone]
  rw [faults_alike halike q]
  refine List.filter_eq_self.mpr fun e he => decide_eq_true ?_
  rintro rfl
  obtain h | ⟨_, h⟩ := faults_reported _ q _ he
  · exact nomatch h
  · exact h (isShown_utc q)

/-- in a zone that shows its timestamps a query has the errors that it has in UTC -/
theorem faults_eq_of_isShown (m : Nat) (h : q.IsShown o.zone) :
    q.faults ⟨o, m⟩ = q.faults ⟨{ zone := .utc }, m⟩ := by
  rw [← filter_faults_ne_stop o m q]
  refine (List.filter_eq_self.mpr fun e he => decide_eq_true ?_).symm
  rintro rfl
  obtain hr | ⟨_, hns⟩ := faults_reported ⟨o, m⟩ q _ he
  · exact nomatch hr
  · exact hns h

/-! ## the compiler under all limits -/

/-- **The limit is a threshold.** For each query there is a limit below which the compiler, with either
table, reports that the query is nested too deep, and from which on the limit does not matter any more.
If a condition comes out then, the threshold is the nesting of the query. So a higher limit changes no
outcome but the report of the limit. It is one limit for all zones whose clocks show the timestamps of
the query; in another zone the program may end before the walk has come as deep. -/
theorem build_threshold (q : Query) : ∃ n, ∀ o : Options, ∃ k ≤ n, (q.IsShown o.zone → k = n) ∧
    ∀ p : Polarity,
      (∀ m < k, q.build ⟨o, m⟩ p = .error (.nestingTooDeep m)) ∧
        (∃ r : Except Error String, (∀ m, k ≤ m → q.build ⟨o, m⟩ p = r) ∧
          (∀ limit, r ≠ .error (.nestingTooDeep limit)) ∧ ∀ sql, r = .ok sql → k = q.nesting) ∧
        ∀ m m', m ≤ m' → q.build ⟨o, m⟩ p ≠ .error (.nestingTooDeep m) →
          q.build ⟨o, m'⟩ p = q.build ⟨o, m⟩ p := by
  obtain ⟨n, _, hutc⟩ := faults_threshold { zone := .utc } q
  refine ⟨n, fun o => ?_⟩
  obtain ⟨k, first, h⟩ := faults_threshold o q
  have hle : k ≤ n := by
    refine hutc.le_of_head h fun m hm => ?_
    obtain ⟨rest, hrest⟩ := List.head?_eq_some_iff.mp hm
    rw [← filter_faults_ne_stop o m q, hrest, List.filter_cons_of_pos rfl, List.head?_cons]
  have heq (hshown : q.IsShown o.zone) : k = n := by
    refine Nat.le_antisymm hle (h.le_of_head hutc fun m hm => ?_)
    rw [faults_eq_of_isShown m hshown, hm]
  refine ⟨k, hle, heq, fun p => ?_⟩
  have below (m : Nat) (hm : m < k) : q.build ⟨o, m⟩ p = .error (.nestingTooDeep m) :=
    (build_yields ⟨o, m⟩ p q).eq_error ((h m).trans (if_pos hm))
  have above (m : Nat) (hm : k ≤ m) : (q.faults ⟨o, m⟩).head? = first :=
    (h m).trans (if_neg (Nat.not_lt.mpr hm))
  obtain ⟨r, hr, hlimit, hok⟩ : ∃ r : Except Error String, (∀ m, k ≤ m → q.build ⟨o, m⟩ p = r) ∧
      (∀ limit, r ≠ .error (.nestingTooDeep limit)) ∧ ∀ sql, r = .ok sql → k = q.nesting := by
    cases first with
    | some e =>
      refine ⟨.error e, fun m hm => (build_yields ⟨o, m⟩ p q).eq_error (above m hm), ?_, ?_⟩
      · intro limit he
        cases he
        exact h.first_ne limit rfl
      · exact fun _ he => nomatch he
    | none =>
      refine ⟨.ok (conjunctionText o (q.conditions p)),
        fun m hm => (build_yields ⟨o, m⟩ p q).eq_ok (above m hm), ?_, ?_⟩
      · exact fun _ he => nomatch he
      · exact fun _ _ => h.eq_nesting
  refine ⟨below, ⟨r, hr, hlimit, hok⟩, fun m m' hmm' hne => ?_⟩
  have hm : k ≤ m := Nat.le_of_not_lt fun hlt => hne (below m hlt)
  rw [hr m' (Nat.le_trans hm hmm'), hr m hm]

/-- an unknown operator on the second level stops the walk before the third one -/
theorem build_threshold_unknown_operator :
    let q : Query := [("$or", .array [.object [("a", .object [("$not", .object [("$x", .null)])])]]),
      ("b", .object [("$not", .object [("$not", .object [("$not", .null)])])])]
    q.nesting = 3 ∧ q.build ⟨{}, 1⟩ .direct = .error (.nestingTooDeep 1) ∧
      q.build ⟨{}, 2⟩ .direct = .error (.unknownOperator "$x") ∧
      q.build ⟨{}, 1000⟩ .direct = .error (.unknownOperator "$x") := by
  intro q
  have h : q.build ⟨{}, 2⟩ .direct = .error (.unknownOperator "$x") := by rfl
  obtain ⟨n, hn⟩ := build_threshold q
  obtain ⟨_, _, _, hk⟩ := hn {}
  obtain ⟨_, _, hmore⟩ := hk .direct
  refine ⟨by decide, by rfl, h, ?_⟩
  rw [hmore 2 1000 (by decide) (by rw [h]; exact fun he => nomatch he), h]

end WhereClause.Filter
