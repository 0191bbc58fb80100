import WhereClause.Proofs.Filter.Composition
import WhereClause.Proofs.Filter.Grammar
import WhereClause.Proofs.Filter.Precedence

/-!
# Parts without conditions

A field whose operators are none, or each a `$not` with nothing in it, says nothing. Neither does a
connective whose elements are null or queries that say nothing. Such parts can be taken out of a
query, at any level, and nothing in its condition shows where they stood.

* `Query.isVacuous`    a query that says nothing;
* `PrunedEntries`      a query with such parts taken out;
* `build_pruned`       the condition is empty if and only if the query says nothing, what is taken out
                       does not change it, and no parenthesis, `AND` or `OR` in it stands beside an
                       empty place.
-/

set_option autoImplicit false
set_option linter.unusedVariables false

namespace WhereClause.Filter

open WhereClause.Sql

/-! ## parts that say nothing -/

mutual

def vacuousField : Operand → Bool
  | .object es => vacuousOperators es
  | _ => false

/-- each operator is a negation of nothing -/
def vacuousOperators : List (String × Operand) → Bool
  | [] => true
  | (key, x) :: rest => key = "$not" && vacuousField x && vacuousOperators rest

end

mutual

def vacuousEntries : List (String × Operand) → Bool
  | [] => true
  | (key, x) :: rest =>
    (if isOperatorKey key then vacuousConnective key x else vacuousField x) && vacuousEntries rest

def vacuousConnective (key : String) : Operand → Bool
  | .array xs => (Connective.ofKey? key).isSome && vacuousElements xs
  | _ => false

/-- each element is null, or a query that says nothing -/
def vacuousElements : List Operand → Bool
  | [] => true
  | .null :: rest => vacuousElements rest
  | .object es :: rest => vacuousEntries es && vacuousElements rest
  | _ :: _ => false

end

/-- a query whose entries say nothing -/
def Query.isVacuous (q : Query) : Bool := vacuousEntries q

/-! ## parts taken out -/

mutual

inductive PrunedField : Operand → Operand → Prop where
  | same (x : Operand) : PrunedField x x
  | operators {es fs : List (String × Operand)} (h : PrunedOperators es fs) :
      PrunedField (.object es) (.object fs)

/-- operators without some of those that say nothing -/
inductive PrunedOperators : List (String × Operand) → List (String × Operand) → Prop where
  | nil : PrunedOperators [] []
  | drop {e : String × Operand} {es fs : List (String × Operand)}
      (hv : vacuousOperators [e] = true) (h : PrunedOperators es fs) : PrunedOperators (e :: es) fs
  | keep (e : String × Operand) {es fs : List (String × Operand)} (h : PrunedOperators es fs) :
      PrunedOperators (e :: es) (e :: fs)
  | inside {x y : Operand} {es fs : List (String × Operand)} (hx : PrunedField x y)
      (h : PrunedOperators es fs) : PrunedOperators (("$not", x) :: es) (("$not", y) :: fs)

end

mutual

/-- entries without some of those that say nothing, and of such parts at any level -/
inductive PrunedEntries : List (String × Operand) → List (String × Operand) → Prop where
  | nil : PrunedEntries [] []
  | drop {e : String × Operand} {es fs : List (String × Operand)}
      (hv : vacuousEntries [e] = true) (h : PrunedEntries es fs) : PrunedEntries (e :: es) fs
  | keep (e : String × Operand) {es fs : List (String × Operand)} (h : PrunedEntries es fs) :
      PrunedEntries (e :: es) (e :: fs)
  | field {key : String} {x y : Operand} {es fs : List (String × Operand)}
      (hkey : isOperatorKey key = false) (hx : PrunedField x y) (h : PrunedEntries es fs) :
      PrunedEntries ((key, x) :: es) ((key, y) :: fs)
  | connective {key : String} {xs ys : List Operand} {es fs : List (String × Operand)}
      (hkey : isOperatorKey key = true) (hx : PrunedElements xs ys) (h : PrunedEntries es fs) :
      PrunedEntries ((key, .array xs) :: es) ((key, .array ys) :: fs)

/-- elements of a connective without some of those that say nothing -/
inductive PrunedElements : List Operand → List Operand → Prop where
  | nil : PrunedElements [] []
  | drop {x : Operand} {xs ys : List Operand} (hv : vacuousElements [x] = true)
      (h : PrunedElements xs ys) : PrunedElements (x :: xs) ys
  | keep (x : Operand) {xs ys : List Operand} (h : PrunedElements xs ys) :
      PrunedElements (x :: xs) (x :: ys)
  | query {es fs : List (String × Operand)} {xs ys : List Operand} (he : PrunedEntries es fs)
      (h : PrunedElements xs ys) : PrunedElements (.object es :: xs) (.object fs :: ys)

end

/-! ## only these parts have no conditions -/

/-- a comparison that is not refused is a condition -/
theorem leafConditions_ne_nil {key : String} {x : Operand} (h : leafFaults key x = [])
    (p : Polarity) (field : String) : leafConditions p field key x ≠ [] := by
  unfold leafFaults at h
  unfold leafConditions
  cases hk : Comparison.ofKey? key with
  | none =>
    rw [hk] at h
    exact nomatch h
  | some k =>
    rw [hk] at h
    have hfaults : (p.comparison k).faults key x = [] := by
      cases p with
      | direct => exact h
      | negated =>
        show k.complement.faults key x = []
        rw [k.complement_eq_opposite, k.faults_opposite]
        exact h
    have hprint := print_yields {} key field x (p.comparison k)
    obtain ⟨t, ht⟩ := hprint.ok_iff.mpr hfaults
    obtain ⟨_, a, ha, _⟩ := hprint.of_ok ht
    show ((p.comparison k).atom? field x).toList.map Condition.atom ≠ []
    rw [ha]
    exact List.cons_ne_nil _ _

theorem partOf_eq_nil {α : Type} {ts : List (Condition α)} : partOf ts = [] ↔ ts = [] := by
  cases ts with
  | nil => exact ⟨fun _ => rfl, fun _ => rfl⟩
  | cons t ts => exact ⟨fun h => (nomatch h), fun h => (nomatch h)⟩

theorem groupOf_eq_nil {α : Type} {k : Connective} {ps : List (List (Condition α))} :
    groupOf k ps = [] ↔ ps = [] := by
  cases ps with
  | nil => exact ⟨fun _ => rfl, fun _ => rfl⟩
  | cons p ps => exact ⟨fun h => (nomatch h), fun h => (nomatch h)⟩

/-- what is not refused as a comparison says something -/
theorem leafConditions_eq_nil (p : Polarity) (field key : String) {x : Operand}
    (h : leafFaults key x = []) : leafConditions p field key x = [] ↔ false = true :=
  ⟨fun he => absurd he (leafConditions_ne_nil h p field), fun hv => nomatch hv⟩

variable {c : Configuration}

mutual

theorem fieldConditions_eq_nil (depth : Nat) (p : Polarity) (field : String) : ∀ x : Operand,
    fieldFaults c depth x = [] → (fieldConditions p field x = [] ↔ vacuousField x = true)
  | .object es, h => operatorConditions_eq_nil depth p field es h
  | .array xs, h => leafConditions_eq_nil p field "$in" h
  | .null, h => leafConditions_eq_nil p field "$eq" h
  | .boolean b, h => leafConditions_eq_nil p field "$eq" h
  | .number n, h => leafConditions_eq_nil p field "$eq" h
  | .string s, h => leafConditions_eq_nil p field "$eq" h
  | .timestamp t, h => leafConditions_eq_nil p field "$eq" h

theorem operatorConditions_eq_nil (depth : Nat) (p : Polarity) (field : String) :
    ∀ es : List (String × Operand), operatorFaults c depth es = [] →
      (operatorConditions p field es = [] ↔ vacuousOperators es = true)
  | [], _ => ⟨fun _ => rfl, fun _ => rfl⟩
  | (key, x) :: rest, h => by
    rw [operatorFaults] at h
    obtain ⟨hx, hrest⟩ := List.append_eq_nil_iff.mp h
    rw [operatorConditions, vacuousOperators, List.append_eq_nil_iff, Bool.and_eq_true,
      Bool.and_eq_true, decide_eq_true_eq, operatorConditions_eq_nil depth p field rest hrest]
    refine and_congr_left' ?_
    split
    · next hkey =>
      rw [if_pos hkey] at hx
      have hinside := (List.append_eq_nil_iff.mp (List.append_eq_nil_iff.mp hx).2).1
      rw [fieldConditions_eq_nil (depth + 1) p.flip field x hinside]
      exact ⟨fun hv => ⟨hkey, hv⟩, fun hv => hv.2⟩
    · next hkey =>
      rw [if_neg hkey] at hx
      exact ⟨fun he => absurd he (leafConditions_ne_nil hx p field), fun hv => absurd hv.1 hkey⟩

end

/-- only a list is an operand of a connective -/
theorem exists_array_of_connectiveFaults {depth : Nat} {key : String} {x : Operand}
    (h : connectiveFaults c depth key x = []) : ∃ k xs, Connective.ofKey? key = some k ∧
      x = .array xs ∧ elementFaults c depth key xs = [] := by
  unfold connectiveFaults at h
  split at h
  · cases h
  · next k hk =>
    split at h
    · next xs => exact ⟨k, xs, hk, rfl, h⟩
    · cases h

mutual

/-- **Where nothing is refused, only entries that say nothing have no conditions.** -/
theorem entryConditions_eq_nil (depth : Nat) (p : Polarity) : ∀ es : List (String × Operand),
    entryFaults c depth es = [] → (entryConditions p es = [] ↔ vacuousEntries es = true)
  | [], _ => ⟨fun _ => rfl, fun _ => rfl⟩
  | (key, x) :: rest, h => by
    rw [entryFaults] at h
    obtain ⟨hx, hrest⟩ := List.append_eq_nil_iff.mp h
    rw [entryConditions, vacuousEntries, List.append_eq_nil_iff, Bool.and_eq_true,
      entryConditions_eq_nil depth p rest hrest]
    refine and_congr_left' ?_
    split
    · next hkey =>
      rw [if_pos hkey] at hx
      exact connectiveConditions_eq_nil depth p key x hx
    · next hkey =>
      rw [if_neg hkey] at hx
      exact fieldConditions_eq_nil depth p key x hx

theorem connectiveConditions_eq_nil (depth : Nat) (p : Polarity) (key : String) : ∀ x : Operand,
    connectiveFaults c depth key x = [] →
      (connectiveConditions p key x = [] ↔ vacuousConnective key x = true)
  | .array xs, h => by
    obtain ⟨k, _, hk, hxs, hfaults⟩ := exists_array_of_connectiveFaults h
    cases hxs
    rw [connectiveConditions_array p hk, vacuousConnective, hk, groupOf_eq_nil]
    exact elementConditions_eq_nil depth (p.inside k) key xs hfaults
  | .null, h => nomatch exists_array_of_connectiveFaults h
  | .boolean b, h => nomatch exists_array_of_connectiveFaults h
  | .number n, h => nomatch exists_array_of_connectiveFaults h
  | .string s, h => nomatch exists_array_of_connectiveFaults h
  | .timestamp t, h => nomatch exists_array_of_connectiveFaults h
  | .object es, h => nomatch exists_array_of_connectiveFaults h

theorem elementConditions_eq_nil (depth : Nat) (p : Polarity) (key : String) :
    ∀ xs : List Operand, elementFaults c depth key xs = [] →
      (elementConditions p xs = [] ↔ vacuousElements xs = true)
  | [], _ => ⟨fun _ => rfl, fun _ => rfl⟩
  | .null :: rest, h => elementConditions_eq_nil depth p key rest h
  | .object es :: rest, h => by
    rw [elementFaults] at h
    obtain ⟨hlevel, hrest⟩ := List.append_eq_nil_iff.mp (List.append_eq_nil_iff.mp h).2
    have hes := (List.append_eq_nil_iff.mp hlevel).1
    rw [elementConditions, vacuousElements, List.append_eq_nil_iff, partOf_eq_nil,
      Bool.and_eq_true, entryConditions_eq_nil (depth + 1) p es hes,
      elementConditions_eq_nil depth p key rest hrest]
  | .boolean b :: _, h => nomatch h
  | .number n :: _, h => nomatch h
  | .string s :: _, h => nomatch h
  | .timestamp t :: _, h => nomatch h
  | .array xs :: _, h => nomatch h

end

/-! ## what is left without them -/

section

variable {α β : Type} {f : List α → List β} {N : List α → Prop}

/-- what a list has exactly if each of its elements has it alone -/
def Each (N : List α → Prop) : Prop := ∀ a as, N (a :: as) ↔ N [a] ∧ N as

/-- if the one list has `N`, then the other has it too, and `f` makes the same of both -/
def Unchanged (f : List α → List β) (N : List α → Prop) (as bs : List α) : Prop :=
  N as → f bs = f as ∧ N bs

namespace Unchanged

theorem same (as : List α) : Unchanged f N as as := fun h => ⟨rfl, h⟩

theorem drop (hf : OneByOne f) (hN : Each N) {a : α} (ha : N [a] → f [a] = [])
    {as bs : List α} (h : Unchanged f N as bs) : Unchanged f N (a :: as) bs := by
  intro hall
  obtain ⟨hfirst, hothers⟩ := (hN a as).mp hall
  obtain ⟨hsame, hnone⟩ := h hothers
  have hcons : f (a :: as) = f [a] ++ f as := hf [a] as
  refine ⟨?_, hnone⟩
  rw [hcons, ha hfirst, List.nil_append, hsame]

theorem cons (hf : OneByOne f) (hN : Each N) {a b : α} (ha : Unchanged f N [a] [b])
    {as bs : List α} (h : Unchanged f N as bs) : Unchanged f N (a :: as) (b :: bs) := by
  intro hall
  obtain ⟨hfirst, hothers⟩ := (hN a as).mp hall
  obtain ⟨hsame, hnone⟩ := ha hfirst
  obtain ⟨hsames, hnones⟩ := h hothers
  have hcons : f (a :: as) = f [a] ++ f as := hf [a] as
  have hcons' : f (b :: bs) = f [b] ++ f bs := hf [b] bs
  exact ⟨by rw [hcons, hcons', hsame, hsames], (hN b bs).mpr ⟨hnone, hnones⟩⟩

end Unchanged

end

theorem each_fieldWalk (c : Configuration) (depth : Nat) :
    Each fun es => (fieldWalk c depth (.object es)).faults = [] := by
  rintro ⟨key, x⟩ es
  dsimp only
  rw [fieldWalk_cons, fieldWalk_cons, Walk.faults_append_eq_nil, Walk.faults_append_eq_nil]
  exact and_congr_left' (and_iff_left rfl).symm

theorem each_entryWalk (c : Configuration) (depth : Nat) :
    Each fun es => (entryWalk c depth es).faults = [] := by
  rintro ⟨key, x⟩ es
  dsimp only
  rw [entryWalk_cons, entryWalk_cons, Walk.faults_append_eq_nil, Walk.faults_append_eq_nil]
  exact and_congr_left' (and_iff_left rfl).symm

theorem each_elementFaults (c : Configuration) (depth : Nat) (key : String) :
    Each fun xs => elementFaults c depth key xs = [] := by
  intro x xs
  dsimp only
  have hcons : elementFaults c depth key (x :: xs) = _ :=
    oneByOne_elementFaults c depth key [x] xs
  rw [hcons, List.append_eq_nil_iff]

mutual

theorem PrunedField.unchanged (depth : Nat) (p : Polarity) (field : String) {x y : Operand}
    (h : PrunedField x y) (hx : (fieldWalk c depth x).faults = []) :
    fieldConditions p field y = fieldConditions p field x ∧ (fieldWalk c depth y).faults = [] := by
  cases h with
  | same => exact ⟨rfl, hx⟩
  | operators h => exact h.unchanged depth p field hx

theorem PrunedOperators.unchanged (depth : Nat) (p : Polarity) (field : String)
    {es fs : List (String × Operand)} (h : PrunedOperators es fs) :
    Unchanged (operatorConditions p field)
      (fun es => (fieldWalk c depth (.object es)).faults = []) es fs := by
  have hf := oneByOne_operatorConditions p field
  have hN := each_fieldWalk c depth
  cases h with
  | nil => exact .same []
  | drop hv h =>
    refine .drop hf hN (fun hn => ?_) (h.unchanged depth p field)
    exact (operatorConditions_eq_nil depth p field _ (List.append_eq_nil_iff.mp hn).1).mpr hv
  | keep e h => exact .cons hf hN (.same [e]) (h.unchanged depth p field)
  | inside hx h =>
    refine .cons hf hN (fun hn => ?_) (h.unchanged depth p field)
    dsimp only at hn ⊢
    rw [fieldWalk_not, Walk.faults_append_eq_nil, Walk.faults_close] at hn ⊢
    obtain ⟨hsame, hnone⟩ := hx.unchanged (depth + 1) p.flip field hn.2
    rw [operatorConditions_not, operatorConditions_not, hsame]
    exact ⟨rfl, hn.1, hnone⟩

end

mutual

/-- entries have the conditions of what is left of them -/
theorem PrunedEntries.unchanged (depth : Nat) (p : Polarity) {es fs : List (String × Operand)}
    (h : PrunedEntries es fs) :
    Unchanged (entryConditions p) (fun es => (entryWalk c depth es).faults = []) es fs := by
  have hf := oneByOne_entryConditions p
  have hN := each_entryWalk c depth
  cases h with
  | nil => exact .same []
  | drop hv h =>
    refine .drop hf hN (fun hn => ?_) (h.unchanged depth p)
    exact (entryConditions_eq_nil depth p _ (List.append_eq_nil_iff.mp hn).1).mpr hv
  | keep e h => exact .cons hf hN (.same [e]) (h.unchanged depth p)
  | @field key x y es fs hkey hx h =>
    refine .cons hf hN (fun hn => ?_) (h.unchanged depth p)
    dsimp only at hn ⊢
    rw [entryWalk_field c depth hkey] at hn ⊢
    obtain ⟨hsame, hnone⟩ := hx.unchanged depth p key hn
    rw [entryConditions_field p hkey, entryConditions_field p hkey, hsame]
    exact ⟨rfl, hnone⟩
  | @connective key xs ys es fs hkey hx h =>
    refine .cons hf hN (fun hn => ?_) (h.unchanged depth p)
    dsimp only at hn ⊢
    rw [entryWalk_connective c depth hkey, Walk.faults_of] at hn ⊢
    obtain ⟨k, _, hk, hxs, hn⟩ := exists_array_of_connectiveFaults hn
    cases hxs
    obtain ⟨hsame, hnone⟩ := hx.unchanged depth (p.inside k) key hn
    rw [entryConditions_connective p hkey, entryConditions_connective p hkey,
      connectiveConditions_array p hk, connectiveConditions_array p hk, hsame,
      connectiveFaults_array c depth hk]
    exact ⟨rfl, hnone⟩

theorem PrunedElements.unchanged (depth : Nat) (p : Polarity) (key : String)
    {xs ys : List Operand} (h : PrunedElements xs ys) :
    Unchanged (elementConditions p) (fun xs => elementFaults c depth key xs = []) xs ys := by
  have hf := oneByOne_elementConditions p
  have hN := each_elementFaults c depth key
  cases h with
  | nil => exact .same []
  | drop hv h =>
    exact .drop hf hN (fun hn => (elementConditions_eq_nil depth p key _ hn).mpr hv)
      (h.unchanged depth p key)
  | keep x h => exact .cons hf hN (.same [x]) (h.unchanged depth p key)
  | query he h =>
    refine .cons hf hN (fun hn => ?_) (h.unchanged depth p key)
    dsimp only at hn ⊢
    rw [elementFaults_object, List.append_eq_nil_iff] at hn ⊢
    obtain ⟨hsame, hnone⟩ := he.unchanged (depth + 1) p hn.2
    rw [elementConditions_object, elementConditions_object, hsame]
    exact ⟨rfl, hn.1, hnone⟩

end

/-! ## conditions -/

/-- the text of a condition is a line of alternatives, none of them empty, and none in parentheses -/
theorem exists_alternatives_of_build {p : Polarity} {q : Query} {sql : String}
    (h : q.build c p = .ok sql) : ∃ as : List (List (Formula Atom)), ProperAlternatives as ∧
      lex c.options.dialect sql.toList =
        some (itemTokens (Atom.tokens c.options) (disjunctionItems as)) := by
  have hfilled := filled_conditions p q
  refine ⟨grouping (q.conditions p), proper_grouping _ hfilled, ?_⟩
  rw [lex_of_build h, ← conjunctionItems_eq _ hfilled]
  rfl

/-- **What says nothing leaves no trace in a condition.** The text is empty if and only if the query
is vacuous, and vacuous parts can be taken out of the query at any level without a change in it. What
the text has is alternatives with `OR` between them, each of comparisons and parentheses with `AND`
between them, and nothing of this is ever empty. -/
theorem build_pruned (c : Configuration) (p : Polarity) (q : Query) {sql : String}
    (h : q.build c p = .ok sql) :
    (sql = "" ↔ q.isVacuous = true) ∧
      (∀ q' : Query, PrunedEntries q q' → q'.build c p = .ok sql) ∧
      ∃ as : List (List (Formula Atom)), ProperAlternatives as ∧
        lex c.options.dialect sql.toList =
          some (itemTokens (Atom.tokens c.options) (disjunctionItems as)) := by
  obtain ⟨hfaults, hsql⟩ := (build_yields c p q).of_ok h
  constructor
  · rw [hsql, conjunctionText_eq_empty]
    exact entryConditions_eq_nil 0 p q (List.append_eq_nil_iff.mp hfaults).1
  constructor
  · intro q' hq
    obtain ⟨hsame, hnone⟩ := hq.unchanged 0 p hfaults
    have hbuild : q'.build c p = q.build c p :=
      build_congr hsame (Eq.trans hnone hfaults.symm)
    rw [hbuild, h]
  · exact exists_alternatives_of_build h

/-- a `$nor` that is empty for what is deep inside it, beside a field and inside an `$or` -/
theorem build_pruned_nor :
    let nothing : Operand :=
      .array [.null, .object [("a", .object [("$not", .object [])]), ("$and", .array [])]]
    let q : Query := [("$nor", nothing),
      ("$or", .array [.object [("$nor", nothing)], .object [("b", .object [("$gt", .null),
        ("$not", .object [("$not", .object [])])])], .null])]
    let q' : Query := [("$or", .array [.object [("b", .object [("$gt", .null)])]])]
    q.build {} .direct = .ok "((`b` > NULL))" ∧ PrunedEntries q q' ∧
      q'.build {} .direct = .ok "((`b` > NULL))" ∧ q.isVacuous = false := by
  intro nothing q q'
  have h : q.build {} .direct = .ok "((`b` > NULL))" := by rfl
  have hb : PrunedEntries
      [("b", .object [("$gt", .null), ("$not", .object [("$not", .object [])])])]
      [("b", .object [("$gt", .null)])] :=
    .field (by decide) (.operators (.keep _ (.drop (by decide) .nil))) .nil
  have hq : PrunedEntries q q' :=
    .drop (by decide) (.connective (by decide)
      (.drop (by decide) (.query hb (.drop (by decide) .nil))) .nil)
  obtain ⟨hempty, hpruned, _⟩ := build_pruned {} .direct q h
  refine ⟨h, hq, hpruned q' hq, ?_⟩
  have hne : ¬ q.isVacuous = true := mt hempty.mpr (by decide)
  exact Bool.eq_false_iff.mpr hne

end WhereClause.Filter
