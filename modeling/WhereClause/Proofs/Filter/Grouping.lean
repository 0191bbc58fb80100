import WhereClause.Proofs.Filter.Assignment
import WhereClause.Proofs.Filter.Formula

/-!
# How trees are read

A group of `$and`, `$nand` or `$or` is read as it is meant, wherever it stands. The parts of a `$nor`
have nothing around all of them, so an `AND` before the group takes only the first of them, and an
`AND` behind it only the last.

* `grouping`           the alternatives that are read from the line of a tree;
* `readFormula_conjunctionItems`  the line is read as these alternatives;
* `anyHolds_grouping`  where the tree holds, what is read holds.
-/

set_option autoImplicit false
set_option linter.unusedVariables false

namespace WhereClause.Filter

variable {α β : Type}

/-! ## trees without empty groups -/

mutual

def Condition.Filled : Condition α → Prop
  | .atom _ => True
  | .group _ parts => parts ≠ [] ∧ FilledParts parts

def FilledConditions : List (Condition α) → Prop
  | [] => True
  | t :: ts => t.Filled ∧ FilledConditions ts

def FilledParts : List (List (Condition α)) → Prop
  | [] => True
  | p :: ps => (p ≠ [] ∧ FilledConditions p) ∧ FilledParts ps

end

theorem filledConditions_append {ts us : List (Condition α)} :
    FilledConditions (ts ++ us) ↔ FilledConditions ts ∧ FilledConditions us := by
  induction ts with
  | nil => exact iff_of_eq (true_and _).symm
  | cons t ts ih =>
    rw [List.cons_append, FilledConditions, ih, FilledConditions]
    exact and_assoc.symm

theorem filledParts_append {ps qs : List (List (Condition α))} :
    FilledParts (ps ++ qs) ↔ FilledParts ps ∧ FilledParts qs := by
  induction ps with
  | nil => exact iff_of_eq (true_and _).symm
  | cons p ps ih =>
    rw [List.cons_append, FilledParts, ih, FilledParts]
    exact and_assoc.symm

theorem filledParts_partOf {ts : List (Condition α)} (h : FilledConditions ts) :
    FilledParts (partOf ts) := by
  cases ts with
  | nil => trivial
  | cons t ts => exact ⟨⟨List.cons_ne_nil t ts, h⟩, trivial⟩

theorem filledConditions_groupOf {ps : List (List (Condition α))} (k : Connective)
    (h : FilledParts ps) : FilledConditions (groupOf k ps) := by
  cases ps with
  | nil => trivial
  | cons p ps => exact ⟨⟨List.cons_ne_nil p ps, h⟩, trivial⟩

mutual

theorem Condition.filled_assign {β : Type} (v : Nat → β) (i : Nat) : ∀ t : Condition α, t.Filled →
    (t.assign v i).Filled
  | .atom a, _ => trivial
  | .group k parts, h => by
    refine ⟨?_, filledParts_assign v i parts h.2⟩
    obtain ⟨p, ps, rfl⟩ := List.exists_cons_of_ne_nil h.1
    exact List.cons_ne_nil _ _

theorem filledConditions_assign {β : Type} (v : Nat → β) (i : Nat) : ∀ ts : List (Condition α),
    FilledConditions ts → FilledConditions (assignConditions v i ts)
  | [], _ => trivial
  | t :: ts, h => ⟨t.filled_assign v i h.1, filledConditions_assign v _ ts h.2⟩

theorem filledParts_assign {β : Type} (v : Nat → β) (i : Nat) :
    ∀ ps : List (List (Condition α)), FilledParts ps → FilledParts (assignParts v i ps)
  | [], _ => trivial
  | [] :: ps, h => absurd rfl h.1.1
  | (t :: ts) :: ps, h =>
    ⟨⟨List.cons_ne_nil _ _, t.filled_assign v i h.1.2.1, filledConditions_assign v _ ts h.1.2.2⟩,
      filledParts_assign v _ ps h.2⟩

end

theorem assignConditions_ne_nil {β : Type} (v : Nat → β) (i : Nat) {ts : List (Condition α)}
    (h : ts ≠ []) : assignConditions v i ts ≠ [] := by
  obtain ⟨t, us, rfl⟩ := List.exists_cons_of_ne_nil h
  exact List.cons_ne_nil _ _

/-! ## alternatives -/

/-- alternatives on both sides of an `AND`, which takes the last before it and the first behind it -/
def splice : List (List (Formula α)) → List (List (Formula α)) → List (List (Formula α))
  | [], bs => bs
  | [c], [] => [c]
  | [c], d :: bs => (c ++ d) :: bs
  | c :: d :: as, bs => c :: splice (d :: as) bs

/-- the alternatives that are read from a group, given what is read from each part -/
def Connective.alternatives (fs : List (Formula α)) : Connective → List (List (Formula α))
  | and | nand => [fs]
  | or => [[.any (fs.map fun f => [f])]]
  | nor => fs.map fun f => [f]

mutual

def Condition.alternatives : Condition α → List (List (Formula α))
  | .atom a => [[.atom a]]
  | .group k parts => k.alternatives (partFormulas parts)

def grouping : List (Condition α) → List (List (Formula α))
  | [] => []
  | t :: ts => splice t.alternatives (grouping ts)

def partFormulas : List (List (Condition α)) → List (Formula α)
  | [] => []
  | p :: ps => .any (grouping p) :: partFormulas ps

end

theorem splice_nil (as : List (List (Formula α))) : splice as [] = as := by
  induction as with
  | nil => rfl
  | cons c as ih =>
    cases as with
    | nil => rfl
    | cons d as => exact congrArg (c :: ·) ih

theorem splice_ne_nil {as bs : List (List (Formula α))} (ha : as ≠ []) : splice as bs ≠ [] := by
  cases as with
  | nil => exact absurd rfl ha
  | cons c as =>
    cases as with
    | nil => cases bs <;> exact List.cons_ne_nil _ _
    | cons d as => exact List.cons_ne_nil _ _

theorem properAlternatives_splice {as bs : List (List (Formula α))} (ha : ProperAlternatives as)
    (hb : ProperAlternatives bs) : ProperAlternatives (splice as bs) := by
  induction as with
  | nil => exact hb
  | cons c as ih =>
    cases as with
    | nil =>
      cases bs with
      | nil => exact ha
      | cons d bs =>
        obtain ⟨⟨hc, hcs⟩, _⟩ := ha
        have hne : c ++ d ≠ [] := fun h => hc (List.append_eq_nil_iff.mp h).1
        exact ⟨⟨hne, properConjuncts_append.mpr ⟨hcs, hb.1.2⟩⟩, hb.2⟩
    | cons d as => exact ⟨ha.1, ih ha.2⟩

theorem properAlternatives_singles {fs : List (Formula α)} (h : ProperConjuncts fs) :
    ProperAlternatives (fs.map fun f => [f]) := by
  induction fs with
  | nil => trivial
  | cons f fs ih => exact ⟨⟨List.cons_ne_nil f [], h.1, trivial⟩, ih h.2⟩

theorem Connective.proper_alternatives (k : Connective) {fs : List (Formula α)} (hne : fs ≠ [])
    (h : ProperConjuncts fs) : k.alternatives fs ≠ [] ∧ ProperAlternatives (k.alternatives fs) := by
  have hsingles : (fs.map fun f => [f]) ≠ [] := fun he => hne (List.map_eq_nil_iff.mp he)
  have hproper := properAlternatives_singles h
  cases k with
  | and => exact ⟨List.cons_ne_nil _ _, ⟨hne, h⟩, trivial⟩
  | nand => exact ⟨List.cons_ne_nil _ _, ⟨hne, h⟩, trivial⟩
  | or =>
    exact ⟨List.cons_ne_nil _ _, ⟨List.cons_ne_nil _ _, ⟨hsingles, hproper⟩, trivial⟩, trivial⟩
  | nor => exact ⟨hsingles, hproper⟩

theorem partFormulas_ne_nil {ps : List (List (Condition α))} (h : ps ≠ []) :
    partFormulas ps ≠ [] := by
  obtain ⟨p, qs, rfl⟩ := List.exists_cons_of_ne_nil h
  exact List.cons_ne_nil _ _

mutual

theorem Condition.proper_alternatives : ∀ t : Condition α, t.Filled →
    t.alternatives ≠ [] ∧ ProperAlternatives t.alternatives
  | .atom a, _ => ⟨List.cons_ne_nil _ _, ⟨List.cons_ne_nil _ _, trivial, trivial⟩, trivial⟩
  | .group k parts, h => k.proper_alternatives (partFormulas_ne_nil h.1) (proper_parts parts h.2)

theorem proper_grouping : ∀ ts : List (Condition α), FilledConditions ts →
    ProperAlternatives (grouping ts)
  | [], _ => trivial
  | t :: ts, h => properAlternatives_splice (t.proper_alternatives h.1).2 (proper_grouping ts h.2)

theorem proper_parts : ∀ ps : List (List (Condition α)), FilledParts ps →
    ProperConjuncts (partFormulas ps)
  | [], _ => trivial
  | [] :: ps, h => absurd rfl h.1.1
  | (t :: ts) :: ps, h =>
    ⟨⟨splice_ne_nil (t.proper_alternatives h.1.2.1).1,
      properAlternatives_splice (t.proper_alternatives h.1.2.1).2 (proper_grouping ts h.1.2.2)⟩,
      proper_parts ps h.2⟩

end

theorem grouping_ne_nil {ts : List (Condition α)} (hne : ts ≠ []) (h : FilledConditions ts) :
    grouping ts ≠ [] := by
  obtain ⟨t, us, rfl⟩ := List.exists_cons_of_ne_nil hne
  exact splice_ne_nil (t.proper_alternatives h.1).1

/-! ## the line of a tree -/

theorem conjunctItems_ne_nil {c : List (Formula α)} (h : c ≠ []) : conjunctItems c ≠ [] := by
  obtain ⟨f, fs, rfl⟩ := List.exists_cons_of_ne_nil h
  exact List.cons_ne_nil _ _

theorem alternativeItems_ne_nil {as : List (List (Formula α))} (h : as ≠ []) :
    alternativeItems as ≠ [] := by
  obtain ⟨c, bs, rfl⟩ := List.exists_cons_of_ne_nil h
  exact List.cons_ne_nil _ _

theorem disjunctionItems_cons (c : List (Formula α)) {as : List (List (Formula α))} (h : as ≠ []) :
    disjunctionItems (c :: as) =
      [Item.and].intercalate (conjunctItems c) ++ [.or] ++ disjunctionItems as :=
  intercalate_cons [Item.or] _ (alternativeItems_ne_nil h)

theorem disjunctionItems_singleton (c : List (Formula α)) :
    disjunctionItems [c] = [Item.and].intercalate (conjunctItems c) := List.intercalate_singleton

/-- what is spliced is what stands on both sides of an `AND` -/
theorem disjunctionItems_splice {as bs : List (List (Formula α))} (ha : as ≠ [])
    (hpa : ProperAlternatives as) (hb : bs ≠ []) (hpb : ProperAlternatives bs) :
    disjunctionItems (splice as bs) = disjunctionItems as ++ [.and] ++ disjunctionItems bs := by
  induction as with
  | nil => exact absurd rfl ha
  | cons c as ih =>
    cases as with
    | nil =>
      -- the last alternative before the `AND` and the first behind it become one
      obtain ⟨d, bs, rfl⟩ := List.exists_cons_of_ne_nil hb
      have hcd : [Item.and].intercalate (conjunctItems (c ++ d)) =
          [Item.and].intercalate (conjunctItems c) ++ [.and] ++
            [Item.and].intercalate (conjunctItems d) := by
        rw [conjunctItems_append]
        exact intercalate_append _ (conjunctItems_ne_nil hpa.1.1) (conjunctItems_ne_nil hpb.1.1)
      rw [splice, disjunctionItems_singleton]
      cases bs with
      | nil => rw [disjunctionItems_singleton, hcd, disjunctionItems_singleton]
      | cons e bs =>
        have hne : e :: bs ≠ [] := List.cons_ne_nil e bs
        rw [disjunctionItems_cons _ hne, hcd, disjunctionItems_cons _ hne]
        simp only [List.append_assoc]
    | cons d as =>
      have hne : d :: as ≠ [] := List.cons_ne_nil d as
      rw [splice, disjunctionItems_cons _ (splice_ne_nil hne), ih hne hpa.2,
        disjunctionItems_cons _ hne]
      simp only [List.append_assoc]

theorem alternativeItems_singles (fs : List (Formula α)) :
    alternativeItems (fs.map fun f => [f]) = conjunctItems fs := by
  induction fs with
  | nil => rfl
  | cons f fs ih =>
    rw [List.map_cons, alternativeItems, ih, conjunctItems, conjunctItems, conjunctItems,
      List.intercalate_singleton]

/-- the line of a group whose parts are read -/
theorem Connective.disjunctionItems_alternatives (k : Connective) {fs : List (Formula α)}
    {xs : List (List (Item α))} (hx : xs ≠ [])
    (h : conjunctItems fs = xs.map fun x => [.opening] ++ x ++ [.closing]) :
    disjunctionItems (k.alternatives fs) = k.opening ++ k.joint.intercalate xs ++ k.closing := by
  have all : disjunctionItems [fs] =
      [.opening] ++ [.closing, .and, .opening].intercalate xs ++ [.closing] := by
    rw [disjunctionItems_singleton, h, intercalate_map_wrap _ _ _ hx]
    rfl
  have any : disjunctionItems (fs.map fun f => [f]) =
      [.opening] ++ [.closing, .or, .opening].intercalate xs ++ [.closing] := by
    rw [disjunctionItems, alternativeItems_singles, h, intercalate_map_wrap _ _ _ hx]
    rfl
  cases k with
  | and => exact all
  | nand => exact all
  | nor => exact any
  | or =>
    rw [Connective.alternatives, disjunctionItems_singleton, conjunctItems, conjunctItems,
      List.intercalate_singleton, Formula.items]
    show Item.opening :: disjunctionItems _ ++ [Item.closing] = _
    rw [any]
    simp [Connective.opening, Connective.joint, Connective.closing]

mutual

theorem Condition.items_eq : ∀ t : Condition α, t.Filled →
    t.items = disjunctionItems t.alternatives
  | .atom a, _ => rfl
  | .group k parts, h => by
    have hne : partItems parts ≠ [] := by
      obtain ⟨p, ps, rfl⟩ := List.exists_cons_of_ne_nil h.1
      exact List.cons_ne_nil _ _
    exact (k.disjunctionItems_alternatives hne (conjunctItems_partFormulas parts h.2)).symm

theorem conjunctionItems_eq : ∀ ts : List (Condition α), FilledConditions ts →
    [Item.and].intercalate (conditionItems ts) = disjunctionItems (grouping ts)
  | [], _ => rfl
  | [t], h => by
    rw [conditionItems, conditionItems, List.intercalate_singleton, t.items_eq h.1, grouping,
      grouping, splice_nil]
  | t :: u :: ts, h => by
    obtain ⟨ht, hpt⟩ := t.proper_alternatives h.1
    have hu : grouping (u :: ts) ≠ [] := grouping_ne_nil (List.cons_ne_nil u ts) h.2
    have ih := conjunctionItems_eq (u :: ts) h.2
    have hne : conditionItems (u :: ts) ≠ [] := List.cons_ne_nil _ _
    have hg : grouping (t :: u :: ts) = splice t.alternatives (grouping (u :: ts)) := rfl
    rw [conditionItems, intercalate_cons _ _ hne, ih, t.items_eq h.1, hg,
      disjunctionItems_splice ht hpt hu (proper_grouping _ h.2)]

theorem conjunctItems_partFormulas : ∀ ps : List (List (Condition α)), FilledParts ps →
    conjunctItems (partFormulas ps) = (partItems ps).map fun x => [.opening] ++ x ++ [.closing]
  | [], _ => rfl
  | p :: ps, h => by
    rw [partFormulas, conjunctItems, conjunctItems_partFormulas ps h.2, partItems, List.map_cons,
      conjunctionItems_eq p h.1.2]
    rfl

end

/-- **The line of a tree is read as the alternatives of the tree.** -/
theorem readFormula_conjunctionItems {ts : List (Condition α)} (hne : ts ≠ [])
    (h : FilledConditions ts) : readFormula (conjunctionItems ts) = some (.any (grouping ts)) :=
  readFormula_iff.mpr
    ⟨grouping ts, grouping_ne_nil hne h, proper_grouping ts h, rfl, conjunctionItems_eq ts h⟩

/-! ## what is read, as truth values -/

mutual

def Formula.holds : Formula Bool → Bool
  | .atom b => b
  | .any as => anyHolds as

def allHold : List (Formula Bool) → Bool
  | [] => true
  | f :: fs => f.holds && allHold fs

def anyHolds : List (List (Formula Bool)) → Bool
  | [] => false
  | c :: cs => allHold c || anyHolds cs

end

theorem allHold_append (c d : List (Formula Bool)) :
    allHold (c ++ d) = (allHold c && allHold d) := by
  induction c with
  | nil => rfl
  | cons f c ih => rw [List.cons_append, allHold, ih, allHold, Bool.and_assoc]

/-- an alternative that holds is kept, but for the last one -/
theorem anyHolds_splice_cons {c d : List (Formula Bool)} {as bs : List (List (Formula Bool))}
    (h : allHold c = true) : anyHolds (splice (c :: d :: as) bs) = true := by
  rw [splice, anyHolds, h, Bool.true_or]

/-- alternatives of which one behind the first holds -/
def LaterHolds (as : List (List (Formula Bool))) : Prop :=
  ∃ c cs, as = c :: cs ∧ anyHolds cs = true

theorem LaterHolds.anyHolds {as : List (List (Formula Bool))} (h : LaterHolds as) :
    anyHolds as = true := by
  obtain ⟨c, cs, rfl, hcs⟩ := h
  rw [Filter.anyHolds, hcs, Bool.or_true]

/-- an `AND` takes nothing behind the first alternative -/
theorem LaterHolds.splice (as : List (List (Formula Bool))) {bs : List (List (Formula Bool))}
    (h : LaterHolds bs) : LaterHolds (splice as bs) := by
  obtain ⟨d, ds, rfl, hds⟩ := h
  induction as with
  | nil => exact ⟨d, ds, rfl, hds⟩
  | cons c as ih =>
    cases as with
    | nil => exact ⟨c ++ d, ds, rfl, hds⟩
    | cons e as => exact ⟨c, _, rfl, ih.anyHolds⟩

theorem LaterHolds.grouping_append (ts : List (Condition Bool)) {us : List (Condition Bool)}
    (h : LaterHolds (grouping us)) : LaterHolds (grouping (ts ++ us)) := by
  induction ts with
  | nil => exact h
  | cons t ts ih => exact ih.splice t.alternatives

/-- what holds on both sides holds together -/
theorem anyHolds_splice {as bs : List (List (Formula Bool))} (ha : anyHolds as = true)
    (hb : anyHolds bs = true) : anyHolds (splice as bs) = true := by
  induction as with
  | nil => exact nomatch ha
  | cons c as ih =>
    cases as with
    | nil =>
      have hc : allHold c = true := by rwa [anyHolds, anyHolds, Bool.or_false] at ha
      cases bs with
      | nil => exact nomatch hb
      | cons d bs =>
        rw [anyHolds] at hb
        rwa [splice, anyHolds, allHold_append, hc, Bool.true_and]
    | cons d as =>
      rw [anyHolds] at ha
      rw [splice, anyHolds]
      rcases Bool.or_eq_true_iff.mp ha with hc | has
      · rw [hc, Bool.true_or]
      · rw [ih has, Bool.or_true]

theorem anyHolds_singles (fs : List (Formula Bool)) :
    anyHolds (fs.map fun f => [f]) = fs.any Formula.holds := by
  induction fs with
  | nil => rfl
  | cons f fs ih => rw [List.map_cons, anyHolds, ih, allHold, allHold, Bool.and_true, List.any_cons]

/-- a group is read as its connective says -/
theorem Connective.anyHolds_alternatives (k : Connective) (fs : List (Formula Bool)) :
    anyHolds (k.alternatives fs) = if k.isAll then allHold fs else fs.any Formula.holds := by
  have all : anyHolds [fs] = allHold fs := by rw [anyHolds, anyHolds, Bool.or_false]
  cases k with
  | and => exact all
  | nand => exact all
  | nor => exact anyHolds_singles fs
  | or =>
    rw [Connective.alternatives, anyHolds, allHold, Formula.holds, anyHolds_singles, allHold,
      anyHolds, Bool.and_true, Bool.or_false]
    rfl

/-- conditions that are all read as true make the conjunction so -/
theorem anyHolds_grouping_of_forall {ts : List (Condition Bool)} (hne : ts ≠ [])
    (h : ∀ t ∈ ts, anyHolds t.alternatives = true) : anyHolds (grouping ts) = true := by
  induction ts with
  | nil => exact absurd rfl hne
  | cons t ts ih =>
    obtain ⟨ht, hts⟩ := List.forall_mem_cons.mp h
    rw [grouping]
    cases ts with
    | nil => rwa [grouping, splice_nil]
    | cons u ts => exact anyHolds_splice ht (ih (List.cons_ne_nil u ts) hts)

mutual

theorem Condition.anyHolds_alternatives : ∀ t : Condition Bool, t.Filled → t.holds = true →
    anyHolds t.alternatives = true
  | .atom b, _, h => by
    rw [Condition.alternatives, anyHolds, allHold, allHold, anyHolds, Bool.and_true, Bool.or_false]
    exact h
  | .group k parts, hf, h => by
    obtain ⟨hall, hany⟩ := partFormulas_hold parts hf.2
    rw [Condition.holds] at h
    rw [Condition.alternatives, k.anyHolds_alternatives]
    split
    · next hk =>
      rw [if_pos hk] at h
      exact hall h
    · next hk =>
      rw [if_neg hk] at h
      exact hany h

/-- **Where the tree holds, what is read from its line holds.** -/
theorem anyHolds_grouping : ∀ ts : List (Condition Bool), ts ≠ [] → FilledConditions ts →
    conjunctionHolds ts = true → anyHolds (grouping ts) = true
  | [], hne, _, _ => absurd rfl hne
  | [t], _, hf, h => by
    have ht : t.holds = true := (Bool.and_eq_true_iff.mp h).1
    rw [grouping, grouping, splice_nil]
    exact t.anyHolds_alternatives hf.1 ht
  | t :: u :: ts, _, hf, h => by
    obtain ⟨ht, hts⟩ := Bool.and_eq_true_iff.mp h
    exact anyHolds_splice (t.anyHolds_alternatives hf.1 ht)
      (anyHolds_grouping (u :: ts) (List.cons_ne_nil u ts) hf.2 hts)

theorem partFormulas_hold : ∀ ps : List (List (Condition Bool)), FilledParts ps →
    (allParts ps = true → allHold (partFormulas ps) = true) ∧
      (anyPart ps = true → (partFormulas ps).any Formula.holds = true)
  | [], _ => ⟨id, id⟩
  | p :: ps, hf => by
    obtain ⟨hall, hany⟩ := partFormulas_hold ps hf.2
    have hp := anyHolds_grouping p hf.1.1 hf.1.2
    constructor
    · intro h
      obtain ⟨h1, h2⟩ := Bool.and_eq_true_iff.mp h
      exact Bool.and_eq_true_iff.mpr ⟨hp h1, hall h2⟩
    · intro h
      rcases Bool.or_eq_true_iff.mp h with h1 | h2
      · exact Bool.or_eq_true_iff.mpr (.inl (hp h1))
      · exact Bool.or_eq_true_iff.mpr (.inr (hany h2))

end

end WhereClause.Filter
