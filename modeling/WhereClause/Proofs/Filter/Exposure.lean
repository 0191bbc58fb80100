import WhereClause.Proofs.Filter.Grouping

/-!
# Trees that are misread

A line nowhere says less than its tree, and it says more exactly where a `$nor` of two parts or more
stands beside another condition: the parts of a `$nor` have no parentheses around all of them, and
`AND` binds closer than the `OR` between them.

* `Exposed`         a `$nor` of several parts beside another condition, at the top or in any part;
* `holds_grouping`  without one, the line of a tree is read as the tree;
* `exists_misread`  with one, some truth values make the line true and the tree false.
-/

set_option autoImplicit false
set_option linter.unusedVariables false

namespace WhereClause.Filter

variable {α : Type}

/-! ## groups that are misread -/

/-- somewhere a `$nor` of two parts or more stands beside another condition -/
inductive Exposed : List (Condition α) → Prop where
  | beside {before behind : List (Condition α)} {p q : List (Condition α)}
      {ps : List (List (Condition α))} (h : before ≠ [] ∨ behind ≠ []) :
      Exposed (before ++ .group .nor (p :: q :: ps) :: behind)
  | inside {before behind : List (Condition α)} {k : Connective} {p : List (Condition α)}
      {ps qs : List (List (Condition α))} (h : Exposed p) :
      Exposed (before ++ .group k (ps ++ p :: qs) :: behind)

/-- a condition that is read as one alternative -/
def Condition.Narrow (t : Condition α) : Prop :=
  ∀ (p q : List (Condition α)) (ps : List (List (Condition α))), t ≠ .group .nor (p :: q :: ps)

/-- no part of the condition has a group that is misread -/
def Condition.Safe (t : Condition α) : Prop :=
  ∀ (k : Connective) (ps : List (List (Condition α))), t = .group k ps → ∀ p ∈ ps, ¬ Exposed p

theorem safe_of_not_exposed {ts : List (Condition α)} (h : ¬ Exposed ts) : ∀ t ∈ ts, t.Safe := by
  rintro t ht k ps rfl p hp hx
  obtain ⟨before, behind, rfl⟩ := List.append_of_mem ht
  obtain ⟨qs, rs, rfl⟩ := List.append_of_mem hp
  exact h (.inside hx)

theorem narrow_of_not_exposed {t u : Condition α} {ts : List (Condition α)}
    (h : ¬ Exposed (t :: u :: ts)) : ∀ s ∈ t :: u :: ts, s.Narrow := by
  rintro s hs p q ps rfl
  obtain ⟨before, behind, he⟩ := List.append_of_mem hs
  rw [he] at h
  refine h (.beside ?_)
  cases before with
  | cons b bs => exact .inl (List.cons_ne_nil b bs)
  | nil =>
    cases he
    exact .inr (List.cons_ne_nil u ts)

theorem Connective.alternatives_narrow {k : Connective} {ps : List (List (Condition α))}
    (hne : ps ≠ []) (h : (Condition.group k ps).Narrow) :
    ∃ c, k.alternatives (partFormulas ps) = [c] := by
  cases k with
  | and => exact ⟨_, rfl⟩
  | nand => exact ⟨_, rfl⟩
  | or => exact ⟨_, rfl⟩
  | nor =>
    obtain ⟨p, qs, rfl⟩ := List.exists_cons_of_ne_nil hne
    cases qs with
    | nil => exact ⟨_, rfl⟩
    | cons q qs => exact absurd rfl (h p q qs)

theorem Condition.alternatives_narrow {t : Condition α} (hf : t.Filled) (h : t.Narrow) :
    ∃ c, t.alternatives = [c] := by
  cases t with
  | atom a => exact ⟨_, rfl⟩
  | group k ps => exact Connective.alternatives_narrow hf.1 h

/-! ## without them, a line is read as its tree -/

theorem anyHolds_singleton (c : List (Formula Bool)) : anyHolds [c] = allHold c := by
  rw [anyHolds, anyHolds, Bool.or_false]

/-- conditions side by side, each of them read as one alternative and as it is meant -/
theorem grouping_narrow {ts : List (Condition Bool)} (hne : ts ≠ []) (hf : FilledConditions ts)
    (hn : ∀ t ∈ ts, t.Narrow) (h : ∀ t ∈ ts, anyHolds t.alternatives = t.holds) :
    ∃ c, grouping ts = [c] ∧ allHold c = conjunctionHolds ts := by
  induction ts with
  | nil => exact absurd rfl hne
  | cons t ts ih =>
    obtain ⟨htn, hn⟩ := List.forall_mem_cons.mp hn
    obtain ⟨ht, h⟩ := List.forall_mem_cons.mp h
    obtain ⟨c, hc⟩ := t.alternatives_narrow hf.1 htn
    rw [hc, anyHolds_singleton] at ht
    cases ts with
    | nil =>
      refine ⟨c, by rw [grouping, grouping, splice_nil, hc], ?_⟩
      rw [ht, conjunctionHolds, conjunctionHolds, Bool.and_true]
    | cons u ts =>
      obtain ⟨d, hd, hrest⟩ := ih (List.cons_ne_nil u ts) hf.2 hn h
      refine ⟨c ++ d, by rw [grouping, hc, hd]; rfl, ?_⟩
      rw [allHold_append, ht, hrest, ← conjunctionHolds]

theorem holds_grouping_of_forall {ts : List (Condition Bool)} (hne : ts ≠ [])
    (hf : FilledConditions ts) (hx : ¬ Exposed ts)
    (h : ∀ t ∈ ts, anyHolds t.alternatives = t.holds) :
    anyHolds (grouping ts) = conjunctionHolds ts := by
  cases ts with
  | nil => exact absurd rfl hne
  | cons t ts =>
    cases ts with
    | nil =>
      have ht := h t List.mem_cons_self
      rw [grouping, grouping, splice_nil, ht, conjunctionHolds, conjunctionHolds, Bool.and_true]
    | cons u ts =>
      obtain ⟨c, hc, hholds⟩ := grouping_narrow hne hf (narrow_of_not_exposed hx) h
      rw [hc, anyHolds_singleton, hholds]

mutual

theorem Condition.holds_alternatives : ∀ t : Condition Bool, t.Filled → t.Safe →
    anyHolds t.alternatives = t.holds
  | .atom b, _, _ => by
    rw [Condition.alternatives, anyHolds_singleton, allHold, allHold, Bool.and_true]
    rfl
  | .group k ps, hf, hs => by
    obtain ⟨hall, hany⟩ := holds_parts ps hf.2 (hs k ps rfl)
    rw [Condition.alternatives, k.anyHolds_alternatives, hall, hany]
    rfl

theorem forall_holds_alternatives : ∀ ts : List (Condition Bool), FilledConditions ts →
    (∀ t ∈ ts, t.Safe) → ∀ t ∈ ts, anyHolds t.alternatives = t.holds
  | [], _, _ => fun t ht => nomatch ht
  | t :: ts, hf, hs => by
    obtain ⟨hst, hs⟩ := List.forall_mem_cons.mp hs
    exact List.forall_mem_cons.mpr
      ⟨t.holds_alternatives hf.1 hst, forall_holds_alternatives ts hf.2 hs⟩

theorem holds_parts : ∀ ps : List (List (Condition Bool)), FilledParts ps →
    (∀ p ∈ ps, ¬ Exposed p) → allHold (partFormulas ps) = allParts ps ∧
      (partFormulas ps).any Formula.holds = anyPart ps
  | [], _, _ => ⟨rfl, rfl⟩
  | p :: ps, hf, hx => by
    obtain ⟨hxp, hx⟩ := List.forall_mem_cons.mp hx
    have hp := forall_holds_alternatives p hf.1.2 (safe_of_not_exposed hxp)
    have hformula : (Formula.any (grouping p)).holds = conjunctionHolds p :=
      holds_grouping_of_forall hf.1.1 hf.1.2 hxp hp
    obtain ⟨hall, hany⟩ := holds_parts ps hf.2 hx
    rw [partFormulas, allHold, List.any_cons, hformula, hall, hany]
    exact ⟨rfl, rfl⟩

end

/-- **Without a group that is misread, a line is read as its tree.** -/
theorem holds_grouping {ts : List (Condition Bool)} (hne : ts ≠ []) (hf : FilledConditions ts)
    (hx : ¬ Exposed ts) : anyHolds (grouping ts) = conjunctionHolds ts :=
  holds_grouping_of_forall hne hf hx (forall_holds_alternatives ts hf (safe_of_not_exposed hx))

/-! ## with one, a line says more than its tree -/

theorem conjunctionHolds_append (ts us : List (Condition Bool)) :
    conjunctionHolds (ts ++ us) = (conjunctionHolds ts && conjunctionHolds us) := by
  induction ts with
  | nil => rfl
  | cons t ts ih =>
    rw [List.cons_append, conjunctionHolds, ih, conjunctionHolds, Bool.and_assoc]

theorem allParts_append (ps qs : List (List (Condition Bool))) :
    allParts (ps ++ qs) = (allParts ps && allParts qs) := by
  induction ps with
  | nil => rfl
  | cons p ps ih => rw [List.cons_append, allParts, ih, allParts, Bool.and_assoc]

theorem anyPart_append (ps qs : List (List (Condition Bool))) :
    anyPart (ps ++ qs) = (anyPart ps || anyPart qs) := by
  induction ps with
  | nil => rfl
  | cons p ps ih => rw [List.cons_append, anyPart, ih, anyPart, Bool.or_assoc]

theorem partFormulas_append (ps qs : List (List (Condition α))) :
    partFormulas (ps ++ qs) = partFormulas ps ++ partFormulas qs := by
  induction ps with
  | nil => rfl
  | cons p ps ih => rw [List.cons_append, partFormulas, ih, partFormulas, List.cons_append]

/-- the same truth value everywhere -/
def constants (b : Bool) (ts : List (Condition α)) : List (Condition Bool) :=
  assignConditions (fun _ => b) 0 ts

mutual

theorem Condition.holds_constant (b : Bool) (i : Nat) : ∀ t : Condition α, t.Filled →
    (t.assign (fun _ => b) i).holds = b
  | .atom a, _ => rfl
  | .group k ps, hf => by
    obtain ⟨hall, hany⟩ := parts_constant b i ps hf.1 hf.2
    rw [Condition.assign, Condition.holds, hall, hany, ite_self]

theorem conjunctionHolds_constant (b : Bool) (i : Nat) : ∀ ts : List (Condition α), ts ≠ [] →
    FilledConditions ts → conjunctionHolds (assignConditions (fun _ => b) i ts) = b
  | [], hne, _ => absurd rfl hne
  | [t], _, hf => by
    rw [assignConditions, assignConditions, conjunctionHolds, conjunctionHolds,
      t.holds_constant b i hf.1, Bool.and_true]
  | t :: u :: ts, _, hf => by
    rw [assignConditions, conjunctionHolds, t.holds_constant b i hf.1,
      conjunctionHolds_constant b _ (u :: ts) (List.cons_ne_nil u ts) hf.2, Bool.and_self]

theorem parts_constant (b : Bool) (i : Nat) : ∀ ps : List (List (Condition α)), ps ≠ [] →
    FilledParts ps → allParts (assignParts (fun _ => b) i ps) = b ∧
      anyPart (assignParts (fun _ => b) i ps) = b
  | [], hne, _ => absurd rfl hne
  | [p], _, hf => by
    rw [assignParts, assignParts, allParts, allParts, anyPart, anyPart,
      conjunctionHolds_constant b i p hf.1.1 hf.1.2, Bool.and_true, Bool.or_false]
    exact ⟨rfl, rfl⟩
  | p :: q :: ps, _, hf => by
    obtain ⟨hall, hany⟩ := parts_constant b (i + (conditionAtoms p).length) (q :: ps)
      (List.cons_ne_nil q ps) hf.2
    rw [assignParts, allParts, anyPart, conjunctionHolds_constant b i p hf.1.1 hf.1.2, hall, hany,
      Bool.and_self, Bool.or_self]
    exact ⟨rfl, rfl⟩

end

theorem conjunctionHolds_true (i : Nat) {ts : List (Condition α)} (hf : FilledConditions ts) :
    conjunctionHolds (assignConditions (fun _ => true) i ts) = true := by
  cases ts with
  | nil => rfl
  | cons t ts => exact conjunctionHolds_constant true i _ (List.cons_ne_nil t ts) hf

theorem allParts_true (i : Nat) {ps : List (List (Condition α))} (hf : FilledParts ps) :
    allParts (assignParts (fun _ => true) i ps) = true := by
  cases ps with
  | nil => rfl
  | cons p ps => exact (parts_constant true i _ (List.cons_ne_nil p ps) hf).1

theorem anyPart_false (i : Nat) {ps : List (List (Condition α))} (hf : FilledParts ps) :
    anyPart (assignParts (fun _ => false) i ps) = false := by
  cases ps with
  | nil => rfl
  | cons p ps => exact (parts_constant false i _ (List.cons_ne_nil p ps) hf).2

/-- each condition that holds is read as true -/
theorem forall_anyHolds {ts : List (Condition Bool)} (hf : FilledConditions ts)
    (h : conjunctionHolds ts = true) : ∀ t ∈ ts, anyHolds t.alternatives = true := by
  induction ts with
  | nil => exact fun t ht => nomatch ht
  | cons t ts ih =>
    obtain ⟨ht, hts⟩ := Bool.and_eq_true_iff.mp h
    exact List.forall_mem_cons.mpr ⟨t.anyHolds_alternatives hf.1 ht, ih hf.2 hts⟩

/-- if the first part is left out and all still holds, a part behind the first is read as true -/
theorem laterHolds_nor {p q : List (Condition Bool)} {ps : List (List (Condition Bool))}
    {behind : List (Condition Bool)}
    (hf : FilledConditions (Condition.group .nor (q :: ps) :: behind))
    (h : conjunctionHolds (Condition.group .nor (q :: ps) :: behind) = true) :
    LaterHolds (grouping (Condition.group .nor (p :: q :: ps) :: behind)) :=
  ⟨[.any (grouping p)], grouping (Condition.group .nor (q :: ps) :: behind), rfl,
    anyHolds_grouping _ (List.cons_ne_nil _ _) hf h⟩

/-- a tree of truth values of the same shape that is false and read as true -/
def Misread (ts : List (Condition α)) : Prop :=
  ∃ us : List (Condition Bool), shape us = shape ts ∧ anyHolds (grouping us) = true ∧
    conjunctionHolds us = false

theorem shape_cons (t : Condition α) (ts : List (Condition α)) :
    shape (t :: ts) = (t.map fun _ => ()) :: shape ts := rfl

theorem shape_append (ts us : List (Condition α)) : shape (ts ++ us) = shape ts ++ shape us :=
  mapConditions_append _ ts us

variable {before behind p q : List (Condition α)} {ps qs : List (List (Condition α))}

/-- before a `$nor` an `AND` takes only the first part -/
theorem misread_before (hne : before ≠ [])
    (hf : FilledConditions (before ++ .group .nor (p :: q :: ps) :: behind)) :
    Misread (before ++ .group .nor (p :: q :: ps) :: behind) := by
  obtain ⟨hbefore, hgroup⟩ := filledConditions_append.mp hf
  -- false before the group, true in it and behind it: only its first part is lost to the `AND`
  refine ⟨constants false before ++ constants true (.group .nor (p :: q :: ps) :: behind),
    ?_, ?_, ?_⟩
  · rw [shape_append, shape_append, constants, constants, shape_assignConditions,
      shape_assignConditions]
  · obtain ⟨⟨_, _, hq⟩, hbehind⟩ := filledConditions_assign (fun _ => true) 0 _ hgroup
    have hqtrue := conjunctionHolds_constant true (0 + (conditionAtoms p).length) q
      hgroup.1.2.2.1.1 hgroup.1.2.2.1.2
    have hbtrue := conjunctionHolds_true (0 + (partAtoms (p :: q :: ps)).length) hgroup.2
    refine (LaterHolds.grouping_append _ (laterHolds_nor ⟨⟨List.cons_ne_nil _ _, hq⟩, hbehind⟩
      ?_)).anyHolds
    show ((conjunctionHolds _ || anyPart _) && conjunctionHolds _) = true
    rw [hqtrue, Bool.true_or, Bool.true_and]
    exact hbtrue
  · rw [conjunctionHolds_append, constants, conjunctionHolds_constant false 0 before hne hbefore,
      Bool.false_and]

/-- behind a `$nor` an `AND` takes only the last part -/
theorem misread_behind (hne : behind ≠ [])
    (hf : FilledConditions (Condition.group .nor (p :: q :: ps) :: behind)) :
    Misread (Condition.group .nor (p :: q :: ps) :: behind) := by
  -- true in the group, false behind it: only its last part is lost to the `AND`
  refine ⟨(Condition.group .nor (p :: q :: ps)).assign (fun _ => true) 0 ::
    constants false behind, ?_, ?_, ?_⟩
  · rw [shape_cons, shape_cons, Condition.shape_assign, constants, shape_assignConditions]
  · have hp := conjunctionHolds_constant true 0 p hf.1.2.1.1 hf.1.2.1.2
    have hfilled := filledConditions_assign (fun _ => true) 0 p hf.1.2.1.2
    have hread := anyHolds_grouping _ (assignConditions_ne_nil _ 0 hf.1.2.1.1) hfilled hp
    refine anyHolds_splice_cons ?_
    show (anyHolds (grouping (assignConditions (fun _ => true) 0 p)) && true) = true
    rw [hread, Bool.and_true]
  · rw [conjunctionHolds, constants, conjunctionHolds_constant false 0 behind hne hf.2,
      Bool.and_false]

/-- a part that is misread makes the group so, whatever it stands beside -/
theorem Misread.inside {k : Connective} (h : Misread p)
    (hf : FilledConditions (before ++ .group k (ps ++ p :: qs) :: behind)) :
    Misread (before ++ .group k (ps ++ p :: qs) :: behind) := by
  obtain ⟨us, hshape, hread, hholds⟩ := h
  obtain ⟨hbefore, ⟨_, hparts⟩, hbehind⟩ := filledConditions_append.mp hf
  obtain ⟨hps, _, hqs⟩ := filledParts_append.mp hparts
  -- the other parts must not decide the group: all true, or none
  let others (rs : List (List (Condition α))) : List (List (Condition Bool)) :=
    assignParts (fun _ => k.isAll) 0 rs
  refine ⟨constants true before ++ .group k (others ps ++ us :: others qs) :: constants true behind,
    ?_, ?_, ?_⟩
  · have hmap : mapParts (fun _ => ()) (others ps ++ us :: others qs) =
        mapParts (fun _ => ()) (ps ++ p :: qs) := by
      have hus : mapConditions (fun _ => ()) us = mapConditions (fun _ => ()) p := hshape
      rw [mapParts_append, mapParts_append, shape_assignParts, mapParts, mapParts, hus,
        shape_assignParts]
    rw [shape_append, shape_append, shape_cons, shape_cons, constants, constants,
      shape_assignConditions, shape_assignConditions, Condition.map, Condition.map, hmap]
  · have side (ts : List (Condition α)) (h : FilledConditions ts) :
        ∀ t ∈ constants true ts, anyHolds t.alternatives = true :=
      forall_anyHolds (filledConditions_assign _ 0 ts h) (conjunctionHolds_true 0 h)
    have hpart : (Formula.any (grouping us)).holds = true := hread
    have hgroup : anyHolds (k.alternatives (partFormulas (others ps ++ us :: others qs))) = true := by
      rw [k.anyHolds_alternatives, partFormulas_append, partFormulas]
      split
      · next hk =>
        have hall (rs : List (List (Condition α))) (h : FilledParts rs) :
            allHold (partFormulas (others rs)) = true := by
          refine (partFormulas_hold _ (filledParts_assign _ 0 rs h)).1 ?_
          rw [hk]
          exact allParts_true 0 h
        rw [allHold_append, allHold, hall ps hps, hpart, hall qs hqs]
        rfl
      · rw [List.any_append, List.any_cons, hpart, Bool.true_or, Bool.or_true]
    refine anyHolds_grouping_of_forall ?_ ?_
    · exact List.append_ne_nil_of_right_ne_nil _ (List.cons_ne_nil _ _)
    · intro t ht
      rcases List.mem_append.mp ht with ht | ht
      · exact side before hbefore t ht
      · rcases List.mem_cons.mp ht with rfl | ht
        · exact hgroup
        · exact side behind hbehind t ht
  · have hgroup : (Condition.group k (others ps ++ us :: others qs)).holds = false := by
      rw [Condition.holds]
      split
      · rw [allParts_append, allParts, hholds, Bool.false_and, Bool.and_false]
      · next hk =>
        have hnone (rs : List (List (Condition α))) (h : FilledParts rs) :
            anyPart (others rs) = false := by
          show anyPart (assignParts (fun _ => k.isAll) 0 rs) = false
          rw [Bool.eq_false_iff.mpr hk]
          exact anyPart_false 0 h
        rw [anyPart_append, anyPart, hnone ps hps, hholds, hnone qs hqs]
        rfl
    rw [conjunctionHolds_append, conjunctionHolds, hgroup, Bool.false_and, Bool.and_false]

/-- **With a group that is misread, some truth values make the line true and the tree false.** -/
theorem exists_misread {ts : List (Condition α)} (h : Exposed ts) (hf : FilledConditions ts) :
    Misread ts := by
  induction h with
  | @beside before behind p q ps hne =>
    cases before with
    | cons b bs => exact misread_before (List.cons_ne_nil b bs) hf
    | nil => exact misread_behind (hne.resolve_left fun h => h rfl) hf
  | inside h ih =>
    obtain ⟨_, ⟨_, hparts⟩, _⟩ := filledConditions_append.mp hf
    obtain ⟨_, ⟨_, hp⟩, _⟩ := filledParts_append.mp hparts
    exact (ih hp).inside hf

/-! ## shapes that are misread -/

theorem mapConditions_eq_map {β : Type} (f : α → β) (ts : List (Condition α)) :
    mapConditions f ts = ts.map (Condition.map f) := by
  induction ts with
  | nil => rfl
  | cons t ts ih => rw [mapConditions, ih, List.map_cons]

theorem mapParts_eq_map {β : Type} (f : α → β) (ps : List (List (Condition α))) :
    mapParts f ps = ps.map (mapConditions f) := by
  induction ps with
  | nil => rfl
  | cons p ps ih => rw [mapParts, ih, List.map_cons]

/-- a group among the conditions of a tree whose leaves were changed was there before -/
theorem exists_of_mapConditions {β : Type} {f : α → β} {ts : List (Condition α)}
    {before' behind' : List (Condition β)} {k : Connective} {parts' : List (List (Condition β))}
    (h : mapConditions f ts = before' ++ .group k parts' :: behind') :
    ∃ before parts behind, ts = before ++ .group k parts :: behind ∧
      mapConditions f before = before' ∧ mapParts f parts = parts' ∧
      mapConditions f behind = behind' := by
  rw [mapConditions_eq_map] at h
  obtain ⟨before, us, rfl, hbefore, hus⟩ := List.map_eq_append_iff.mp h
  obtain ⟨t, behind, rfl, ht, hbehind⟩ := List.map_eq_cons_iff.mp hus
  cases t with
  | atom a => exact nomatch ht
  | group l parts =>
    cases ht
    refine ⟨before, parts, behind, rfl, ?_, rfl, ?_⟩
    · rw [mapConditions_eq_map, hbefore]
    · rw [mapConditions_eq_map, hbehind]

theorem Exposed.map {β : Type} (f : α → β) {ts : List (Condition α)} (h : Exposed ts) :
    Exposed (mapConditions f ts) := by
  induction h with
  | @beside before behind p q ps hne =>
    rw [mapConditions_append]
    refine .beside (hne.imp (fun h he => h ?_) fun h he => h ?_)
    · rwa [mapConditions_eq_map, List.map_eq_nil_iff] at he
    · rwa [mapConditions_eq_map, List.map_eq_nil_iff] at he
  | @inside before behind k p ps qs _ ih =>
    rw [mapConditions_append, mapConditions, Condition.map, mapParts_append]
    exact .inside ih

theorem Exposed.of_map {β : Type} {f : α → β} {us : List (Condition β)} (h : Exposed us) :
    ∀ {ts : List (Condition α)}, mapConditions f ts = us → Exposed ts := by
  induction h with
  | @beside before' behind' p' q' ps' hne =>
    intro ts hts
    obtain ⟨before, parts, behind, rfl, rfl, hparts, rfl⟩ := exists_of_mapConditions hts
    rw [mapParts_eq_map] at hparts
    obtain ⟨p, rest, rfl, rfl, hrest⟩ := List.map_eq_cons_iff.mp hparts
    obtain ⟨q, ps, rfl, rfl, rfl⟩ := List.map_eq_cons_iff.mp hrest
    refine .beside (hne.imp (fun h he => h ?_) fun h he => h ?_)
    · rw [he]
      rfl
    · rw [he]
      rfl
  | @inside before' behind' k p' ps' qs' _ ih =>
    intro ts hts
    obtain ⟨before, parts, behind, rfl, rfl, hparts, rfl⟩ := exists_of_mapConditions hts
    rw [mapParts_eq_map] at hparts
    obtain ⟨ps, rest, rfl, rfl, hrest⟩ := List.map_eq_append_iff.mp hparts
    obtain ⟨p, qs, rfl, hp, rfl⟩ := List.map_eq_cons_iff.mp hrest
    exact .inside (ih hp)

theorem exposed_of_shape {β : Type} {ts : List (Condition α)} {us : List (Condition β)}
    (h : shape ts = shape us) (hx : Exposed ts) : Exposed us := (hx.map fun _ => ()).of_map h.symm

end WhereClause.Filter
