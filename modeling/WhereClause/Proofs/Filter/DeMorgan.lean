import WhereClause.Proofs.Filter.Composition
import WhereClause.Proofs.Filter.Exclusion
import WhereClause.Proofs.Filter.Grammar
import WhereClause.Proofs.Filter.Lines
import WhereClause.Proofs.Filter.Predicate

/-!
# Connectives of single comparisons

Queries that are one comparison each, put together by a connective. A `$nor` negates each of them and
has `OR` between them, so it is the opposite of the `$and` of them, and a `$nand` has `AND` between
the negated ones, so it is the opposite of the `$or`.

* `combined`                   queries inside a connective;
* `Opposed`                    truth values where a comparison and its complement never agree;
* `anyHolds_single`            a tree with one comparison is read as this comparison;
* `truthOf_combined`           what the text of a connective says;
* `truthOf_combined_opposite`  the two laws.
-/

set_option autoImplicit false
set_option linter.unusedVariables false

namespace WhereClause.Filter

open WhereClause.Sql

/-- queries inside a connective -/
def combined (key : String) (qs : List Query) : Query := .single key (.array (qs.map .object))

/-- truth values of comparisons, where complements have opposite ones -/
def Opposed (o : Options) (holds : List Token → Bool) : Prop :=
  ∀ a : Atom, holds (a.complement.tokens o) = !holds (a.tokens o)

/-! ## trees with one comparison -/

variable {α : Type}

mutual

theorem Condition.atoms_ne_nil : ∀ t : Condition α, t.Filled → t.atoms ≠ []
  | .atom a, _ => List.cons_ne_nil a []
  | .group k parts, h => partAtoms_ne_nil parts h.1 h.2

theorem conditionAtoms_ne_nil : ∀ ts : List (Condition α), ts ≠ [] → FilledConditions ts →
    conditionAtoms ts ≠ []
  | [], hne, _ => absurd rfl hne
  | t :: ts, _, h => fun he => t.atoms_ne_nil h.1 (List.append_eq_nil_iff.mp he).1

theorem partAtoms_ne_nil : ∀ ps : List (List (Condition α)), ps ≠ [] → FilledParts ps →
    partAtoms ps ≠ []
  | [], hne, _ => absurd rfl hne
  | p :: ps, _, h => fun he => conditionAtoms_ne_nil p h.1.1 h.1.2 (List.append_eq_nil_iff.mp he).1

end

theorem eq_nil_of_conditionAtoms {ts : List (Condition α)} (hf : FilledConditions ts)
    (h : conditionAtoms ts = []) : ts = [] := by
  by_contra hne
  exact conditionAtoms_ne_nil ts hne hf h

theorem eq_nil_of_partAtoms {ps : List (List (Condition α))} (hf : FilledParts ps)
    (h : partAtoms ps = []) : ps = [] := by
  by_contra hne
  exact partAtoms_ne_nil ps hne hf h

mutual

theorem Condition.anyHolds_single {b : Bool} : ∀ t : Condition Bool, t.Filled → t.atoms = [b] →
    anyHolds t.alternatives = b
  | .atom a, _, h => by
    cases h
    rw [Condition.alternatives, anyHolds_singleton, allHold, allHold, Bool.and_true]
    rfl
  | .group k parts, hf, h => by
    obtain ⟨f, hf, hholds⟩ := partFormulas_single parts hf.1 hf.2 h
    rw [Condition.alternatives, k.anyHolds_alternatives, hf, allHold, allHold, List.any_cons,
      List.any_nil, Bool.and_true, Bool.or_false, ite_self, hholds]

/-- **A tree with one comparison is read as this comparison**, however many groups are around it. -/
theorem anyHolds_single {b : Bool} : ∀ ts : List (Condition Bool), FilledConditions ts →
    conditionAtoms ts = [b] → anyHolds (grouping ts) = b
  | [], _, h => nomatch h
  | t :: ts, hf, h => by
    obtain ⟨ht, hts⟩ := (List.append_eq_singleton_iff.mp h).resolve_left fun h' =>
      t.atoms_ne_nil hf.1 h'.1
    cases eq_nil_of_conditionAtoms hf.2 hts
    rw [grouping, grouping, splice_nil]
    exact t.anyHolds_single hf.1 ht

theorem partFormulas_single {b : Bool} : ∀ ps : List (List (Condition Bool)), ps ≠ [] →
    FilledParts ps → partAtoms ps = [b] → ∃ f, partFormulas ps = [f] ∧ f.holds = b
  | [], hne, _, _ => absurd rfl hne
  | p :: ps, _, hf, h => by
    obtain ⟨hp, hps⟩ := (List.append_eq_singleton_iff.mp h).resolve_left fun h' =>
      conditionAtoms_ne_nil p hf.1.1 hf.1.2 h'.1
    cases eq_nil_of_partAtoms hf.2 hps
    exact ⟨.any (grouping p), rfl, anyHolds_single p hf.1.2 hp⟩

end

theorem partFormulas_map (f : α → List (Condition Bool)) (as : List α) :
    partFormulas (as.map f) = as.map fun a => .any (grouping (f a)) := by
  induction as with
  | nil => rfl
  | cons a as ih => rw [List.map_cons, partFormulas, ih, List.map_cons]

theorem allHold_map (f : α → Formula Bool) (as : List α) :
    allHold (as.map f) = as.all fun a => (f a).holds := by
  induction as with
  | nil => rfl
  | cons a as ih => rw [List.map_cons, allHold, ih, List.all_cons]

/-! ## queries inside a connective -/

theorem elementConditions_objects (p : Polarity) {qs : List Query}
    (h : ∀ q ∈ qs, q.conditions p ≠ []) :
    elementConditions p (qs.map .object) = qs.map (Query.conditions p) := by
  induction qs with
  | nil => rfl
  | cons q qs ih =>
    obtain ⟨hq, hqs⟩ := List.forall_mem_cons.mp h
    obtain ⟨t, ts, ht⟩ := List.exists_cons_of_ne_nil hq
    rw [List.map_cons, elementConditions, ih hqs, List.map_cons]
    show partOf (q.conditions p) ++ _ = _
    rw [ht]
    rfl

theorem conditions_combined (p : Polarity) {key : String} {k : Connective}
    (hk : Connective.ofKey? key = some k) {qs : List Query}
    (h : ∀ q ∈ qs, q.conditions (p.inside k) ≠ []) :
    (combined key qs).conditions p = groupOf k (qs.map (Query.conditions (p.inside k))) := by
  have hkey : isOperatorKey key = true := by
    refine isOperatorKey_of_mem ?_
    by_contra hmem
    rw [(connectiveOfKey?_eq_none key).mpr hmem] at hk
    cases hk
  have hone := entryConditions_connective p hkey (.array (qs.map .object))
  rw [connectiveConditions_array p hk, elementConditions_objects _ h] at hone
  exact hone

variable {c : Configuration} {p : Polarity}

theorem elementNesting_objects {qs : List Query} {limit : Nat}
    (h : ∀ q ∈ qs, q.nesting < limit) : elementNesting (qs.map .object) ≤ limit := by
  induction qs with
  | nil => exact Nat.zero_le limit
  | cons q qs ih =>
    obtain ⟨hq, hqs⟩ := List.forall_mem_cons.mp h
    exact Nat.max_le.mpr ⟨hq, ih hqs⟩

/-- queries with room for one level more are filters inside a connective -/
theorem exists_build_combined {qs : List Query} (h : ∀ q ∈ qs, ∃ sql, q.build c p = .ok sql)
    (hroom : ∀ q ∈ qs, q.nesting < c.maxDepth) {key : String} (hkey : key ∈ connectiveKeys) :
    ∃ sql, (combined key qs).build c p = .ok sql := by
  have hq : ∀ q ∈ qs, IsQuery q ∧ q.IsShown c.options.zone := fun q hq =>
    ((exists_build_iff c p q).mp (h q hq)).2
  have hnesting : (combined key qs).nesting ≤ c.maxDepth := by
    show max (if isOperatorKey key then elementNesting (qs.map .object) else 0) 0 ≤ c.maxDepth
    rw [isOperatorKey_of_mem hkey, Nat.max_zero]
    exact elementNesting_objects hroom
  refine (exists_build_iff c p _).mpr ⟨hnesting, List.forall_mem_singleton.mpr ?_,
    Query.isShown_iff.mpr (List.forall_mem_singleton.mpr ?_)⟩
  · refine .connective hkey fun x hx => ?_
    obtain ⟨q, hmem, rfl⟩ := List.mem_map.mp hx
    exact .query (hq q hmem).1
  · refine Operand.isShown_array_iff.mpr fun x hx => ?_
    obtain ⟨q, hmem, rfl⟩ := List.mem_map.mp hx
    exact (hq q hmem).2

/-! ## what their texts say -/

/-- the comparison that a query is, as its text shows it -/
theorem exists_atom_of_comparisonsOf {q : Query} {sql : String} {ts : List Token}
    (h : q.build c p = .ok sql) (hone : comparisonsOf c.options.dialect sql = some [ts]) :
    ∃ a : Atom, conditionAtoms (q.conditions p) = [a] ∧ a.tokens c.options = ts := by
  rw [comparisonsOf_build h] at hone
  exact List.map_eq_singleton_iff.mp (Option.some.inj hone)

/-- what is read from the tree of a query, if its comparisons have truth values -/
def Query.truth (o : Options) (p : Polarity) (holds : List Token → Bool) (q : Query) : Bool :=
  anyHolds (grouping (mapConditions (fun a => holds (a.tokens o)) (q.conditions p)))

theorem truth_single {o : Options} {holds : List Token → Bool} {q : Query} {a : Atom}
    (h : conditionAtoms (q.conditions p) = [a]) : q.truth o p holds = holds (a.tokens o) := by
  refine anyHolds_single _ (filledConditions_map _ _ (filled_conditions p q)) ?_
  rw [conditionAtoms_mapConditions, h]
  rfl

/-- with the other table a single comparison is turned around -/
theorem truth_flip {o : Options} {holds : List Token → Bool} (hholds : Opposed o holds) {q : Query}
    {a : Atom} (h : conditionAtoms (q.conditions p) = [a]) :
    q.truth o p.flip holds = !q.truth o p holds := by
  have hflip : conditionAtoms (q.conditions p.flip) = [a.complement] := by
    rw [conditions_flip, conditionAtoms_mapConditions, h]
    rfl
  rw [truth_single h, truth_single hflip, hholds]

/-- where all are turned around, some and all change places -/
theorem any_and_all_opposite {f g : α → Bool} {as : List α} (h : ∀ a ∈ as, f a = !g a) :
    as.any f = !as.all g ∧ as.all f = !as.any g := by
  induction as with
  | nil => exact ⟨rfl, rfl⟩
  | cons a as ih =>
    obtain ⟨ha, has⟩ := List.forall_mem_cons.mp h
    obtain ⟨hany, hall⟩ := ih has
    rw [List.any_cons, List.all_cons, List.all_cons, List.any_cons, ha, hany, hall, Bool.not_and,
      Bool.not_or]
    exact ⟨rfl, rfl⟩

/-- a group is read as its parts are -/
theorem anyHolds_group (k : Connective) (f : α → List (Condition Bool)) (as : List α) :
    anyHolds (grouping [.group k (as.map f)]) =
      if k.isAll then as.all fun a => anyHolds (grouping (f a))
      else as.any fun a => anyHolds (grouping (f a)) := by
  rw [grouping, grouping, splice_nil, Condition.alternatives, k.anyHolds_alternatives,
    partFormulas_map, allHold_map, List.any_map]
  rfl

/-- what the text of a connective says: what all the queries say, or any of them -/
theorem truthOf_combined (holds : List Token → Bool) {key : String} {k : Connective}
    (hk : Connective.ofKey? key = some k) {qs : List Query} (hqs : qs ≠ [])
    (hne : ∀ q ∈ qs, q.conditions (p.inside k) ≠ []) {sql : String}
    (h : (combined key qs).build c p = .ok sql) : truthOf c.options.dialect holds sql =
      some (if k.isAll then qs.all (Query.truth c.options (p.inside k) holds)
        else qs.any (Query.truth c.options (p.inside k) holds)) := by
  have hgroup : (combined key qs).conditions p =
      [.group k (qs.map (Query.conditions (p.inside k)))] := by
    rw [conditions_combined p hk hne, groupOf, if_neg]
    simpa using hqs
  rw [truthOf_build h (by rw [hgroup]; exact List.cons_ne_nil _ _), hgroup, mapConditions,
    mapConditions, Condition.map, mapParts_eq_map, List.map_map, anyHolds_group]
  rfl

/-- **Connectives of single comparisons obey De Morgan.** Whatever is inside a `$nor` and inside an
`$and`, if each query is one comparison the text of the one is true where that of the other is false,
and so it is with `$nand` and `$or`. The texts are there if there is room for one level more. -/
theorem truthOf_combined_opposite (c : Configuration) (p : Polarity) (qs : List Query) (hqs : qs ≠ [])
    (hone : ∀ q ∈ qs, ∃ sql ts, q.build c p = .ok sql ∧
      comparisonsOf c.options.dialect sql = some [ts]) :
    ((∀ q ∈ qs, q.nesting < c.maxDepth) →
      ∀ key ∈ connectiveKeys, ∃ sql, (combined key qs).build c p = .ok sql) ∧
    ∀ holds, Opposed c.options holds →
      (∀ s t, (combined "$and" qs).build c p = .ok s → (combined "$nor" qs).build c p = .ok t →
        ∃ b, truthOf c.options.dialect holds s = some b ∧
          truthOf c.options.dialect holds t = some !b) ∧
      (∀ s t, (combined "$or" qs).build c p = .ok s → (combined "$nand" qs).build c p = .ok t →
        ∃ b, truthOf c.options.dialect holds s = some b ∧
          truthOf c.options.dialect holds t = some !b) := by
  have hatom : ∀ q ∈ qs, ∃ a, conditionAtoms (q.conditions p) = [a] := by
    intro q hq
    obtain ⟨sql, ts, hbuild, hts⟩ := hone q hq
    obtain ⟨a, ha, _⟩ := exists_atom_of_comparisonsOf hbuild hts
    exact ⟨a, ha⟩
  have hne : ∀ q ∈ qs, q.conditions p ≠ [] := by
    intro q hq hnil
    obtain ⟨a, ha⟩ := hatom q hq
    rw [hnil] at ha
    exact nomatch ha
  have hneflip : ∀ q ∈ qs, q.conditions p.flip ≠ [] := by
    intro q hq
    rw [conditions_flip]
    exact mapConditions_ne_nil Atom.complement (hne q hq)
  constructor
  · intro hroom key hkey
    have hbuilds : ∀ q ∈ qs, ∃ sql, q.build c p = .ok sql := by
      intro q hq
      obtain ⟨sql, _, hbuild, _⟩ := hone q hq
      exact ⟨sql, hbuild⟩
    exact exists_build_combined hbuilds hroom hkey
  intro holds hholds
  -- below the negating connectives each query is read as the opposite of what it is
  have hread : ∀ q ∈ qs, q.truth c.options p.flip holds = !q.truth c.options p holds := by
    intro q hq
    obtain ⟨a, ha⟩ := hatom q hq
    exact truth_flip hholds ha
  obtain ⟨hany, hall⟩ := any_and_all_opposite hread
  constructor
  · intro s t hs ht
    have hand := truthOf_combined holds (k := .and) rfl hqs hne hs
    have hnor := truthOf_combined holds (k := .nor) rfl hqs hneflip ht
    exact ⟨_, hand, hnor.trans (congrArg some hany)⟩
  · intro s t hs ht
    have hor := truthOf_combined holds (k := .or) rfl hqs hne hs
    have hnand := truthOf_combined holds (k := .nand) rfl hqs hneflip ht
    exact ⟨_, hor, hnand.trans (congrArg some hall)⟩

/-- truth values that only mind the signs; those of one field are turned around -/
def bySign : List Token → Bool
  | .name field :: ts => (readSign ts).any fun k => k.1.isLeading ^^ (field = ["b"])
  | ts => ts.getLast? = some (.number "1")

theorem opposed_bySign (o : Options) : Opposed o bySign := by
  intro a
  cases a with
  | constant b => cases b <;> rfl
  | compare k field v =>
    have hsign (k : Comparison) : bySign ((Atom.compare k field v).tokens o) =
        (k.isLeading ^^ (segments field = ["b"])) := by
      rw [Atom.tokens, bySign, readSign_tokens, Option.any_some]
    rw [Atom.complement, hsign, hsign, Comparison.isLeading_opposite, Bool.not_xor]

/-- a negation of a negation beside an empty connective, and a list in a list below a `$nand` -/
theorem truthOf_combined_opposite_chains :
    let q₁ : Query := [("a", .object [("$not", .object [("$not", .object [("$gt",
      .number (.integer 1))])])]), ("$and", .array [])]
    let q₂ : Query := [("$nand", .array [.null, .object [("b", .object [("$not",
      .array [.string "x", .array [.string "y"]])])]])]
    let qs : List Query := [q₁, q₂]
    let conjunction := "(`a` > 1) AND ((`b` IN ('x', ('y'))))"
    let opposite := "(`a` <= 1) OR ((`b` NOT IN ('x', ('y'))))"
    qs ≠ [] ∧ (combined "$and" qs).build {} .direct = .ok conjunction ∧
      (combined "$nor" qs).build {} .direct = .ok opposite ∧ Opposed {} bySign ∧
      truthOf .mysql bySign conjunction = some false ∧
      truthOf .mysql bySign opposite = some true := by
  intro q₁ q₂ qs conjunction opposite
  have hqs : qs ≠ [] := List.cons_ne_nil _ _
  have hone : ∀ q ∈ qs, ∃ sql ts, q.build {} .direct = .ok sql ∧
      comparisonsOf .mysql sql = some [ts] := by
    refine List.forall_mem_cons.mpr ⟨?_, List.forall_mem_singleton.mpr ?_⟩
    · have h : q₁.build {} .direct = .ok "`a` > 1" := by rfl
      exact ⟨_, _, h, comparisonsOf_build h⟩
    · have h : q₂.build {} .direct = .ok "(`b` IN ('x', ('y')))" := by rfl
      exact ⟨_, _, h, comparisonsOf_build h⟩
  have hand : (combined "$and" qs).build {} .direct = .ok conjunction := by rfl
  have hnor : (combined "$nor" qs).build {} .direct = .ok opposite := by rfl
  obtain ⟨_, hlaws⟩ := truthOf_combined_opposite {} .direct qs hqs hone
  obtain ⟨b, hb, hopposite⟩ := (hlaws bySign (opposed_bySign {})).1 _ _ hand hnor
  have hfalse : truthOf .mysql bySign conjunction = some false :=
    (truthOf_build hand (List.cons_ne_nil _ _) bySign).trans (by rfl)
  cases Option.some.inj (hb.symm.trans hfalse)
  exact ⟨hqs, hand, hnor, opposed_bySign {}, hfalse, hopposite⟩

end WhereClause.Filter
