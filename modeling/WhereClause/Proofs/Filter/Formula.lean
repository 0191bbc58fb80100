import WhereClause.Proofs.Filter.Tree

/-!
# Reading conditions

A line of comparisons, `AND`, `OR` and parentheses is read as SQL reads it: what stands in
parentheses is one condition, `AND` holds conditions together, and `OR` stands between the
alternatives that come of it. The reader takes one item at a time and keeps what it has for each pair
of parentheses that is still open.

* `Formula.items`      a formula laid out in one line;
* `State.next`         what an item does;
* `readFormula_iff`    a line is read as a formula if and only if it is the line of that formula, so
                       no line has two readings.
-/

set_option autoImplicit false

namespace WhereClause.Filter

variable {α : Type}

/-! ## formulas -/

/-- a comparison, or alternatives in parentheses; each alternative is a conjunction -/
inductive Formula (α : Type) where
  | atom (a : α)
  | any (alternatives : List (List (Formula α)))

mutual

def Formula.items : Formula α → List (Item α)
  | .atom a => [.atom a]
  | .any as => .opening :: [Item.or].intercalate (alternativeItems as) ++ [.closing]

def conjunctItems : List (Formula α) → List (List (Item α))
  | [] => []
  | f :: fs => f.items :: conjunctItems fs

def alternativeItems : List (List (Formula α)) → List (List (Item α))
  | [] => []
  | c :: cs => [Item.and].intercalate (conjunctItems c) :: alternativeItems cs

end

/-- alternatives in one line, without parentheses around them -/
def disjunctionItems (as : List (List (Formula α))) : List (Item α) :=
  [Item.or].intercalate (alternativeItems as)

mutual

/-- a formula without empty alternatives, and with at least one in each pair of parentheses -/
def Formula.Proper : Formula α → Prop
  | .atom _ => True
  | .any as => as ≠ [] ∧ ProperAlternatives as

def ProperConjuncts : List (Formula α) → Prop
  | [] => True
  | f :: fs => f.Proper ∧ ProperConjuncts fs

def ProperAlternatives : List (List (Formula α)) → Prop
  | [] => True
  | c :: cs => (c ≠ [] ∧ ProperConjuncts c) ∧ ProperAlternatives cs

end

theorem conjunctItems_append (c d : List (Formula α)) :
    conjunctItems (c ++ d) = conjunctItems c ++ conjunctItems d := by
  induction c with
  | nil => rfl
  | cons f c ih => rw [List.cons_append, conjunctItems, ih, conjunctItems, List.cons_append]

theorem alternativeItems_append (as bs : List (List (Formula α))) :
    alternativeItems (as ++ bs) = alternativeItems as ++ alternativeItems bs := by
  induction as with
  | nil => rfl
  | cons c as ih => rw [List.cons_append, alternativeItems, ih, alternativeItems, List.cons_append]

theorem properConjuncts_append {c d : List (Formula α)} :
    ProperConjuncts (c ++ d) ↔ ProperConjuncts c ∧ ProperConjuncts d := by
  induction c with
  | nil => exact iff_of_eq (true_and _).symm
  | cons f c ih => rw [List.cons_append, ProperConjuncts, ih, ProperConjuncts, and_assoc]

theorem properAlternatives_append {as bs : List (List (Formula α))} :
    ProperAlternatives (as ++ bs) ↔ ProperAlternatives as ∧ ProperAlternatives bs := by
  induction as with
  | nil => exact iff_of_eq (true_and _).symm
  | cons c as ih =>
    rw [List.cons_append, ProperAlternatives, ih, ProperAlternatives]
    exact and_assoc.symm

/-! ## the reader -/

/-- what has been read inside a pair of parentheses: alternatives, and the conditions of the next -/
structure Level (α : Type) where
  alternatives : List (List (Formula α)) := []
  conjuncts : List (Formula α) := []

namespace Level

def push (l : Level α) (f : Formula α) : Level α := { l with conjuncts := l.conjuncts ++ [f] }

def nextAlternative (l : Level α) : Level α := ⟨l.alternatives ++ [l.conjuncts], []⟩

/-- the alternatives, with the one that has been read last -/
def all (l : Level α) : List (List (Formula α)) := l.alternatives ++ [l.conjuncts]

end Level

/-- before or behind a condition; the parentheses around it are open, the innermost first -/
inductive State (α : Type) where
  | before (l : Level α) (outer : List (Level α))
  | behind (l : Level α) (outer : List (Level α))

/-- what an item does, nothing where it may not stand -/
def State.next : State α → Item α → Option (State α)
  | before l outer, .atom a => some (behind (l.push (.atom a)) outer)
  | before l outer, .opening => some (before {} (l :: outer))
  | behind l outer, .and => some (before l outer)
  | behind l outer, .or => some (before l.nextAlternative outer)
  | behind l (m :: outer), .closing => some (behind (m.push (.any l.all)) outer)
  | _, _ => none

def run : State α → List (Item α) → Option (State α)
  | s, [] => some s
  | s, i :: is => (s.next i).bind fun t => run t is

/-- a line as one formula; no parenthesis is left open -/
def readFormula (is : List (Item α)) : Option (Formula α) :=
  match run (.before {} []) is with
  | some (.behind l []) => some (.any l.all)
  | _ => none

theorem run_append (s : State α) (is js : List (Item α)) :
    run s (is ++ js) = (run s is).bind fun t => run t js := by
  induction is generalizing s with
  | nil => rfl
  | cons i is ih =>
    rw [List.cons_append, run, run]
    cases s.next i with
    | none => rfl
    | some t => exact ih t

theorem run_of_run {s t : State α} {is : List (Item α)} (h : run s is = some t)
    (js : List (Item α)) : run s (is ++ js) = run t js := by
  rw [run_append, h]
  rfl

/-! ## a formula is read from its line -/

mutual

theorem run_items (l : Level α) (outer : List (Level α)) : ∀ f : Formula α, f.Proper →
    run (.before l outer) f.items = some (.behind (l.push f) outer)
  | .atom a, _ => rfl
  | .any as, h => by
    obtain ⟨m, hm, hall⟩ := run_alternatives (l :: outer) [] as h.1 h.2
    show run (.before ⟨[], []⟩ (l :: outer)) (_ ++ [Item.closing]) = _
    rw [run_of_run hm, run, State.next, hall]
    rfl

-- `as` and `d` are what the level has before the line, and they stay in front
theorem run_conjuncts (as : List (List (Formula α))) (outer : List (Level α)) :
    ∀ (d c : List (Formula α)), c ≠ [] → ProperConjuncts c →
      run (.before ⟨as, d⟩ outer) ([Item.and].intercalate (conjunctItems c)) =
        some (.behind ⟨as, d ++ c⟩ outer)
  | _, [], hc, _ => absurd rfl hc
  | d, [f], _, h => by
    rw [conjunctItems, conjunctItems, List.intercalate_singleton]
    exact run_items ⟨as, d⟩ outer f h.1
  | d, f :: g :: c, _, h => by
    have hf := run_items ⟨as, d⟩ outer f h.1
    have hc := run_conjuncts as outer (d ++ [f]) (g :: c) (List.cons_ne_nil g c) h.2
    rw [List.append_assoc] at hc
    rw [conjunctItems, conjunctItems, List.intercalate_cons_cons, List.append_assoc,
      run_of_run hf]
    exact hc

theorem run_alternatives (outer : List (Level α)) :
    ∀ bs as : List (List (Formula α)), as ≠ [] → ProperAlternatives as →
      ∃ l : Level α, run (.before ⟨bs, []⟩ outer) ([Item.or].intercalate (alternativeItems as)) =
        some (.behind l outer) ∧ l.all = bs ++ as
  | _, [], ha, _ => absurd rfl ha
  | bs, [c], _, h => by
    have hc := run_conjuncts bs outer [] c h.1.1 h.1.2
    rw [alternativeItems, alternativeItems, List.intercalate_singleton]
    exact ⟨⟨bs, c⟩, hc, rfl⟩
  | bs, c :: d :: as, _, h => by
    have hc := run_conjuncts bs outer [] c h.1.1 h.1.2
    obtain ⟨l, hl, hall⟩ :=
      run_alternatives outer (bs ++ [c]) (d :: as) (List.cons_ne_nil d as) h.2
    refine ⟨l, ?_, by rw [hall, List.append_assoc]; rfl⟩
    rw [alternativeItems, alternativeItems, List.intercalate_cons_cons, List.append_assoc,
      run_of_run hc]
    exact hl

end

theorem readFormula_disjunctionItems {as : List (List (Formula α))} (ha : as ≠ [])
    (h : ProperAlternatives as) : readFormula (disjunctionItems as) = some (.any as) := by
  obtain ⟨l, hl, hall⟩ := run_alternatives [] [] as ha h
  have hrun : run (.before {} []) (disjunctionItems as) = some (.behind l []) := hl
  rw [readFormula, hrun]
  exact congrArg (fun bs => some (Formula.any bs)) hall

/-! ## nothing else is read -/

namespace Level

/-- the finished alternatives, each with its `OR` -/
def opened (l : Level α) : List (Item α) :=
  (alternativeItems l.alternatives).flatMap fun is => is ++ [.or]

/-- what stands before the next condition -/
def lead (l : Level α) : List (Item α) :=
  l.opened ++ (conjunctItems l.conjuncts).flatMap fun is => is ++ [.and]

end Level

/-- what stands before the innermost pair of open parentheses -/
def outerItems : List (Level α) → List (Item α)
  | [] => []
  | l :: outer => outerItems outer ++ l.lead ++ [.opening]

/-- the line that brings the reader to a state -/
def State.items : State α → List (Item α)
  | before l outer => outerItems outer ++ l.lead
  | behind l outer => outerItems outer ++ disjunctionItems l.all

/-- pieces with glue behind each of them -/
theorem flatMap_append_eq {j : List (Item α)} (xs : List (List (Item α))) (is : List (Item α)) :
    (xs.flatMap fun x => x ++ j) ++ is = j.intercalate (xs ++ [is]) := by
  induction xs with
  | nil => exact List.intercalate_singleton.symm
  | cons x xs ih =>
    rw [List.flatMap_cons, List.append_assoc, ih, List.cons_append]
    cases xs with
    | nil =>
      rw [List.nil_append, List.intercalate_cons_cons, List.append_assoc]
    | cons y ys => rw [List.cons_append, List.intercalate_cons_cons, List.append_assoc]

theorem flatMap_concat {j : List (Item α)} (xs : List (List (Item α))) (is : List (Item α)) :
    ((xs ++ [is]).flatMap fun x => x ++ j) = j.intercalate (xs ++ [is]) ++ j := by
  rw [List.flatMap_append, List.flatMap_singleton, ← List.append_assoc, flatMap_append_eq]

namespace Level

variable (l : Level α)

theorem disjunctionItems_all : disjunctionItems l.all =
    l.opened ++ [Item.and].intercalate (conjunctItems l.conjuncts) := by
  rw [disjunctionItems, all, alternativeItems_append, opened, flatMap_append_eq]
  rfl

/-- a condition behind the line -/
theorem lead_append (f : Formula α) : l.lead ++ f.items = disjunctionItems (l.push f).all := by
  have hconj : conjunctItems (l.push f).conjuncts = conjunctItems l.conjuncts ++ [f.items] :=
    conjunctItems_append l.conjuncts [f]
  rw [disjunctionItems_all, hconj, ← flatMap_append_eq, lead, List.append_assoc]
  rfl

/-- `AND` behind the line -/
theorem lead_eq (h : l.conjuncts ≠ []) : l.lead = disjunctionItems l.all ++ [.and] := by
  obtain ⟨c, f, hc⟩ := (List.eq_nil_or_concat l.conjuncts).resolve_left h
  rw [List.concat_eq_append] at hc
  rw [disjunctionItems_all, lead, hc, conjunctItems_append, List.append_assoc]
  exact congrArg (l.opened ++ ·) (flatMap_concat (conjunctItems c) f.items)

/-- `OR` behind the line -/
theorem lead_nextAlternative : l.nextAlternative.lead = disjunctionItems l.all ++ [.or] := by
  have h := flatMap_concat (j := [.or]) (alternativeItems l.alternatives)
    ([Item.and].intercalate (conjunctItems l.conjuncts))
  rw [lead, opened, nextAlternative, alternativeItems_append, disjunctionItems, all,
    alternativeItems_append]
  exact (List.append_nil _).trans h

/-- no alternative that has been read is empty -/
def Sound (l : Level α) : Prop := ProperAlternatives l.alternatives ∧ ProperConjuncts l.conjuncts

variable {l}

theorem Sound.push (h : l.Sound) {f : Formula α} (hf : f.Proper) : (l.push f).Sound :=
  ⟨h.1, properConjuncts_append.mpr ⟨h.2, hf, trivial⟩⟩

theorem Sound.proper_all (h : l.Sound) (hc : l.conjuncts ≠ []) : ProperAlternatives l.all :=
  properAlternatives_append.mpr ⟨h.1, ⟨hc, h.2⟩, trivial⟩

theorem push_ne_nil (f : Formula α) : (l.push f).conjuncts ≠ [] := by
  intro h
  exact List.cons_ne_nil f [] (List.append_eq_nil_iff.mp h).2

theorem all_ne_nil : l.all ≠ [] := by
  intro h
  exact List.cons_ne_nil l.conjuncts [] (List.append_eq_nil_iff.mp h).2

end Level

/-- each level is sound, and behind a condition there is one -/
def State.Sound : State α → Prop
  | before l outer => ∀ m ∈ l :: outer, m.Sound
  | behind l outer => (∀ m ∈ l :: outer, m.Sound) ∧ l.conjuncts ≠ []

/-- what an item does to the line of a state -/
theorem State.Sound.next {s t : State α} {i : Item α} (hs : s.Sound) (h : s.next i = some t) :
    t.Sound ∧ t.items = s.items ++ [i] := by
  unfold State.next at h
  split at h
  · next l outer a =>
    cases h
    obtain ⟨hl, houter⟩ := List.forall_mem_cons.mp hs
    refine ⟨⟨List.forall_mem_cons.mpr ⟨hl.push trivial, houter⟩, Level.push_ne_nil _⟩, ?_⟩
    show outerItems outer ++ disjunctionItems (l.push (.atom a)).all = _
    rw [← Level.lead_append, State.items, List.append_assoc]
    rfl
  · next l outer =>
    cases h
    exact ⟨List.forall_mem_cons.mpr ⟨⟨trivial, trivial⟩, hs⟩, List.append_nil _⟩
  · next l outer =>
    cases h
    refine ⟨hs.1, ?_⟩
    rw [State.items, Level.lead_eq l hs.2, State.items, List.append_assoc]
  · next l outer =>
    cases h
    obtain ⟨hl, houter⟩ := List.forall_mem_cons.mp hs.1
    refine ⟨List.forall_mem_cons.mpr ⟨⟨hl.proper_all hs.2, trivial⟩, houter⟩, ?_⟩
    rw [State.items, Level.lead_nextAlternative, State.items, List.append_assoc]
  · next l m outer =>
    cases h
    obtain ⟨hl, hrest⟩ := List.forall_mem_cons.mp hs.1
    obtain ⟨hm, houter⟩ := List.forall_mem_cons.mp hrest
    have hany : (Formula.any l.all).Proper := ⟨Level.all_ne_nil, hl.proper_all hs.2⟩
    refine ⟨⟨List.forall_mem_cons.mpr ⟨hm.push hany, houter⟩, Level.push_ne_nil _⟩, ?_⟩
    rw [State.items, State.items, ← Level.lead_append, outerItems, Formula.items, disjunctionItems]
    simp only [List.append_assoc, List.cons_append, List.nil_append]
  · exact nomatch h

/-- the line of the state at the end is the line that was read -/
theorem State.Sound.run {s t : State α} (hs : s.Sound) {is : List (Item α)}
    (h : run s is = some t) : t.Sound ∧ t.items = s.items ++ is := by
  induction is generalizing s with
  | nil =>
    cases h
    exact ⟨hs, (List.append_nil _).symm⟩
  | cons i is ih =>
    obtain ⟨u, hu, ht⟩ := Option.bind_eq_some_iff.mp h
    obtain ⟨hus, hui⟩ := hs.next hu
    obtain ⟨hts, hti⟩ := ih hus ht
    refine ⟨hts, ?_⟩
    rw [hti, hui, List.append_assoc]
    rfl

/-- **A line is read as a formula if and only if it is the line of the formula.** -/
theorem readFormula_iff {is : List (Item α)} {f : Formula α} : readFormula is = some f ↔
    ∃ as : List (List (Formula α)), as ≠ [] ∧ ProperAlternatives as ∧ f = .any as ∧
      is = disjunctionItems as := by
  constructor
  · intro h
    unfold readFormula at h
    split at h
    · next l hrun =>
      cases h
      have hs : State.Sound (.before ({} : Level α) []) :=
        List.forall_mem_singleton.mpr ⟨trivial, trivial⟩
      obtain ⟨⟨hl, hc⟩, hi⟩ := hs.run hrun
      exact ⟨l.all, Level.all_ne_nil, (hl l List.mem_cons_self).proper_all hc, rfl, hi.symm⟩
    · exact nomatch h
  · rintro ⟨as, ha, h, rfl, rfl⟩
    exact readFormula_disjunctionItems ha h

end WhereClause.Filter
