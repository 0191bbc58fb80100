import WhereClause.Proofs.Filter.Precedence

/-!
# Texts with any comparisons

A comparison is what stands between `AND`, `OR` and the parentheses around conditions, whatever it
has inside: the lists of a membership test may have lists in them. With a truth value for each
comparison, given by its tokens alone, a text is true or false or no condition.

* `itemsFrom`        tokens cut into comparisons and what stands between them;
* `Enclosed`         tokens inside which no comparison ends;
* `lineOf_build`     the text of a condition is cut into the comparisons of its tree;
* `truthOf_build`    and its truth value is the one that is read from the line of the tree.
-/

set_option autoImplicit false
set_option linter.unusedVariables false

namespace WhereClause.Filter

open WhereClause.Sql

/-! ## cutting tokens -/

/-- between comparisons, or inside one of which some tokens have been read; the parentheses that are
open in it are counted -/
inductive Place where
  | between
  | inside (depth : Nat) (read : List Token)

/-- how many parentheses are open behind a token -/
def depthBehind (depth : Nat) : Token → Nat
  | .symbol "(" => depth + 1
  | .symbol ")" => depth - 1
  | _ => depth

/-- what ends a comparison: glue outside of its parentheses, but none that opens others -/
def ending? (depth : Nat) (t : Token) : Option (Item (List Token)) :=
  if depth = 0 ∧ t ≠ .symbol "(" then glue? t else none

/-- the comparisons from a place on, and what stands between them -/
def itemsFrom : Place → List Token → List (Item (List Token))
  | .between, [] => []
  | .inside _ c, [] => [.atom c]
  | .between, t :: ts =>
    match glue? t with
    | some i => i :: itemsFrom .between ts
    | none => itemsFrom (.inside 0 [t]) ts
  | .inside depth c, t :: ts =>
    match ending? depth t with
    | some i => .atom c :: i :: itemsFrom .between ts
    | none => itemsFrom (.inside (depthBehind depth t) (c ++ [t])) ts

/-- the comparisons of a text, and what stands between them -/
def lineOf (d : Dialect) (sql : String) : Option (List (Item (List Token))) :=
  (lex d sql.toList).map (itemsFrom .between)

/-- the comparisons of a text -/
def comparisonsOf (d : Dialect) (sql : String) : Option (List (List Token)) :=
  (lineOf d sql).map itemAtoms

/-- the truth value of a text whose comparisons have truth values; a text that is no condition has
none -/
def truthOf (d : Dialect) (holds : List Token → Bool) (sql : String) : Option Bool :=
  (lineOf d sql).bind fun is => (readFormula (is.map (Item.map holds))).map Formula.holds

theorem itemsFrom_glue {t : Token} {i : Item (List Token)} (h : glue? t = some i)
    (ts : List Token) : itemsFrom .between (t :: ts) = i :: itemsFrom .between ts := by
  rw [itemsFrom, h]

theorem itemsFrom_ending {depth : Nat} {t : Token} {i : Item (List Token)}
    (h : ending? depth t = some i) (c ts : List Token) :
    itemsFrom (.inside depth c) (t :: ts) = .atom c :: i :: itemsFrom .between ts := by
  rw [itemsFrom, h]

/-! ## tokens inside a comparison -/

/-- tokens inside which no comparison ends -/
def Enclosed (ts : List Token) : Prop := ∀ depth c rest,
  itemsFrom (.inside depth c) (ts ++ rest) = itemsFrom (.inside depth (c ++ ts)) rest

namespace Enclosed

theorem nil : Enclosed [] := fun depth c rest => by rw [List.append_nil, List.nil_append]

theorem append {ts us : List Token} (h : Enclosed ts) (h' : Enclosed us) : Enclosed (ts ++ us) := by
  intro depth c rest
  rw [List.append_assoc, h, h', List.append_assoc]

theorem single {t : Token} (h : glue? t = none) : Enclosed [t] := by
  intro depth c rest
  have hending : ending? depth t = none := by
    unfold ending?
    rw [h, ite_self]
  have hdepth : depthBehind depth t = depth := by
    unfold depthBehind
    split
    · exact nomatch h
    · exact nomatch h
    · rfl
  rw [List.singleton_append, itemsFrom, hending]
  show itemsFrom (.inside (depthBehind depth t) (c ++ [t])) rest = _
  rw [hdepth]

theorem cons {t : Token} {ts : List Token} (ht : glue? t = none) (h : Enclosed ts) :
    Enclosed (t :: ts) := (single ht).append h

/-- a parenthesis that is opened among them is closed among them -/
theorem parenthesised {ts : List Token} (h : Enclosed ts) :
    Enclosed (.symbol "(" :: ts ++ [.symbol ")"]) := by
  intro depth c rest
  have hopen : ending? depth (.symbol "(") = none := if_neg fun h => h.2 rfl
  have hclose : ending? (depth + 1) (.symbol ")") = none := if_neg fun h => nomatch h.1
  rw [List.append_assoc, List.cons_append, itemsFrom, hopen]
  show itemsFrom (.inside (depth + 1) (c ++ [.symbol "("])) (ts ++ ([.symbol ")"] ++ rest)) = _
  rw [h, List.singleton_append, itemsFrom, hclose]
  show itemsFrom (.inside depth (c ++ [.symbol "("] ++ ts ++ [.symbol ")"])) rest = _
  simp only [List.append_assoc, List.cons_append, List.nil_append]

theorem commas {xs : List (List Token)} (h : ∀ x ∈ xs, Enclosed x) :
    Enclosed ([Token.symbol ","].intercalate xs) := by
  induction xs with
  | nil => exact nil
  | cons x xs ih =>
    obtain ⟨hx, hxs⟩ := List.forall_mem_cons.mp h
    cases xs with
    | nil => rwa [List.intercalate_singleton]
    | cons y ys =>
      rw [List.intercalate_cons_cons]
      exact (hx.append (single (by rfl))).append (ih hxs)

end Enclosed

variable (o : Options)

theorem enclosed_numberTokens (n : Number) : Enclosed (numberTokens n) := by
  unfold numberTokens
  split
  · exact .cons (by rfl) (.single (by rfl))
  · exact .single (by rfl)

mutual

/-- no comparison ends inside a literal -/
theorem enclosed_valueTokens : ∀ v : Value, Enclosed (v.tokens o)
  | .null => .single (by rfl)
  | .boolean true => .single (by rfl)
  | .boolean false => .single (by rfl)
  | .number n => enclosed_numberTokens n
  | .string _ => .single (by rfl)
  | .timestamp _ => .single (by rfl)
  | .list vs => .commas (enclosed_elementTokens vs)

theorem enclosed_elementTokens : ∀ vs : List Value, ∀ ts ∈ elementTokens o vs, Enclosed ts
  | [] => fun _ h => absurd h List.not_mem_nil
  | .list ws :: vs => List.forall_mem_cons.mpr
      ⟨.parenthesised (.commas (enclosed_elementTokens ws)), enclosed_elementTokens vs⟩
  | .null :: vs =>
    List.forall_mem_cons.mpr ⟨enclosed_valueTokens .null, enclosed_elementTokens vs⟩
  | .boolean b :: vs =>
    List.forall_mem_cons.mpr ⟨enclosed_valueTokens (.boolean b), enclosed_elementTokens vs⟩
  | .number n :: vs =>
    List.forall_mem_cons.mpr ⟨enclosed_valueTokens (.number n), enclosed_elementTokens vs⟩
  | .string s :: vs =>
    List.forall_mem_cons.mpr ⟨enclosed_valueTokens (.string s), enclosed_elementTokens vs⟩
  | .timestamp t :: vs =>
    List.forall_mem_cons.mpr ⟨enclosed_valueTokens (.timestamp t), enclosed_elementTokens vs⟩

end

theorem enclosed_comparisonTokens (k : Comparison) : Enclosed k.tokens := by
  cases k with
  | notLike => exact .cons (by rfl) (.single (by rfl))
  | notIn => exact .cons (by rfl) (.single (by rfl))
  | _ => exact .single (by rfl)

/-- an atom begins with no glue and does not end before its last token -/
theorem Atom.enclosed (a : Atom) :
    ∃ t ts, a.tokens o = t :: ts ∧ glue? t = none ∧ Enclosed ts := by
  cases a with
  | compare k field v =>
    refine ⟨_, _, rfl, rfl, (enclosed_comparisonTokens k).append ?_⟩
    split
    · exact .parenthesised (enclosed_valueTokens o v)
    · exact enclosed_valueTokens o v
  | constant b => exact ⟨_, _, rfl, rfl, .cons (by rfl) (.single (by rfl))⟩

/-! ## lines -/

variable {α : Type} {f : α → List Token}

/-- between comparisons a line is cut into its items, and behind a comparison as well, if a line can
go on there as it does -/
def State.Cuts (f : α → List Token) (is : List (Item α)) : State α → Prop
  | before _ _ => itemsFrom .between (itemTokens f is) = is.map (Item.map f)
  | behind _ _ => itemsFrom .between (itemTokens f is) = is.map (Item.map f) ∧
      ∀ c, itemsFrom (.inside 0 c) (itemTokens f is) = .atom c :: is.map (Item.map f)

/-- a line that can be read is cut into its items -/
theorem cuts_of_run (hf : ∀ a, ∃ t ts, f a = t :: ts ∧ glue? t = none ∧ Enclosed ts)
    {is : List (Item α)} : ∀ {s t : State α}, run s is = some t → s.Cuts f is := by
  induction is with
  | nil =>
    intro s t _
    cases s with
    | before l outer => rfl
    | behind l outer => exact ⟨rfl, fun _ => rfl⟩
  | cons i is ih =>
    intro s t h
    obtain ⟨u, hu, ht⟩ := Option.bind_eq_some_iff.mp h
    have hrest := ih ht
    have glue {x : Token} {j : Item α} (hx : glue? x = some (j.map f))
        (hr : itemsFrom .between (itemTokens f is) = is.map (Item.map f)) :
        itemsFrom .between (x :: itemTokens f is) = (j :: is).map (Item.map f) := by
      rw [itemsFrom_glue hx, hr]
      rfl
    have ends {x : Token} {j : Item α} (hx : ending? 0 x = some (j.map f))
        (hr : itemsFrom .between (itemTokens f is) = is.map (Item.map f)) (c : List Token) :
        itemsFrom (.inside 0 c) (x :: itemTokens f is) =
          .atom c :: (j :: is).map (Item.map f) := by
      rw [itemsFrom_ending hx, hr]
      rfl
    unfold State.next at hu
    split at hu
    · next l outer a =>
      -- the comparison is scanned to its end, where the state is behind it
      cases hu
      obtain ⟨x, xs, ha, hx, hxs⟩ := hf a
      show itemsFrom .between (f a ++ itemTokens f is) = .atom (f a) :: is.map (Item.map f)
      rw [ha, List.cons_append, itemsFrom, hx]
      show itemsFrom (.inside 0 [x]) (xs ++ itemTokens f is) = _
      rw [hxs]
      exact hrest.2 (x :: xs)
    · next l outer =>
      cases hu
      exact glue (x := .symbol "(") (j := .opening) rfl hrest
    · next l outer =>
      cases hu
      exact ⟨glue (x := .word "AND") (j := .and) rfl hrest,
        ends (x := .word "AND") (j := .and) rfl hrest⟩
    · next l outer =>
      cases hu
      exact ⟨glue (x := .word "OR") (j := .or) rfl hrest,
        ends (x := .word "OR") (j := .or) rfl hrest⟩
    · next l m outer =>
      cases hu
      exact ⟨glue (x := .symbol ")") (j := .closing) rfl hrest.1,
        ends (x := .symbol ")") (j := .closing) rfl hrest.1⟩
    · cases hu

/-- **A line that can be read is cut into its items**, whatever its comparisons have inside. -/
theorem itemsFrom_itemTokens
    (hf : ∀ a, ∃ t ts, f a = t :: ts ∧ glue? t = none ∧ Enclosed ts) {is : List (Item α)}
    {g : Formula α} (h : readFormula is = some g) :
    itemsFrom .between (itemTokens f is) = is.map (Item.map f) := by
  unfold readFormula at h
  split at h
  · next l hrun => exact cuts_of_run hf hrun
  · exact nomatch h

/-! ## trees of truth values -/

mutual

theorem Condition.filled_map {β : Type} (g : α → β) : ∀ t : Condition α, t.Filled →
    (t.map g).Filled
  | .atom a, _ => trivial
  | .group k [], h => absurd rfl h.1
  | .group k (p :: ps), h => ⟨List.cons_ne_nil _ _, filledParts_map g (p :: ps) h.2⟩

theorem filledConditions_map {β : Type} (g : α → β) : ∀ ts : List (Condition α),
    FilledConditions ts → FilledConditions (mapConditions g ts)
  | [], _ => trivial
  | t :: ts, h => ⟨t.filled_map g h.1, filledConditions_map g ts h.2⟩

theorem filledParts_map {β : Type} (g : α → β) : ∀ ps : List (List (Condition α)),
    FilledParts ps → FilledParts (mapParts g ps)
  | [], _ => trivial
  | [] :: ps, h => absurd rfl h.1.1
  | (t :: ts) :: ps, h =>
    ⟨⟨List.cons_ne_nil _ _, t.filled_map g h.1.2.1, filledConditions_map g ts h.1.2.2⟩,
      filledParts_map g ps h.2⟩

end

/-! ## the text of a condition -/

variable {c : Configuration} {p : Polarity} {q : Query} {sql : String}

/-- **The text of a condition is cut into the comparisons of its tree.** -/
theorem lineOf_build (h : q.build c p = .ok sql) : lineOf c.options.dialect sql =
    some ((conjunctionItems (q.conditions p)).map (Item.map (Atom.tokens c.options))) := by
  rw [lineOf, lex_of_build h]
  refine congrArg some ?_
  cases hq : q.conditions p with
  | nil => rfl
  | cons t ts =>
    have hfilled := filled_conditions p q
    rw [hq] at hfilled
    exact itemsFrom_itemTokens (Atom.enclosed c.options)
      (readFormula_conjunctionItems (List.cons_ne_nil t ts) hfilled)

theorem comparisonsOf_build (h : q.build c p = .ok sql) : comparisonsOf c.options.dialect sql =
    some ((conditionAtoms (q.conditions p)).map (Atom.tokens c.options)) := by
  rw [comparisonsOf, lineOf_build h, Option.map_some, itemAtoms_map, itemAtoms_conjunctionItems]

/-- what the text of a condition says -/
theorem truthOf_build (h : q.build c p = .ok sql) (hne : q.conditions p ≠ [])
    (holds : List Token → Bool) : truthOf c.options.dialect holds sql =
      some (anyHolds (grouping (mapConditions (fun a => holds (a.tokens c.options))
        (q.conditions p)))) := by
  let truth (a : Atom) : Bool := holds (a.tokens c.options)
  have hitems : ((conjunctionItems (q.conditions p)).map (Item.map (Atom.tokens c.options))).map
      (Item.map holds) = conjunctionItems (mapConditions truth (q.conditions p)) := by
    rw [conjunctionItems_map, List.map_map]
    refine List.map_congr_left fun i _ => ?_
    cases i <;> rfl
  rw [truthOf, lineOf_build h]
  show (readFormula _).map Formula.holds = _
  rw [hitems, readFormula_conjunctionItems (mapConditions_ne_nil truth hne)
    (filledConditions_map truth _ (filled_conditions p q))]
  rfl

end WhereClause.Filter
