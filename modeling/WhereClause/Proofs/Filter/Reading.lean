import WhereClause.Proofs.Filter.Grouping
import WhereClause.Proofs.Filter.Shape
import WhereClause.Proofs.Sql.Comparison

/-!
# The value of a text

A text is read as a condition in three steps: its tokens, the comparisons among them with `AND`, `OR`
and the parentheses between them, and the formula that these are the line of. With truth values for
the comparisons, in the order in which they stand, the formula has one.

* `readComparisons`, `readValue`  the comparisons of a text, and its value;
* `readItems_itemTokens`  comparisons are found again among the tokens;
* `readLine_of_build` the text of a condition is read as the line of its tree.
-/

set_option autoImplicit false
set_option linter.unusedVariables false

namespace WhereClause.Filter

open WhereClause.Sql

/-! ## comparisons among tokens -/

/-- a token that stands between comparisons -/
def glue? : Token → Option (Item (List Token))
  | .symbol "(" => some .opening
  | .symbol ")" => some .closing
  | .word "AND" => some .and
  | .word "OR" => some .or
  | _ => none

theorem length_of_readComparison {ts c rest : List Token}
    (h : readComparison ts = some (c, rest)) : rest.length < ts.length := by
  obtain ⟨hts, hne⟩ := append_of_readComparison h
  have hc : 0 < c.length := List.length_pos_iff.mpr hne
  have hlength : ts.length = c.length + rest.length := by rw [hts, List.length_append]
  omega

/-- the comparisons among tokens, and what stands between them -/
def readItems : List Token → Option (List (Item (List Token)))
  | [] => some []
  | t :: ts =>
    match glue? t with
    | some i => (readItems ts).map fun is => i :: is
    | none =>
      match h : readComparison (t :: ts) with
      | none => none
      | some (c, rest) => (readItems rest).map fun is => .atom c :: is
termination_by ts => ts.length
decreasing_by
  · exact Nat.lt_succ_self _
  · exact length_of_readComparison h

theorem readItems_nil : readItems [] = some [] := by rw [readItems]

theorem readItems_glue {t : Token} {i : Item (List Token)} (h : glue? t = some i)
    (ts : List Token) : readItems (t :: ts) = (readItems ts).map fun is => i :: is := by
  rw [readItems, h]

theorem readItems_comparison {t : Token} {ts c rest : List Token} (ht : glue? t = none)
    (h : readComparison (t :: ts) = some (c, rest)) :
    readItems (t :: ts) = (readItems rest).map fun is => .atom c :: is := by
  rw [readItems]
  split
  · next hi =>
    rw [ht] at hi
    exact nomatch hi
  · split
    · next hn =>
      rw [h] at hn
      exact nomatch hn
    · next hs =>
      rw [h] at hs
      cases hs
      rfl

/-- tokens that are one comparison, whatever stands behind them -/
def IsComparison (c : List Token) : Prop :=
  (∃ t ts, c = t :: ts ∧ glue? t = none) ∧ ∀ rest, readComparison (c ++ rest) = some (c, rest)

/-- **Comparisons are found again**, with all that stands between them. -/
theorem readItems_itemTokens {α : Type} (f : α → List Token) {is : List (Item α)}
    (h : ∀ a ∈ itemAtoms is, IsComparison (f a)) :
    readItems (itemTokens f is) = some (is.map (Item.map f)) := by
  induction is with
  | nil => exact readItems_nil
  | cons i is ih =>
    have glue {t : Token} {j : Item (List Token)} (ht : glue? t = some j)
        (his : readItems (itemTokens f is) = some (is.map (Item.map f))) :
        readItems (t :: itemTokens f is) = some (j :: is.map (Item.map f)) := by
      rw [readItems_glue ht, his]
      rfl
    cases i with
    | atom a =>
      obtain ⟨ha, has⟩ := List.forall_mem_cons.mp (show ∀ b ∈ a :: itemAtoms is, _ from h)
      obtain ⟨⟨t, ts, hc, ht⟩, hread⟩ := ha
      have hfirst := hread (itemTokens f is)
      show readItems (f a ++ itemTokens f is) = _
      rw [hc] at hfirst ⊢
      rw [List.cons_append] at hfirst ⊢
      rw [readItems_comparison ht hfirst, ih has, ← hc]
      rfl
    | opening => exact glue (by rfl) (ih h)
    | closing => exact glue (by rfl) (ih h)
    | and => exact glue (by rfl) (ih h)
    | or => exact glue (by rfl) (ih h)

/-! ## texts -/

/-- the comparisons of a text, with what stands between them -/
def readLine (d : Dialect) (sql : String) : Option (List (Item (List Token))) :=
  (lex d sql.toList).bind readItems

/-- the comparisons of a text in their order -/
def readComparisons (d : Dialect) (sql : String) : Option (List (List Token)) :=
  (readLine d sql).map itemAtoms

/-- the value of a text whose comparisons have the values `v 0`, `v 1` and so on; a text that is no
condition has none -/
def readValue (d : Dialect) (sql : String) (v : Nat → Bool) : Option Bool :=
  (readLine d sql).bind fun is => (readFormula (assignItems v 0 is)).map Formula.holds

/-! ## atoms as comparisons -/

/-- an atom with nothing but single values -/
def Atom.Flat : Atom → Prop
  | .compare k _ v =>
    if k.isMembership then ∃ vs, v = .list vs ∧ vs ≠ [] ∧ ∀ w ∈ vs, w.isScalar = true
    else v.isScalar = true
  | .constant _ => True

variable (o : Options)

/-- the tokens behind the field -/
def Comparison.testTokens (k : Comparison) (v : Value) : List Token :=
  k.tokens ++ if k.isMembership then .symbol "(" :: v.tokens o ++ [.symbol ")"] else v.tokens o

theorem readTest_testTokens (k : Comparison) {field : String} {v : Value}
    (h : (Atom.compare k field v).Flat) (rest : List Token) :
    readTest (k.testTokens o v ++ rest) = some (k.testTokens o v, rest) := by
  have members (h : ∃ vs, v = .list vs ∧ vs ≠ [] ∧ ∀ w ∈ vs, w.isScalar = true) :
      readWord (.word "IN" :: .symbol "(" :: v.tokens o ++ [.symbol ")"] ++ rest) =
        some (.word "IN" :: .symbol "(" :: v.tokens o ++ [.symbol ")"], rest) := by
    obtain ⟨vs, rfl, hne, hvs⟩ := h
    have hread := IsOperand.readMembers rest _ (elementTokens_ne_nil o hne)
      (isOperand_elementTokens o hvs)
    show (readMembers (_ ++ [.symbol ")"] ++ rest)).map _ = _
    rw [List.append_assoc, List.singleton_append]
    show (readMembers ([Token.symbol ","].intercalate (elementTokens o vs) ++ _)).map _ = _
    rw [hread]
    rfl
  have single (h : v.isScalar = true) : readOperand (v.tokens o ++ rest) = some (v.tokens o, rest) :=
    (isLiteral_tokens o h).isOperand.readOperand rest
  have sign (s : String) (hs : s ∈ ["=", "!=", "<>", "<", "<=", ">", ">="])
      (h : v.isScalar = true) : readTest (.symbol s :: v.tokens o ++ rest) =
        some (.symbol s :: v.tokens o, rest) := by
    rw [List.cons_append, readTest, if_pos hs, single h]
    rfl
  cases k with
  | isIn => exact members h
  | notIn =>
    show (readWord (.word "IN" :: .symbol "(" :: v.tokens o ++ [.symbol ")"] ++ rest)).map _ = _
    rw [members h]
    rfl
  | like =>
    show (readOperand (v.tokens o ++ rest)).map _ = _
    rw [single h]
    rfl
  | notLike =>
    show ((readOperand (v.tokens o ++ rest)).map _).map _ = _
    rw [single h]
    rfl
  | equal => exact sign "=" (by decide) h
  | notEqual => exact sign "!=" (by decide) h
  | greater => exact sign ">" (by decide) h
  | greaterOrEqual => exact sign ">=" (by decide) h
  | less => exact sign "<" (by decide) h
  | lessOrEqual => exact sign "<=" (by decide) h

/-- **An atom with nothing but single values is read as one comparison.** -/
theorem isComparison_tokens {a : Atom} (h : a.Flat) : IsComparison (a.tokens o) := by
  cases a with
  | compare k field v =>
    refine ⟨⟨_, _, rfl, rfl⟩, fun rest => ?_⟩
    show (readTest (k.testTokens o v ++ rest)).map _ = _
    rw [readTest_testTokens o k h rest]
    rfl
  | constant b => exact ⟨⟨_, _, rfl, rfl⟩, fun rest => by cases b <;> rfl⟩

/-! ## leaves with single values -/

def Operand.isScalar : Operand → Bool
  | .array _ | .object _ => false
  | _ => true

/-- a single value, or single values -/
def Operand.hasScalars : Operand → Bool
  | .array xs => xs.all Operand.isScalar
  | x => x.isScalar

/-- a leaf that compares with a single value, or tests against single values; any pattern is one -/
def Leaf.isScalar (l : Leaf) : Bool :=
  if l.key = "$like" then true
  else if l.key = "$in" ∨ l.key = "$nin" then l.operand.hasScalars
  else l.operand.isScalar

theorem Operand.isScalar_value {x : Operand} {v : Value} (hx : x.isScalar = true)
    (hv : x.value? = some v) : v.isScalar = true := by
  cases x with
  | array xs => exact nomatch hx
  | object es => exact nomatch hx
  | _ =>
    cases hv
    rfl

theorem Operand.isScalar_values {xs : List Operand} {vs : List Value}
    (hx : ∀ x ∈ xs, x.isScalar = true) (hv : Operand.values? xs = some vs) :
    ∀ v ∈ vs, v.isScalar = true := by
  induction xs generalizing vs with
  | nil =>
    cases hv
    intro v h
    exact absurd h List.not_mem_nil
  | cons x xs ih =>
    obtain ⟨hhead, htail⟩ := List.forall_mem_cons.mp hx
    obtain ⟨w, ws, hw, hws, rfl⟩ := Operand.values?_cons hv
    exact List.forall_mem_cons.mpr ⟨Operand.isScalar_value hhead hw, ih htail hws⟩

theorem Operand.isScalar_members {x : Operand} {v : Value} (hx : x.hasScalars = true)
    (hv : x.value? = some v) : ∀ w ∈ v.members, w.isScalar = true := by
  have single (hx : x.isScalar = true) : ∀ w ∈ v.members, w.isScalar = true := by
    have h := Operand.isScalar_value hx hv
    cases v with
    | list vs => exact nomatch h
    | _ => exact List.forall_mem_singleton.mpr h
  cases x with
  | array xs =>
    obtain ⟨vs, hvs, rfl⟩ := Option.map_eq_some_iff.mp hv
    exact Operand.isScalar_values (List.all_eq_true.mp hx) hvs
  | object es => exact nomatch hv
  | _ => exact single rfl

theorem Leaf.flat_atom {l : Leaf} {a : Atom} (h : l.atom? = some a) (hs : l.isScalar = true) :
    a.Flat := by
  obtain ⟨k, hk, hlike, hin⟩ := Leaf.atom?_cases h
  unfold Leaf.isScalar at hs
  rcases Comparison.atom?_cases hk with ⟨hl, s, _, rfl⟩ | ⟨hm, hv⟩ | ⟨hp, v, hv, rfl⟩
  · rcases hl with rfl | rfl <;> rfl
  · have hmember : k.isMembership = true := by rcases hm with rfl | rfl <;> rfl
    have hne : ¬ l.key = "$like" := by
      rw [← hlike]
      rcases hm with rfl | rfl <;> exact fun h => h.elim (fun h => nomatch h) fun h => nomatch h
    rw [if_neg hne, if_pos (hin.mp hmember)] at hs
    rcases hv with ⟨_, rfl⟩ | ⟨v, hv, hne, rfl⟩
    · trivial
    · show if k.isMembership then _ else _
      rw [if_pos hmember]
      exact ⟨v.members, rfl, hne, Operand.isScalar_members hs hv⟩
  · have hmember : ¬ k.isMembership = true := by
      rw [hp.1]
      exact Bool.false_ne_true
    have hne : ¬ l.key = "$like" := fun he => (hlike.mpr he).elim hp.2.1 hp.2.2
    rw [if_neg hne, if_neg (mt hin.mpr hmember)] at hs
    show if k.isMembership then _ else _
    rw [if_neg hmember]
    exact Operand.isScalar_value hs hv

/-! ## the text of a condition -/

variable {c : Configuration} {p : Polarity} {q : Query} {sql : String}

/-- **The text of a condition is read as the line of the tree.** -/
theorem readLine_of_build (hs : ∀ l ∈ q.leaves p.negations, l.isScalar = true)
    (h : q.build c p = .ok sql) : readLine c.options.dialect sql =
      some ((conjunctionItems (q.conditions p)).map (Item.map (Atom.tokens c.options))) := by
  have hflat : ∀ a ∈ itemAtoms (conjunctionItems (q.conditions p)),
      IsComparison (a.tokens c.options) := by
    intro a ha
    rw [itemAtoms_conjunctionItems, q.conditionAtoms_conditions p] at ha
    obtain ⟨l, hl, hla⟩ := List.mem_filterMap.mp ha
    exact isComparison_tokens c.options (Leaf.flat_atom hla (hs l hl))
  rw [readLine, lex_of_build h]
  exact readItems_itemTokens _ hflat

end WhereClause.Filter
