import WhereClause.Proofs.Filter.Fragments
import WhereClause.Proofs.Filter.Grammar
import WhereClause.Proofs.Filter.Reading
import WhereClause.Proofs.Sql.Members

/-!
# Predicates

What one comparison of a field with an operand is rendered as, read as tokens. That an operand has a
value, or a text for a pattern, is checked, and its shape is not: a list may stand in the place of a
single value, and an empty list among members.

* `IsPredicate`        the tokens of one predicate, as a grammar;
* `Comparison.suits`   the shape of operand that a comparison expects;
* `isPredicate_atom`   what is rendered is a predicate exactly if the operand has this shape;
* `predicate_isPredicate`  the same of a comparison and its operand, with the operands that it takes.
-/

set_option autoImplicit false

namespace WhereClause.Filter

open WhereClause.Sql

/-! ## the operands of comparisons -/

/-- the operands that a comparison takes -/
def Comparison.Takes (x : Operand) : Comparison → Prop
  | .like | .notLike => x.IsPattern
  | _ => x.IsValue

theorem Comparison.faults_cases (key : String) (x : Operand) (k : Comparison) :
    k.Takes x ∧ k.faults key x = [] ∨
      ¬ k.Takes x ∧ ∃ m, k.faults key x = [.invalidOperand key m] := by
  have only {b : Bool} {P : Prop} (h : b = true ↔ P) (m : Mismatch) :
      P ∧ (if b then [] else [Error.invalidOperand key m]) = [] ∨
        ¬ P ∧ ∃ m', (if b then [] else [Error.invalidOperand key m]) = [.invalidOperand key m'] := by
    rw [← h]
    cases b with
    | true => exact .inl ⟨rfl, rfl⟩
    | false => exact .inr ⟨Bool.false_ne_true, m, rfl⟩
  have hpattern := only (isSome_pattern? x) (.noText x.kind)
  have hvalue := only (isSome_value? x) (.noValue x.kind)
  cases k with
  | like => exact hpattern
  | notLike => exact hpattern
  | _ => exact hvalue

/-! ## predicates as tokens -/

/-- the tokens of one predicate on a field: its name, the sign of a comparison and one literal, or
members in parentheses, or else a test that no value passes, or that every value passes -/
inductive IsPredicate (field : String) : Comparison → List Token → Prop where
  | single {k : Comparison} {ts : List Token} (hk : k.isMembership = false) (h : IsLiteral ts) :
      IsPredicate field k (.name (segments field) :: (k.tokens ++ ts))
  | members {k : Comparison} {ts : List Token} (hk : k.isMembership = true) (h : IsMembers ts) :
      IsPredicate field k
        (.name (segments field) :: (k.tokens ++ (.symbol "(" :: ts ++ [.symbol ")"])))
  | never : IsPredicate field .isIn [.number "1", .symbol "=", .number "0"]
  | always : IsPredicate field .notIn [.number "1", .symbol "=", .number "1"]

/-- the sign of a comparison, and what stands behind it -/
def readSign : List Token → Option (Comparison × List Token)
  | .symbol "=" :: ts => some (.equal, ts)
  | .symbol "!=" :: ts => some (.notEqual, ts)
  | .symbol ">" :: ts => some (.greater, ts)
  | .symbol ">=" :: ts => some (.greaterOrEqual, ts)
  | .symbol "<" :: ts => some (.less, ts)
  | .symbol "<=" :: ts => some (.lessOrEqual, ts)
  | .word "LIKE" :: ts => some (.like, ts)
  | .word "IN" :: ts => some (.isIn, ts)
  | .word "NOT" :: .word "LIKE" :: ts => some (.notLike, ts)
  | .word "NOT" :: .word "IN" :: ts => some (.notIn, ts)
  | _ => none

theorem readSign_tokens (k : Comparison) (ts : List Token) :
    readSign (k.tokens ++ ts) = some (k, ts) := by cases k <;> rfl

theorem Comparison.tokens_append_inj {k l : Comparison} {ts us : List Token}
    (h : k.tokens ++ ts = l.tokens ++ us) : k = l ∧ ts = us := by
  have hread : some (k, ts) = some (l, us) := by
    rw [← readSign_tokens, ← readSign_tokens, h]
  exact Prod.mk.inj (Option.some.inj hread)

variable {o : Options}

/-- what stands behind the sign of a predicate -/
theorem IsPredicate.behind {field field' : String} {k k' : Comparison} {v : Value}
    (h : IsPredicate field' k' ((Atom.compare k field v).tokens o)) :
    if k.isMembership = true then IsMembers (v.tokens o) else IsLiteral (v.tokens o) := by
  -- a sign is read back from the tokens, so the comparisons are the same and so is what follows them
  generalize hts : (Atom.compare k field v).tokens o = ts at h
  rw [Atom.tokens] at hts
  cases h with
  | single hk h =>
    obtain ⟨rfl, htail⟩ := Comparison.tokens_append_inj (List.cons.inj hts).2
    rw [if_neg (by rw [hk]; exact Bool.false_ne_true)] at htail ⊢
    rw [htail]
    exact h
  | members hk h =>
    obtain ⟨rfl, htail⟩ := Comparison.tokens_append_inj (List.cons.inj hts).2
    rw [if_pos hk] at htail ⊢
    have hbody : v.tokens o = _ := List.append_cancel_right (List.cons.inj htail).2
    rw [hbody]
    exact h
  | never => cases hts
  | always => cases hts

/-! ## the shapes of operands -/

mutual

/-- neither an operand nor any list inside it is the empty list -/
def Operand.isFilled : Operand → Bool
  | .array xs => !xs.isEmpty && elementsFilled xs
  | _ => true

def elementsFilled : List Operand → Bool
  | [] => true
  | x :: xs => x.isFilled && elementsFilled xs

end

/-- a single value, or a list with one alone -/
def Operand.isSingle : Operand → Bool
  | .array [x] => x.isScalar
  | x => x.isScalar

/-- the shape of operand that a comparison expects. A membership test takes a list that is empty, but
none with an empty list in it -/
def Comparison.suits (x : Operand) : Comparison → Bool
  | .like | .notLike => true
  | .isIn | .notIn =>
    match x with
    | .array xs => elementsFilled xs
    | _ => true
  | _ => x.isSingle

theorem Operand.isList_value {x : Operand} {v : Value} (hx : x.isScalar = false)
    (hv : x.value? = some v) : ∃ vs, v = .list vs := by
  cases x with
  | array xs =>
    obtain ⟨vs, _, rfl⟩ := Option.map_eq_some_iff.mp hv
    exact ⟨vs, rfl⟩
  | object es => exact nomatch hv
  | _ => exact nomatch hx

/-- elements are written as one literal exactly if there is one, and it is a single value -/
theorem isLiteral_elements_iff {xs : List Operand} {vs : List Value}
    (hvs : Operand.values? xs = some vs) :
    IsLiteral ((Value.list vs).tokens o) ↔ (Operand.array xs).isSingle = true := by
  rw [Value.tokens]
  match xs with
  | [] =>
    cases hvs
    exact ⟨fun h => absurd rfl h.no_list.1, fun h => (nomatch h)⟩
  | [x] =>
    obtain ⟨v, ws, hv, hws, rfl⟩ := Operand.values?_cons hvs
    cases hws
    rw [elementTokens_cons, elementTokens, List.intercalate_singleton]
    show _ ↔ x.isScalar = true
    cases hx : x.isScalar with
    | true =>
      have hscalar := Operand.isScalar_value hx hv
      rw [Value.memberTokens_of_isScalar o hscalar]
      exact ⟨fun _ => rfl, fun _ => isLiteral_tokens o hscalar⟩
    | false =>
      obtain ⟨us, rfl⟩ := Operand.isList_value hx hv
      refine ⟨fun h => ?_, fun h => (nomatch h)⟩
      have hopen := h.no_list.2 "(" (by decide)
      exact absurd List.mem_cons_self hopen
  | x :: y :: ys =>
    obtain ⟨v, ws, _, hws, rfl⟩ := Operand.values?_cons hvs
    obtain ⟨w, us, _, _, rfl⟩ := Operand.values?_cons hws
    refine ⟨fun h => ?_, fun h => (nomatch h)⟩
    have hcomma := h.no_list.2 "," (by decide)
    rw [elementTokens_cons, elementTokens_cons, List.intercalate_cons_cons] at hcomma
    exact absurd (by simp) hcomma

theorem isLiteral_iff {x : Operand} {v : Value} (hv : x.value? = some v) :
    IsLiteral (v.tokens o) ↔ x.isSingle = true := by
  have single (hx : x.isScalar = true) (hs : x.isSingle = true) :
      IsLiteral (v.tokens o) ↔ x.isSingle = true :=
    ⟨fun _ => hs, fun _ => isLiteral_tokens o (Operand.isScalar_value hx hv)⟩
  cases x with
  | array xs =>
    obtain ⟨vs, hvs, rfl⟩ := Option.map_eq_some_iff.mp hv
    exact isLiteral_elements_iff hvs
  | object es => exact nomatch hv
  | _ => exact single rfl rfl

mutual

/-- an operand without empty lists is a member -/
theorem isMembers_memberTokens : ∀ (x : Operand) {v : Value}, x.value? = some v →
    x.isFilled = true → IsMembers (v.memberTokens o)
  | .null, _, rfl, _ => .literal (isLiteral_tokens o (v := .null) rfl)
  | .boolean b, _, rfl, _ => .literal (isLiteral_tokens o (v := .boolean b) rfl)
  | .number n, _, rfl, _ => .literal (isLiteral_tokens o (v := .number n) rfl)
  | .string s, _, rfl, _ => .literal (isLiteral_tokens o (v := .string s) rfl)
  | .timestamp t, _, rfl, _ => .literal (isLiteral_tokens o (v := .timestamp t) rfl)
  | .object es, _, h, _ => nomatch h
  | .array xs, v, h, hf => by
    obtain ⟨vs, hvs, rfl⟩ := Option.map_eq_some_iff.mp h
    obtain ⟨hne, hxs⟩ := Bool.and_eq_true_iff.mp hf
    have hmembers := isMembers_elementTokens xs hvs hxs
    have hvs' : vs ≠ [] := by
      rintro rfl
      cases Operand.eq_of_value?_nil h
      exact nomatch hne
    exact .group (.intercalate (elementTokens_ne_nil o hvs') hmembers)

theorem isMembers_elementTokens : ∀ (xs : List Operand) {vs : List Value},
    Operand.values? xs = some vs → elementsFilled xs = true →
      ∀ m ∈ elementTokens o vs, IsMembers m
  | [], _, rfl, _ => fun _ h => absurd h List.not_mem_nil
  | x :: xs, us, h, hf => by
    obtain ⟨v, vs, hv, hvs, rfl⟩ := Operand.values?_cons h
    obtain ⟨hx, hxs⟩ := Bool.and_eq_true_iff.mp hf
    rw [elementTokens_cons]
    exact List.forall_mem_cons.mpr
      ⟨isMembers_memberTokens x hv hx, isMembers_elementTokens xs hvs hxs⟩

end

mutual

/-- an empty list would be a parenthesis that is closed right where it is opened -/
theorem isFilled_of_isChain : ∀ (x : Operand) {v : Value}, x.value? = some v →
    (v.memberTokens o).IsChain Apart → x.isFilled = true
  | .null, _, _, _ => rfl
  | .boolean _, _, _, _ => rfl
  | .number _, _, _, _ => rfl
  | .string _, _, _, _ => rfl
  | .timestamp _, _, _, _ => rfl
  | .object _, _, _, _ => rfl
  | .array xs, v, h, hc => by
    obtain ⟨vs, hvs, rfl⟩ := Option.map_eq_some_iff.mp h
    have hinside : ((Value.list vs).tokens o).IsChain Apart := hc.tail.left_of_append
    have helements := elementsFilled_of_isChain xs hvs (isChain_of_mem_intercalate hinside)
    cases xs with
    | nil =>
      -- nothing stands between the parentheses of the empty list
      cases hvs
      have happart : Apart (.symbol "(") (.symbol ")") := List.isChain_pair.mp hc
      exact absurd ⟨rfl, rfl⟩ happart
    | cons x xs => exact helements

theorem elementsFilled_of_isChain : ∀ (xs : List Operand) {vs : List Value},
    Operand.values? xs = some vs → (∀ m ∈ elementTokens o vs, m.IsChain Apart) →
      elementsFilled xs = true
  | [], _, _, _ => rfl
  | x :: xs, us, h, hc => by
    obtain ⟨v, vs, hv, hvs, rfl⟩ := Operand.values?_cons h
    rw [elementTokens_cons] at hc
    obtain ⟨hx, hxs⟩ := List.forall_mem_cons.mp hc
    exact Bool.and_eq_true_iff.mpr
      ⟨isFilled_of_isChain x hv hx, elementsFilled_of_isChain xs hvs hxs⟩

end

/-- members of their own, in a list or alone -/
theorem isMembers_iff {x : Operand} {v : Value} (hv : x.value? = some v) (hne : v.members ≠ [])
    {k : Comparison} (hk : k = .isIn ∨ k = .notIn) :
    IsMembers (v.tokens o) ↔ k.suits x = true := by
  have single (hx : x.isScalar = true) (hs : k.suits x = true) :
      IsMembers (v.tokens o) ↔ k.suits x = true :=
    ⟨fun _ => hs, fun _ => .literal (isLiteral_tokens o (Operand.isScalar_value hx hv))⟩
  have hsuits (y : Operand) : k.suits y = Comparison.isIn.suits y := by
    rcases hk with rfl | rfl <;> rfl
  cases x with
  | array xs =>
    obtain ⟨vs, hvs, rfl⟩ := Option.map_eq_some_iff.mp hv
    rw [hsuits]
    show _ ↔ elementsFilled xs = true
    constructor
    · intro h
      exact elementsFilled_of_isChain xs hvs (isChain_of_mem_intercalate h.filled.isChain)
    · intro hxs
      have helements := isMembers_elementTokens (o := o) xs hvs hxs
      exact .intercalate (elementTokens_ne_nil o hne) helements
  | object es => exact nomatch hv
  | _ => exact single rfl (hsuits _)

/-! ## the texts of comparisons -/

theorem IsPredicate.compare {field : String} {k : Comparison} {v : Value}
    (h : if k.isMembership = true then IsMembers (v.tokens o) else IsLiteral (v.tokens o)) :
    IsPredicate field k ((Atom.compare k field v).tokens o) := by
  rw [Atom.tokens]
  cases hk : k.isMembership with
  | true =>
    rw [if_pos hk] at h
    exact .members hk h
  | false =>
    rw [if_neg (by rw [hk]; exact Bool.false_ne_true)] at h
    exact .single hk h

/-- an atom is a predicate exactly if the operand suits its comparison -/
theorem isPredicate_atom {k : Comparison} {field : String} {x : Operand} {a : Atom}
    (h : k.atom? field x = some a) : (k.suits x = true → IsPredicate field k (a.tokens o)) ∧
      ∀ field' k', IsPredicate field' k' (a.tokens o) → k.suits x = true := by
  have compare {v : Value}
      (hv : (if k.isMembership = true then IsMembers (v.tokens o) else IsLiteral (v.tokens o)) ↔
        k.suits x = true) :
      (k.suits x = true → IsPredicate field k ((Atom.compare k field v).tokens o)) ∧
        ∀ field' k', IsPredicate field' k' ((Atom.compare k field v).tokens o) →
          k.suits x = true :=
    ⟨fun hs => .compare (hv.mpr hs), fun _ _ hp => hv.mp hp.behind⟩
  rcases Comparison.atom?_cases h with ⟨hl, s, _, rfl⟩ | ⟨hm, hv⟩ | ⟨hp, v, hv, rfl⟩
  · have hliteral : IsLiteral ((Value.string ("%" ++ s ++ "%")).tokens o) := .string _
    refine compare ?_
    rcases hl with rfl | rfl <;> exact ⟨fun _ => rfl, fun _ => hliteral⟩
  · rcases hv with ⟨hv, rfl⟩ | ⟨v, hv, hne, rfl⟩
    · have hx : x = .array [] := Operand.eq_of_value?_nil hv
      subst hx
      rcases hm with rfl | rfl
      · exact ⟨fun _ => .never, fun _ _ _ => rfl⟩
      · exact ⟨fun _ => .always, fun _ _ _ => rfl⟩
    · have hk : k.isMembership = true := by rcases hm with rfl | rfl <;> rfl
      refine compare ?_
      rw [if_pos hk, tokens_members]
      exact isMembers_iff hv hne hm
  · have hk : ¬ k.isMembership = true := by
      rw [hp.1]
      exact Bool.false_ne_true
    have hsuits : k.suits x = x.isSingle := by
      cases k with
      | like => exact absurd rfl hp.2.1
      | notLike => exact absurd rfl hp.2.2
      | isIn => exact nomatch hp.1
      | notIn => exact nomatch hp.1
      | _ => rfl
    refine compare ?_
    rw [if_neg hk, hsuits]
    exact isLiteral_iff hv

/-- **A comparison is rendered as one predicate on its field exactly if its operand has the shape that
it expects.** What is checked is only that the operand has a value, or a text for a pattern. The zone
is any whose clocks show the timestamps of the operand, where the host is taken to keep UTC. -/
theorem predicate_isPredicate (k : Comparison) (operator field : String) (x : Operand) :
    ((∃ f, k.predicate operator field x = .ok f) ↔ k.Takes x) ∧
      (∀ e, k.predicate operator field x = .error e → ∃ m, e = .invalidOperand operator m) ∧
      ∀ f, k.predicate operator field x = .ok f → ∀ o : Options, x.IsShown o.zone →
        ∃ sql ts, Fragment.render o [f] = .ok sql ∧ lex o.dialect sql.toList = some ts ∧
          (k.suits x = true → IsPredicate field k ts) ∧
          ∀ field' k', IsPredicate field' k' ts → k.suits x = true := by
  have hy (o : Options) := predicate_yields o operator field x k
  have hfaults := k.faults_cases operator x
  refine ⟨?_, ?_, ?_⟩
  · rw [(hy {}).ok_iff]
    rcases hfaults with ⟨htakes, hnil⟩ | ⟨htakes, m, hm⟩
    · exact ⟨fun _ => htakes, fun _ => hnil⟩
    · rw [hm]
      exact ⟨fun h => (nomatch h), fun h => absurd h htakes⟩
  · intro e he
    have hfirst := (hy {}).of_error he
    rcases hfaults with ⟨_, hnil⟩ | ⟨_, m, hm⟩
    · rw [hnil] at hfirst
      exact nomatch hfirst
    · rw [hm] at hfirst
      exact ⟨m, (Option.some.inj hfirst).symm⟩
  · intro f hf o hshown
    obtain ⟨_, _, a, ha, hrender⟩ := (hy o).of_ok hf
    rw [Atom.piece, if_pos ((Comparison.isShown_of_atom? ha).mpr hshown)] at hrender
    exact ⟨a.text o, a.tokens o, hrender, (a.lexes o).lex_eq, isPredicate_atom ha⟩

/-- lists in lists, none of them empty, among members -/
theorem predicate_isPredicate_nested_lists :
    let x : Operand := .array [.array [.boolean true, .array [.string "x"]], .null]
    ∃ f ts, Comparison.notIn.predicate "$nin" "a.b" x = .ok f ∧ x.IsShown .host ∧
      Fragment.render {} [f] = .ok "`a`.`b` NOT IN ((true, ('x')), NULL)" ∧
      lex .mysql "`a`.`b` NOT IN ((true, ('x')), NULL)".toList = some ts ∧
      IsPredicate "a.b" .notIn ts := by
  intro x
  have hsql : Fragment.render {} [Comparison.notIn.leaf "a.b" (.list [.list [.boolean true,
      .list [.string "x"]], .null])] = .ok "`a`.`b` NOT IN ((true, ('x')), NULL)" := by rfl
  have hshown : x.IsShown .host := by decide
  obtain ⟨sql, ts, hrender, hlex, hpred, _⟩ :=
    (predicate_isPredicate .notIn "$nin" "a.b" x).2.2 _ rfl {} hshown
  cases Except.ok.inj (hsql.symm.trans hrender)
  exact ⟨_, ts, rfl, hshown, hsql, hlex, hpred rfl⟩

/-- a list in the place of a single value, and an empty list among members: the comparison does not
fail, and what it is rendered as is no predicate -/
theorem exists_rendered_no_predicate :
    (∃ f ts, Comparison.equal.predicate "$eq" "a" (.array []) = .ok f ∧
      Fragment.render {} [f] = .ok "`a` = " ∧ lex .mysql "`a` = ".toList = some ts ∧
        ∀ field k, ¬ IsPredicate field k ts) ∧
    (∃ f ts, Comparison.equal.predicate "$eq" "a" (.array [.boolean true, .null]) = .ok f ∧
      Fragment.render {} [f] = .ok "`a` = true, NULL" ∧
        lex .mysql "`a` = true, NULL".toList = some ts ∧ ∀ field k, ¬ IsPredicate field k ts) ∧
    ∃ f ts, Comparison.isIn.predicate "$in" "a" (.array [.array []]) = .ok f ∧
      Fragment.render {} [f] = .ok "`a` IN (())" ∧ lex .mysql "`a` IN (())".toList = some ts ∧
        ∀ field k, ¬ IsPredicate field k ts := by
  have unsuited {k : Comparison} {x : Operand} {a : Atom} {sql : String}
      (ha : k.atom? "a" x = some a) (hsql : a.text {} = sql) (hs : k.suits x = false) :
      ∃ ts, lex .mysql sql.toList = some ts ∧ ∀ field' k', ¬ IsPredicate field' k' ts := by
    subst hsql
    refine ⟨a.tokens {}, (a.lexes {}).lex_eq, fun field' k' h => ?_⟩
    have hsuits := (isPredicate_atom ha).2 field' k' h
    rw [hs] at hsuits
    exact nomatch hsuits
  refine ⟨?_, ?_, ?_⟩
  · obtain ⟨ts, hts⟩ := unsuited (k := .equal) (x := .array []) rfl rfl rfl
    exact ⟨_, ts, rfl, by rfl, hts⟩
  · obtain ⟨ts, hts⟩ := unsuited (k := .equal) (x := .array [.boolean true, .null]) rfl rfl rfl
    exact ⟨_, ts, rfl, by rfl, hts⟩
  · obtain ⟨ts, hts⟩ := unsuited (k := .isIn) (x := .array [.array []]) rfl rfl rfl
    exact ⟨_, ts, rfl, by rfl, hts⟩

end WhereClause.Filter
