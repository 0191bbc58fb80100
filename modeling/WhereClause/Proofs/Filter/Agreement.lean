import WhereClause.Proofs.Filter.Printer
import WhereClause.Proofs.Outcome
import WhereClause.Proofs.Sql.Rendering

/-!
# The compiler and the printer

The compiler prints what the direct printer prints, with the same error where there is one: its tables
name the operators that the printer takes from the keys, and the fragments of its templates are rendered
as the printer's texts.

* `Comparison.complement_eq_opposite`, `patternText_eq`, `membersOf_eq`  the parts of a comparison;
* `KeyKind`            what a table and the printer take a key for;
* `Prints`             fragments that are rendered as given pieces;
* `predicate_agree`    one comparison, compiled and printed;
* `Query.build_below`  the whole query.
-/

set_option autoImplicit false

namespace WhereClause.Filter

open WhereClause.Sql

/-! ## the parts of a comparison -/

theorem Comparison.complement_eq_opposite (c : Comparison) : c.complement = c.opposite := by
  cases c <;> rfl

theorem patternText_eq (key : String) (x : Operand) : patternText key x =
    match x.pattern? with
    | some s => .ok s
    | none => .error (.invalidOperand key (.noText x.kind)) := by
  cases x with
  | boolean b => cases b <;> rfl
  | _ => rfl

theorem membersOf_eq (v : Value) : membersOf v = v.members := by cases v <;> rfl

/-! ## keys -/

namespace Polarity

/-- the table in force below `n` negations -/
def below (n : Nat) : Polarity := if n % 2 = 0 then .direct else .negated

theorem below_succ (n : Nat) : below (n + 1) = (below n).flip := by
  unfold below
  rcases Nat.mod_two_eq_zero_or_one n with h | h
  · have h' : ¬ (n + 1) % 2 = 0 := by omega
    rw [if_pos h, if_neg h']
    rfl
  · have h' : (n + 1) % 2 = 0 := by omega
    have hn : ¬ n % 2 = 0 := by omega
    rw [if_neg hn, if_pos h']
    rfl

/-- how many negations stand around a query that is compiled with a table from the start -/
def negations : Polarity → Nat
  | direct => 0
  | negated => 1

theorem below_negations_self (p : Polarity) : below p.negations = p := by cases p <;> rfl

theorem comparison_below (n : Nat) (c : Comparison) :
    (below n).comparison c = if n % 2 = 0 then c else c.opposite := by
  rw [← c.complement_eq_opposite]
  unfold below
  split <;> rfl

end Polarity

def Connective.form (k : Connective) : Form :=
  ⟨if k.negates then 1 else 0, k.wrapping.1, k.joiner, k.wrapping.2⟩

theorem Polarity.below_negations (n : Nat) (k : Connective) :
    below (n + k.form.negations) = (below n).inside k := by
  cases k with
  | and => rfl
  | or => rfl
  | nor => exact below_succ n
  | nand => exact below_succ n

/-- what a table and the printer take a key for -/
inductive KeyKind (p : Polarity) (key : String) : Prop where
  | comparison (c : Comparison) (lookup : p.lookup key = .ok (.compare (p.comparison c)))
      (ofKey : Comparison.ofKey? key = some c) (form : Form.ofKey? key = none)
      (ne : key ≠ "$not")
  | negation (eq : key = "$not") (lookup : p.lookup key = .ok .negate)
  | connective (k : Connective) (lookup : p.lookup key = .ok (.connect k))
      (ofKey : Comparison.ofKey? key = none) (form : Form.ofKey? key = some k.form)
      (ne : key ≠ "$not")
  | unknown (lookup : p.lookup key = .error (.unknownOperator key))
      (ofKey : Comparison.ofKey? key = none) (form : Form.ofKey? key = none)
      (ne : key ≠ "$not")

theorem keyKind (p : Polarity) (key : String) : KeyKind p key := by
  cases h : Operator.ofName? key with
  | some o =>
    have hk : key = o.name := (Operator.name_of_ofName? h).symm
    have hl : p.lookup key = .ok (p.rule o) := by rw [Polarity.lookup, h]
    subst hk
    cases o with
    | eq => exact .comparison .equal hl rfl rfl (by decide)
    | ne => exact .comparison .notEqual hl rfl rfl (by decide)
    | gt => exact .comparison .greater hl rfl rfl (by decide)
    | gte => exact .comparison .greaterOrEqual hl rfl rfl (by decide)
    | lt => exact .comparison .less hl rfl rfl (by decide)
    | lte => exact .comparison .lessOrEqual hl rfl rfl (by decide)
    | like => exact .comparison .like hl rfl rfl (by decide)
    | isIn => exact .comparison .isIn hl rfl rfl (by decide)
    | nin => exact .comparison .notIn hl rfl rfl (by decide)
    | not => exact .negation rfl hl
    | and => exact .connective .and hl rfl rfl (by decide)
    | or => exact .connective .or hl rfl rfl (by decide)
    | nor => exact .connective .nor hl rfl rfl (by decide)
    | nand => exact .connective .nand hl rfl rfl (by decide)
  | none =>
    have hl : p.lookup key = .error (.unknownOperator key) := by rw [Polarity.lookup, h]
    refine .unknown hl ?_ ?_ ?_
    · unfold Comparison.ofKey?
      split <;> first | rfl | exact absurd h (by decide)
    · unfold Form.ofKey?
      split <;> first | rfl | exact absurd h (by decide)
    · rintro rfl
      exact absurd h (by decide)

theorem connectiveOf_cases (p : Polarity) (key : String) :
    connectiveOf p key = .error (.unknownOperator key) ∧ Form.ofKey? key = none ∨
      ∃ k, connectiveOf p key = .ok k ∧ Form.ofKey? key = some k.form := by
  unfold connectiveOf
  cases keyKind p key with
  | comparison k hl _ hf _ => exact .inl ⟨by rw [hl]; rfl, hf⟩
  | negation hkey hl => exact .inl ⟨by rw [hl]; rfl, by rw [hkey]; rfl⟩
  | connective k hl _ hf _ => exact .inr ⟨k, by rw [hl]; rfl, hf⟩
  | unknown hl _ hf _ => exact .inl ⟨by rw [hl]; rfl, hf⟩

/-! ## fragments and their texts -/

theorem parse_template (c : Comparison) :
    Template.parse c.template =
      ⟨.identifier :: .text (" " ++ c.words ++ (if c.isMembership then " (" else " ")) :: .value ::
        (if c.isMembership then [.text ")"] else [])⟩ := by
  cases c <;> decide

theorem fits_leaf (c : Comparison) (field : String) (v : Value) : (c.leaf field v).Fits := by
  show 2 = (Template.parse c.template).placeholderCount
  cases c <;> decide

theorem alone_leaf (o : Options) (c : Comparison) (field : String) (v : Value) :
    (c.leaf field v).alone o = c.piece o field v := by
  show (Template.parse c.template).render o [.string field, v] = _
  rw [parse_template, Comparison.piece]
  unfold Comparison.around
  cases hv : v.rendered o <;> cases c.isMembership <;>
    simp [Template.render, Template.renderSegments, Value.identifier, Value.segmentName, bind,
      Except.bind, hv, String.append_assoc]

/-- fragments that are rendered as pieces, each on its own -/
structure Prints (o : Options) (fs : List Fragment) (ts : List Piece) : Prop where
  fits : ∀ f ∈ fs, f.Fits
  pieces : fs.map (Fragment.alone o) = ts

namespace Prints

variable {o : Options}

theorem nil : Prints o [] [] := ⟨fun _ h => absurd h List.not_mem_nil, rfl⟩

theorem append {fs gs : List Fragment} {ts us : List Piece} (h : Prints o fs ts)
    (h' : Prints o gs us) : Prints o (fs ++ gs) (ts ++ us) := by
  refine ⟨fun f hf => ?_, ?_⟩
  · rcases List.mem_append.mp hf with hf | hf
    · exact h.fits f hf
    · exact h'.fits f hf
  · rw [List.map_append, h.pieces, h'.pieces]

theorem single {f : Fragment} {t : Piece} (hf : f.Fits) (ht : f.alone o = t) :
    Prints o [f] [t] := by
  refine ⟨fun g hg => ?_, ?_⟩
  · rw [List.mem_singleton.mp hg]
    exact hf
  · rw [List.map_singleton, ht]

theorem leaf (c : Comparison) (field : String) (v : Value) :
    Prints o [c.leaf field v] [c.piece o field v] :=
  single (fits_leaf c field v) (alone_leaf o c field v)

theorem rendered (t : String) : Prints o [.rendered t] [.ok t] := single trivial rfl

/-- a condition that is left out as a fragment is left out as a text -/
theorem fragmentsOf (t : String) : Prints o (Filter.fragmentsOf t) ((partsOf t).map .ok) := by
  unfold Filter.fragmentsOf partsOf
  split
  · exact nil
  · exact rendered t

theorem join {c : Configuration} {fs : List Fragment} {ts : List Piece}
    (h : Prints c.options fs ts) : c.join fs = joinPieces ts := by
  rw [Configuration.join, Fragment.render_eq_mapM c.options fs h.fits, mapError_bind_ok,
    mapError_mapM, ← h.pieces, joinPieces, List.mapM_map]
  rfl

end Prints

/-! ## one step of the compiler -/

variable (c : Configuration)

/-- the fragments of one entry -/
def entryFragments (c : Configuration) (p : Polarity) (depth : Nat) (key : String) (x : Operand) :
    Except Error (List Fragment) :=
  if isOperatorKey key then do
    let k ← connectiveOf p key
    connectiveFragments c p depth k key x
  else fieldFragments c p depth key x

/-- the fragments of one operator of a field -/
def ruleFragments (c : Configuration) (p : Polarity) (depth : Nat) (field key : String)
    (x : Operand) : Rule → Except Error (List Fragment)
  | .compare k => do .ok [← k.predicate key field x]
  | .negate => do
    c.checkDepth (depth + 1)
    let fs ← fieldFragments c p.flip (depth + 1) field x
    let sql ← c.join fs
    .ok (fragmentsOf sql)
  | .connect _ => .error (.unknownOperator key)

theorem compileEntries_cons (p : Polarity) (depth : Nat) (key : String) (x : Operand)
    (rest : List (String × Operand)) :
    compileEntries c p depth ((key, x) :: rest) = (do
      let fs ← entryFragments c p depth key x
      let gs ← compileEntries c p depth rest
      .ok (fs ++ gs)) := by
  rw [compileEntries, entryFragments]
  split <;> simp only [bind_assoc]

theorem operatorFragments_cons (p : Polarity) (depth : Nat) (field key : String) (x : Operand)
    (rest : List (String × Operand)) :
    operatorFragments c p depth field ((key, x) :: rest) = (do
      let fs ← p.lookup key >>= ruleFragments c p depth field key x
      let gs ← operatorFragments c p depth field rest
      .ok (fs ++ gs)) := by
  rw [operatorFragments, bind_assoc]
  congr 1
  funext r
  cases r <;> simp only [ruleFragments, bind_assoc]

/-! ## the compiler and the printer -/

/-- one comparison, compiled and printed -/
theorem predicate_agree (o : Options) (key field : String) (x : Operand) (k : Comparison) :
    Agree (fun f t => Prints o [f] [t]) (k.predicate key field x) (k.print o key field x) := by
  have plain (v : Value) : Agree (fun f t => Prints o [f] [t])
      (.ok (k.leaf field v) : Except Error Fragment) (.ok (k.piece o field v)) :=
    .ok (.leaf k field v)
  have pattern : Agree (fun f t => Prints o [f] [t])
      (do
        let s ← patternText key x
        .ok (k.leaf field (.string ("%" ++ s ++ "%"))) : Except Error Fragment)
      (k.printPattern o key field x) := by
    rw [patternText_eq, Comparison.printPattern]
    cases x.pattern? with
    | some s => exact plain _
    | none => exact .error _
  have membership : Agree (fun f t => Prints o [f] [t])
      (do
        let v ← literalOf key x
        .ok (k.membership field (membersOf v)) : Except Error Fragment)
      (k.printMembership o key field x) := by
    rw [literalOf, Comparison.printMembership]
    cases x.value? with
    | none => exact .error _
    | some v =>
      show Agree _ (.ok (k.membership field (membersOf v))) _
      rw [membersOf_eq, Option.map_some]
      cases v.members with
      | nil => exact .ok (.rendered _)
      | cons w ws => exact plain (.list (w :: ws))
  have value : Agree (fun f t => Prints o [f] [t])
      (do
        let v ← literalOf key x
        .ok (k.leaf field v) : Except Error Fragment)
      (k.printValue o key field x) := by
    rw [literalOf, Comparison.printValue]
    cases x.value? with
    | some v => exact plain v
    | none => exact .error _
  cases k with
  | like => exact pattern
  | notLike => exact pattern
  | isIn => exact membership
  | notIn => exact membership
  | _ => exact value

/-- the same with the key looked up -/
theorem leaf_agree (n : Nat) (key field : String) (x : Operand) {k : Comparison}
    (hk : Comparison.ofKey? key = some k) :
    Agree (Prints c.options)
      (do .ok [← ((Polarity.below n).comparison k).predicate key field x])
      (do .ok [← Leaf.print c.options ⟨n, field, key, x⟩]) := by
  have hp : Leaf.print c.options ⟨n, field, key, x⟩ =
      ((Polarity.below n).comparison k).print c.options key field x := by
    rw [Leaf.print, hk, Polarity.comparison_below]
  rw [hp]
  exact (predicate_agree c.options key field x _).bind fun f t h => .ok h

mutual

theorem compileEntries_agree (n depth : Nat) : ∀ es : List (String × Operand),
    Agree (Prints c.options) (compileEntries c (.below n) depth es) (printEntries c n depth es)
  | [] => .ok .nil
  | (key, x) :: rest => by
    rw [compileEntries_cons, printEntries]
    refine .bind ?_ fun fs ts h => (compileEntries_agree n depth rest).bind fun gs us h' =>
      .ok (Prints.append h h')
    unfold entryFragments
    split
    · exact connective_agree n depth key x
    · exact fieldFragments_agree n depth key x

theorem fieldFragments_agree (n depth : Nat) (field : String) : ∀ x : Operand,
    Agree (Prints c.options) (fieldFragments c (.below n) depth field x)
      (printField c n depth field x)
  | .object es => operatorFragments_agree n depth field es
  | .array xs => leaf_agree c n "$in" field (.array xs) rfl
  | .null => leaf_agree c n "$eq" field .null rfl
  | .boolean b => leaf_agree c n "$eq" field (.boolean b) rfl
  | .number m => leaf_agree c n "$eq" field (.number m) rfl
  | .string s => leaf_agree c n "$eq" field (.string s) rfl
  | .timestamp t => leaf_agree c n "$eq" field (.timestamp t) rfl

theorem operatorFragments_agree (n depth : Nat) (field : String) : ∀ es : List (String × Operand),
    Agree (Prints c.options) (operatorFragments c (.below n) depth field es)
      (printOperators c n depth field es)
  | [] => .ok .nil
  | (key, x) :: rest => by
    rw [operatorFragments_cons, printOperators]
    refine .bind ?_ fun fs ts h => (operatorFragments_agree n depth field rest).bind
      fun gs us h' => .ok (Prints.append h h')
    cases keyKind (.below n) key with
    | comparison k hl hk _ hne =>
      rw [hl, if_neg hne]
      exact leaf_agree c n key field x hk
    | negation hkey hl =>
      rw [hl, if_pos hkey]
      refine .bind_same (c.checkDepth (depth + 1)) fun _ => ?_
      rw [← Polarity.below_succ]
      refine (fieldFragments_agree (n + 1) (depth + 1) field x).bind fun fs ts h => ?_
      rw [h.join]
      exact .bind_same (joinPieces ts) fun t => .ok (.fragmentsOf t)
    | connective k hl hk _ hne =>
      rw [hl, if_neg hne, Leaf.print, hk]
      exact .error _
    | unknown hl hk _ hne =>
      rw [hl, if_neg hne, Leaf.print, hk]
      exact .error _

theorem connective_agree (n depth : Nat) (key : String) (x : Operand) :
    Agree (Prints c.options)
      (do
        let k ← connectiveOf (.below n) key
        connectiveFragments c (.below n) depth k key x)
      (printConnective c n depth key x) := by
  rw [printConnective]
  obtain ⟨hk, hf⟩ | ⟨k, hk, hf⟩ := connectiveOf_cases (.below n) key
  · rw [hk, hf]
    exact .error _
  · rw [hk, hf]
    show Agree (Prints c.options) (connectiveFragments c (.below n) depth k key x) _
    match x with
    | .array xs =>
      rw [connectiveFragments, ← Polarity.below_negations]
      refine (connectiveParts_agree (n + k.form.negations) depth key xs).bind fun ps ts h => ?_
      subst h
      unfold Form.print
      split
      · exact .ok .nil
      · exact .ok (.rendered _)
    | .null => exact .error _
    | .boolean b => exact .error _
    | .number m => exact .error _
    | .string s => exact .error _
    | .timestamp t => exact .error _
    | .object es => exact .error _

theorem connectiveParts_agree (n depth : Nat) (key : String) : ∀ xs : List Operand,
    Agree (· = ·) (connectiveParts c (.below n) depth key xs) (printElements c n depth key xs)
  | [] => .ok rfl
  | .null :: rest => connectiveParts_agree n depth key rest
  | .object es :: rest => by
    unfold connectiveParts printElements
    refine .bind_same (c.checkDepth (depth + 1)) fun _ => ?_
    refine (compileEntries_agree n (depth + 1) es).bind fun fs ts h => ?_
    rw [h.join]
    refine .bind_same (joinPieces ts) fun t => ?_
    refine (connectiveParts_agree n depth key rest).bind fun ps us h' => ?_
    rw [h']
    exact .ok rfl
  | .boolean b :: _ => .error _
  | .number m :: _ => .error _
  | .string s :: _ => .error _
  | .timestamp t :: _ => .error _
  | .array xs :: _ => .error _

end

namespace Query

/-- **The compiler prints what the printer prints**, from either table. -/
theorem build_below (n : Nat) (q : Query) : q.build c (.below n) = q.print c n := by
  have h0 : c.checkDepth 0 = .ok () := if_neg (Nat.not_lt_zero _)
  refine Agree.eq ?_
  rw [build, print, h0]
  refine (compileEntries_agree c n 0 q).bind fun fs ts h => ?_
  rw [h.join]
  exact .refl _

end Query

end WhereClause.Filter
