import WhereClause.Proofs.Filter.Agreement

/-!
# The leaves of a query in its condition

Each comparison of a query stands in the condition exactly once, in the order of the entries, with
its own field and its own operand. Between the comparisons there is nothing but parentheses, `AND`
and `OR`.

* `Woven ts s`     the text `s` is put together from the texts `ts` in their order and such glue;
* `Weaves o ls ts`  the texts `ts` are woven, one behind the other, from the leaves `ls`;
* `WeavesPieces`    the same of pieces, if all of them are texts;
* `printEntries_weaves`  the printer weaves its pieces from the leaves of the entries.

The compiler is the printer, so its text is woven from the leaves of the query.
-/

set_option autoImplicit false

namespace WhereClause.Filter

open WhereClause.Sql

/-! ## woven texts -/

/-- what may stand between leaves -/
def glue : List String := ["", "(", ")", " AND ", " OR "]

inductive Woven : List String → String → Prop where
  | leaf {t : String} (h : t ≠ "") : Woven [t] t
  | glue {g : String} (h : g ∈ glue) : Woven [] g
  | append {ts us : List String} {s t : String} (h : Woven ts s) (h' : Woven us t) :
      Woven (ts ++ us) (s ++ t)

theorem Woven.and : Woven [] " AND " := .glue (by decide)

/-- an empty text has no leaf in it -/
theorem Woven.eq_nil {ts : List String} {s : String} (h : Woven ts s) (hs : s = "") : ts = [] := by
  induction h with
  | leaf h => exact absurd hs h
  | glue _ => rfl
  | append _ _ ih ih' =>
    obtain ⟨h1, h2⟩ := String.append_eq_empty_iff.mp hs
    rw [ih h1, ih' h2]
    rfl

inductive WovenAll : List String → List String → Prop where
  | nil : WovenAll [] []
  | cons {ts us ss : List String} {s : String} (h : Woven ts s) (h' : WovenAll us ss) :
      WovenAll (ts ++ us) (s :: ss)

namespace WovenAll

theorem append {ts us ss rs : List String} (h : WovenAll ts ss) (h' : WovenAll us rs) :
    WovenAll (ts ++ us) (ss ++ rs) := by
  induction h with
  | nil => exact h'
  | cons h _ ih =>
    rw [List.append_assoc]
    exact .cons h ih

theorem single {ts : List String} {s : String} (h : Woven ts s) : WovenAll ts [s] := by
  have hc := WovenAll.cons h .nil
  rwa [List.append_nil] at hc

theorem intercalate {j : String} (hj : Woven [] j) {ts ss : List String} (h : WovenAll ts ss) :
    Woven ts (j.intercalate ss) := by
  induction h with
  | nil =>
    rw [String.intercalate_nil]
    exact .glue (by decide)
  | @cons ts us ss s h h' ih =>
    cases ss with
    | nil =>
      cases h'
      rw [String.intercalate_singleton, List.append_nil]
      exact h
    | cons r ss =>
      have hjt := (h.append hj).append ih
      rw [List.append_nil] at hjt
      rw [String.intercalate_cons_cons]
      exact hjt

theorem partsOf {ts : List String} {s : String} (h : Woven ts s) :
    WovenAll ts (Filter.partsOf s) := by
  unfold Filter.partsOf
  split
  · next hs =>
    rw [h.eq_nil (String.isEmpty_iff.mp hs)]
    exact .nil
  · exact single h

end WovenAll

/-! ## the leaves in the texts -/

theorem mapM_pieces_ok_iff {ps : List Piece} {ss : List String} :
    ps.mapM (Except.mapError Error.rendering) = .ok ss ↔ ps = ss.map .ok := by
  induction ps generalizing ss with
  | nil => cases ss <;> simp [pure, Except.pure]
  | cons p ps ih =>
    rw [List.mapM_cons, bind_ok_iff]
    constructor
    · rintro ⟨t, ht, h⟩
      obtain ⟨ts, hts, h⟩ := bind_ok_iff.mp h
      cases h
      rw [mapError_ok_iff.mp ht, ih.mp hts]
      rfl
    · intro h
      obtain ⟨t, ts, rfl, ht, hts⟩ := List.map_eq_cons_iff.mp h.symm
      exact ⟨t, mapError_ok_iff.mpr ht.symm, bind_ok_iff.mpr ⟨ts, ih.mpr hts.symm, rfl⟩⟩

/-- pieces that are joined are texts -/
theorem joinPieces_ok_iff {ps : List Piece} {t : String} :
    joinPieces ps = .ok t ↔ ∃ ss : List String, ps = ss.map .ok ∧ t = " AND ".intercalate ss := by
  rw [joinPieces, bind_ok_iff]
  refine exists_congr fun ss => and_congr mapM_pieces_ok_iff ?_
  rw [Except.ok.injEq, eq_comm]

/-- no leaf is printed as the empty text -/
theorem Comparison.returns_print (o : Options) (key field : String) (x : Operand) (k : Comparison) :
    Returns (fun p => ∀ t, p = .ok t → t ≠ "") (k.print o key field x) := by
  have piece (v : Value) : Returns (fun p => ∀ t, p = .ok t → t ≠ "")
      (.ok (k.piece o field v) : Except Error Piece) := by
    refine .ok fun t ht => ?_
    rw [k.piece_eq] at ht
    split at ht
    · cases ht
      exact k.text_ne_empty o field v
    · exact nomatch ht
  have constant (b : Prop) [Decidable b] : Returns (fun p => ∀ t, p = .ok t → t ≠ "")
      (.ok (.ok (if b then "1 = 0" else "1 = 1")) : Except Error Piece) := by
    refine .ok fun t ht => ?_
    cases ht
    split <;> decide
  have pattern : Returns (fun p => ∀ t, p = .ok t → t ≠ "") (k.printPattern o key field x) := by
    unfold printPattern
    split
    · exact piece _
    · exact .error _ _
  have membership : Returns (fun p => ∀ t, p = .ok t → t ≠ "")
      (k.printMembership o key field x) := by
    unfold printMembership
    split
    · exact constant _
    · exact piece _
    · exact .error _ _
  have value : Returns (fun p => ∀ t, p = .ok t → t ≠ "") (k.printValue o key field x) := by
    unfold printValue
    split
    · exact piece _
    · exact .error _ _
  cases k with
  | like => exact pattern
  | notLike => exact pattern
  | isIn => exact membership
  | notIn => exact membership
  | _ => exact value

/-- the leaves can all be printed as texts, and the texts are woven from these -/
def Weaves (o : Options) (ls : List Leaf) (ss : List String) : Prop :=
  ∃ ts : List String, ls.mapM (Leaf.print o) = .ok (ts.map .ok) ∧ WovenAll ts ss

namespace Weaves

variable {o : Options}

theorem nil : Weaves o [] [] := ⟨[], rfl, .nil⟩

theorem append {ls ms : List Leaf} {ss rs : List String} (h : Weaves o ls ss)
    (h' : Weaves o ms rs) : Weaves o (ls ++ ms) (ss ++ rs) := by
  obtain ⟨ts, ht, hw⟩ := h
  obtain ⟨us, hu, hw'⟩ := h'
  refine ⟨ts ++ us, ?_, hw.append hw'⟩
  rw [List.mapM_append, ht, hu, List.map_append]
  rfl

theorem intercalate {j : String} (hj : Woven [] j) {ls : List Leaf} {ss : List String}
    (h : Weaves o ls ss) : ∃ ts : List String,
      ls.mapM (Leaf.print o) = .ok (ts.map .ok) ∧ Woven ts (j.intercalate ss) := by
  obtain ⟨ts, ht, hw⟩ := h
  exact ⟨ts, ht, hw.intercalate hj⟩

/-- texts that become one, and are left out together if they are empty -/
theorem partsOf {ls : List Leaf} {ss : List String} (h : Weaves o ls ss) :
    Weaves o ls (Filter.partsOf (" AND ".intercalate ss)) := by
  obtain ⟨ts, ht, hw⟩ := h.intercalate .and
  exact ⟨ts, ht, .partsOf hw⟩

end Weaves

/-- if all pieces are texts, then they are woven from the leaves -/
def WeavesPieces (o : Options) (ls : List Leaf) (ps : List Piece) : Prop :=
  ∀ ss : List String, ps = ss.map .ok → Weaves o ls ss

namespace WeavesPieces

variable {o : Options}

theorem nil : WeavesPieces o [] [] := by
  intro ss hss
  rw [List.map_eq_nil_iff.mp hss.symm]
  exact .nil

theorem append {ls ms : List Leaf} {ps qs : List Piece} (h : WeavesPieces o ls ps)
    (h' : WeavesPieces o ms qs) : WeavesPieces o (ls ++ ms) (ps ++ qs) := by
  intro ss hss
  obtain ⟨rs, us, rfl, hrs, hus⟩ := List.map_eq_append_iff.mp hss.symm
  exact (h rs hrs.symm).append (h' us hus.symm)

theorem texts {ls : List Leaf} {ss : List String} (h : Weaves o ls ss) :
    WeavesPieces o ls (ss.map .ok) := by
  intro rs hrs
  rwa [← (List.map_inj_right fun _ _ => Except.ok.inj).mp hrs]

/-- pieces that are joined are texts, and become one -/
theorem returns_join {ls : List Leaf} {ps : List Piece} (h : WeavesPieces o ls ps) :
    Returns (fun t => Weaves o ls (Filter.partsOf t) ∧ ∃ ts : List String,
      ls.mapM (Leaf.print o) = .ok (ts.map .ok) ∧ Woven ts t) (joinPieces ps) := by
  intro t ht
  obtain ⟨ss, rfl, rfl⟩ := joinPieces_ok_iff.mp ht
  exact ⟨(h ss rfl).partsOf, (h ss rfl).intercalate .and⟩

end WeavesPieces

theorem returns_leaf (o : Options) (l : Leaf) :
    Returns (WeavesPieces o [l]) (do .ok [← l.print o]) := by
  have hne : Returns (fun p => ∀ t, p = .ok t → t ≠ "") (l.print o) := by
    rw [Leaf.print]
    split
    · exact .error _ _
    · exact Comparison.returns_print o _ _ _ _
  refine (Returns.self _).bind fun p hp => .ok fun ss hss => ?_
  obtain ⟨t, rfl, ht⟩ := List.map_eq_singleton_iff.mp hss.symm
  refine ⟨[t], ?_, .single (.leaf (hne p hp t ht.symm))⟩
  rw [List.mapM_cons, hp, ← ht]
  rfl

/-- a connective adds nothing but glue -/
theorem Form.glue {key : String} {f : Form} (h : Form.ofKey? key = some f) :
    Woven [] f.opening ∧ Woven [] f.joiner ∧ Woven [] f.closing := by
  have one : Woven [] "(" := .glue (by decide)
  have two : Woven [] "((" := one.append one
  have end1 : Woven [] ")" := .glue (by decide)
  have end2 : Woven [] "))" := end1.append end1
  have and : Woven [] ") AND (" := (end1.append .and).append one
  have or : Woven [] ") OR (" := (end1.append (.glue (g := " OR ") (by decide))).append one
  unfold Form.ofKey? at h
  split at h <;> cases h
  · exact ⟨one, and, end1⟩
  · exact ⟨two, or, end2⟩
  · exact ⟨one, or, end1⟩
  · exact ⟨one, and, end1⟩

theorem Weaves.print {o : Options} {key : String} {f : Form} (hf : Form.ofKey? key = some f)
    {ls : List Leaf} {ss : List String} (h : Weaves o ls ss) : Weaves o ls (f.print ss) := by
  obtain ⟨ho, hj, hc⟩ := Form.glue hf
  unfold Form.print
  split
  · next hs =>
    rw [List.isEmpty_iff.mp hs] at h
    exact h
  · obtain ⟨ts, ht, hw⟩ := h.intercalate hj
    have hall := (ho.append hw).append hc
    rw [List.append_nil, List.nil_append] at hall
    exact ⟨ts, ht, .single hall⟩

variable (c : Configuration)

mutual

theorem printEntries_weaves (n depth : Nat) : ∀ es : List (String × Operand),
    Returns (WeavesPieces c.options (entryLeaves n es)) (printEntries c n depth es)
  | [] => .ok .nil
  | (key, x) :: rest => by
    rw [entryLeaves, printEntries]
    refine .bind ?_ fun ts h => (printEntries_weaves n depth rest).bind fun us h' =>
      .ok (WeavesPieces.append h h')
    split
    · exact printConnective_weaves n depth key x
    · exact printField_weaves n depth key x

theorem printField_weaves (n depth : Nat) (field : String) : ∀ x : Operand,
    Returns (WeavesPieces c.options (fieldLeaves n field x)) (printField c n depth field x)
  | .object es => printOperators_weaves n depth field es
  | .array xs => returns_leaf c.options ⟨n, field, "$in", .array xs⟩
  | .null => returns_leaf c.options ⟨n, field, "$eq", .null⟩
  | .boolean b => returns_leaf c.options ⟨n, field, "$eq", .boolean b⟩
  | .number m => returns_leaf c.options ⟨n, field, "$eq", .number m⟩
  | .string s => returns_leaf c.options ⟨n, field, "$eq", .string s⟩
  | .timestamp t => returns_leaf c.options ⟨n, field, "$eq", .timestamp t⟩

theorem printOperators_weaves (n depth : Nat) (field : String) : ∀ es : List (String × Operand),
    Returns (WeavesPieces c.options (operatorLeaves n field es)) (printOperators c n depth field es)
  | [] => .ok .nil
  | (key, x) :: rest => by
    rw [operatorLeaves, printOperators]
    refine .bind ?_ fun ts h => (printOperators_weaves n depth field rest).bind fun us h' =>
      .ok (WeavesPieces.append h h')
    split
    · exact (Returns.self (c.checkDepth (depth + 1))).bind fun _ _ =>
        (printField_weaves (n + 1) (depth + 1) field x).bind fun ts h =>
          h.returns_join.bind fun t ht => .ok (.texts ht.1)
    · exact returns_leaf c.options ⟨n, field, key, x⟩

theorem printConnective_weaves (n depth : Nat) (key : String) (x : Operand) :
    Returns (WeavesPieces c.options (connectiveLeaves n key x)) (printConnective c n depth key x) := by
  rw [printConnective]
  split
  · exact .error _ _
  · next f hf =>
    match x with
    | .array xs =>
      rw [connectiveLeaves, hf]
      exact (printElements_weaves (n + f.negations) depth key xs).bind fun ts h =>
        .ok (.texts (h.print hf))
    | .null => exact .error _ _
    | .boolean b => exact .error _ _
    | .number m => exact .error _ _
    | .string s => exact .error _ _
    | .timestamp t => exact .error _ _
    | .object es => exact .error _ _

theorem printElements_weaves (n depth : Nat) (key : String) : ∀ xs : List Operand,
    Returns (Weaves c.options (elementLeaves n xs)) (printElements c n depth key xs)
  | [] => .ok .nil
  | .null :: rest => printElements_weaves n depth key rest
  | .object es :: rest => by
    rw [elementLeaves, printElements]
    exact (Returns.self (c.checkDepth (depth + 1))).bind fun _ _ =>
      (printEntries_weaves n (depth + 1) es).bind fun ts h =>
        h.returns_join.bind fun t ht =>
          (printElements_weaves n depth key rest).bind fun us h' => .ok (ht.1.append h')
  | .boolean b :: _ => .error _ _
  | .number m :: _ => .error _ _
  | .string s :: _ => .error _ _
  | .timestamp t :: _ => .error _ _
  | .array xs :: _ => .error _ _

end

/-- a condition is woven from the texts of the leaves -/
theorem exists_woven_of_build {c : Configuration} {p : Polarity} {q : Query} {sql : String}
    (h : q.build c p = .ok sql) : ∃ ts : List String,
      (q.leaves p.negations).mapM (Leaf.print c.options) = .ok (ts.map .ok) ∧ Woven ts sql := by
  have hb := Query.build_below c p.negations q
  rw [Polarity.below_negations_self, h, Query.print] at hb
  have hw : Returns (fun sql => ∃ ts : List String,
      (q.leaves p.negations).mapM (Leaf.print c.options) = .ok (ts.map .ok) ∧ Woven ts sql)
      (printEntries c p.negations 0 q >>= joinPieces) :=
    (printEntries_weaves c p.negations 0 q).bind fun ps h t ht => (h.returns_join t ht).2
  exact hw sql hb.symm

/-- **The compiler is a direct printer**: it gives the same text, or fails with the same error, or ends
the program where the printer does. Its text is woven from the leaves of the query, each once, in their
order. -/
theorem build_eq_print (p : Polarity) (q : Query) :
    q.build c p = q.print c p.negations ∧
      ∀ sql, q.build c p = .ok sql → ∃ ts : List String,
        (q.leaves p.negations).mapM (Leaf.print c.options) = .ok (ts.map .ok) ∧ Woven ts sql := by
  have hb := Query.build_below c p.negations q
  rw [Polarity.below_negations_self] at hb
  exact ⟨hb, fun sql hsql => exists_woven_of_build hsql⟩

/-- a query started in the other table, with a double negation and an empty list -/
theorem build_eq_print_double_negation :
    let q : Query :=
      [("a?", .object [("$not", .object [("$gt", .number (.integer 1)), ("$in", .array [])])]),
        ("$nor", .array [.object [("b.c", .string "x?y'")], .null, .object []])]
    let sql := "`a?` > 1 AND 1 = 0 AND (`b`.`c` = 'x?y\\'')"
    q.build {} .negated = .ok sql ∧ ∃ ts : List String,
      (q.leaves 1).mapM (Leaf.print {}) = .ok (ts.map .ok) ∧ Woven ts sql := by
  intro q sql
  have h : q.build {} .negated = .ok sql := by rfl
  exact ⟨h, (build_eq_print {} .negated q).2 sql h⟩

end WhereClause.Filter
