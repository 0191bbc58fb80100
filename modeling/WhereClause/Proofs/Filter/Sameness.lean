import Mathlib.Data.List.Forall2
import WhereClause.Proofs.Filter.Offsets
import WhereClause.Proofs.Filter.Reading
import WhereClause.Proofs.Filter.Rearrangement

/-!
# Queries that are the same

Two queries are the same if each entry of one has its like in the other, in whatever order, and
instants are compared without their offsets. Up to the order of entries they are then one query, if
no number in it is a zero that has a sign.

* `Query.isDistinct`     no key stands twice in an object, as maps have it;
* `Query.isNonzero`      no floating point zero;
* `rearranged_of_same`   the same queries, without offsets, differ in the order of entries alone;
* `plain_eq_of_inOrder`  and where the order is the same in nothing;
* `build_same`           what the compiler makes of them.
-/

set_option autoImplicit false
set_option linter.unusedVariables false

namespace WhereClause.Filter

open WhereClause.Calendar WhereClause.Sql

/-! ## operands as maps -/

mutual

/-- no object in the operand, at any depth, has a key twice -/
def Operand.isDistinct : Operand → Bool
  | .array xs => elementsDistinct xs
  | .object es => (Entries.keys es).Nodup && entriesDistinct es
  | _ => true

def elementsDistinct : List Operand → Bool
  | [] => true
  | x :: xs => x.isDistinct && elementsDistinct xs

def entriesDistinct : List (String × Operand) → Bool
  | [] => true
  | (_, x) :: rest => x.isDistinct && entriesDistinct rest

end

/-- a floating point zero has a sign that sameness does not mind -/
def isFloatZero : Number → Bool
  | .double x => x.isZero
  | .integer _ => false

mutual

def Operand.isNonzero : Operand → Bool
  | .number n => !isFloatZero n
  | .array xs => elementsNonzero xs
  | .object es => entriesNonzero es
  | _ => true

def elementsNonzero : List Operand → Bool
  | [] => true
  | x :: xs => x.isNonzero && elementsNonzero xs

def entriesNonzero : List (String × Operand) → Bool
  | [] => true
  | (_, x) :: rest => x.isNonzero && entriesNonzero rest

end

mutual

/-- whether the keys of objects stand in the same order, at every level -/
def Operand.inOrder : Operand → Operand → Bool
  | .array xs, .array ys => elementsInOrder xs ys
  | .object es, .object fs => entriesInOrder es fs
  | _, _ => true

def elementsInOrder : List Operand → List Operand → Bool
  | x :: xs, y :: ys => x.inOrder y && elementsInOrder xs ys
  | _, _ => true

def entriesInOrder : List (String × Operand) → List (String × Operand) → Bool
  | (k, x) :: es, (l, y) :: fs => k = l && x.inOrder y && entriesInOrder es fs
  | [], [] => true
  | _, _ => false

end

namespace Query

def isDistinct (q : Query) : Bool := (Operand.object q).isDistinct

def isNonzero (q : Query) : Bool := (Operand.object q).isNonzero

def inOrder (q q' : Query) : Bool := (Operand.object q).inOrder (.object q')

end Query

/-! ## single values -/

theorem eq_of_number_same {m n : Number} (h : m.same n = true) (hm : isFloatZero m = false) :
    m = n := by
  cases m with
  | integer i =>
    cases n with
    | integer j => rw [of_decide_eq_true h]
    | double y => exact nomatch h
  | double x =>
    cases n with
    | integer j => exact nomatch h
    | double y =>
      have hx : x.isZero = false := hm
      rcases Bool.or_eq_true_iff.mp h with hzero | heq
      · rw [hx, Bool.false_and] at hzero
        exact nomatch hzero
      · rw [of_decide_eq_true heq]

theorem plainTime_eq_of_same {s t : Timestamp} (h : s.same t = true) :
    plainTime s = plainTime t := by
  cases s with
  | naive s =>
    cases t with
    | naive t => rw [of_decide_eq_true h]
    | zoned t n => exact nomatch h
  | zoned s m =>
    cases t with
    | naive t => exact nomatch h
    | zoned t n => rw [plainTime, plainTime, of_decide_eq_true h]

/-- single values that are the same are equal without their offsets -/
theorem plain_eq_of_same {x y : Operand} (hx : x.isScalar = true) (hz : x.isNonzero = true)
    (h : x.same y = true) : x.plain = y.plain := by
  cases x with
  | null =>
    cases y with
    | null => rfl
    | _ => exact nomatch h
  | boolean a =>
    cases y with
    | boolean b => rw [of_decide_eq_true h]
    | _ => exact nomatch h
  | number m =>
    cases y with
    | number n =>
      have hm : isFloatZero m = false := Bool.not_eq_true' _ ▸ hz
      rw [eq_of_number_same h hm]
    | _ => exact nomatch h
  | string s =>
    cases y with
    | string t => rw [of_decide_eq_true h]
    | _ => exact nomatch h
  | timestamp s =>
    cases y with
    | timestamp t => rw [Operand.plain, Operand.plain, plainTime_eq_of_same h]
    | _ => exact nomatch h
  | array xs => exact nomatch hx
  | object es => exact nomatch hx

theorem rearranged_of_scalar {x y : Operand} (hx : x.isScalar = true) (hz : x.isNonzero = true)
    (h : x.same y = true) : Rearranged x.plain y.plain := by
  rw [plain_eq_of_same hx hz h]
  exact .refl y.plain

theorem exists_array_of_same {xs : List Operand} {y : Operand}
    (h : (Operand.array xs).same y = true) :
    ∃ ys, y = .array ys ∧ Operand.sameElements xs ys = true := by
  cases y with
  | array ys => exact ⟨ys, rfl, h⟩
  | _ => exact nomatch h

theorem exists_object_of_same {es : List (String × Operand)} {y : Operand}
    (h : (Operand.object es).same y = true) :
    ∃ fs, y = .object fs ∧ es.length = fs.length ∧ Operand.sameEntries es fs = true := by
  cases y with
  | object fs =>
    obtain ⟨hlength, hentries⟩ := Bool.and_eq_true_iff.mp h
    exact ⟨fs, rfl, of_decide_eq_true hlength, hentries⟩
  | _ => exact nomatch h

/-! ## entries in pairs -/

/-- entries of the same keys, the operands of which are the same, in the same order -/
def Paired (es fs : List (String × Operand)) : Prop :=
  List.Forall₂ (fun e f => e.1 = f.1 ∧ e.2.same f.2 = true) es fs

theorem sameEntries_congr {es fs gs : List (String × Operand)}
    (h : ∀ k ∈ Entries.keys es, Entries.get? k fs = Entries.get? k gs) :
    Operand.sameEntries es fs = Operand.sameEntries es gs := by
  induction es with
  | nil => rfl
  | cons e es ih =>
    obtain ⟨k, x⟩ := e
    obtain ⟨hk, hes⟩ := List.forall_mem_cons.mp h
    rw [Operand.sameEntries, Operand.sameEntries, hk, ih hes]

/-- the first entry of a key, and what is found without it -/
theorem exists_of_get? {k : String} {y : Operand} {fs : List (String × Operand)}
    (h : Entries.get? k fs = some y) : ∃ before behind, fs = before ++ (k, y) :: behind ∧
      ∀ j, j ≠ k → Entries.get? j fs = Entries.get? j (before ++ behind) := by
  induction fs with
  | nil => exact nomatch h
  | cons f fs ih =>
    obtain ⟨l, z⟩ := f
    rw [Entries.get?] at h
    split at h
    · next hl =>
      cases h
      cases hl
      exact ⟨[], fs, rfl, fun j hj => if_neg fun he => hj he.symm⟩
    · obtain ⟨before, behind, hfs, hget⟩ := ih h
      refine ⟨(l, z) :: before, behind, by rw [hfs]; rfl, fun j hj => ?_⟩
      rw [Entries.get?, List.cons_append, Entries.get?, hget j hj]

theorem exists_same_of_sameEntries {k : String} {x : Operand} {es fs : List (String × Operand)}
    (h : Operand.sameEntries ((k, x) :: es) fs = true) :
    (∃ y, Entries.get? k fs = some y ∧ x.same y = true) ∧ Operand.sameEntries es fs = true := by
  rw [Operand.sameEntries] at h
  obtain ⟨hx, hes⟩ := Bool.and_eq_true_iff.mp h
  cases hget : Entries.get? k fs with
  | none =>
    rw [hget] at hx
    exact nomatch hx
  | some y =>
    rw [hget] at hx
    exact ⟨⟨y, rfl, hx⟩, hes⟩

/-- the others can be put into the order of the ones -/
theorem exists_paired {es fs : List (String × Operand)} (hkeys : (Entries.keys es).Nodup)
    (hlength : es.length = fs.length) (h : Operand.sameEntries es fs = true) :
    ∃ gs, gs.Perm fs ∧ Paired es gs := by
  induction es generalizing fs with
  | nil =>
    cases List.length_eq_zero_iff.mp hlength.symm
    exact ⟨[], .refl [], .nil⟩
  | cons e es ih =>
    obtain ⟨k, x⟩ := e
    obtain ⟨hk, hkeys⟩ := List.nodup_cons.mp hkeys
    obtain ⟨⟨y, hget, hxy⟩, hes⟩ := exists_same_of_sameEntries h
    obtain ⟨before, behind, rfl, hother⟩ := exists_of_get? hget
    -- the keys of the other entries are found without the entry that is taken out
    have hrest : Operand.sameEntries es (before ++ behind) = true := by
      rw [← hes]
      refine (sameEntries_congr fun j hj => hother j ?_).symm
      rintro rfl
      exact hk hj
    have hrestLength : es.length = (before ++ behind).length := by
      rw [List.length_cons, List.length_append, List.length_cons] at hlength
      rw [List.length_append]
      omega
    obtain ⟨gs, hperm, hpaired⟩ := ih hkeys hrestLength hrest
    exact ⟨(k, y) :: gs, (hperm.cons (k, y)).trans List.perm_middle.symm, .cons ⟨rfl, hxy⟩ hpaired⟩

/-- where the keys stand in the same order the entries are pairs as they stand -/
theorem paired_of_inOrder {es fs : List (String × Operand)} (hkeys : (Entries.keys es).Nodup)
    (horder : entriesInOrder es fs = true) (h : Operand.sameEntries es fs = true) :
    Paired es fs := by
  induction es generalizing fs with
  | nil =>
    cases fs with
    | nil => exact .nil
    | cons f fs => exact nomatch horder
  | cons e es ih =>
    obtain ⟨k, x⟩ := e
    cases fs with
    | nil => exact nomatch horder
    | cons f fs =>
      obtain ⟨l, y⟩ := f
      rw [entriesInOrder, Bool.and_eq_true, Bool.and_eq_true, decide_eq_true_eq] at horder
      obtain ⟨⟨rfl, _⟩, horder⟩ := horder
      obtain ⟨hk, hkeys⟩ := List.nodup_cons.mp hkeys
      obtain ⟨⟨z, hget, hxz⟩, hes⟩ := exists_same_of_sameEntries h
      rw [Entries.get?, if_pos rfl] at hget
      cases hget
      refine .cons ⟨rfl, hxz⟩ (ih hkeys horder ?_)
      have hskip : ∀ j ∈ Entries.keys es, Entries.get? j ((k, y) :: fs) = Entries.get? j fs := by
        intro j hj
        refine if_neg ?_
        rintro rfl
        exact hk hj
      rw [← sameEntries_congr hskip, hes]

/-! ## the same queries -/

theorem plainEntries_eq_map (es : List (String × Operand)) :
    plainEntries es = es.map fun e => (e.1, e.2.plain) := by
  induction es with
  | nil => rfl
  | cons e es ih => rw [plainEntries, ih, List.map_cons]

mutual

/-- **What is the same differs in offsets and in the order of entries alone.** -/
theorem rearranged_of_same : ∀ x y : Operand, x.isDistinct = true → x.isNonzero = true →
    x.same y = true → Rearranged x.plain y.plain
  | .array xs, y, hd, hz, h => by
    obtain ⟨ys, rfl, hxs⟩ := exists_array_of_same h
    exact rearranged_elements [] xs ys hd hz hxs
  | .object es, y, hd, hz, h => by
    obtain ⟨fs, rfl, hlength, hes⟩ := exists_object_of_same h
    obtain ⟨hkeys, hd⟩ := Bool.and_eq_true_iff.mp hd
    obtain ⟨gs, hperm, hpaired⟩ := exists_paired (of_decide_eq_true hkeys) hlength hes
    refine (rearranged_entries [] es gs hd hz hpaired).trans (.perm ?_)
    rw [List.nil_append, plainEntries_eq_map, plainEntries_eq_map]
    exact hperm.map _
  | .null, y, _, hz, h => rearranged_of_scalar rfl hz h
  | .boolean b, y, _, hz, h => rearranged_of_scalar rfl hz h
  | .number n, y, _, hz, h => rearranged_of_scalar rfl hz h
  | .string s, y, _, hz, h => rearranged_of_scalar rfl hz h
  | .timestamp t, y, _, hz, h => rearranged_of_scalar rfl hz h

theorem rearranged_elements (before : List Operand) : ∀ xs ys : List Operand,
    elementsDistinct xs = true → elementsNonzero xs = true →
      Operand.sameElements xs ys = true →
        Rearranged (.array (before ++ plainElements xs)) (.array (before ++ plainElements ys))
  | [], [], _, _, _ => .refl _
  | [], y :: ys, _, _, h => nomatch h
  | x :: xs, [], _, _, h => nomatch h
  | x :: xs, y :: ys, hd, hz, h => by
    obtain ⟨hdx, hdxs⟩ := Bool.and_eq_true_iff.mp hd
    obtain ⟨hzx, hzxs⟩ := Bool.and_eq_true_iff.mp hz
    obtain ⟨hx, hxs⟩ := Bool.and_eq_true_iff.mp h
    have hfirst := Rearranged.inArray before (plainElements xs) (rearranged_of_same x y hdx hzx hx)
    have hothers := rearranged_elements (before ++ [y.plain]) xs ys hdxs hzxs hxs
    rw [List.append_assoc, List.append_assoc] at hothers
    exact hfirst.trans hothers

theorem rearranged_entries (before : List (String × Operand)) :
    ∀ es fs : List (String × Operand), entriesDistinct es = true → entriesNonzero es = true →
      Paired es fs →
        Rearranged (.object (before ++ plainEntries es)) (.object (before ++ plainEntries fs))
  | [], fs, _, _, h => by
    cases h
    exact .refl _
  | (k, x) :: es, fs, hd, hz, h => by
    obtain ⟨hdx, hdes⟩ := Bool.and_eq_true_iff.mp hd
    obtain ⟨hzx, hzes⟩ := Bool.and_eq_true_iff.mp hz
    cases h with
    | @cons _ f _ fs hx hes =>
      obtain ⟨l, y⟩ := f
      obtain ⟨rfl, hx⟩ := hx
      have hfirst := Rearranged.inObject before (plainEntries es) k
        (rearranged_of_same x y hdx hzx hx)
      have hothers := rearranged_entries (before ++ [(k, y.plain)]) es fs hdes hzes hes
      rw [List.append_assoc, List.append_assoc] at hothers
      exact hfirst.trans hothers

end

mutual

/-- **What is the same and in the same order differs in offsets alone.** -/
theorem plain_eq_of_inOrder : ∀ x y : Operand, x.isDistinct = true → x.isNonzero = true →
    x.same y = true → x.inOrder y = true → x.plain = y.plain
  | .array xs, y, hd, hz, h, ho => by
    obtain ⟨ys, rfl, hxs⟩ := exists_array_of_same h
    exact congrArg Operand.array (plainElements_eq_of_inOrder xs ys hd hz hxs ho)
  | .object es, y, hd, hz, h, ho => by
    obtain ⟨fs, rfl, _, hes⟩ := exists_object_of_same h
    obtain ⟨hkeys, hd⟩ := Bool.and_eq_true_iff.mp hd
    have hpaired := paired_of_inOrder (of_decide_eq_true hkeys) ho hes
    exact congrArg Operand.object (plainEntries_eq_of_inOrder es fs hd hz hpaired ho)
  | .null, y, _, hz, h, _ => plain_eq_of_same rfl hz h
  | .boolean b, y, _, hz, h, _ => plain_eq_of_same rfl hz h
  | .number n, y, _, hz, h, _ => plain_eq_of_same rfl hz h
  | .string s, y, _, hz, h, _ => plain_eq_of_same rfl hz h
  | .timestamp t, y, _, hz, h, _ => plain_eq_of_same rfl hz h

theorem plainElements_eq_of_inOrder : ∀ xs ys : List Operand, elementsDistinct xs = true →
    elementsNonzero xs = true → Operand.sameElements xs ys = true → elementsInOrder xs ys = true →
      plainElements xs = plainElements ys
  | [], [], _, _, _, _ => rfl
  | [], y :: ys, _, _, h, _ => nomatch h
  | x :: xs, [], _, _, h, _ => nomatch h
  | x :: xs, y :: ys, hd, hz, h, ho => by
    obtain ⟨hdx, hdxs⟩ := Bool.and_eq_true_iff.mp hd
    obtain ⟨hzx, hzxs⟩ := Bool.and_eq_true_iff.mp hz
    obtain ⟨hx, hxs⟩ := Bool.and_eq_true_iff.mp h
    obtain ⟨hox, hoxs⟩ := Bool.and_eq_true_iff.mp ho
    rw [plainElements, plainElements, plain_eq_of_inOrder x y hdx hzx hx hox,
      plainElements_eq_of_inOrder xs ys hdxs hzxs hxs hoxs]

theorem plainEntries_eq_of_inOrder : ∀ es fs : List (String × Operand),
    entriesDistinct es = true → entriesNonzero es = true → Paired es fs →
      entriesInOrder es fs = true → plainEntries es = plainEntries fs
  | [], fs, _, _, h, _ => by
    cases h
    rfl
  | (k, x) :: es, fs, hd, hz, h, ho => by
    obtain ⟨hdx, hdes⟩ := Bool.and_eq_true_iff.mp hd
    obtain ⟨hzx, hzes⟩ := Bool.and_eq_true_iff.mp hz
    cases h with
    | @cons _ f _ fs hx hes =>
      obtain ⟨l, y⟩ := f
      obtain ⟨rfl, hx⟩ := hx
      obtain ⟨hox, hoes⟩ := Bool.and_eq_true_iff.mp ho
      rw [plainEntries, plainEntries,
        plain_eq_of_inOrder x y hdx hzx hx (Bool.and_eq_true_iff.mp hox).2,
        plainEntries_eq_of_inOrder es fs hdes hzes hes hoes]

end

/-! ## what is compiled -/

/-- a query built entry by entry has no key twice -/
theorem isDistinct_insert {q : Query} (hq : q.isDistinct = true) (key : String) {x : Operand}
    (hx : x.isDistinct = true) : Query.isDistinct (q.insert key x).1 = true := by
  obtain ⟨hkeys, hes⟩ := Bool.and_eq_true_iff.mp hq
  refine Bool.and_eq_true_iff.mpr
    ⟨decide_eq_true (Entries.nodup_keys_insert key x (of_decide_eq_true hkeys)), ?_⟩
  clear hq hkeys
  show entriesDistinct (Entries.insert key x q) = true
  induction q with
  | nil => exact Bool.and_eq_true_iff.mpr ⟨hx, rfl⟩
  | cons e es ih =>
    obtain ⟨hfirst, hothers⟩ := Bool.and_eq_true_iff.mp hes
    rw [Entries.insert]
    split
    · exact Bool.and_eq_true_iff.mpr ⟨hx, hothers⟩
    · exact Bool.and_eq_true_iff.mpr ⟨hfirst, ih hothers⟩

/-- the texts of the comparisons of the same queries are the same ones -/
theorem texts_perm_of_same {q q' : Query} (hd : q.isDistinct = true) (hz : q.isNonzero = true)
    (h : q.same q' = true) (o : Options) (p : Polarity) :
    ((conditionAtoms (q.conditions p)).map (Atom.text o)).Perm
      ((conditionAtoms (q'.conditions p)).map (Atom.text o)) := by
  have hplain (r : Query) : (conditionAtoms (r.plain.conditions p)).map (Atom.text o) =
      (conditionAtoms (r.conditions p)).map (Atom.text o) := by
    rw [conditions_plain, conditionAtoms_mapConditions, List.map_map]
    exact List.map_congr_left fun a _ => a.text_plain o
  have hperm : (conditionAtoms (q.plain.conditions p)).Perm
      (conditionAtoms (q'.plain.conditions p)) :=
    atoms_rearranged (rearranged_of_same (.object q) (.object q') hd hz h)
  rw [← hplain q, ← hplain q']
  exact hperm.map _

/-- **Queries that are the same are compiled alike.** Both have a condition or neither has. The texts
of their comparisons are the same up to the order, each as often in one condition as in the other. If
the entries stand in the same order at every level, the outcomes are the same. -/
theorem build_same (c : Configuration) (p : Polarity) {q q' : Query} (hd : q.isDistinct = true)
    (hz : q.isNonzero = true) (h : q.same q' = true) :
    ((∃ sql, q.build c p = .ok sql) ↔ ∃ sql, q'.build c p = .ok sql) ∧
      (∀ s t, q.build c p = .ok s → q'.build c p = .ok t → ∃ ts us : List String,
        (q.leaves p.negations).mapM (Leaf.print c.options) = .ok (ts.map .ok) ∧ Woven ts s ∧
        (q'.leaves p.negations).mapM (Leaf.print c.options) = .ok (us.map .ok) ∧ Woven us t ∧
        ts.Perm us) ∧
      (q.inOrder q' = true → q.build c p = q'.build c p) := by
  constructor
  · have hrearranged : q.plain.Rearranged q'.plain :=
      rearranged_of_same (.object q) (.object q') hd hz h
    rw [← build_plain c p q, ← build_plain c p q']
    exact build_rearranged hrearranged
  constructor
  · intro s t hs ht
    obtain ⟨hprint, hwoven⟩ := woven_of_build hs
    obtain ⟨hprint', hwoven'⟩ := woven_of_build ht
    exact ⟨_, _, hprint, hwoven, hprint', hwoven', texts_perm_of_same hd hz h c.options p⟩
  · intro horder
    have hplain : q.plain = q'.plain :=
      Operand.object.inj (plain_eq_of_inOrder (.object q) (.object q') hd hz h horder)
    rw [← build_plain c p q, hplain, build_plain]

/-- an instant with another offset, and entries in another order at the top and inside a `$nor` -/
theorem build_same_reordered :
    let time : DateTime := ⟨⟨2020, 2, 1, by decide⟩, ⟨23, 4, 5, 6000000, by decide⟩⟩
    let after (offset : Int) : Operand := .object [("$gt", .timestamp (.zoned time offset))]
    let nor (es : List (String × Operand)) : Operand := .array [.null, .object es]
    let q : Query := [("a", after 3600), ("$nor", nor [("b", .string "x"), ("c", .null)])]
    let q' : Query := [("$nor", nor [("c", .null), ("b", .string "x")]), ("a", after 0)]
    q.isDistinct = true ∧ q.isNonzero = true ∧ q.same q' = true ∧
      q.build {} .direct =
        .ok "`a` > '2020-02-01 23:04:05.006' AND (`b` != 'x' AND `c` != NULL)" ∧
      q'.build {} .direct =
        .ok "(`c` != NULL AND `b` != 'x') AND `a` > '2020-02-01 23:04:05.006'" ∧
      ∃ ts us : List String, (q.leaves 0).mapM (Leaf.print {}) = .ok (ts.map .ok) ∧
        (q'.leaves 0).mapM (Leaf.print {}) = .ok (us.map .ok) ∧ ts.Perm us := by
  intro time after nor q q'
  have hd : q.isDistinct = true := by decide
  have hz : q.isNonzero = true := by decide
  have h : q.same q' = true := by decide
  have hs := ok_of_toOption (by decide +kernel : (q.build {} .direct).toOption =
    some "`a` > '2020-02-01 23:04:05.006' AND (`b` != 'x' AND `c` != NULL)")
  have ht := ok_of_toOption (by decide +kernel : (q'.build {} .direct).toOption =
    some "(`c` != NULL AND `b` != 'x') AND `a` > '2020-02-01 23:04:05.006'")
  obtain ⟨_, hleaves, _⟩ := build_same {} .direct hd hz h
  obtain ⟨ts, us, hprint, _, hprint', _, hperm⟩ := hleaves _ _ hs ht
  exact ⟨hd, hz, h, hs, ht, ts, us, hprint, hprint', hperm⟩

end WhereClause.Filter
