import WhereClause.Proofs.Filter.Fields
import WhereClause.Proofs.Filter.Levels
import WhereClause.Proofs.Filter.Negation

/-!
# Double negation

Two `$not` before an operand turn each comparison of it around and back. They can be put before any
operands of fields at once, and also one pair inside the other. Only the limit notices them, since
each makes one level more, and a timestamp that the zone does not show, since it is written as soon as
the level of its `$not` is left.

* `Query.doubled`      a query with two `$not` before the operands that are chosen;
* `conditions_doubled` it has the same tree;
* `Hastens`            walks with the same flaws, where the second may end the program earlier;
* `hastens_doubled`    the walks through a query without the pairs and with them are such;
* `build_doubled`      with room for its levels it is compiled to the same, if the zone shows its
                       timestamps.
-/

set_option autoImplicit false

namespace WhereClause.Filter

open WhereClause.Calendar WhereClause.Sql

/-! ## the query with pairs put in -/

/-- two negations before an operand, if it is chosen -/
def twiceIf (b : Bool) (x : Operand) : Operand :=
  if b then .object [("$not", .object [("$not", x)])] else x

mutual

/-- the operand of a field or of `$not`, and the operands of `$not` in it -/
def doubleField (chosen : Position → Bool) (place : Position) : Operand → Operand
  | .object es => twiceIf (chosen place) (.object (doubleOperators chosen place 0 es))
  | x => twiceIf (chosen place) x

def doubleOperators (chosen : Position → Bool) (place : Position) (i : Nat) :
    List (String × Operand) → List (String × Operand)
  | [] => []
  | (key, x) :: rest =>
    (key, if key = "$not" then doubleField chosen (i :: place) x else x) ::
      doubleOperators chosen place (i + 1) rest

end

/-- a query with two negations before each operand that is chosen, by its position in the query -/
def Query.doubled (chosen : Position → Bool) (q : Query) : Query :=
  q.mapFields (doubleField chosen)

/-! ## its tree -/

/-- two negations make no difference -/
theorem fieldConditions_twiceIf (b : Bool) (p : Polarity) (field : String) (x : Operand) :
    fieldConditions p field (twiceIf b x) = fieldConditions p field x := by
  cases b with
  | true =>
    show fieldConditions p field (.object [("$not", .object [("$not", x)])]) = _
    rw [fieldConditions_not, fieldConditions_not, Polarity.flip_flip]
  | false => rfl

variable (chosen : Position → Bool)

mutual

theorem fieldConditions_doubleField (place : Position) (p : Polarity) (field : String) :
    ∀ x : Operand, fieldConditions p field (doubleField chosen place x) = fieldConditions p field x
  | .object es =>
    (fieldConditions_twiceIf (chosen place) p field _).trans
      (operatorConditions_doubleOperators place 0 p field es)
  | .array _ => fieldConditions_twiceIf (chosen place) p field _
  | .null => fieldConditions_twiceIf (chosen place) p field _
  | .boolean _ => fieldConditions_twiceIf (chosen place) p field _
  | .number _ => fieldConditions_twiceIf (chosen place) p field _
  | .string _ => fieldConditions_twiceIf (chosen place) p field _
  | .timestamp _ => fieldConditions_twiceIf (chosen place) p field _

theorem operatorConditions_doubleOperators (place : Position) (i : Nat) (p : Polarity)
    (field : String) : ∀ es : List (String × Operand),
      operatorConditions p field (doubleOperators chosen place i es) = operatorConditions p field es
  | [] => rfl
  | (key, x) :: rest => by
    rw [doubleOperators, operatorConditions, operatorConditions,
      operatorConditions_doubleOperators place (i + 1) p field rest]
    congr 1
    by_cases hnot : key = "$not"
    · rw [if_pos hnot, if_pos hnot, if_pos hnot]
      exact fieldConditions_doubleField (i :: place) p.flip field x
    · rw [if_neg hnot, if_neg hnot, if_neg hnot]

end

/-- the first flaw that is met before the level is left -/
def Walk.firstFlaw (w : Walk) : Option Error := (w.met.filter Error.isFlaw).head?

def Walk.HasFlaw (w : Walk) : Prop := ∃ e ∈ w.faults, e.isFlaw = true

namespace Walk

theorem firstFlaw_append (w v : Walk) : (w ++ v).firstFlaw = w.firstFlaw.or v.firstFlaw := by
  show ((w.met ++ v.met).filter Error.isFlaw).head? = _
  rw [List.filter_append, List.head?_append]
  rfl

theorem firstFlaw_close (w : Walk) :
    w.close.firstFlaw = w.firstFlaw.or (if w.left = [] then none else some stop) := by
  have hleft : (w.left.filter Error.isFlaw).head? = if w.left = [] then none else some stop := by
    rw [List.filter_eq_self.mpr fun e he => by rw [w.left_stops e he]; rfl]
    cases h : w.left with
    | nil => rfl
    | cons e es => exact congrArg some (w.left_stops e (by rw [h]; exact List.mem_cons_self))
  show ((w.met ++ w.left).filter Error.isFlaw).head? = _
  rw [List.filter_append, List.head?_append, hleft]
  rfl

theorem hasFlaw_append {w v : Walk} : (w ++ v).HasFlaw ↔ w.HasFlaw ∨ v.HasFlaw := by
  unfold HasFlaw
  simp only [mem_faults_append, or_and_right, exists_or]

theorem hasFlaw_close {w : Walk} : w.close.HasFlaw ↔ w.HasFlaw := by
  rw [HasFlaw, faults_close, HasFlaw]

/-- a walk that has met no flaw yet has one if the program ends behind it -/
theorem hasFlaw_of_firstFlaw {w : Walk} (h : w.firstFlaw = none) : w.HasFlaw ↔ ¬ w.left = [] := by
  have hmet : ∀ e ∈ w.met, ¬ e.isFlaw = true := by
    rwa [firstFlaw, List.head?_eq_none_iff, List.filter_eq_nil_iff] at h
  constructor
  · rintro ⟨e, he, hflaw⟩ hleft
    rw [faults, hleft, List.append_nil] at he
    exact hmet e he hflaw
  · intro hleft
    obtain ⟨e, he⟩ := List.exists_mem_of_ne_nil _ hleft
    exact ⟨e, List.mem_append_right w.met he, by rw [w.left_stops e he]; rfl⟩

end Walk

/-- two walks with the same flaws, but in the second the program may end at one that comes later in the
first -/
structure Hastens (w v : Walk) : Prop where
  first : v.firstFlaw = w.firstFlaw ∨ v.firstFlaw = some stop
  ends : stop ∈ v.faults → stop ∈ w.faults
  hasFlaw : v.HasFlaw ↔ w.HasFlaw

namespace Hastens

theorem refl (w : Walk) : Hastens w w := ⟨.inl rfl, id, Iff.rfl⟩

theorem trans {u v w : Walk} (h : Hastens u v) (h' : Hastens v w) : Hastens u w where
  first := h'.first.elim (fun heq => h.first.imp heq.trans heq.trans) .inr
  ends := h.ends ∘ h'.ends
  hasFlaw := h'.hasFlaw.trans h.hasFlaw

theorem append {w w' v v' : Walk} (h : Hastens w w') (h' : Hastens v v') :
    Hastens (w ++ v) (w' ++ v') where
  first := by
    rw [Walk.firstFlaw_append, Walk.firstFlaw_append]
    obtain heq | hstop := h.first
    · rw [heq]
      cases w.firstFlaw with
      | some e => exact .inl rfl
      | none => exact h'.first
    · rw [hstop]
      exact .inr rfl
  ends := by
    rw [Walk.mem_faults_append, Walk.mem_faults_append]
    exact Or.imp h.ends h'.ends
  hasFlaw := by rw [Walk.hasFlaw_append, Walk.hasFlaw_append, h.hasFlaw, h'.hasFlaw]

theorem close {w v : Walk} (h : Hastens w v) : Hastens w.close v.close where
  first := by
    rw [Walk.firstFlaw_close, Walk.firstFlaw_close]
    obtain heq | hstop := h.first
    · rw [heq]
      cases hw : w.firstFlaw with
      | some e => exact .inl rfl
      | none =>
        -- neither has met a flaw yet, so both end the program behind the level or none does
        have hleft : v.left = [] ↔ w.left = [] := by
          rw [← Decidable.not_iff_not, ← Walk.hasFlaw_of_firstFlaw hw,
            ← Walk.hasFlaw_of_firstFlaw (heq.trans hw)]
          exact h.hasFlaw
        exact .inl (congrArg _ (by simp only [hleft]))
    · rw [hstop]
      exact .inr rfl
  ends := by
    rw [Walk.faults_close, Walk.faults_close]
    exact h.ends
  hasFlaw := by rw [Walk.hasFlaw_close, Walk.hasFlaw_close, h.hasFlaw]

/-- a level that is left earlier -/
theorem closed (w : Walk) : Hastens w w.close where
  first := by
    rw [Walk.firstFlaw_close]
    cases w.firstFlaw with
    | some e => exact .inl rfl
    | none =>
      split
      · exact .inl rfl
      · exact .inr rfl
  ends := by
    rw [Walk.faults_close]
    exact id
  hasFlaw := Walk.hasFlaw_close

/-- walks that differ in the reports of the limit alone -/
theorem of_flaws {w v : Walk} (hmet : w.met.filter Error.isFlaw = v.met.filter Error.isFlaw)
    (hleft : w.left = v.left) : Hastens w v := by
  have hmem {e : Error} (he : e.isFlaw = true) : e ∈ v.faults ↔ e ∈ w.faults := by
    have h := congrArg (e ∈ ·) hmet
    simp only [List.mem_filter, he, and_true, eq_iff_iff] at h
    rw [Walk.faults, Walk.faults, List.mem_append, List.mem_append, h, hleft]
  refine ⟨.inl (congrArg List.head? hmet.symm), (hmem rfl).mp, ?_⟩
  exact exists_congr fun e => ⟨fun ⟨he, hf⟩ => ⟨(hmem hf).mp he, hf⟩,
    fun ⟨he, hf⟩ => ⟨(hmem hf).mpr he, hf⟩⟩

end Hastens

/-! ## its errors -/

variable (c : Configuration)

/-- the operand stands one level deeper behind `$not`, and this level is left sooner -/
theorem hastens_not (depth : Nat) (x : Operand) :
    Hastens (fieldWalk c depth x) (fieldWalk c depth (.object [("$not", x)])) := by
  have hdeeper : Hastens (fieldWalk c depth x) (fieldWalk c (depth + 1) x) :=
    .of_flaws (fieldFaults_alike (.flaws rfl depth (depth + 1)) x) rfl
  have hdepth : Hastens (.of []) (.of (depthFaults c (depth + 1))) :=
    .of_flaws (filter_depthFaults c (depth + 1)).symm rfl
  rw [fieldWalk_not]
  exact (hdeeper.trans (.closed _)).trans (hdepth.append (.refl (fieldWalk c (depth + 1) x).close))

theorem hastens_twiceIf (b : Bool) (depth : Nat) (x : Operand) :
    Hastens (fieldWalk c depth x) (fieldWalk c depth (twiceIf b x)) := by
  cases b with
  | true => exact (hastens_not c depth x).trans (hastens_not c depth _)
  | false => exact .refl _

mutual

theorem hastens_doubleField (place : Position) (depth : Nat) : ∀ x : Operand,
    Hastens (fieldWalk c depth x) (fieldWalk c depth (doubleField chosen place x))
  | .object es =>
    (hastens_doubleOperators place 0 depth es).trans (hastens_twiceIf c (chosen place) depth _)
  | .array _ => hastens_twiceIf c (chosen place) depth _
  | .null => hastens_twiceIf c (chosen place) depth _
  | .boolean _ => hastens_twiceIf c (chosen place) depth _
  | .number _ => hastens_twiceIf c (chosen place) depth _
  | .string _ => hastens_twiceIf c (chosen place) depth _
  | .timestamp _ => hastens_twiceIf c (chosen place) depth _

theorem hastens_doubleOperators (place : Position) (i : Nat) (depth : Nat) :
    ∀ es : List (String × Operand), Hastens (fieldWalk c depth (.object es))
      (fieldWalk c depth (.object (doubleOperators chosen place i es)))
  | [] => .refl _
  | (key, x) :: rest => by
    rw [doubleOperators, fieldWalk_cons, fieldWalk_cons]
    refine .append ?_ (hastens_doubleOperators place (i + 1) depth rest)
    by_cases hnot : key = "$not"
    · rw [if_pos hnot, if_pos hnot, if_pos hnot]
      exact .append (.refl _) (hastens_doubleField (i :: place) (depth + 1) x).close
    · rw [if_neg hnot, if_neg hnot, if_neg hnot]
      exact .refl _

end

end WhereClause.Filter
