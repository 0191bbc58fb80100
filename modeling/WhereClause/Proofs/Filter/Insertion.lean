import WhereClause.Filter.Compile
import WhereClause.Filter.Document
import WhereClause.Proofs.Entries
import WhereClause.Proofs.Json.Values

/-!
# The ways to build a query

A query is collected from pairs, made by putting in one pair after the other, or read from a text that
has the members in this order. All ways make the same entries.

* `insertAll_fst`, `insertAll_snd`  one pair after the other, and what stood in the place of each;
* `ofMembers_ofPairs`  the members of an object, of which a key that comes again is left out before
                       anything is converted;
* `built_alike`        all ways together.
-/

set_option autoImplicit false

namespace WhereClause.Filter

open WhereClause.Json

/-! ## one pair after the other -/

/-- the query with pairs put in one by one, and for each of them the operand that it replaced -/
def Query.insertAll (q : Query) : List (String × Operand) → Query × List (Option Operand)
  | [] => (q, [])
  | p :: ps =>
    let (q, replaced) := Query.insert p.1 p.2 q
    let (q, others) := Query.insertAll q ps
    (q, replaced :: others)

theorem insertAll_fst (q : Query) (ps : List (String × Operand)) :
    (q.insertAll ps).1 = ps.foldl (fun q p => q.having p.1 p.2) q := by
  induction ps generalizing q with
  | nil => rfl
  | cons p ps ih => exact ih _

/-- what a pair replaces is what was put in last for its key, or what was there before -/
theorem insertAll_snd (q : Query) (ps : List (String × Operand)) (i : Nat) :
    (q.insertAll ps).2[i]? =
      ps[i]?.map fun p => (Entries.last? p.1 (ps.take i)).or (Entries.get? p.1 q) := by
  induction ps generalizing q i with
  | nil => rfl
  | cons p ps ih =>
    cases i with
    | zero => rfl
    | succ i =>
      show (Query.insertAll (Entries.insert p.1 p.2 q) ps).2[i]? = _
      rw [ih, List.getElem?_cons_succ]
      congr 1
      funext r
      rw [List.take_succ_cons, Entries.last?_cons, Entries.get?_insert_pair, Option.or_assoc]

/-! ## members -/

/-- a pair that a member is converted to -/
def Converts (m : String × Json) (p : String × Operand) : Prop :=
  m.1 = p.1 ∧ Operand.ofJson m.2 = .ok p.2

theorem ofMembers_of_converts {ms : List (String × Json)} {ps : List (String × Operand)}
    (h : List.Forall₂ Converts ms ps) : Operand.ofMembers ms = .ok ps := by
  induction h with
  | nil => rfl
  | @cons m p ms ps hm _ ih =>
    rw [Operand.ofMembers, hm.2, ih]
    show Except.ok ((m.1, p.2) :: ps) = _
    rw [hm.1]

/-- the members that are left are converted to the pairs that are left -/
theorem ofMembers_ofPairs {ms : List (String × Json)} {ps : List (String × Operand)}
    (h : List.Forall₂ Converts ms ps) :
    Operand.ofMembers (Entries.ofPairs ms) = .ok (Query.ofPairs ps) :=
  ofMembers_of_converts (Entries.forall₂_ofPairs (fun _ _ hm => hm.1) h)

/-! ## all ways -/

/-- **All ways of building a query from pairs make the same entries**: each key once, at its first
place, with its last operand. One pair after the other may be put in, each replacing the last operand of
its key. And where the pairs are what the members of an object are converted to, every way of reading
the object makes this query. -/
theorem built_alike (ps : List (String × Operand)) :
    (Entries.keys (Query.ofPairs ps) = (Entries.keys ps).eraseDups ∧
      (Entries.keys (Query.ofPairs ps)).Nodup ∧
      ∀ k x, (k, x) ∈ Query.ofPairs ps ↔ Entries.last? k ps = some x) ∧
    (Query.insertAll [] ps).1 = Query.ofPairs ps ∧
    (∀ i, (Query.insertAll [] ps).2[i]? = ps[i]?.map fun p => Entries.last? p.1 (ps.take i)) ∧
    ps.foldl (fun q p => Query.having p.1 p.2 q) [] = Query.ofPairs ps ∧
    ∀ (ms : List (String × Json)) (text : String),
      IsObject (Written (maxLevels - 1)) (ms.map inUnits) text.toList →
        List.Forall₂ Converts ms ps →
          Query.read text = .ok (Query.ofPairs ps) ∧ Query.readWhole text = .ok (Query.ofPairs ps) ∧
          (∃ v, Json.read text = .ok v ∧ Query.ofObject v = .ok (Query.ofPairs ps) ∧
            Query.ofJson v = .ok (some (Query.ofPairs ps))) ∧
          ∀ c p, (Query.read text >>= fun q => q.build c p) = (Query.ofPairs ps).build c p := by
  have hofPairs : ps.foldl (fun q p => Query.having p.1 p.2 q) [] = Query.ofPairs ps := rfl
  refine ⟨⟨Entries.keys_ofPairs ps, Entries.nodup_keys_ofPairs ps,
    fun k x => Entries.mem_ofPairs_iff⟩, (insertAll_fst [] ps).trans hofPairs, fun i => ?_,
    hofPairs, fun ms text htext hconverts => ?_⟩
  · rw [insertAll_snd]
    congr 1
    funext p
    exact Option.or_none
  · have hmembers := ofMembers_ofPairs hconverts
    have hread : Query.read text = .ok (Query.ofPairs ps) := by
      rw [Query.read, read_of_isObject htext]
      exact hmembers
    obtain ⟨rest, hvalue, hend⟩ := readValue_of_isObject htext
    refine ⟨hread, ?_, ⟨_, read_of_isObject htext, hmembers, ?_⟩, fun c p => ?_⟩
    · unfold Query.readWhole
      rw [hvalue]
      show ((Operand.ofMembers (Entries.ofPairs ms)).mapError _ >>= _) = _
      rw [hmembers]
      show ((readEnd rest).mapError _ >>= _) = _
      rw [hend]
      rfl
    · show (Operand.ofMembers (Entries.ofPairs ms) >>= _) = _
      rw [hmembers]
      rfl
    · rw [hread]
      rfl

/-- a key that comes again, written otherwise, and one that comes again inside -/
theorem built_alike_repeated :
    let x : Operand := .object [("$gt", .boolean true)]
    let ps : List (String × Operand) := [("a", .boolean false), ("b", .array [.null]), ("a", x)]
    let text :=
      "\x7b\"a\": false, \"b\": [null], \"\\u0061\": \x7b\"$gt\": null, \"$gt\": true\x7d\x7d "
    Query.read text = .ok (Query.ofPairs ps) ∧ Query.ofPairs ps = [("a", x), ("b", .array [.null])] ∧
      (Query.insertAll [] ps).2 = [none, none, some (.boolean false)] := by
  intro x ps text
  let ms : List (String × Json) :=
    [("a", .boolean false), ("b", .array [.null]), ("a", .object [("$gt", .boolean true)])]
  have hread : bracketed curlyBrackets (readMember readQuoted (Json.readValue 1)) text.toList.tail =
      .ok (ms, [' ']) := by
    simp only [text, String.reduceToList]
    rfl
  have hmembers := members_of_bracketed (fun _ _ _ => written_of_readValue) hread
  have htext : IsObject (Written (maxLevels - 1)) (ms.map inUnits) text.toList :=
    ⟨_, [' '], blanks_of_skipSpace (by decide +kernel),
      hmembers.imp fun _ _ _ => Member.imp fun _ _ _ => Written.mono (by decide),
      blanks_of_readEnd rfl⟩
  have hconverts : List.Forall₂ Converts ms ps :=
    .cons ⟨rfl, rfl⟩ (.cons ⟨rfl, rfl⟩ (.cons ⟨rfl, rfl⟩ .nil))
  obtain ⟨-, -, -, -, hall⟩ := built_alike ps
  exact ⟨(hall ms text htext hconverts).1, rfl, rfl⟩

end WhereClause.Filter
