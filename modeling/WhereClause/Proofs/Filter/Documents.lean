import Mathlib.Data.List.Forall2
import WhereClause.Filter.Document
import WhereClause.Proofs.Outcome

/-!
# Documents read as filters

Every value of a document stands for itself, but for dates: an object below the top with the one
member `$date` is read as a timestamp, and nothing else can fail.

* `Reads`              what a value is read as, without regard to errors;
* `DateAt`             where the dates in a value are, the inside of their payloads left out;
* `datesIn`            the dates of a value in the order of the document;
* `ofJson_yields`      a value is read as `Reads` says, or has a date that cannot be read;
* `ofObject_document`  what is read of a filter, when reading fails, and with which error.
-/

set_option autoImplicit false

namespace WhereClause.Filter

open WhereClause.Calendar

/-! ## what is read -/

/-- what a value is read as -/
inductive Reads : Json → Operand → Prop where
  | null : Reads .null .null
  | boolean (b : Bool) : Reads (.boolean b) (.boolean b)
  | number (n : Number) : Reads (.number n) (.number n)
  | string (s : String) : Reads (.string s) (.string s)
  | array {vs : List Json} {xs : List Operand} (h : List.Forall₂ Reads vs xs) :
      Reads (.array vs) (.array xs)
  | date {p : Json} {t : Timestamp} (h : timestampOf? p = some t) :
      Reads (.object [(dateKey, p)]) (.timestamp t)
  /-- the members of every other object are its entries, in their order -/
  | object {ms : List (String × Json)} {es : List (String × Operand)}
      (hms : ∀ p, ms ≠ [(dateKey, p)]) (hkeys : es.map Prod.fst = ms.map Prod.fst)
      (h : List.Forall₂ Reads (ms.map Prod.snd) (es.map Prod.snd)) : Reads (.object ms) (.object es)

/-- the entries that members are read as -/
def ReadsEntries (ms : List (String × Json)) (es : List (String × Operand)) : Prop :=
  es.map Prod.fst = ms.map Prod.fst ∧ List.Forall₂ Reads (ms.map Prod.snd) (es.map Prod.snd)

theorem datePayload?_eq_some_iff {ms : List (String × Json)} {p : Json} :
    datePayload? ms = some p ↔ ms = [(dateKey, p)] := by
  constructor
  · intro h
    unfold datePayload? at h
    split at h
    · split at h
      · next hk =>
        cases h
        rw [hk]
      · exact nomatch h
    · exact nomatch h
  · rintro rfl
    show (if dateKey = dateKey then some p else none) = some p
    exact if_pos rfl

theorem datePayload?_eq_none_iff {ms : List (String × Json)} :
    datePayload? ms = none ↔ ∀ p, ms ≠ [(dateKey, p)] := by
  rw [Option.eq_none_iff_forall_ne_some]
  exact forall_congr' fun p => not_congr datePayload?_eq_some_iff

/-! ## where dates are -/

/-- a date in a value by its place, the numbers of the elements and members on the way to it, and its
payload. Nothing in the payload of a date is a date. -/
inductive DateAt : Json → List Nat → Json → Prop where
  | here (p : Json) : DateAt (.object [(dateKey, p)]) [] p
  | element {vs : List Json} {i : Nat} {v p : Json} {place : List Nat} (hv : vs[i]? = some v)
      (h : DateAt v place p) : DateAt (.array vs) (i :: place) p
  | member {ms : List (String × Json)} {i : Nat} {k : String} {v p : Json} {place : List Nat}
      (hms : ∀ q, ms ≠ [(dateKey, q)]) (hv : ms[i]? = some (k, v)) (h : DateAt v place p) :
      DateAt (.object ms) (i :: place) p

/-- a date in the members of a filter, which is none itself whatever its members are -/
inductive DateBelow (ms : List (String × Json)) : List Nat → Json → Prop where
  | member {i : Nat} {k : String} {v p : Json} {place : List Nat} (hv : ms[i]? = some (k, v))
      (h : DateAt v place p) : DateBelow ms (i :: place) p

/-- the dates of several values, the first of which has a number -/
def placed (i : Nat) : List (List (List Nat × Json)) → List (List Nat × Json)
  | [] => []
  | ds :: dss => ds.map (fun d => (i :: d.1, d.2)) ++ placed (i + 1) dss

mutual

/-- the dates in a value by their places, in the order of the document -/
def datesIn : Json → List (List Nat × Json)
  | .array vs => placed 0 (datesInElements vs)
  | .object ms =>
    match datePayload? ms with
    | some p => [([], p)]
    | none => placed 0 (datesInMembers ms)
  | _ => []

def datesInElements : List Json → List (List (List Nat × Json))
  | [] => []
  | v :: vs => datesIn v :: datesInElements vs

def datesInMembers : List (String × Json) → List (List (List Nat × Json))
  | [] => []
  | (_, v) :: ms => datesIn v :: datesInMembers ms

end

theorem datesInElements_eq (vs : List Json) : datesInElements vs = vs.map datesIn := by
  induction vs with
  | nil => rfl
  | cons v vs ih => rw [datesInElements, ih, List.map_cons]

theorem datesInMembers_eq (ms : List (String × Json)) :
    datesInMembers ms = ms.map fun m => datesIn m.2 := by
  induction ms with
  | nil => rfl
  | cons m ms ih => rw [datesInMembers, ih, List.map_cons]

/-- the dates below the members of a filter -/
def datesBelow (ms : List (String × Json)) : List (List Nat × Json) :=
  placed 0 (ms.map fun m => datesIn m.2)

theorem datesIn_array (vs : List Json) : datesIn (.array vs) = placed 0 (vs.map datesIn) := by
  rw [datesIn, datesInElements_eq]

theorem datesIn_date (p : Json) : datesIn (.object [(dateKey, p)]) = [([], p)] := rfl

theorem datesIn_object {ms : List (String × Json)} (h : ∀ p, ms ≠ [(dateKey, p)]) :
    datesIn (.object ms) = datesBelow ms := by
  rw [datesIn, datePayload?_eq_none_iff.mpr h, datesBelow, ← datesInMembers_eq]

/-! ### the places listed -/

theorem mem_placed {i : Nat} {dss : List (List (List Nat × Json))} {place : List Nat} {p : Json} :
    (place, p) ∈ placed i dss ↔
      ∃ j ds rest, place = (i + j) :: rest ∧ dss[j]? = some ds ∧ (rest, p) ∈ ds := by
  induction dss generalizing i with
  | nil => simp [placed]
  | cons ds dss ih =>
    rw [placed, List.mem_append, List.mem_map, ih]
    constructor
    · rintro (⟨⟨rest, q⟩, hmem, heq⟩ | ⟨j, es, rest, rfl, hes, hmem⟩)
      · cases heq
        exact ⟨0, ds, rest, rfl, rfl, hmem⟩
      · exact ⟨j + 1, es, rest, by rw [Nat.add_right_comm, Nat.add_assoc], hes, hmem⟩
    · rintro ⟨j, es, rest, rfl, hes, hmem⟩
      cases j with
      | zero =>
        cases hes
        exact .inl ⟨(rest, p), hmem, rfl⟩
      | succ j => exact .inr ⟨j, es, rest, by rw [Nat.add_right_comm, Nat.add_assoc], hes, hmem⟩

/-- the dates of elements and members, each by the number of what it is in -/
theorem mem_placed_map {α : Type} (f : α → Json) (xs : List α) {place : List Nat} {p : Json} :
    (place, p) ∈ placed 0 (xs.map fun x => datesIn (f x)) ↔
      ∃ i x rest, place = i :: rest ∧ xs[i]? = some x ∧ (rest, p) ∈ datesIn (f x) := by
  rw [mem_placed]
  constructor
  · rintro ⟨j, ds, rest, rfl, hds, hmem⟩
    rw [List.getElem?_map] at hds
    obtain ⟨x, hx, rfl⟩ := Option.map_eq_some_iff.mp hds
    exact ⟨j, x, rest, by rw [Nat.zero_add], hx, hmem⟩
  · rintro ⟨i, x, rest, rfl, hx, hmem⟩
    exact ⟨i, datesIn (f x), rest, by rw [Nat.zero_add], by rw [List.getElem?_map, hx]; rfl, hmem⟩

/-- **The dates that are listed are those in the value.** -/
theorem mem_datesIn_iff (v : Json) : ∀ {place : List Nat} {p : Json},
    (place, p) ∈ datesIn v ↔ DateAt v place p := by
  induction v using Json.inside_out with
  | null => exact ⟨fun h => (nomatch h), fun h => (nomatch h)⟩
  | boolean b => exact ⟨fun h => (nomatch h), fun h => (nomatch h)⟩
  | number n => exact ⟨fun h => (nomatch h), fun h => (nomatch h)⟩
  | string s => exact ⟨fun h => (nomatch h), fun h => (nomatch h)⟩
  | array vs ih =>
    intro place p
    rw [datesIn_array]
    refine (mem_placed_map id vs).trans ?_
    constructor
    · rintro ⟨i, v, rest, rfl, hv, hmem⟩
      exact .element hv ((ih v (List.mem_of_getElem? hv)).mp hmem)
    · intro h
      cases h with
      | @element _ i v _ rest hv h =>
        exact ⟨i, v, rest, rfl, hv, (ih v (List.mem_of_getElem? hv)).mpr h⟩
  | object ms ih =>
    intro place p
    by_cases hms : ∀ q, ms ≠ [(dateKey, q)]
    · rw [datesIn_object hms, datesBelow, mem_placed_map Prod.snd]
      constructor
      · rintro ⟨i, ⟨k, v⟩, rest, rfl, hv, hmem⟩
        exact .member hms hv ((ih _ (List.mem_of_getElem? hv)).mp hmem)
      · intro h
        cases h with
        | here => exact absurd rfl (hms p)
        | @member _ i k v _ rest _ hv h =>
          exact ⟨i, (k, v), rest, rfl, hv, (ih _ (List.mem_of_getElem? hv)).mpr h⟩
    · obtain ⟨q, hq⟩ := not_forall.mp hms
      cases not_not.mp hq
      rw [datesIn_date, List.mem_singleton]
      constructor
      · rintro ⟨⟩
        exact .here p
      · intro h
        cases h with
        | here => rfl
        | member hms => exact absurd rfl (hms q)

theorem mem_datesBelow_iff {ms : List (String × Json)} {place : List Nat} {p : Json} :
    (place, p) ∈ datesBelow ms ↔ DateBelow ms place p := by
  rw [datesBelow, mem_placed_map Prod.snd]
  constructor
  · rintro ⟨i, ⟨k, v⟩, rest, rfl, hv, hmem⟩
    exact .member hv ((mem_datesIn_iff v).mp hmem)
  · rintro ⟨hv, h⟩
    exact ⟨_, _, _, rfl, hv, (mem_datesIn_iff _).mpr h⟩

/-- dates in the order of their places -/
def InOrderOfPlace (ds : List (List Nat × Json)) : Prop := ds.Pairwise fun d e => d.1 < e.1

theorem inOrder_placed {dss : List (List (List Nat × Json))} (h : ∀ ds ∈ dss, InOrderOfPlace ds)
    (i : Nat) : InOrderOfPlace (placed i dss) := by
  induction dss generalizing i with
  | nil => exact .nil
  | cons ds dss ih =>
    obtain ⟨hds, hdss⟩ := List.forall_mem_cons.mp h
    refine List.pairwise_append.mpr ⟨?_, ih hdss (i + 1), ?_⟩
    · refine List.pairwise_map.mpr (hds.imp fun hlt => ?_)
      exact List.cons_lt_cons_iff.mpr (.inr ⟨rfl, hlt⟩)
    · intro d hd e he
      obtain ⟨d', _, rfl⟩ := List.mem_map.mp hd
      obtain ⟨j, es, rest, hplace, _, _⟩ := (mem_placed (p := e.2)).mp he
      rw [hplace]
      exact List.cons_lt_cons_iff.mpr (.inl (by omega))

/-- **Dates are listed in the order of the document.** -/
theorem inOrder_datesIn (v : Json) : InOrderOfPlace (datesIn v) := by
  have hplaced {α : Type} (f : α → Json) (xs : List α) (h : ∀ x ∈ xs, InOrderOfPlace (datesIn (f x))) :
      InOrderOfPlace (placed 0 (xs.map fun x => datesIn (f x))) :=
    inOrder_placed (List.forall_mem_map.mpr h) 0
  induction v using Json.inside_out with
  | array vs ih =>
    rw [datesIn_array]
    exact hplaced id vs ih
  | object ms ih =>
    by_cases hms : ∀ q, ms ≠ [(dateKey, q)]
    · rw [datesIn_object hms]
      exact hplaced Prod.snd ms ih
    · obtain ⟨q, hq⟩ := not_forall.mp hms
      cases not_not.mp hq
      exact List.pairwise_singleton _ _
  | _ => exact .nil

theorem inOrder_datesBelow (ms : List (String × Json)) : InOrderOfPlace (datesBelow ms) :=
  inOrder_placed (List.forall_mem_map.mpr fun m _ => inOrder_datesIn m.2) 0

/-! ## errors -/

/-- the error of a date, if it cannot be read -/
def dateFault? (d : List Nat × Json) : Option Error :=
  match timestampOf? d.2 with
  | some _ => none
  | none => some (.invalidDate (payloadText d.2))

theorem dateFault?_eq_some_iff {d : List Nat × Json} {e : Error} :
    dateFault? d = some e ↔ timestampOf? d.2 = none ∧ e = .invalidDate (payloadText d.2) := by
  unfold dateFault?
  cases timestampOf? d.2 with
  | some t => exact ⟨fun h => (nomatch h), fun h => (nomatch h.1)⟩
  | none => exact ⟨fun h => ⟨rfl, (Option.some.inj h).symm⟩, fun h => congrArg some h.2.symm⟩

/-- the errors of the dates in a value -/
def dateFaults (v : Json) : List Error := (datesIn v).filterMap dateFault?

theorem filterMap_placed (dss : List (List (List Nat × Json))) (i : Nat) :
    (placed i dss).filterMap dateFault? = dss.flatMap fun ds => ds.filterMap dateFault? := by
  induction dss generalizing i with
  | nil => rfl
  | cons ds dss ih =>
    rw [placed, List.filterMap_append, List.filterMap_map, ih, List.flatMap_cons]
    rfl

theorem dateFaults_array (vs : List Json) : dateFaults (.array vs) = vs.flatMap dateFaults := by
  rw [dateFaults, datesIn_array, filterMap_placed, List.flatMap_map]
  rfl

theorem filterMap_datesBelow (ms : List (String × Json)) :
    (datesBelow ms).filterMap dateFault? = ms.flatMap fun m => dateFaults m.2 := by
  rw [datesBelow, filterMap_placed, List.flatMap_map]
  rfl

theorem readTimestamp_yields (p : Json) :
    Yields (fun t => timestampOf? p = some t) (readTimestamp p)
      (dateFaults (.object [(dateKey, p)])) := by
  have hfaults : dateFaults (.object [(dateKey, p)]) = (dateFault? ([], p)).toList := by
    rw [dateFaults, datesIn_date]
    cases h : dateFault? ([], p) <;> simp [h]
  rw [hfaults]
  unfold readTimestamp dateFault?
  cases h : timestampOf? p with
  | some t => exact .ok rfl
  | none => exact .error _ []

/-! ## reading -/

/-- an object of the one key `$date` is read as its payload is -/
theorem ofJson_date (p : Json) :
    Operand.ofJson (.object [(dateKey, p)]) = (readTimestamp p).map .timestamp := by
  rw [Operand.ofJson, datePayload?_eq_some_iff.mpr rfl]
  simp only
  cases readTimestamp p <;> rfl

theorem ofJson_date_ok_iff {p : Json} {x : Operand} :
    Operand.ofJson (.object [(dateKey, p)]) = .ok x ↔
      ∃ t, timestampOf? p = some t ∧ x = .timestamp t := by
  rw [ofJson_date, readTimestamp]
  cases timestampOf? p with
  | none => simp [Except.map]
  | some t => simp [Except.map, eq_comm]

theorem error_of_ofJson_date {p : Json} {e : Error}
    (h : Operand.ofJson (.object [(dateKey, p)]) = .error e) :
    e = .invalidDate (payloadText p) := by
  rw [ofJson_date, readTimestamp] at h
  cases hp : timestampOf? p with
  | none =>
    rw [hp] at h
    cases h
    rfl
  | some t =>
    rw [hp] at h
    exact nomatch h

theorem ofElements_yields {vs : List Json}
    (h : ∀ v ∈ vs, Yields (Reads v) (Operand.ofJson v) (dateFaults v)) :
    Yields (List.Forall₂ Reads vs) (Operand.ofElements vs) (vs.flatMap dateFaults) := by
  induction vs with
  | nil => exact .ok .nil
  | cons v vs ih =>
    obtain ⟨hv, hvs⟩ := List.forall_mem_cons.mp h
    rw [List.flatMap_cons]
    exact hv.bind fun x hx => (ih hvs).bind_ok fun xs hxs => .ok (.cons hx hxs)

theorem ofMembers_yields {ms : List (String × Json)}
    (h : ∀ m ∈ ms, Yields (Reads m.2) (Operand.ofJson m.2) (dateFaults m.2)) :
    Yields (ReadsEntries ms) (Operand.ofMembers ms) (ms.flatMap fun m => dateFaults m.2) := by
  induction ms with
  | nil => exact .ok ⟨rfl, .nil⟩
  | cons m ms ih =>
    obtain ⟨hm, hms⟩ := List.forall_mem_cons.mp h
    rw [List.flatMap_cons]
    refine hm.bind fun x hx => (ih hms).bind_ok fun es hes => .ok ⟨?_, .cons hx hes.2⟩
    exact congrArg (m.1 :: ·) hes.1

/-- **A value is read as what it stands for, or has a date that cannot be read.** -/
theorem ofJson_yields (v : Json) : Yields (Reads v) (Operand.ofJson v) (dateFaults v) := by
  induction v using Json.inside_out with
  | null => exact .ok .null
  | boolean b => exact .ok (.boolean b)
  | number n => exact .ok (.number n)
  | string s => exact .ok (.string s)
  | array vs ih =>
    rw [Operand.ofJson, dateFaults_array]
    exact (ofElements_yields ih).bind_ok fun xs hxs => .ok (.array hxs)
  | object ms ih =>
    rw [Operand.ofJson]
    by_cases hms : ∀ q, ms ≠ [(dateKey, q)]
    · rw [datePayload?_eq_none_iff.mpr hms, dateFaults, datesIn_object hms, filterMap_datesBelow]
      exact (ofMembers_yields ih).bind_ok fun es hes => .ok (.object hms hes.1 hes.2)
    · obtain ⟨q, hq⟩ := not_forall.mp hms
      cases not_not.mp hq
      exact (readTimestamp_yields q).bind_ok fun t ht => .ok (.date ht)

theorem ofObject_yields (ms : List (String × Json)) :
    Yields (ReadsEntries ms) (Query.ofObject (.object ms))
      ((datesBelow ms).filterMap dateFault?) := by
  rw [filterMap_datesBelow]
  exact ofMembers_yields fun m _ => ofJson_yields m.2

/-- the values that are read as operands, one by one -/
theorem ofElements_of_reads {vs : List Json} {xs : List Operand} (h : List.Forall₂ Reads vs xs)
    (hvs : ∀ v ∈ vs, ∀ x, Reads v x → Operand.ofJson v = .ok x) :
    Operand.ofElements vs = .ok xs := by
  induction h with
  | nil => rfl
  | cons hx _ ih =>
    obtain ⟨hv, hvs⟩ := List.forall_mem_cons.mp hvs
    rw [Operand.ofElements, hv _ hx, ih hvs]
    rfl

theorem ofMembers_of_reads {ms : List (String × Json)} {es : List (String × Operand)}
    (h : ReadsEntries ms es) (hms : ∀ m ∈ ms, ∀ x, Reads m.2 x → Operand.ofJson m.2 = .ok x) :
    Operand.ofMembers ms = .ok es := by
  obtain ⟨hkeys, hvalues⟩ := h
  induction ms generalizing es with
  | nil =>
    cases List.map_eq_nil_iff.mp hkeys
    rfl
  | cons m ms ih =>
    obtain ⟨hm, hms⟩ := List.forall_mem_cons.mp hms
    cases es with
    | nil => exact nomatch hkeys
    | cons e es =>
      obtain ⟨hkey, hkeys⟩ := List.cons.inj hkeys
      cases hvalues with
      | cons hx hvalues =>
        rw [Operand.ofMembers, hm _ hx, ih hms hkeys hvalues]
        show Except.ok ((m.1, e.2) :: es) = _
        rw [← hkey]

theorem ofJson_of_reads (v : Json) : ∀ {x : Operand}, Reads v x → Operand.ofJson v = .ok x := by
  induction v using Json.inside_out with
  | array vs ih =>
    rintro x ⟨⟩
    next h => rw [Operand.ofJson, ofElements_of_reads h fun v hv _ => ih v hv]; rfl
  | object ms ih =>
    intro x h
    cases h with
    | date h => exact ofJson_date_ok_iff.mpr ⟨_, h, rfl⟩
    | object hms hkeys h =>
      rw [Operand.ofJson, datePayload?_eq_none_iff.mpr hms]
      show (Operand.ofMembers ms >>= _) = _
      rw [ofMembers_of_reads ⟨hkeys, h⟩ fun m hm _ => ih m hm]
      rfl
  | _ =>
    rintro x ⟨⟩
    rfl

/-! ## images -/

mutual

/-- an operand as a value. A timestamp has no value of its own, and `null` stands for it. -/
def Operand.toJson : Operand → Json
  | .null => .null
  | .boolean b => .boolean b
  | .number n => .number n
  | .string s => .string s
  | .timestamp _ => .null
  | .array xs => .array (elementsToJson xs)
  | .object es => .object (entriesToJson es)

def elementsToJson : List Operand → List Json
  | [] => []
  | x :: xs => x.toJson :: elementsToJson xs

def entriesToJson : List (String × Operand) → List (String × Json)
  | [] => []
  | (k, x) :: es => (k, x.toJson) :: entriesToJson es

end

def Query.toJson (q : Query) : Json := .object (entriesToJson q)

mutual

/-- no timestamp, and no object that has `$date` for its one key -/
def Operand.isUndated : Operand → Bool
  | .timestamp _ => false
  | .array xs => elementsUndated xs
  | .object es => es.map Prod.fst ≠ [dateKey] && entriesUndated es
  | _ => true

def elementsUndated : List Operand → Bool
  | [] => true
  | x :: xs => x.isUndated && elementsUndated xs

def entriesUndated : List (String × Operand) → Bool
  | [] => true
  | (_, x) :: es => x.isUndated && entriesUndated es

end

/-- no timestamp at any depth, and below the top no object that has `$date` for its one key -/
def Query.isUndated (q : Query) : Bool := entriesUndated q

theorem keys_entriesToJson (es : List (String × Operand)) :
    (entriesToJson es).map Prod.fst = es.map Prod.fst := by
  induction es with
  | nil => rfl
  | cons e es ih => exact congrArg (e.1 :: ·) ih

mutual

/-- **The value of an operand without dates is read as the operand.** -/
theorem reads_toJson : ∀ x : Operand, x.isUndated = true → Reads x.toJson x
  | .null, _ => .null
  | .boolean b, _ => .boolean b
  | .number n, _ => .number n
  | .string s, _ => .string s
  | .timestamp t, h => nomatch h
  | .array xs, h => .array (reads_elementsToJson xs h)
  | .object es, h => by
    obtain ⟨hkeys, hes⟩ := Bool.and_eq_true_iff.mp h
    have hdate (p : Json) : entriesToJson es ≠ [(dateKey, p)] := by
      intro he
      have hfirst := keys_entriesToJson es
      rw [he] at hfirst
      exact of_decide_eq_true hkeys hfirst.symm
    exact .object hdate (keys_entriesToJson es).symm (reads_entriesToJson es hes)

theorem reads_elementsToJson : ∀ xs : List Operand, elementsUndated xs = true →
    List.Forall₂ Reads (elementsToJson xs) xs
  | [], _ => .nil
  | x :: xs, h => by
    obtain ⟨hx, hxs⟩ := Bool.and_eq_true_iff.mp h
    exact .cons (reads_toJson x hx) (reads_elementsToJson xs hxs)

theorem reads_entriesToJson : ∀ es : List (String × Operand), entriesUndated es = true →
    List.Forall₂ Reads ((entriesToJson es).map Prod.snd) (es.map Prod.snd)
  | [], _ => .nil
  | (_, x) :: es, h => by
    obtain ⟨hx, hes⟩ := Bool.and_eq_true_iff.mp h
    exact .cons (reads_toJson x hx) (reads_entriesToJson es hes)

end

/-! ## filters -/

theorem ofObject_ok_iff {ms : List (String × Json)} {q : Query} :
    Query.ofObject (.object ms) = .ok q ↔ ReadsEntries ms q :=
  ⟨fun h => ((ofObject_yields ms).of_ok h).2,
    fun h => ofMembers_of_reads h fun m _ _ => ofJson_of_reads m.2⟩

/-- a date that cannot be read, and stands before all others of that kind -/
structure FirstUnread (ms : List (String × Json)) (place : List Nat) (payload : Json) : Prop where
  date : DateBelow ms place payload
  unread : timestampOf? payload = none
  first : ∀ place' payload', DateBelow ms place' payload' → timestampOf? payload' = none →
    place = place' ∨ place < place'

theorem firstUnread_of_error {ms : List (String × Json)} {e : Error}
    (h : Query.ofObject (.object ms) = .error e) :
    ∃ place payload, FirstUnread ms place payload ∧ e = .invalidDate (payloadText payload) := by
  have hhead := (ofObject_yields ms).of_error h
  rw [List.head?_filterMap] at hhead
  obtain ⟨before, ⟨place, payload⟩, behind, hds, hfault, hbefore⟩ :=
    List.findSome?_eq_some_iff.mp hhead
  obtain ⟨hunread, he⟩ := dateFault?_eq_some_iff.mp hfault
  have hdate : DateBelow ms place payload := by
    rw [← mem_datesBelow_iff, hds]
    simp
  refine ⟨place, payload, ⟨hdate, hunread, fun place' payload' hdate' hunread' => ?_⟩, he⟩
  have horder := inOrder_datesBelow ms
  rw [← mem_datesBelow_iff, hds] at hdate'
  rw [hds] at horder
  rcases List.mem_append.mp hdate' with hmem | hmem
  · -- the dates before it can all be read
    have hnone := hbefore _ hmem
    have hsome := (dateFault?_eq_some_iff (d := (place', payload'))).mpr ⟨hunread', rfl⟩
    rw [hnone] at hsome
    exact nomatch hsome
  · rcases List.mem_cons.mp hmem with heq | hmem
    · cases heq
      exact .inl rfl
    · exact .inr ((List.pairwise_cons.mp (List.pairwise_append.mp horder).2.1).1 _ hmem)

/-- **What is read of a filter.** A query without dates is read back from its own document. Of any
document, all members are entries in their order, at the top whatever their keys are and below it but
for dates; and reading fails exactly if there is a date that cannot be read, with the error of the
first one. -/
theorem ofObject_document :
    (∀ q : Query, q.isUndated = true → Query.ofObject q.toJson = .ok q) ∧
      ∀ ms : List (String × Json),
        (∀ q, Query.ofObject (.object ms) = .ok q ↔ ReadsEntries ms q) ∧
        ((∃ e, Query.ofObject (.object ms) = .error e) ↔
          ∃ place payload, DateBelow ms place payload ∧ timestampOf? payload = none) ∧
        ∀ e, Query.ofObject (.object ms) = .error e →
          ∃ place payload, FirstUnread ms place payload ∧
            e = .invalidDate (payloadText payload) := by
  refine ⟨fun q hq => ?_, fun ms => ⟨fun q => ofObject_ok_iff, ?_, fun e => firstUnread_of_error⟩⟩
  · exact ofObject_ok_iff.mpr ⟨(keys_entriesToJson q).symm, reads_entriesToJson q hq⟩
  · constructor
    · rintro ⟨e, he⟩
      obtain ⟨place, payload, h, _⟩ := firstUnread_of_error he
      exact ⟨place, payload, h.date, h.unread⟩
    · rintro ⟨place, payload, hdate, hunread⟩
      have hfault : dateFault? (place, payload) = some (.invalidDate (payloadText payload)) :=
        dateFault?_eq_some_iff.mpr ⟨hunread, rfl⟩
      have hmem := List.mem_filterMap.mpr ⟨_, mem_datesBelow_iff.mpr hdate, hfault⟩
      exact (ofObject_yields ms).exists_error_iff.mpr (List.ne_nil_of_mem hmem)

example : Query.ofObject (.object
    [("$date", .object [("$date", .null), ("x", .null)]),
      ("a", .array [.object [("$date", .boolean true)]]),
      ("b", .object [("$date", .null)])]) = .error (.invalidDate "true") := by
  rfl

end WhereClause.Filter
