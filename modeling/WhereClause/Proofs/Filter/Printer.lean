import WhereClause.Filter.Compile
import WhereClause.Proofs.Sql.Shown

/-!
# Printing a query directly

A second way from a query to its condition, which writes the text as it walks the entries and has
neither tables of rules nor templates. It counts the negations around it, and where the count is odd a
leaf is printed with the opposite of its operator. A timestamp may have no literal, so what is printed
is a text or the reason why there is none, and this comes out where texts are joined.

* `Comparison.opposites`  the operators by pairs of which exactly one holds;
* `Comparison.print`      one comparison as text;
* `Query.print`           a query as text;
* `Query.leaves`          the comparisons of a query in their order, with the negations around them.
-/

set_option autoImplicit false

namespace WhereClause.Sql

open WhereClause.Calendar

/-- what a membership test looks through: the elements of a list, or the value alone -/
def Value.members : Value → List Value
  | .list vs => vs
  | v => [v]

theorem Value.isShown_members {z : Zone} {v : Value} :
    (Value.list v.members).IsShown z ↔ v.IsShown z := by
  have single : (Value.list [v]).IsShown z ↔ v.IsShown z :=
    isShown_list_cons_iff.trans (and_iff_left (isShown_of_timestamps_eq_nil rfl))
  cases v with
  | list vs => exact Iff.rfl
  | _ => exact single

end WhereClause.Sql

namespace WhereClause.Filter

open WhereClause.Sql

/-! ## the operators in SQL -/

/-- a text, or why it cannot be written -/
abbrev Piece := Except RenderError String

/-- the text that an operand makes a pattern of -/
def Operand.pattern? : Operand → Option String
  | .string s => some s
  | .number n => some n.text
  | .boolean true => some "true"
  | .boolean false => some "false"
  | _ => none

namespace Comparison

/-- a comparison between a name and a value -/
def words : Comparison → String
  | equal => "="
  | notEqual => "!="
  | greater => ">"
  | greaterOrEqual => ">="
  | less => "<"
  | lessOrEqual => "<="
  | like => "LIKE"
  | notLike => "NOT LIKE"
  | isIn => "IN"
  | notIn => "NOT IN"

/-- the comparisons by pairs; of two values exactly one of a pair holds -/
def opposites : List (Comparison × Comparison) :=
  [(equal, notEqual), (less, greaterOrEqual), (greater, lessOrEqual), (like, notLike), (isIn, notIn)]

/-- the other one of the pair that a comparison is in -/
def opposite (c : Comparison) : Comparison :=
  match opposites.find? fun p => p.1 = c ∨ p.2 = c with
  | some (a, b) => if c = a then b else a
  | none => c

theorem opposite_opposite (c : Comparison) : c.opposite.opposite = c := by cases c <;> rfl

/-- whether the values stand in parentheses -/
def isMembership : Comparison → Bool
  | isIn | notIn => true
  | _ => false

/-- the comparison of a key -/
def ofKey? : String → Option Comparison
  | "$eq" => some equal
  | "$ne" => some notEqual
  | "$gt" => some greater
  | "$gte" => some greaterOrEqual
  | "$lt" => some less
  | "$lte" => some lessOrEqual
  | "$like" => some like
  | "$in" => some isIn
  | "$nin" => some notIn
  | _ => none

/-- a field, a comparison and a literal -/
def around (o : Options) (field literal : String) (c : Comparison) : String :=
  o.dialect.quoteIdentifier field ++ " " ++ c.words ++
    (if c.isMembership then " (" ++ literal ++ ")" else " " ++ literal)

/-- a field, a comparison and a value, in a calendar without ends -/
def text (o : Options) (field : String) (v : Value) (c : Comparison) : String :=
  c.around o field (v.literal o)

/-- a field, a comparison and a value -/
def piece (o : Options) (field : String) (v : Value) (c : Comparison) : Piece := do
  .ok (c.around o field (← v.rendered o))

theorem piece_eq (o : Options) (field : String) (v : Value) (c : Comparison) : c.piece o field v =
    if v.IsShown o.zone then .ok (c.text o field v) else .error .outsideCalendar := by
  rw [piece, v.rendered_eq]
  split <;> rfl

theorem text_ne_empty (o : Options) (field : String) (v : Value) (k : Comparison) :
    k.text o field v ≠ "" := by
  intro h
  unfold text around at h
  have h1 := (String.append_eq_empty_iff.mp h).1
  have h2 := (String.append_eq_empty_iff.mp h1).1
  exact absurd (String.append_eq_empty_iff.mp h2).2 (by decide)

/-- a comparison with the pattern of an operand -/
def printPattern (o : Options) (key field : String) (x : Operand) (c : Comparison) :
    Except Error Piece :=
  match x.pattern? with
  | some s => .ok (c.piece o field (.string ("%" ++ s ++ "%")))
  | none => .error (.invalidOperand key (.noText x.kind))

/-- a test whether the field is among the members of an operand; among none it never is -/
def printMembership (o : Options) (key field : String) (x : Operand) (c : Comparison) :
    Except Error Piece :=
  match x.value?.map Value.members with
  | some [] => .ok (.ok (if c = .isIn then "1 = 0" else "1 = 1"))
  | some vs => .ok (c.piece o field (.list vs))
  | none => .error (.invalidOperand key (.noValue x.kind))

/-- a comparison with the value of an operand -/
def printValue (o : Options) (key field : String) (x : Operand) (c : Comparison) :
    Except Error Piece :=
  match x.value? with
  | some v => .ok (c.piece o field v)
  | none => .error (.invalidOperand key (.noValue x.kind))

/-- a comparison of a field with an operand -/
def print (o : Options) (key field : String) (x : Operand) (c : Comparison) : Except Error Piece :=
  match c with
  | .like | .notLike => c.printPattern o key field x
  | .isIn | .notIn => c.printMembership o key field x
  | _ => c.printValue o key field x

end Comparison

/-- how a connective is written, and how many negations it puts around its filters -/
structure Form where
  negations : Nat
  opening : String
  joiner : String
  closing : String

def Form.ofKey? : String → Option Form
  | "$and" => some ⟨0, "(", ") AND (", ")"⟩
  | "$or" => some ⟨0, "((", ") OR (", "))"⟩
  | "$nor" => some ⟨1, "(", ") OR (", ")"⟩
  | "$nand" => some ⟨1, "(", ") AND (", ")"⟩
  | _ => none

/-- the parts as one text; without parts there is none -/
def Form.print (f : Form) (parts : List String) : List String :=
  if parts.isEmpty then [] else [f.opening ++ f.joiner.intercalate parts ++ f.closing]

/-! ## leaves -/

/-- one comparison of a query -/
structure Leaf where
  /-- how many negations stand around it -/
  negations : Nat
  field : String
  key : String
  operand : Operand

/-- the operator of the key, or its opposite below an odd number of negations -/
def Leaf.print (o : Options) (l : Leaf) : Except Error Piece :=
  match Comparison.ofKey? l.key with
  | none => .error (.unknownOperator l.key)
  | some c =>
    (if l.negations % 2 = 0 then c else c.opposite).print o l.key l.field l.operand

mutual

def entryLeaves (n : Nat) : List (String × Operand) → List Leaf
  | [] => []
  | (key, x) :: rest =>
    (if isOperatorKey key then connectiveLeaves n key x else fieldLeaves n key x) ++
      entryLeaves n rest

def fieldLeaves (n : Nat) (field : String) : Operand → List Leaf
  | .object es => operatorLeaves n field es
  | .array xs => [⟨n, field, "$in", .array xs⟩]
  | x => [⟨n, field, "$eq", x⟩]

def operatorLeaves (n : Nat) (field : String) : List (String × Operand) → List Leaf
  | [] => []
  | (key, x) :: rest =>
    (if key = "$not" then fieldLeaves (n + 1) field x else [⟨n, field, key, x⟩]) ++
      operatorLeaves n field rest

def connectiveLeaves (n : Nat) (key : String) : Operand → List Leaf
  | .array xs =>
    match Form.ofKey? key with
    | some f => elementLeaves (n + f.negations) xs
    | none => []
  | _ => []

def elementLeaves (n : Nat) : List Operand → List Leaf
  | [] => []
  | .object es :: rest => entryLeaves n es ++ elementLeaves n rest
  | _ :: rest => elementLeaves n rest

end

/-! ## texts -/

/-- pieces with `AND` between them, if all of them are texts -/
def joinPieces (ts : List Piece) : Except Error String := do
  .ok (" AND ".intercalate (← ts.mapM (Except.mapError .rendering)))

mutual

/-- the texts of the entries of a query below `n` negations -/
def printEntries (c : Configuration) (n depth : Nat) :
    List (String × Operand) → Except Error (List Piece)
  | [] => .ok []
  | (key, x) :: rest => do
    let ts ← (if isOperatorKey key then printConnective c n depth key x
      else printField c n depth key x)
    let us ← printEntries c n depth rest
    .ok (ts ++ us)

def printField (c : Configuration) (n depth : Nat) (field : String) :
    Operand → Except Error (List Piece)
  | .object es => printOperators c n depth field es
  | .array xs => do .ok [← Leaf.print c.options ⟨n, field, "$in", .array xs⟩]
  | x => do .ok [← Leaf.print c.options ⟨n, field, "$eq", x⟩]

def printOperators (c : Configuration) (n depth : Nat) (field : String) :
    List (String × Operand) → Except Error (List Piece)
  | [] => .ok []
  | (key, x) :: rest => do
    let ts ← (if key = "$not" then do
        c.checkDepth (depth + 1)
        let ts ← printField c (n + 1) (depth + 1) field x
        let t ← joinPieces ts
        .ok ((partsOf t).map .ok)
      else do .ok [← Leaf.print c.options ⟨n, field, key, x⟩])
    let us ← printOperators c n depth field rest
    .ok (ts ++ us)

def printConnective (c : Configuration) (n depth : Nat) (key : String) (x : Operand) :
    Except Error (List Piece) :=
  match Form.ofKey? key with
  | none => .error (.unknownOperator key)
  | some f =>
    match x with
    | .array xs => do .ok ((f.print (← printElements c (n + f.negations) depth key xs)).map .ok)
    | x => .error (.invalidOperand key (.noFilters x.kind))

def printElements (c : Configuration) (n depth : Nat) (key : String) :
    List Operand → Except Error (List String)
  | [] => .ok []
  | .null :: rest => printElements c n depth key rest
  | .object es :: rest => do
    c.checkDepth (depth + 1)
    let ts ← printEntries c n (depth + 1) es
    let t ← joinPieces ts
    let us ← printElements c n depth key rest
    .ok (partsOf t ++ us)
  | x :: _ => .error (.invalidOperand key (.arrayOf x.kind))

end

namespace Query

def leaves (n : Nat) (q : Query) : List Leaf := entryLeaves n q

/-- the condition of a query below `n` negations -/
def print (c : Configuration) (n : Nat) (q : Query) : Except Error String := do
  let ts ← printEntries c n 0 q
  joinPieces ts

end Query

end WhereClause.Filter
