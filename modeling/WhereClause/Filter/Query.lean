import WhereClause.Entries
import WhereClause.Sql.Value

/-!
# Queries

A query is a list of entries: a field or a connective, and an operand for it. The order of the
entries is the order of the conditions in the text. Each key stands once (`Entries.insert`).

* `Operand.value?`   an operand as a value; an object, or an array that holds one, is none;
* `Operand.same`     equality that does not mind the order of entries at any level.
-/

set_option autoImplicit false

namespace WhereClause.Filter

open WhereClause.Calendar WhereClause.Sql

/-- what stands beside a key -/
inductive Operand where
  | null
  | boolean (b : Bool)
  | number (n : Number)
  | string (s : String)
  | timestamp (t : Timestamp)
  | array (elements : List Operand)
  /-- the operators of a field, or a query inside a connective -/
  | object (entries : List (String × Operand))

abbrev Query := Entries String Operand

namespace Operand

/-- the name of the kind of an operand -/
def kind : Operand → String
  | .null => "null"
  | .boolean _ => "boolean"
  | .number _ => "number"
  | .string _ => "string"
  | .timestamp _ => "date"
  | .array _ => "array"
  | .object _ => "object"

/-! ## values -/

mutual

/-- the value that an operand stands for -/
def value? : Operand → Option Value
  | .null => some .null
  | .boolean b => some (.boolean b)
  | .number n => some (.number n)
  | .string s => some (.string s)
  | .timestamp t => some (.timestamp t)
  | .array xs => (values? xs).map .list
  | .object _ => none

def values? : List Operand → Option (List Value)
  | [] => some []
  | x :: xs =>
    match value? x, values? xs with
    | some v, some vs => some (v :: vs)
    | _, _ => none

end

/-! ## sameness -/

mutual

def same : Operand → Operand → Bool
  | .null, .null => true
  | .boolean a, .boolean b => a = b
  | .number m, .number n => m.same n
  | .string s, .string t => s = t
  | .timestamp s, .timestamp t => s.same t
  | .array xs, .array ys => sameElements xs ys
  | .object es, .object fs => es.length = fs.length && sameEntries es fs
  | _, _ => false

def sameElements : List Operand → List Operand → Bool
  | [], [] => true
  | x :: xs, y :: ys => same x y && sameElements xs ys
  | _, _ => false

/-- every entry has its like among the others -/
def sameEntries : List (String × Operand) → List (String × Operand) → Bool
  | [], _ => true
  | (k, x) :: es, fs =>
    (match Entries.get? k fs with
     | some y => same x y
     | none => false) && sameEntries es fs

end

end Operand

namespace Query

/-- a query of the one entry given -/
def single (key : String) (operand : Operand) : Query := [(key, operand)]

/-- the query with an entry put in, and the operand that stood there -/
def insert (key : String) (operand : Operand) (q : Query) : Query × Option Operand :=
  (Entries.insert key operand q, Entries.get? key q)

/-- the query with an entry put in, to be followed by others -/
def having (key : String) (operand : Operand) (q : Query) : Query := (insert key operand q).1

/-- the query of a list of keys and operands -/
def ofPairs (ps : List (String × Operand)) : Query := Entries.ofPairs ps

/-- the same entries in any order -/
def same (p q : Query) : Bool := (Operand.object p).same (.object q)

end Query

end WhereClause.Filter
