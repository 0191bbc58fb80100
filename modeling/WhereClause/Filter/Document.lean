import WhereClause.Calendar.Reader
import WhereClause.Filter.Error
import WhereClause.Filter.Query
import WhereClause.Json.Printer
import WhereClause.Json.Reader

/-!
# Filter documents

A filter is written as a JSON object. Inside it, an object with the one key `$date` is a timestamp;
every other value is taken as it is. The filter itself is never a timestamp.

* `Operand.ofJson`   an operand from a value;
* `Query.ofJson`     a query from an object, none from `null`;
* `Query.read`       a query from a text;
* `Query.readWhole`  the same with the query looked at before what stands behind it.
-/

set_option autoImplicit false

namespace WhereClause.Filter

open WhereClause.Calendar WhereClause.Text

/-! ## dates -/

/-- the key of an object that holds a date -/
def dateKey : String := "$date"

/-- the payload of members that are a date alone -/
def datePayload? : List (String × Json) → Option Json
  | [(k, v)] => if k = dateKey then some v else none
  | _ => none

/-- the timestamp of a payload: a text in one of the known forms, or milliseconds -/
def timestampOf? : Json → Option Timestamp
  | .string s => Timestamp.read? s
  | .number n => n.asInt64?.bind Timestamp.ofMilliseconds?
  | _ => none

/-- a payload as an error names it: a string without its quotes -/
def payloadText : Json → String
  | .string s => s
  | v => v.compact

def readTimestamp (payload : Json) : Except Error Timestamp :=
  match timestampOf? payload with
  | some t => .ok t
  | none => .error (.invalidDate (payloadText payload))

/-! ## operands and queries -/

mutual

def Operand.ofJson : Json → Except Error Operand
  | .null => .ok .null
  | .boolean b => .ok (.boolean b)
  | .number n => .ok (.number n)
  | .string s => .ok (.string s)
  | .array vs => do .ok (.array (← Operand.ofElements vs))
  | .object ms =>
    match datePayload? ms with
    | some payload => do .ok (.timestamp (← readTimestamp payload))
    | none => do .ok (.object (← Operand.ofMembers ms))

def Operand.ofElements : List Json → Except Error (List Operand)
  | [] => .ok []
  | v :: vs => do
    let x ← Operand.ofJson v
    let xs ← Operand.ofElements vs
    .ok (x :: xs)

/-- the members of an object as entries, in their order -/
def Operand.ofMembers : List (String × Json) → Except Error (List (String × Operand))
  | [] => .ok []
  | (k, v) :: ms => do
    let x ← Operand.ofJson v
    let es ← Operand.ofMembers ms
    .ok ((k, x) :: es)

end

namespace Query

/-- the query of an object -/
def ofObject : Json → Except Error Query
  | .object ms => Operand.ofMembers ms
  | v => .error (.notAFilter v.kind)

/-- the query of a document; `null` asks for nothing -/
def ofJson : Json → Except Error (Option Query)
  | .null => .ok none
  | v => do .ok (some (← ofObject v))

/-- the query of a text -/
def read (s : String) : Except Error Query := do
  let v ← (Json.read s).mapError .document
  ofObject v

/-! ## the query before the end of the text -/

/-- why a text read in one go holds no query -/
inductive ReadError where
  | json (e : Json.Error)
  | filter (e : Error)
  deriving DecidableEq

def ReadError.message : ReadError → String
  | .json e => e.message
  | .filter e => e.message

/-- the query of a text, where an error of the query comes before anything behind it is looked at -/
def readWhole (s : String) : Except ReadError Query := do
  let place (stop : Stop Json.Fault) : ReadError := .json (Json.Error.ofStop s.toList stop)
  let (v, rest) ← (Json.readValue Json.maxLevels s.toList).mapError place
  let q ← (ofObject v).mapError .filter
  (Json.readEnd rest).mapError place
  .ok q

end Query

end WhereClause.Filter
