import WhereClause.Number.Basic
import WhereClause.Calendar.Timestamp
import WhereClause.Sql.Dialect

/-!
# Values in SQL

* `Value.literal?`    a value as a literal. The elements of a list stand side by side with commas
  between them, and a list inside a list stands in parentheses. A timestamp that the clocks of the zone
  cannot show has no literal, nor has a list that it stands in;
* `Value.identifier`  a string, or each string of a list, as a quoted name. What no name can be made
  of is an error, and the text before it is kept.
-/

set_option autoImplicit false

namespace WhereClause.Sql

open WhereClause.Calendar

inductive Value where
  | null
  | boolean (b : Bool)
  | number (n : Number)
  | string (s : String)
  | timestamp (t : Timestamp)
  | list (elements : List Value)

/-- how values are written: the dialect, and the zone whose clocks show instants -/
structure Options where
  dialect : Dialect := .mysql
  zone : Zone := .host
  deriving DecidableEq

namespace Value

/-- the name of the kind of a value -/
def kind : Value → String
  | .null => "null"
  | .boolean _ => "boolean"
  | .number _ => "number"
  | .string _ => "string"
  | .timestamp _ => "timestamp"
  | .list _ => "list"

/-! ## literals -/

mutual

def literal? (o : Options) : Value → Option String
  | .null => some "NULL"
  | .boolean true => some "true"
  | .boolean false => some "false"
  | .number n => some n.text
  | .string s => some (o.dialect.quoteString s)
  | .timestamp t => (t.text? o.zone).map o.dialect.quoteString
  | .list vs => (elementLiterals? o vs).map (String.intercalate ", ")

/-- the elements of a list, the lists among them in parentheses -/
def elementLiterals? (o : Options) : List Value → Option (List String)
  | [] => some []
  | .list vs :: rest => do
    let ss ← elementLiterals? o vs
    let ts ← elementLiterals? o rest
    some (("(" ++ String.intercalate ", " ss ++ ")") :: ts)
  | v :: rest => do
    let s ← literal? o v
    let ts ← elementLiterals? o rest
    some (s :: ts)

end

end Value

/-! ## names -/

/-- a value of a kind that no name can be made of -/
structure IdentifierError where
  kind : String
  deriving DecidableEq

def IdentifierError.message (e : IdentifierError) : String :=
  "a " ++ e.kind ++ " value cannot be used as an identifier"

/-- the text written up to the end or up to an error -/
structure Written where
  text : String
  error : Option IdentifierError
  deriving DecidableEq

namespace Written

/-- one text behind the other, unless the first has ended in an error -/
def append (a b : Written) : Written :=
  match a.error with
  | some _ => a
  | none => ⟨a.text ++ b.text, b.error⟩

theorem append_of_error {a : Written} {e : IdentifierError} (h : a.error = some e) (b : Written) :
    a.append b = a := by
  simp [append, h]

theorem append_assoc (a b c : Written) : (a.append b).append c = a.append (b.append c) := by
  unfold append
  cases ha : a.error <;> cases hb : b.error <;> simp [ha, hb, String.append_assoc]

/-- texts one behind the other up to the first error -/
def concat : List Written → Written
  | [] => ⟨"", none⟩
  | w :: ws => w.append (concat ws)

end Written

namespace Value

/-- a string as a quoted name -/
def segmentName (d : Dialect) : Value → Written
  | .string s => ⟨d.quoteIdentifier s, none⟩
  | v => ⟨"", some ⟨v.kind⟩⟩

/-- a value as a name, or as names with commas between them -/
def identifier (d : Dialect) : Value → Written
  | .list vs => Written.concat ((vs.map (segmentName d)).intersperse ⟨", ", none⟩)
  | v => segmentName d v

end Value

end WhereClause.Sql
