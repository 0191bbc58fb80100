import WhereClause.Filter.Operator
import WhereClause.Filter.Query
import WhereClause.Sql.Fragment

/-!
# Predicates

One comparison of one field as a fragment. A pattern is looked for anywhere in the field. A single
value is a list of one for a membership test, and a test against no values is a constant, for SQL
has no empty list.
-/

set_option autoImplicit false

namespace WhereClause.Filter

open WhereClause.Sql

/-- the value an operand stands for -/
def literalOf (operator : String) (x : Operand) : Except Error Value :=
  match x.value? with
  | some v => .ok v
  | none => .error (.invalidOperand operator (.noValue x.kind))

/-- the text that a pattern is made of -/
def patternText (operator : String) : Operand → Except Error String
  | .string s => .ok s
  | .number n => .ok n.text
  | .boolean true => .ok "true"
  | .boolean false => .ok "false"
  | x => .error (.invalidOperand operator (.noText x.kind))

/-- the members that a value is tested against -/
def membersOf : Value → List Value
  | .list vs => vs
  | v => [v]

namespace Comparison

/-- a field compared with a value -/
def leaf (c : Comparison) (field : String) (v : Value) : Fragment :=
  Fragment.ofText c.template [.string field, v]

/-- a membership test; without members it is false, and its complement true -/
def membership (c : Comparison) (field : String) : List Value → Fragment
  | [] => .rendered (if c = .isIn then "1 = 0" else "1 = 1")
  | vs => c.leaf field (.list vs)

/-- a comparison of a field with an operand; `operator` is the key it was written with -/
def predicate (c : Comparison) (operator field : String) (x : Operand) : Except Error Fragment :=
  match c with
  | .like | .notLike => do
    let s ← patternText operator x
    .ok (c.leaf field (.string ("%" ++ s ++ "%")))
  | .isIn | .notIn => do
    let v ← literalOf operator x
    .ok (c.membership field (membersOf v))
  | _ => do
    let v ← literalOf operator x
    .ok (c.leaf field v)

end Comparison

end WhereClause.Filter
