import WhereClause.Json.Error
import WhereClause.Sql.Template

/-!
# Errors of filters

Why a document is no filter, or why a filter has no condition, each with its words (`Error.message`).
-/

set_option autoImplicit false

namespace WhereClause.Filter

open WhereClause.Sql WhereClause.Text

/-- what is wrong with the operand of an operator; each names the kind that was found -/
inductive Mismatch where
  /-- a comparison needs a value -/
  | noValue (kind : String)
  /-- a pattern needs something that has a text -/
  | noText (kind : String)
  /-- a connective needs an array -/
  | noFilters (kind : String)
  /-- a connective needs objects in its array -/
  | arrayOf (kind : String)
  deriving DecidableEq

def Mismatch.message : Mismatch → String
  | .noValue kind => "expected a value, found " ++ kind
  | .noText kind => "expected a string, number or boolean, found " ++ kind
  | .noFilters kind => "expected an array of filters, found " ++ kind
  | .arrayOf kind => "expected an array of filters, found an array of " ++ kind

inductive Error where
  | notAFilter (kind : String)
  | unknownOperator (name : String)
  | invalidOperand (operator : String) (reason : Mismatch)
  | invalidDate (text : String)
  | nestingTooDeep (limit : Nat)
  | rendering (e : RenderError)
  | document (e : Json.Error)
  deriving DecidableEq

def Error.message : Error → String
  | .notAFilter kind => "a filter must be an object, found " ++ kind
  | .unknownOperator name => "unknown operator '" ++ name ++ "'"
  | .invalidOperand operator reason =>
    "invalid operand for '" ++ operator ++ "': " ++ reason.message
  | .invalidDate text => "invalid date '" ++ text ++ "'"
  | .nestingTooDeep limit =>
    "filter is nested deeper than the limit of " ++ String.ofList (decimal limit)
  | .rendering e => e.message
  | .document e => "invalid filter document: " ++ e.message

end WhereClause.Filter
