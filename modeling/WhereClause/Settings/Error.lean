import WhereClause.Json.Error
import WhereClause.Number.Basic
import WhereClause.Settings.Basic
import WhereClause.Text.Printable

/-!
# Errors of the settings document

What can be wrong with a document: its JSON, a value of another kind than the member needs, a
member too often or not at all. Each has its words and its place.
-/

set_option autoImplicit false

namespace WhereClause.Settings

open WhereClause.Text

/-- the kind of a value that is not wanted -/
inductive Found where
  | null
  | boolean (b : Bool)
  | number (n : Number)
  | string (s : String)
  | sequence
  | map

def Found.message : Found → String
  | .null => "null"
  | .boolean true => "boolean `true`"
  | .boolean false => "boolean `false`"
  | .number (.integer n) => "integer `" ++ (Number.integer n).text ++ "`"
  | .number (.double x) => "floating point `" ++ x.text ++ "`"
  | .string s => "string " ++ shownText s
  | .sequence => "sequence"
  | .map => "map"

/-- what is wanted instead -/
inductive Expected where
  | document
  | version
  | depth
  | string
  | nothing

def Expected.message : Expected → String
  | .document => "struct ParsedConfiguration"
  | .version => "u32"
  | .depth => "usize"
  | .string => "a string"
  | .nothing => "unit"

inductive Fault where
  | json (f : Json.Fault)
  | wrongKind (found : Found) (expected : Expected)
  | outOfRange (n : Int) (expected : Expected)
  | unknownDialect (name : String)
  | missing (f : Field)
  | repeated (f : Field)
  /-- an array has no element for the version -/
  | noElements

def Fault.message : Fault → String
  | .json f => f.message
  | .wrongKind found expected =>
    "invalid type: " ++ found.message ++ ", expected " ++ expected.message
  | .outOfRange n expected =>
    "invalid value: " ++ (Found.number (.integer n)).message ++ ", expected " ++ expected.message
  | .unknownDialect name =>
    "unknown variant `" ++ name ++ "`, expected `mysql` or `postgres`"
  | .missing f => "missing field `" ++ f.name ++ "`"
  | .repeated f => "duplicate field `" ++ f.name ++ "`"
  | .noElements =>
    "invalid length 0, expected " ++ Expected.document.message ++ " with 4 elements"

structure Error where
  fault : Fault
  position : Position

def Error.message (e : Error) : String := Json.messageAt e.fault.message e.position

def Error.ofStop (text : List Char) (s : Stop Fault) : Error := ⟨s.what, s.position text⟩

end WhereClause.Settings
