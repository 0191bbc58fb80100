import WhereClause.Text.Parts

/-!
# Dialects of SQL

The dialects differ in how names and strings are quoted.

* `Dialect.quoteIdentifier`  a name; its dots part it into segments that are quoted each on its own;
* `Dialect.quoteString`      a string literal.

A quote inside a segment is doubled. In a MySQL string the backslash escapes; in a Postgres string
the quote is doubled and nothing else is special.
-/

set_option autoImplicit false

namespace WhereClause.Sql

open WhereClause.Text

inductive Dialect where
  | mysql
  | postgres
  deriving DecidableEq

namespace Dialect

def name : Dialect → String
  | .mysql => "mysql"
  | .postgres => "postgres"

/-- the dialect of a name -/
def ofName? (s : String) : Option Dialect :=
  if s = "mysql" then some .mysql else if s = "postgres" then some .postgres else none

theorem ofName?_name (d : Dialect) : ofName? d.name = some d := by cases d <;> rfl

theorem name_of_ofName? {s : String} {d : Dialect} (h : ofName? s = some d) : d.name = s := by
  unfold ofName? at h
  split at h
  · next hs =>
    cases h
    exact hs.symm
  · split at h
    · next hs =>
      cases h
      exact hs.symm
    · exact nomatch h

/-! ## names -/

/-- the character around a quoted segment -/
def identifierQuote : Dialect → Char
  | .mysql => '\x60'
  | .postgres => '"'

/-- a quote inside a segment is written twice -/
def doubled (quote c : Char) : List Char := if c = quote then [c, c] else [c]

def quoteSegment (d : Dialect) (cs : List Char) : List Char :=
  d.identifierQuote :: cs.flatMap (doubled d.identifierQuote) ++ [d.identifierQuote]

/-- a name with each of its segments quoted -/
def quoteIdentifier (d : Dialect) (name : String) : String :=
  String.ofList (List.intercalate ['.'] ((parts '.' name.toList).map d.quoteSegment))

/-! ## strings -/

/-- a character inside a string literal -/
def escape : Dialect → Char → List Char
  | .mysql, c =>
    if c = '\x00' then ['\\', '0']
    else if c = '\x08' then ['\\', 'b']
    else if c = '\t' then ['\\', 't']
    else if c = '\n' then ['\\', 'n']
    else if c = '\r' then ['\\', 'r']
    else if c = '\x1a' then ['\\', 'Z']
    else if c = '"' ∨ c = '\'' ∨ c = '\\' then ['\\', c]
    else [c]
  | .postgres, c => doubled '\'' c

def quoteString (d : Dialect) (s : String) : String :=
  String.ofList ('\'' :: s.toList.flatMap d.escape ++ ['\''])

end Dialect

end WhereClause.Sql
