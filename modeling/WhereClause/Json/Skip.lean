import WhereClause.Json.Bracketed
import WhereClause.Json.Numeral

/-!
# Skipping JSON values

A value that nobody asks for is only checked for its form. Its nesting has no limit, and some
faults are reported otherwise than in a value that is read: a bracket behind a comma is no value or
no key.
-/

set_option autoImplicit false

namespace WhereClause.Json

open WhereClause.Text

def skippedSquareBrackets : Brackets :=
  ⟨']', .endOfList, .expectedListEnd, .expectedValue, .endOfValue⟩

def skippedCurlyBrackets : Brackets :=
  ⟨'\x7d', .endOfObject, .expectedObjectEnd, .keyNotString, .endOfObject⟩

/-- the text behind a value with no more brackets inside one another than the bound is long -/
def skipNested : (bound : List Char) → Reader Fault Unit
  | [], _ => .error ⟨.endOfValue, [], 0⟩
  | _ :: bound, cs =>
    match skipSpace cs with
    | [] => .error ⟨.endOfValue, [], 0⟩
    | c :: cs =>
      if c = 'n' then do
        let cs ← readWord ['u', 'l', 'l'] cs
        .ok ((), cs)
      else if c = 't' then do
        let cs ← readWord ['r', 'u', 'e'] cs
        .ok ((), cs)
      else if c = 'f' then do
        let cs ← readWord ['a', 'l', 's', 'e'] cs
        .ok ((), cs)
      else if c = '"' then skipQuoted cs
      else if c = '-' ∨ c.isDigit then skipNumber (c :: cs)
      else if c = '[' then do
        let (_, cs) ← bracketed skippedSquareBrackets (skipNested bound) cs
        .ok ((), cs)
      else if c = '\x7b' then do
        let (_, cs) ← bracketed skippedCurlyBrackets (readMember skipQuoted (skipNested bound)) cs
        .ok ((), cs)
      else .error ⟨.expectedValue, c :: cs, 1⟩

/-- the text behind a value: a text has no more brackets inside one another than characters -/
def skipValue : Reader Fault Unit := fun cs => skipNested cs cs

end WhereClause.Json
