import WhereClause.Json.Basic
import WhereClause.Json.Bracketed
import WhereClause.Json.Numeral

/-!
# Reading JSON texts

A value is read with a number of levels left for arrays and objects to nest (`readValue`). When a
key occurs twice in an object, the last value counts and the first place.

* `readValue`  a value at the front of a text;
* `Json.read`  the one value of a whole text, or the error with its place.
-/

set_option autoImplicit false

namespace WhereClause.Json

open WhereClause.Text

/-- a value whose elements and members `nested` reads; without it there is no level left -/
def readValueWith (nested : Option (Reader Fault Json)) : Reader Fault Json := fun cs =>
  match skipSpace cs with
  | [] => .error ⟨.endOfValue, [], 0⟩
  | c :: cs =>
    if c = 'n' then do
      let cs ← readWord ['u', 'l', 'l'] cs
      .ok (.null, cs)
    else if c = 't' then do
      let cs ← readWord ['r', 'u', 'e'] cs
      .ok (.boolean true, cs)
    else if c = 'f' then do
      let cs ← readWord ['a', 'l', 's', 'e'] cs
      .ok (.boolean false, cs)
    else if c = '"' then do
      let (s, cs) ← readQuoted cs
      .ok (.string s, cs)
    else if c = '-' ∨ c.isDigit then do
      let (n, cs) ← readNumber (c :: cs)
      .ok (.number n, cs)
    else if c = '[' then
      match nested with
      | none => .error ⟨.nestedTooDeep, c :: cs, 1⟩
      | some value => do
        let (vs, cs) ← bracketed squareBrackets value cs
        .ok (.array vs, cs)
    else if c = '\x7b' then
      match nested with
      | none => .error ⟨.nestedTooDeep, c :: cs, 1⟩
      | some value => do
        let (ms, cs) ← bracketed curlyBrackets (readMember readQuoted value) cs
        .ok (.object (Entries.ofPairs ms), cs)
    else .error ⟨.expectedValue, c :: cs, 1⟩

/-- a value with at most `levels` arrays and objects inside one another -/
def readValue : (levels : Nat) → Reader Fault Json
  | 0 => readValueWith none
  | levels + 1 => readValueWith (some (readValue levels))

/-- the number of arrays and objects that may stand inside one another -/
def maxLevels : Nat := 127

/-- a value and nothing behind it but white space -/
def readDocument (cs : List Char) : Except (Stop Fault) Json := do
  let (v, rest) ← readValue maxLevels cs
  readEnd rest
  .ok v

/-- the value of a text -/
def read (text : String) : Except Error Json :=
  (readDocument text.toList).mapError (Error.ofStop text.toList)

end WhereClause.Json
