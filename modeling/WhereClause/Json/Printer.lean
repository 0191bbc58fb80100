import WhereClause.Json.Basic
import WhereClause.Json.Quoted

/-!
# Writing JSON texts

* `Json.compact`  a value on one line with no white space;
* `Json.pretty`   a value with each element and member on a line of its own.
-/

set_option autoImplicit false

namespace WhereClause.Json

/-! ## on one line -/

mutual

def compact : Json → String
  | .null => "null"
  | .boolean true => "true"
  | .boolean false => "false"
  | .number n => n.text
  | .string s => quoted s
  | .array vs => "[" ++ String.intercalate "," (compactElements vs) ++ "]"
  | .object ms => "\x7b" ++ String.intercalate "," (compactMembers ms) ++ "\x7d"

def compactElements : List Json → List String
  | [] => []
  | v :: vs => compact v :: compactElements vs

def compactMembers : List (String × Json) → List String
  | [] => []
  | (k, v) :: ms => (quoted k ++ ":" ++ compact v) :: compactMembers ms

end

/-! ## on many lines -/

/-- two blanks for each level -/
def indentation (level : Nat) : String := String.ofList (List.replicate (2 * level) ' ')

/-- items on lines of their own between brackets; nothing stands between the brackets of none -/
def block (opening closing : String) (level : Nat) : List String → String
  | [] => opening ++ closing
  | items => opening ++ "\n" ++ String.intercalate ",\n" (items.map (indentation (level + 1) ++ ·))
      ++ "\n" ++ indentation level ++ closing

mutual

/-- a value inside `level` brackets -/
def prettyAt (level : Nat) : Json → String
  | .null => "null"
  | .boolean true => "true"
  | .boolean false => "false"
  | .number n => n.text
  | .string s => quoted s
  | .array vs => block "[" "]" level (prettyElements (level + 1) vs)
  | .object ms => block "\x7b" "\x7d" level (prettyMembers (level + 1) ms)

def prettyElements (level : Nat) : List Json → List String
  | [] => []
  | v :: vs => prettyAt level v :: prettyElements level vs

def prettyMembers (level : Nat) : List (String × Json) → List String
  | [] => []
  | (k, v) :: ms => (quoted k ++ ": " ++ prettyAt level v) :: prettyMembers level ms

end

def pretty (v : Json) : String := prettyAt 0 v

end WhereClause.Json
