import WhereClause.Entries
import WhereClause.Number.Basic

/-!
# JSON values

The members of an object keep their order. That no key occurs twice is not part of the type: the
reader sees to it (`Entries.nodup_keys_ofPairs`). What is proved of values is proved of those inside
them first (`Json.inside_out`).
-/

set_option autoImplicit false

namespace WhereClause

inductive Json where
  | null
  | boolean (b : Bool)
  | number (n : Number)
  | string (s : String)
  | array (elements : List Json)
  | object (members : List (String × Json))

namespace Json

/-- the name of the kind of a value -/
def kind : Json → String
  | .null => "null"
  | .boolean _ => "boolean"
  | .number _ => "number"
  | .string _ => "string"
  | .array _ => "array"
  | .object _ => "object"

/-- values are proved of from the inside out -/
@[elab_as_elim]
theorem inside_out {motive : Json → Prop} (null : motive .null)
    (boolean : ∀ b, motive (.boolean b)) (number : ∀ n, motive (.number n))
    (string : ∀ s, motive (.string s)) (array : ∀ vs, (∀ v ∈ vs, motive v) → motive (.array vs))
    (object : ∀ ms, (∀ m ∈ ms, motive m.2) → motive (.object ms)) : ∀ v, motive v
  | .null => null
  | .boolean b => boolean b
  | .number n => number n
  | .string s => string s
  | .array vs => array vs fun v _ => inside_out null boolean number string array object v
  | .object ms => object ms fun m _ => inside_out null boolean number string array object m.2
termination_by v => sizeOf v
decreasing_by
  · next h =>
    have hlt := List.sizeOf_lt_of_mem h
    rw [Json.array.sizeOf_spec]
    omega
  · next h =>
    have hlt := List.sizeOf_lt_of_mem h
    rw [Json.object.sizeOf_spec]
    obtain ⟨k, v⟩ := m
    rw [Prod.mk.sizeOf_spec] at hlt
    show sizeOf v < _
    omega

end Json

end WhereClause
