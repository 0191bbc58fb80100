import WhereClause.Entries
import WhereClause.Json.Basic
import WhereClause.Proofs.Json.Grammar
import WhereClause.Text.Parts

/-!
# Schemas

When a document is valid against a schema (draft 7), for the keywords that the schema of the settings
uses and what stands behind them there. A keyword says something of the document itself
(`Asserts`), hands it on to other schemas (`schemasOf`), hands its members on (`memberSchemasOf`),
or is an annotation. With any other keyword nothing is valid.

Numbers are the numbers that they name: `1.0` is as good an integer as `1`.

* `valid_object_iff`  what a schema asks for, keyword by keyword.
-/

set_option autoImplicit false

namespace WhereClause

/-- a number with no rounding -/
def Number.exact : Number → ℚ
  | .integer n => n
  | .double x => (if x.negative then -1 else 1) * x.mantissa * 2 ^ x.exponent

namespace Json

open WhereClause.Text

/-! ## documents -/

namespace Document

/-- whether a document has the type of a name -/
def HasType : Document → String → Prop
  | .null, name => name = "null"
  | .boolean _, name => name = "boolean"
  | .number q, name => name = "number" ∨ name = "integer" ∧ ∃ n : ℤ, q = n
  | .string _, name => name = "string"
  | .array _, name => name = "array"
  | .object _, name => name = "object"

/-- whether a document is an object with a member of a key and a value -/
def HasMember : Document → String → Document → Prop
  | .object ms, key, v => (units key.toList, v) ∈ ms
  | _, _, _ => False

end Document

/-! ## keywords -/

/-- the keywords that only say something to readers and editors -/
def annotations : List String :=
  ["$schema", "title", "description", "default", "format", "definitions"]

/-- the schema that a reference leads to: a hash and the keys on the way, with slashes between
them -/
def resolve (root : Json) (reference : String) : Option Json :=
  let step (v : Json) (key : List Char) : Option Json :=
    match v with
    | .object ms => Entries.get? (String.ofList key) ms
    | _ => none
  match parts '/' reference.toList with
  | ['#'] :: keys => keys.foldlM step root
  | _ => none

/-- what a keyword says of a document itself -/
def Asserts (root : Json) : String × Json → Document → Prop
  | ("type", .string name), v => v.HasType name
  | ("enum", .array vs), v => ∃ s, .string s ∈ vs ∧ v = .string (units s.toList)
  | ("minimum", .number n), v => ∀ q, v = .number q → n.exact ≤ q
  | ("required", .array keys), v =>
    v.HasType "object" → ∀ key, .string key ∈ keys → ∃ w, v.HasMember key w
  | ("properties", .object _), _ => True
  | ("allOf", .array _), _ => True
  | ("$ref", .string reference), _ => (resolve root reference).isSome = true
  | (keyword, _), _ => keyword ∈ annotations

/-- the schemas that a keyword hands a document on to -/
def schemasOf (root : Json) : String × Json → List Json
  | ("allOf", .array schemas) => schemas
  | ("$ref", .string reference) => (resolve root reference).toList
  | _ => []

/-- the schemas that a keyword hands the members of a document on to, by their keys -/
def memberSchemasOf : String × Json → List (String × Json)
  | ("properties", .object schemas) => schemas
  | _ => []

/-! ## validity -/

/-- a document is valid against a schema; references begin at `root` -/
inductive Valid (root : Json) : Json → Document → Prop where
  | mk {keywords : List (String × Json)} {v : Document}
      (hasserts : ∀ k ∈ keywords, Asserts root k v)
      (hplace : ∀ k ∈ keywords, ∀ s ∈ schemasOf root k, Valid root s v)
      (hmembers : ∀ k ∈ keywords, ∀ p ∈ memberSchemasOf k, ∀ w, v.HasMember p.1 w →
        Valid root p.2 w) : Valid root (.object keywords) v

theorem valid_object_iff {root : Json} {keywords : List (String × Json)} {v : Document} :
    Valid root (.object keywords) v ↔
      (∀ k ∈ keywords, Asserts root k v) ∧
        (∀ k ∈ keywords, ∀ s ∈ schemasOf root k, Valid root s v) ∧
          ∀ k ∈ keywords, ∀ p ∈ memberSchemasOf k, ∀ w, v.HasMember p.1 w → Valid root p.2 w := by
  constructor
  · rintro (⟨hasserts, hplace, hmembers⟩)
    exact ⟨hasserts, hplace, hmembers⟩
  · rintro ⟨hasserts, hplace, hmembers⟩
    exact .mk hasserts hplace hmembers

end Json

end WhereClause
