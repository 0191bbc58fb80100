import WhereClause.Settings.Basic

/-!
# The schema of the settings document

A JSON schema (draft 7) that says which objects are settings. It is written beside the document, for
editors to read.

* `schema`      the schema as a value;
* `schemaText`  the schema as it is written.
-/

set_option autoImplicit false

namespace WhereClause.Settings

open WhereClause.Number WhereClause.Sql

/-- the least number that a member without a sign may be, which is a floating point number -/
def leastMinimum : Json := .number (.double (Binary64.zero false))

/-- what the schema says of a member -/
def memberSchema : Field → Json
  | .version => .object
    [("description", .string "Which version of the configuration format are we using"),
     ("type", .string "integer"),
     ("format", .string "uint32"),
     ("minimum", leastMinimum)]
  | .dialect => .object
    [("description", .string "The SQL dialect predicates are rendered for."),
     ("default", initial.memberJson .dialect),
     ("allOf", .array [.object [("$ref", .string "#/definitions/Dialect")]])]
  | .timeZone => .object
    [("description", .string
        ("The time zone zoned timestamps are rendered in: 'local', 'Z' or an offset such as " ++
          "'+05:30'.")),
     ("default", initial.memberJson .timeZone),
     ("type", .string "string")]
  | .maxDepth => .object
    [("description", .string
        "The deepest nesting of `$not` and connectives a filter may use."),
     ("default", initial.memberJson .maxDepth),
     ("type", .string "integer"),
     ("format", .string "uint"),
     ("minimum", leastMinimum)]

/-- what the schema says of a dialect -/
def dialectSchema : Json := .object
  [("description", .string "The SQL dialects we can render for."),
   ("type", .string "string"),
   ("enum", .array [.string Dialect.mysql.name, .string Dialect.postgres.name])]

def schema : Json := .object
  [("$schema", .string "http://json-schema.org/draft-07/schema#"),
   ("title", .string "ParsedConfiguration"),
   ("description", .string
      "The user-facing configuration, as stored in `configuration.json`."),
   ("type", .string "object"),
   ("required", .array [.string Field.version.name]),
   ("properties", .object (Field.all.map fun f => (f.name, memberSchema f))),
   ("definitions", .object [("Dialect", dialectSchema)])]

def schemaText : String := schema.pretty ++ "\n"

end WhereClause.Settings
