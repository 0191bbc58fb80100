import WhereClause.Sql.Value

/-!
# Text built up step by step

A builder holds the text so far, and each step only adds to its end. A value without a literal ends
the program.
-/

set_option autoImplicit false

namespace WhereClause.Sql

/-- the text of a statement so far -/
structure Builder where
  text : String := ""
  deriving DecidableEq

namespace Builder

/-- text that is taken as it is -/
def append (b : Builder) (text : String) : Builder := ⟨b.text ++ text⟩

/-- a value as a literal, if it has one -/
def appendValue (o : Options) (b : Builder) (v : Value) : Option Builder :=
  (v.literal? o).map b.append

/-- a value as a name; after an error the builder holds what was written before it -/
def appendIdentifier (d : Dialect) (b : Builder) (v : Value) :
    Builder × Option IdentifierError :=
  let w := v.identifier d
  (b.append w.text, w.error)

end Builder

end WhereClause.Sql
