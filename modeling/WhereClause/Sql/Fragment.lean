import WhereClause.Sql.Template

/-!
# Fragments of a condition

A condition is put together from fragments that all have to hold. A leaf still has its placeholders
and the values for them; rendered text is taken as it is, whatever question marks it has.

* `Fragment.render`  all fragments in one template with `AND` between them, filled in one pass.
-/

set_option autoImplicit false

namespace WhereClause.Sql

inductive Fragment where
  | leaf (template : Template) (values : List Value)
  | rendered (text : String)

namespace Fragment

/-- a leaf with the template of a text -/
def ofText (template : String) (values : List Value) : Fragment :=
  .leaf (Template.parse template) values

/-- a template with a fragment at its end -/
def addTo (x : Template) : Fragment → Template
  | .leaf template _ => x.append template
  | .rendered text => x.pushText text

def values : Fragment → List Value
  | .leaf _ vs => vs
  | .rendered _ => []

/-- the fragments as one template -/
def conjunction : List Fragment → Template
  | [] => {}
  | f :: fs => fs.foldl (fun x f => f.addTo (x.pushText " AND ")) (f.addTo {})

theorem conjunction_nil : conjunction [] = {} := rfl

def render (o : Options) (fs : List Fragment) : Except RenderError String :=
  (conjunction fs).render o (fs.flatMap values)

end Fragment

end WhereClause.Sql
