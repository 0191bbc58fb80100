import WhereClause.Filter.Predicate

/-!
# Compiling queries

The entries of a query become fragments, and the fragments that are left become one condition with
`AND` between them. An entry with a field has operators, an array that stands for `$in`, or a value
that stands for `$eq`. An entry with a connective has queries.

Negation is never written: below `$not`, and inside `$nor` and `$nand`, the other table of operators
is in force. Each of these, and each query inside a connective, is one level deeper, and the
configuration limits the levels.

* `compileEntries`      the fragments of the entries of a query;
* `fieldFragments`      the fragments of one field;
* `operatorFragments`   the fragments of the operators of a field;
* `connectiveParts`     the conditions inside a connective that are not empty;
* `Query.build`         the condition of a query.
-/

set_option autoImplicit false

namespace WhereClause.Filter

open WhereClause.Sql

/-- how queries are compiled -/
structure Configuration where
  options : Options := {}
  maxDepth : Nat := 32
  deriving DecidableEq

namespace Configuration

/-- an error for a level that is deeper than the limit -/
def checkDepth (c : Configuration) (depth : Nat) : Except Error Unit :=
  if c.maxDepth < depth then .error (.nestingTooDeep c.maxDepth) else .ok ()

/-- fragments as one condition -/
def join (c : Configuration) (fs : List Fragment) : Except Error String :=
  (Fragment.render c.options fs).mapError .rendering

end Configuration

/-- whether a key stands for an operator and not for a field -/
def isOperatorKey (key : String) : Bool := key.toList.head? = some '$'

/-- a condition as a fragment; an empty one is left out -/
def fragmentsOf (sql : String) : List Fragment := if sql.isEmpty then [] else [.rendered sql]

/-- a condition as a part of a connective; an empty one is left out -/
def partsOf (sql : String) : List String := if sql.isEmpty then [] else [sql]

/-- the connective of a key -/
def connectiveOf (p : Polarity) (key : String) : Except Error Connective := do
  match ← p.lookup key with
  | .connect c => .ok c
  | _ => .error (.unknownOperator key)

mutual

def compileEntries (c : Configuration) (p : Polarity) (depth : Nat) :
    List (String × Operand) → Except Error (List Fragment)
  | [] => .ok []
  | (key, x) :: rest => do
    let fs ←
      if isOperatorKey key then do
        let connective ← connectiveOf p key
        connectiveFragments c p depth connective key x
      else fieldFragments c p depth key x
    let gs ← compileEntries c p depth rest
    .ok (fs ++ gs)

def fieldFragments (c : Configuration) (p : Polarity) (depth : Nat) (field : String) :
    Operand → Except Error (List Fragment)
  | .object es => operatorFragments c p depth field es
  | .array xs => do
    .ok [← (p.comparison .isIn).predicate Operator.isIn.name field (.array xs)]
  | x => do
    .ok [← (p.comparison .equal).predicate Operator.eq.name field x]

def operatorFragments (c : Configuration) (p : Polarity) (depth : Nat) (field : String) :
    List (String × Operand) → Except Error (List Fragment)
  | [] => .ok []
  | (operator, x) :: rest => do
    let fs ←
      match ← p.lookup operator with
      | .compare comparison => do .ok [← comparison.predicate operator field x]
      | .negate => do
        c.checkDepth (depth + 1)
        let fs ← fieldFragments c p.flip (depth + 1) field x
        let sql ← c.join fs
        .ok (fragmentsOf sql)
      | .connect _ => .error (.unknownOperator operator)
    let gs ← operatorFragments c p depth field rest
    .ok (fs ++ gs)

def connectiveFragments (c : Configuration) (p : Polarity) (depth : Nat) (connective : Connective)
    (key : String) : Operand → Except Error (List Fragment)
  | .array xs => do
    let parts ← connectiveParts c (p.inside connective) depth key xs
    .ok (if parts.isEmpty then [] else [.rendered (connective.render parts)])
  | x => .error (.invalidOperand key (.noFilters x.kind))

def connectiveParts (c : Configuration) (p : Polarity) (depth : Nat) (key : String) :
    List Operand → Except Error (List String)
  | [] => .ok []
  | .null :: rest => connectiveParts c p depth key rest
  | .object es :: rest => do
    c.checkDepth (depth + 1)
    let fs ← compileEntries c p (depth + 1) es
    let sql ← c.join fs
    let parts ← connectiveParts c p depth key rest
    .ok (partsOf sql ++ parts)
  | x :: _ => .error (.invalidOperand key (.arrayOf x.kind))

end

namespace Query

/-- the condition of a query, compiled with a table from the start -/
def build (c : Configuration) (p : Polarity) (q : Query) : Except Error String := do
  c.checkDepth 0
  let fs ← compileEntries c p 0 q
  c.join fs

/-- the condition of a query, empty when there is none -/
def buildOptional (c : Configuration) (p : Polarity) : Option Query → Except Error String
  | none => .ok ""
  | some q => q.build c p

end Query

end WhereClause.Filter
