import WhereClause.Filter.Error

/-!
# Operators

There are two tables of operators, and each is the dual of the other: where one has a comparison, the
other has its complement. Negation and the connectives are the same in both, for they speak of
whichever table is in force.

* `Comparison.complement_complement`, `Polarity.flip_flip`, `Rule.dual_dual`  twice over is nothing;
* `Operator.ofName?_name`  an operator is found by its name;
* `Polarity.rule_flip`     the rule in the other table is the dual rule.
-/

set_option autoImplicit false

namespace WhereClause.Filter

/-! ## comparisons -/

inductive Comparison where
  | equal
  | notEqual
  | greater
  | greaterOrEqual
  | less
  | lessOrEqual
  | like
  | notLike
  | isIn
  | notIn
  deriving DecidableEq

namespace Comparison

/-- the comparison that holds when this one does not -/
def complement : Comparison → Comparison
  | equal => notEqual
  | notEqual => equal
  | greater => lessOrEqual
  | lessOrEqual => greater
  | greaterOrEqual => less
  | less => greaterOrEqual
  | like => notLike
  | notLike => like
  | isIn => notIn
  | notIn => isIn

theorem complement_complement (c : Comparison) : c.complement.complement = c := by cases c <;> rfl

theorem complement_ne (c : Comparison) : c.complement ≠ c := by cases c <;> decide

/-- the comparison of a field and a value as a template -/
def template : Comparison → String
  | equal => "?? = ?"
  | notEqual => "?? != ?"
  | greater => "?? > ?"
  | greaterOrEqual => "?? >= ?"
  | less => "?? < ?"
  | lessOrEqual => "?? <= ?"
  | like => "?? LIKE ?"
  | notLike => "?? NOT LIKE ?"
  | isIn => "?? IN (?)"
  | notIn => "?? NOT IN (?)"

end Comparison

/-! ## connectives -/

inductive Connective where
  | and
  | or
  | nor
  | nand
  deriving DecidableEq

namespace Connective

/-- whether the filters inside are negated -/
def negates : Connective → Bool
  | and => false
  | or => false
  | nor => true
  | nand => true

/-- the text between two parts -/
def joiner : Connective → String
  | and => ") AND ("
  | or => ") OR ("
  | nor => ") OR ("
  | nand => ") AND ("

/-- the text before the first part and behind the last one -/
def wrapping : Connective → String × String
  | and => ("(", ")")
  | or => ("((", "))")
  | nor => ("(", ")")
  | nand => ("(", ")")

/-- the parts, each inside parentheses, as one text -/
def render (c : Connective) (parts : List String) : String :=
  c.wrapping.1 ++ String.intercalate c.joiner parts ++ c.wrapping.2

end Connective

/-! ## rules -/

/-- what a table has for an operator -/
inductive Rule where
  /-- one comparison of the field -/
  | compare (c : Comparison)
  /-- the field with the other table -/
  | negate
  /-- a list of filters -/
  | connect (c : Connective)
  deriving DecidableEq

def Rule.dual : Rule → Rule
  | .compare c => .compare c.complement
  | r => r

theorem Rule.dual_dual (r : Rule) : r.dual.dual = r := by
  cases r <;> simp [Rule.dual, Comparison.complement_complement]

/-! ## names -/

inductive Operator where
  | eq
  | ne
  | gt
  | gte
  | lt
  | lte
  | like
  | isIn
  | nin
  | not
  | and
  | or
  | nor
  | nand
  deriving DecidableEq

namespace Operator

def name : Operator → String
  | eq => "$eq"
  | ne => "$ne"
  | gt => "$gt"
  | gte => "$gte"
  | lt => "$lt"
  | lte => "$lte"
  | like => "$like"
  | isIn => "$in"
  | nin => "$nin"
  | not => "$not"
  | and => "$and"
  | or => "$or"
  | nor => "$nor"
  | nand => "$nand"

def all : List Operator :=
  [eq, ne, gt, gte, lt, lte, like, isIn, nin, not, and, or, nor, nand]

theorem mem_all (o : Operator) : o ∈ all := by cases o <;> decide

/-- the operator of a name -/
def ofName? (s : String) : Option Operator := all.find? fun o => o.name = s

theorem ofName?_name (o : Operator) : ofName? o.name = some o := by cases o <;> decide

theorem name_of_ofName? {s : String} {o : Operator} (h : ofName? s = some o) : o.name = s := by
  simpa using List.find?_some h

/-- what an operator means in the direct table -/
def rule : Operator → Rule
  | eq => .compare .equal
  | ne => .compare .notEqual
  | gt => .compare .greater
  | gte => .compare .greaterOrEqual
  | lt => .compare .less
  | lte => .compare .lessOrEqual
  | like => .compare .like
  | isIn => .compare .isIn
  | nin => .compare .notIn
  | not => .negate
  | and => .connect .and
  | or => .connect .or
  | nor => .connect .nor
  | nand => .connect .nand

end Operator

/-! ## tables -/

/-- which of the two tables is in force -/
inductive Polarity where
  | direct
  | negated
  deriving DecidableEq

namespace Polarity

def flip : Polarity → Polarity
  | direct => negated
  | negated => direct

theorem flip_flip (p : Polarity) : p.flip.flip = p := by cases p <;> rfl

/-- what a table has in the place of a comparison -/
def comparison : Polarity → Comparison → Comparison
  | direct, c => c
  | negated, c => c.complement

theorem comparison_flip (p : Polarity) (c : Comparison) :
    p.flip.comparison c = (p.comparison c).complement := by
  cases p <;> simp [comparison, flip, Comparison.complement_complement]

/-- the rule of an operator in a table -/
def rule (p : Polarity) (o : Operator) : Rule :=
  match o.rule with
  | .compare c => .compare (p.comparison c)
  | r => r

theorem rule_flip (p : Polarity) (o : Operator) : p.flip.rule o = (p.rule o).dual := by
  unfold rule
  cases o.rule <;> simp [Rule.dual, comparison_flip]

/-- the rule that a table has under a name -/
def lookup (p : Polarity) (name : String) : Except Error Rule :=
  match Operator.ofName? name with
  | some o => .ok (p.rule o)
  | none => .error (.unknownOperator name)

/-- the table that filters inside a connective are compiled with -/
def inside (p : Polarity) (c : Connective) : Polarity := if c.negates then p.flip else p

end Polarity

end WhereClause.Filter
