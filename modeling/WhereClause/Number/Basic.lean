import WhereClause.Number.Shortest

/-!
# Numbers

A number is either an integer or a floating point number, and the two kinds stay apart: `1` and
`1.0` are written differently and are not the same.

* `Number.text`   how a number is written;
* `Number.same`   numbers of one kind and one value (zero has a sign that does not matter);
* `Number.asInt64?`  the integers of 64 bits with sign.
-/

set_option autoImplicit false

namespace WhereClause

open Number in
inductive Number where
  | integer (n : Int)
  | double (x : Binary64)
  deriving DecidableEq

namespace Number

open WhereClause.Text

/-- the digits of an integer after its sign -/
def integerText (n : Int) : List Char :=
  if n < 0 then '-' :: decimal n.natAbs else decimal n.natAbs

def text : Number → String
  | .integer n => String.ofList (integerText n)
  | .double x => x.text

def same : Number → Number → Bool
  | .integer m, .integer n => m = n
  | .double x, .double y => x.same y
  | _, _ => false

/-- an integer that fits into 64 bits with sign -/
def asInt64? : Number → Option Int
  | .integer n => if -9223372036854775808 ≤ n ∧ n < 9223372036854775808 then some n else none
  | .double _ => none

end Number

end WhereClause
