/-!
# Binary floating point numbers

A finite number of the 64-bit binary format is `± mantissa · 2^exponent`, in the one
representation that `Canonical` allows. All arithmetic is done on exact ratios of natural numbers
and rounded once, to the nearest number and in the middle to the one with the even mantissa.

* `Binary64.nearest?`    the number nearest to a ratio, none when it is too large;
* `Binary64.ofDecimal?`  the number nearest to `digits · 10^power`;
* `Binary64.mul?`, `Binary64.div?`  products and quotients.
-/

set_option autoImplicit false

namespace WhereClause.Number

/-! ## ratios -/

/-- the ratio of two natural numbers, the second one not zero -/
structure Ratio where
  num : Nat
  den : Nat

/-- a ratio divided by a power of `base`, of either sign -/
def Ratio.shift (r : Ratio) (base : Nat) (power : Int) : Ratio :=
  if 0 ≤ power then ⟨r.num, r.den * Nat.pow base power.toNat⟩
  else ⟨r.num * Nat.pow base (-power).toNat, r.den⟩

/-- the nearest natural number, in the middle the even one -/
def Ratio.round (r : Ratio) : Nat :=
  let q := r.num / r.den
  let twice := 2 * (r.num % r.den)
  if r.den < twice ∨ (twice = r.den ∧ q % 2 = 1) then q + 1 else q

/-! ## the format -/

/-- the mantissa has 53 bits, its leading bit set unless the exponent is the least one -/
def Canonical (mantissa : Nat) (exponent : Int) : Prop :=
  mantissa < Nat.pow 2 53 ∧ -1074 ≤ exponent ∧ exponent ≤ 971 ∧
    (Nat.pow 2 52 ≤ mantissa ∨ exponent = -1074)

instance (mantissa : Nat) (exponent : Int) : Decidable (Canonical mantissa exponent) := by
  unfold Canonical
  infer_instance

/-- the finite number `mantissa · 2^exponent`, with a sign that zero has too -/
structure Binary64 where
  negative : Bool
  mantissa : Nat
  exponent : Int
  canonical : Canonical mantissa exponent
  deriving DecidableEq

namespace Binary64

/-- zero with a sign -/
def zero (negative : Bool) : Binary64 := ⟨negative, 0, -1074, by decide⟩

def isZero (x : Binary64) : Bool := x.mantissa = 0

/-- the size of a number as a ratio -/
def ratio (x : Binary64) : Ratio := Ratio.shift ⟨x.mantissa, 1⟩ 2 (-x.exponent)

/-- two numbers are the same when they are equal or both zero, of whichever sign -/
def same (x y : Binary64) : Bool := (x.isZero && y.isZero) || x = y

def of? (negative : Bool) (mantissa : Nat) (exponent : Int) : Option Binary64 :=
  if h : Canonical mantissa exponent then some ⟨negative, mantissa, exponent, h⟩ else none

/-! ## rounding -/

/-- the exponent at which a ratio has a mantissa of 53 bits, or the least one for small ratios;
the binary logarithms of the two parts place it up to one -/
def exponentFor (r : Ratio) : Int :=
  let e := max ((r.num.log2 : Int) - (r.den.log2 : Int) - 53) (-1074)
  let scaled := r.shift 2 e
  if Nat.pow 2 53 ≤ scaled.num / scaled.den then e + 1 else e

/-- the number nearest to a ratio; a mantissa that rounds up to 54 bits moves to the next exponent,
and an exponent past the greatest one has no number -/
def nearest? (negative : Bool) (r : Ratio) : Option Binary64 :=
  if r.num = 0 then some (zero negative)
  else
    let e := exponentFor r
    let m := (r.shift 2 e).round
    if m = Nat.pow 2 53 then of? negative (Nat.pow 2 52) (e + 1) else of? negative m e

/-- the number nearest to `digits · 10^power` -/
def ofDecimal? (negative : Bool) (digits : Nat) (power : Int) : Option Binary64 :=
  nearest? negative (Ratio.shift ⟨digits, 1⟩ 10 (-power))

def mul? (x y : Binary64) : Option Binary64 :=
  nearest? (x.negative != y.negative)
    (Ratio.shift ⟨x.mantissa * y.mantissa, 1⟩ 2 (-(x.exponent + y.exponent)))

/-- the quotient by a number other than zero -/
def div? (x y : Binary64) : Option Binary64 :=
  nearest? (x.negative != y.negative)
    (Ratio.shift ⟨x.mantissa, y.mantissa⟩ 2 (y.exponent - x.exponent))

def withSign (x : Binary64) (negative : Bool) : Binary64 := ⟨negative, x.mantissa, x.exponent, x.canonical⟩

end Binary64

end WhereClause.Number
