import WhereClause.Text.Digits
import WhereClause.Number.Binary64

/-!
# The shortest decimal of a floating point number

A number is written with the fewest digits that read back as it, and of those with the digits
nearest to it.

* `Binary64.onGrid?`   the nearest multiple of a power of ten that reads back;
* `readsBack_of_onGrid?`  a multiple that is found reads back;
* `Binary64.shortest`  the first such multiple, from one digit to seventeen;
* `Binary64.text`      the digits laid out: plainly from `1e-5` up to below `1e16`, with an exponent
  of ten otherwise.
-/

set_option autoImplicit false

namespace WhereClause.Number.Binary64

open WhereClause.Text

/-! ## digits -/

/-- the exponent of ten of the leading digit of a ratio other than zero -/
def leadingPower (r : Ratio) : Int :=
  if r.den ≤ r.num then ((decimal (r.num / r.den)).length : Int) - 1
  else -((decimal (r.den / r.num)).length : Int)

/-- whether `digits · 10^power` reads as the number -/
def readsBack (x : Binary64) (digits : Nat) (power : Int) : Bool :=
  ofDecimal? x.negative digits power = some x

/-- the multiple of `10^power` that reads back as the number and is nearest to it, in the middle the
even one: one of the two neighbours, if any is -/
def onGrid? (x : Binary64) (power : Int) : Option Nat :=
  let r := x.ratio.shift 10 power
  let low := r.num / r.den
  let twice := 2 * (r.num % r.den)
  let high := low + 1
  match x.readsBack low power, x.readsBack high power with
  | true, true =>
    if twice < r.den ∨ (twice = r.den ∧ low % 2 = 0) then some low else some high
  | true, false => some low
  | false, true => some high
  | false, false => none

/-- the exact decimal of a number: dividing by two is multiplying by five and dividing by ten -/
def exactDecimal (x : Binary64) : Nat × Int :=
  if 0 ≤ x.exponent then (x.mantissa * Nat.pow 2 x.exponent.toNat, 0)
  else (x.mantissa * Nat.pow 5 (-x.exponent).toNat, x.exponent)

/-- the digits of a number other than zero, and the power of ten of the last one -/
def shortest (x : Binary64) : Nat × Int :=
  let top := leadingPower x.ratio
  let found := (List.range 17).findSome? fun (i : Nat) =>
    (x.onGrid? (top - i)).map fun d => (d, top - i)
  found.getD x.exactDecimal

theorem readsBack_of_onGrid? {x : Binary64} {power : Int} {d : Nat}
    (h : x.onGrid? power = some d) : x.readsBack d power = true := by
  unfold onGrid? at h
  simp only at h
  split at h
  · split at h <;> cases h <;> assumption
  · cases h; assumption
  · cases h; assumption
  · exact nomatch h

/-! ## layout -/

/-- digits without the zeros at their end, and the power of ten of the last one left -/
def trimZeros (ds : List Char) (power : Int) : List Char × Int :=
  let kept := (ds.reverse.dropWhile (· == '0')).reverse
  (kept, power + ((ds.length - kept.length : Nat) : Int))

/-- digits as a number with a point: `power` is the power of ten of the last digit -/
def plain (ds : List Char) (power : Int) : List Char :=
  let point := ds.length + power
  if 0 ≤ power then ds ++ List.replicate power.toNat '0' ++ ['.', '0']
  else if 0 < point then ds.take point.toNat ++ '.' :: ds.drop point.toNat
  else '0' :: '.' :: List.replicate (-point).toNat '0' ++ ds

/-- digits with one of them before the point, and the exponent of ten of that one -/
def scientific (ds : List Char) (exponent : Int) : List Char :=
  let rest := ds.drop 1
  ds.take 1 ++ (if rest.isEmpty then [] else '.' :: rest) ++
    ['e', if exponent < 0 then '-' else '+'] ++ decimal exponent.natAbs

/-- the least and the greatest exponent of the leading digit that is laid out plainly -/
def plainExponents : Int × Int := (-5, 15)

/-- the text of a number other than zero, without its sign -/
def sizeText (x : Binary64) : List Char :=
  let (d, power) := x.shortest
  let (ds, power) := trimZeros (decimal d) power
  let exponent := ds.length + power - 1
  if plainExponents.1 ≤ exponent ∧ exponent ≤ plainExponents.2 then plain ds power
  else scientific ds exponent

/-- the text of a number -/
def text (x : Binary64) : String :=
  let size := if x.isZero then ['0', '.', '0'] else x.sizeText
  String.ofList (if x.negative then '-' :: size else size)

end WhereClause.Number.Binary64
