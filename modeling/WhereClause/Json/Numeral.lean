import WhereClause.Number.Basic
import WhereClause.Json.Error

/-!
# JSON numbers

A numeral is scanned first (`scanNumeral`) and valued second (`Numeral.value`).

A numeral with neither fraction nor exponent is an integer if it fits into 64 bits, with a sign if
it is negative. Every other numeral is a floating point number: its digits are gathered in a
significand of 64 bits, and the significand is multiplied or divided by a power of ten with one
rounding. A digit that the significand has no room for counts as a power of ten before the
point, and is dropped behind it.
-/

set_option autoImplicit false

namespace WhereClause.Json

open WhereClause.Text WhereClause.Number

/-- a numeral cut into its parts; the digits of fraction and exponent are missing with them -/
structure Numeral where
  negative : Bool
  whole : List Char
  fraction : Option (List Char)
  exponent : Option (Bool × List Char)

/-! ## scanning -/

/-- the digits before the point; a leading zero stands alone -/
def scanWhole (atEnd : Fault) : Reader Fault (List Char)
  | [] => .error ⟨atEnd, [], 0⟩
  | c :: cs =>
    if c = '0' then
      match cs with
      | d :: rest => if d.isDigit then .error ⟨.invalidNumber, d :: rest, 1⟩ else .ok (['0'], d :: rest)
      | [] => .ok (['0'], [])
    else if c.isDigit then .ok (takeDigits (c :: cs))
    else .error ⟨.invalidNumber, c :: cs, 1⟩

/-- the digits that have to follow a point or the start of an exponent -/
def scanDigits (atEnd : Fault) : Reader Fault (List Char)
  | [] => .error ⟨atEnd, [], 0⟩
  | c :: cs =>
    if c.isDigit then .ok (takeDigits (c :: cs)) else .error ⟨.invalidNumber, c :: cs, 1⟩

def scanFraction (atEnd : Fault) : Reader Fault (Option (List Char))
  | '.' :: cs => do
    let (ds, rest) ← scanDigits atEnd cs
    .ok (some ds, rest)
  | cs => .ok (none, cs)

/-- whether an exponent is negative, and the text behind its sign -/
def scanSign : List Char → Bool × List Char
  | '-' :: cs => (true, cs)
  | '+' :: cs => (false, cs)
  | cs => (false, cs)

def scanExponent (atEnd : Fault) : Reader Fault (Option (Bool × List Char))
  | c :: cs =>
    if c = 'e' ∨ c = 'E' then do
      let (negative, cs) := scanSign cs
      let (ds, rest) ← scanDigits atEnd cs
      .ok (some (negative, ds), rest)
    else .ok (none, c :: cs)
  | [] => .ok (none, [])

/-- a numeral; `atEnd` is reported where the text ends inside it -/
def scanNumeral (atEnd : Fault) : Reader Fault Numeral := fun cs => do
  let (negative, cs) :=
    match cs with
    | '-' :: cs => (true, cs)
    | cs => (false, cs)
  let (whole, cs) ← scanWhole atEnd cs
  let (fraction, cs) ← scanFraction atEnd cs
  let (exponent, cs) ← scanExponent atEnd cs
  .ok (⟨negative, whole, fraction, exponent⟩, cs)

/-! ## gathering digits -/

/-- the greatest significand -/
def maxSignificand : Nat := Nat.pow 2 64 - 1

/-- the significand with the digits before the point, and how many of them had no room -/
def gatherWhole : (significand : Nat) → List Char → Nat × Nat
  | s, [] => (s, 0)
  | s, c :: cs =>
    let next := s * 10 + digitValue c
    if next ≤ maxSignificand then gatherWhole next cs else (s, cs.length + 1)

/-- the significand with digits behind the point, and how many of them it took -/
def gatherFraction : (significand : Nat) → List Char → Nat × Nat
  | s, [] => (s, 0)
  | s, c :: cs =>
    let next := s * 10 + digitValue c
    if next ≤ maxSignificand then
      let (t, taken) := gatherFraction next cs
      (t, taken + 1)
    else (s, 0)

/-- the digits of an exponent as a number of 31 bits; past that, the digits left -/
def gatherExponent : (exponent : Nat) → List Char → Except (List Char) Nat
  | e, [] => .ok e
  | e, c :: cs =>
    let next := e * 10 + digitValue c
    if next < Nat.pow 2 31 then gatherExponent next cs else .error cs

/-! ## scaling -/

/-- the number nearest to a power of ten, which is exact up to `10^22` -/
def powerOfTen? (power : Nat) : Option Binary64 := Binary64.ofDecimal? false 1 power

/-- a significand times a power of ten, none when the product is too large. The quotient by a power
past `10^308` takes two steps; past `10^616` it is zero, the significand being below `10^20`. -/
def scaled? (significand : Nat) (power : Int) : Option Binary64 := do
  if significand = 0 then some (Binary64.zero false)
  else
    let s ← Binary64.ofDecimal? false significand 0
    if 308 < power then none
    else if 0 ≤ power then s.mul? (← powerOfTen? power.toNat)
    else if -308 ≤ power then s.div? (← powerOfTen? (-power).toNat)
    else if -616 ≤ power then
      let s ← s.div? (← powerOfTen? 308)
      s.div? (← powerOfTen? (-power - 308).toNat)
    else some (Binary64.zero false)

/-! ## values -/

/-- the integer that a significand stands for, if it is held as one -/
def Numeral.integer? (negative : Bool) (significand : Nat) : Option Int :=
  if negative then
    if significand = 0 ∨ Nat.pow 2 63 < significand then none else some (-significand)
  else some significand

/-- the value of a numeral that `rest` follows -/
def Numeral.value (x : Numeral) (rest : List Char) : Except (Stop Fault) Number :=
  let (whole, dropped) := gatherWhole 0 x.whole
  let (significand, taken) := gatherFraction whole (x.fraction.getD [])
  let start : Int := (dropped : Int) - taken
  let double (power : Int) : Except (Stop Fault) Number :=
    match scaled? significand power with
    | some d => .ok (.double (d.withSign x.negative))
    | none => .error ⟨.numberOutOfRange, rest, 0⟩
  match x.exponent with
  | some (negative, ds) =>
    match gatherExponent 0 ds with
    | .ok e => double (if negative then start - e else start + e)
    | .error left =>
      if significand ≠ 0 ∧ ¬ negative then .error ⟨.numberOutOfRange, left ++ rest, 0⟩
      else .ok (.double (Binary64.zero x.negative))
  | none =>
    if x.fraction.isNone ∧ dropped = 0 then
      match Numeral.integer? x.negative significand with
      | some n => .ok (.integer n)
      | none => double 0
    else double start

def readNumber : Reader Fault Number := fun cs => do
  let (x, rest) ← scanNumeral .endOfValue cs
  let n ← x.value rest
  .ok (n, rest)

def skipNumber : Reader Fault Unit := fun cs => do
  let (_, rest) ← scanNumeral .invalidNumber cs
  .ok ((), rest)

end WhereClause.Json
