/-!
# Decimal digits

* `takeDigits`   cuts a text after its leading ASCII digits (`takeDigits_append`: nothing is lost);
* `digitsValue`  the number that a run of digits names;
* `decimal`      the digits of a number, `padded` the same with leading zeros
  (`digitsValue_decimal`, `digitsValue_padded`: both read back).
-/

set_option autoImplicit false

namespace WhereClause.Text

/-! ## reading -/

/-- the leading digits of a text and what follows them -/
def takeDigits (cs : List Char) : List Char × List Char :=
  (cs.takeWhile Char.isDigit, cs.dropWhile Char.isDigit)

theorem takeDigits_append (cs : List Char) : (takeDigits cs).1 ++ (takeDigits cs).2 = cs :=
  List.takeWhile_append_dropWhile

/-- the number from 0 to 9 that an ASCII digit stands for -/
def digitValue (c : Char) : Nat := c.toNat - '0'.toNat

/-- the number that a run of digits names; the empty run names 0 -/
def digitsValue (cs : List Char) : Nat := Nat.ofDigitChars 10 cs 0

/-- at least one and at most `width` leading digits as a number, and what follows them -/
def readNumber? (width : Nat) (cs : List Char) : Option (Nat × List Char) :=
  let ds := (cs.take width).takeWhile Char.isDigit
  if ds.isEmpty then none else some (digitsValue ds, cs.drop ds.length)

/-- exactly `width` leading digits as a number, and what follows them -/
def readDigits? (width : Nat) (cs : List Char) : Option (Nat × List Char) :=
  let ds := cs.take width
  if ds.length = width ∧ ds.all Char.isDigit then some (digitsValue ds, cs.drop width) else none

/-- the text behind a character, if it begins with it -/
def readChar? (c : Char) : List Char → Option (List Char)
  | d :: cs => if d = c then some cs else none
  | [] => none

/-! ## writing -/

/-- the digits of a number, without leading zeros -/
def decimal (n : Nat) : List Char := Nat.toDigits 10 n

/-- the digits of a number, filled with zeros on the left up to `width` characters -/
def padded (width n : Nat) : List Char :=
  List.replicate (width - (decimal n).length) '0' ++ decimal n

theorem digitsValue_decimal (n : Nat) : digitsValue (decimal n) = n :=
  Nat.ofDigitChars_ten_toDigits

theorem digitsValue_padded (width n : Nat) : digitsValue (padded width n) = n := by
  simp [padded, digitsValue, Nat.ofDigitChars_append, Nat.ofDigitChars_replicate_zero, decimal,
    Nat.ofDigitChars_ten_toDigits]

theorem length_padded {width n : Nat} (h : (decimal n).length ≤ width) :
    (padded width n).length = width := by
  simp [padded]
  omega

/-! ## hexadecimal -/

/-- the number from 0 to 15 that a hexadecimal digit of either case stands for -/
def hexValue? (c : Char) : Option Nat :=
  if '0' ≤ c ∧ c ≤ '9' then some (c.toNat - '0'.toNat)
  else if 'a' ≤ c ∧ c ≤ 'f' then some (c.toNat - 'a'.toNat + 10)
  else if 'A' ≤ c ∧ c ≤ 'F' then some (c.toNat - 'A'.toNat + 10)
  else none

/-- the hexadecimal digits of a number in lower case -/
def hexadecimal (n : Nat) : List Char := Nat.toDigits 16 n

end WhereClause.Text
