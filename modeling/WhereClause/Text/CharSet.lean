/-!
# Sets of characters

A set of characters is written as a list of inclusive ranges of code points.

* `CharSet.contains_cons`  a character is in a set when it is in the first range or in the others;
* `isBlank`                the characters with the white space property of Unicode;
* `isBlank_of_isWhitespace` the ASCII white space characters are among them.
-/

set_option autoImplicit false

namespace WhereClause.Text

/-- the code points from `first` to `last`, both included -/
structure CharRange where
  first : Nat
  last : Nat

/-- the characters that lie in one of the ranges -/
abbrev CharSet := List CharRange

def CharRange.contains (r : CharRange) (c : Char) : Bool :=
  r.first ≤ c.toNat && c.toNat ≤ r.last

def CharSet.contains (s : CharSet) (c : Char) : Bool :=
  s.any (CharRange.contains · c)

theorem CharSet.contains_nil (c : Char) : CharSet.contains [] c = false := rfl

theorem CharSet.contains_cons (r : CharRange) (s : CharSet) (c : Char) :
    CharSet.contains (r :: s) c = (r.contains c || CharSet.contains s c) := rfl

/-! ## white space -/

/-- the white space characters of Unicode: the controls from tab to carriage return, the blank,
the next-line control, the fixed and the zero-height spaces and the two separators -/
def blanks : CharSet :=
  [⟨0x09, 0x0D⟩, ⟨0x20, 0x20⟩, ⟨0x85, 0x85⟩, ⟨0xA0, 0xA0⟩, ⟨0x1680, 0x1680⟩, ⟨0x2000, 0x200A⟩,
   ⟨0x2028, 0x2029⟩, ⟨0x202F, 0x202F⟩, ⟨0x205F, 0x205F⟩, ⟨0x3000, 0x3000⟩]

def isBlank (c : Char) : Bool := CharSet.contains blanks c

/-- the text from its first character that is no white space on -/
def skipBlanks (cs : List Char) : List Char := cs.dropWhile isBlank

theorem isBlank_of_isWhitespace {c : Char} (h : c.isWhitespace = true) : isBlank c = true := by
  have h' : c = ' ' ∨ c = '\t' ∨ c = '\r' ∨ c = '\n' := by
    simpa [Char.isWhitespace, or_assoc] using h
  rcases h' with rfl | rfl | rfl | rfl <;> decide

theorem skipBlanks_nil : skipBlanks [] = [] := rfl

theorem skipBlanks_of_not_isBlank {c : Char} {cs : List Char} (h : isBlank c = false) :
    skipBlanks (c :: cs) = c :: cs := by
  simp [skipBlanks, h]

end WhereClause.Text
