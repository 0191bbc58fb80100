import WhereClause.Json.Quoted

/-!
# The parts that nested JSON texts are made of

White space, words, and items between brackets with commas between them. The items themselves are
read by a reader that is handed in, so that arrays and objects, read or skipped, share one loop.

* `skipSpace`   white space taken off the front;
* `readWord`    the rest of a word;
* `bracketed`   the items up to a closing bracket;
* `readMember`  a key, a colon and a value.
-/

set_option autoImplicit false

namespace WhereClause.Json

open WhereClause.Text

/-! ## white space and words -/

def isSpace (c : Char) : Bool := c = ' ' || c = '\n' || c = '\t' || c = '\r'

def skipSpace (cs : List Char) : List Char := cs.dropWhile isSpace

theorem skipSpace_nil : skipSpace [] = [] := rfl

theorem skipSpace_of_not_isSpace {c : Char} {cs : List Char} (h : isSpace c = false) :
    skipSpace (c :: cs) = c :: cs := by
  simp [skipSpace, h]

/-- the text behind the letters of a word -/
def readWord : (letters : List Char) → List Char → Except (Stop Fault) (List Char)
  | [], cs => .ok cs
  | _ :: _, [] => .error ⟨.endOfValue, [], 0⟩
  | l :: ls, c :: cs => if c = l then readWord ls cs else .error ⟨.expectedWord, c :: cs, 1⟩

/-- nothing but white space may follow a document -/
def readEnd (cs : List Char) : Except (Stop Fault) Unit :=
  match skipSpace cs with
  | [] => .ok ()
  | cs => .error ⟨.trailingCharacters, cs, 1⟩

/-! ## brackets -/

/-- a closing bracket, and what is wrong where items, commas and the bracket are out of order -/
structure Brackets where
  close : Char
  /-- the text ends before the bracket -/
  atEnd : Fault
  /-- neither a comma nor the bracket follows an item -/
  noComma : Fault
  /-- the bracket follows a comma -/
  closeAfterComma : Fault
  /-- the text ends behind a comma -/
  endAfterComma : Fault

def squareBrackets : Brackets :=
  ⟨']', .endOfList, .expectedListEnd, .trailingComma, .endOfValue⟩

def curlyBrackets : Brackets :=
  ⟨'\x7d', .endOfObject, .expectedObjectEnd, .trailingComma, .endOfValue⟩

/-- one item and the ones after it, read up to the closing bracket. An item takes a character at
least, so a bound as long as the text does not run out. -/
def items {α : Type} (b : Brackets) (item : Reader Fault α) :
    (bound : List Char) → Reader Fault (List α)
  | [], cs => .error ⟨b.atEnd, cs, 0⟩
  | _ :: bound, cs => do
    let (x, cs) ← item cs
    match skipSpace cs with
    | [] => .error ⟨b.atEnd, [], 0⟩
    | c :: cs =>
      if c = b.close then .ok ([x], cs)
      else if c = ',' then
        match skipSpace cs with
        | [] => .error ⟨b.endAfterComma, [], 0⟩
        | d :: cs =>
          if d = b.close then .error ⟨b.closeAfterComma, d :: cs, 1⟩
          else do
            let (xs, cs) ← items b item bound (d :: cs)
            .ok (x :: xs, cs)
      else .error ⟨b.noComma, c :: cs, 1⟩

/-- the items behind an opening bracket -/
def bracketed {α : Type} (b : Brackets) (item : Reader Fault α) : Reader Fault (List α) := fun cs =>
  match skipSpace cs with
  | [] => .error ⟨b.atEnd, [], 0⟩
  | c :: cs => if c = b.close then .ok ([], cs) else items b item (c :: cs) (c :: cs)

/-! ## members -/

/-- the text behind a colon -/
def readColon (cs : List Char) : Except (Stop Fault) (List Char) :=
  match skipSpace cs with
  | [] => .error ⟨.endOfObject, [], 0⟩
  | c :: cs => if c = ':' then .ok cs else .error ⟨.expectedColon, c :: cs, 1⟩

/-- a key in quotes, a colon and a value -/
def readMember {κ α : Type} (key : Reader Fault κ) (value : Reader Fault α) : Reader Fault (κ × α)
  | '"' :: cs => do
    let (k, cs) ← key cs
    let cs ← readColon cs
    let (v, cs) ← value cs
    .ok ((k, v), cs)
  | cs => .error ⟨.keyNotString, cs, 1⟩

end WhereClause.Json
