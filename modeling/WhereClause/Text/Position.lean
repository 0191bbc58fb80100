/-!
# Places in a text

A reader that gives up says what is wrong and where it stood (`Stop`). The place is kept as the text
that was left, and becomes a line and a column only in the end (`Stop.position`): lines count
from 1, columns count the bytes of the text in UTF-8, and a line feed ends a line.
-/

set_option autoImplicit false

namespace WhereClause.Text

/-- the number of bytes that a text takes in UTF-8 -/
def byteLength : List Char → Nat
  | [] => 0
  | c :: cs => c.utf8Size + byteLength cs

theorem byteLength_nil : byteLength [] = 0 := rfl

theorem byteLength_cons (c : Char) (cs : List Char) :
    byteLength (c :: cs) = c.utf8Size + byteLength cs := rfl

theorem byteLength_append (a b : List Char) :
    byteLength (a ++ b) = byteLength a + byteLength b := by
  induction a with
  | nil => exact (Nat.zero_add _).symm
  | cons c a ih => rw [List.cons_append, byteLength_cons, ih, byteLength_cons, Nat.add_assoc]

/-! ## positions -/

structure Position where
  line : Nat
  column : Nat
  deriving DecidableEq

/-- where a text begins -/
def Position.first : Position := ⟨1, 0⟩

/-- where one is after some bytes of a text; never past its end -/
def Position.after (p : Position) : Nat → List Char → Position
  | 0, _ => p
  | _, [] => p
  | n, c :: cs =>
    if c = '\n' then Position.after ⟨p.line + 1, 0⟩ (n - 1) cs
    else Position.after ⟨p.line, p.column + min n c.utf8Size⟩ (n - c.utf8Size) cs

theorem Position.after_zero (p : Position) (cs : List Char) : p.after 0 cs = p := by
  unfold Position.after; rfl

theorem Position.after_nil (p : Position) (n : Nat) : p.after n [] = p := by
  cases n <;> rfl

/-! ## stops -/

/-- why and where a reader gave up: the text left, and how many of its bytes count as read -/
structure Stop (ε : Type) where
  what : ε
  rest : List Char
  ahead : Nat

/-- the same place for another reason -/
def Stop.map {ε δ : Type} (f : ε → δ) (s : Stop ε) : Stop δ := ⟨f s.what, s.rest, s.ahead⟩

/-- the place of a stop inside the whole text -/
def Stop.position {ε : Type} (text : List Char) (s : Stop ε) : Position :=
  Position.first.after (byteLength text - byteLength s.rest + s.ahead) text

/-- a reader takes a part off the front of a text and gives what it read and the text left -/
abbrev Reader (ε α : Type) := List Char → Except (Stop ε) (α × List Char)

end WhereClause.Text
