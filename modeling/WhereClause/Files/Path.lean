import WhereClause.Text.Parts

/-!
# Paths

A path is text with slashes between its parts, and begins at the root if it begins with a slash.

* `Path.join`     a path continued by another; one from the root replaces it;
* `Path.parts`    the parts to go along;
* `legs`          the parts by the directories that they lead to (`flatten_legs`: none is lost).
-/

set_option autoImplicit false

namespace WhereClause.Files

open WhereClause.Text

/-- a path as it is written -/
structure Path where
  text : String
  deriving DecidableEq

namespace Path

def fromRoot (p : Path) : Bool := p.text.toList.head? = some '/'

/-- slashes in a row, and those at the end, part nothing -/
def parts (p : Path) : List String :=
  ((Text.parts '/' p.text.toList).filter fun cs => !cs.isEmpty).map String.ofList

/-- a path continued by another one -/
def join (p q : Path) : Path :=
  if q.fromRoot ∨ p.text = "" then q
  else if p.text.toList.getLast? = some '/' then ⟨p.text ++ q.text⟩
  else ⟨p.text ++ "/" ++ q.text⟩

end Path

/-! ## legs -/

/-- the part that stays where it is -/
def here : String := "."

/-- parts cut behind each one that leads somewhere; those that stay where they are go with the next
leg, or with the last one if no leg follows -/
def legs : List String → List (List String)
  | [] => []
  | part :: parts =>
    if parts.all (· = here) then [part :: parts]
    else if part = here then consFirst part (legs parts)
    else [part] :: legs parts

theorem flatten_legs (parts : List String) : (legs parts).flatten = parts := by
  induction parts with
  | nil => rfl
  | cons part parts ih =>
    unfold legs
    split
    · simp
    · split
      · rw [flatten_consFirst, ih]
      · simp [ih]

end WhereClause.Files
