/-!
# Parts of a text

A text cut at each place where a mark stands. There is always one part more than there are marks, and
parts may be empty.

* `parts_ne_nil`        there is a part;
* `not_mem_of_mem_parts`  no part has the mark in it;
* `intercalate_parts`   the parts with the marks between them again are the text.
-/

set_option autoImplicit false

namespace WhereClause.Text

/-- an element put in front of the first of several lists -/
def consFirst {α : Type} (x : α) : List (List α) → List (List α)
  | [] => [[x]]
  | xs :: xss => (x :: xs) :: xss

theorem flatten_consFirst {α : Type} (x : α) (xss : List (List α)) :
    (consFirst x xss).flatten = x :: xss.flatten := by
  cases xss <;> simp [consFirst]

/-- the parts of a text between the marks -/
def parts (mark : Char) : List Char → List (List Char)
  | [] => [[]]
  | c :: cs => if c = mark then [] :: parts mark cs else consFirst c (parts mark cs)

theorem parts_nil (mark : Char) : parts mark [] = [[]] := rfl

theorem parts_mark (mark : Char) (cs : List Char) :
    parts mark (mark :: cs) = [] :: parts mark cs := by
  simp [parts]

theorem parts_ne_nil (mark : Char) (cs : List Char) : parts mark cs ≠ [] := by
  cases cs with
  | nil => simp [parts]
  | cons c cs =>
    unfold parts
    split
    · simp
    · cases parts mark cs <;> simp [consFirst]

theorem not_mem_of_mem_parts {mark : Char} {cs p : List Char} (h : p ∈ parts mark cs) :
    mark ∉ p := by
  induction cs generalizing p with
  | nil =>
    rw [parts_nil, List.mem_singleton] at h
    simp [h]
  | cons c cs ih =>
    have hne := parts_ne_nil mark cs
    unfold parts at h
    generalize parts mark cs = ps at ih hne h
    cases ps with
    | nil => exact absurd rfl hne
    | cons q qs =>
      split at h
      · rcases List.mem_cons.mp h with rfl | h
        · exact List.not_mem_nil
        · exact ih h
      · next hc =>
        rcases List.mem_cons.mp h with rfl | h
        · have hq : mark ∉ q := ih List.mem_cons_self
          simp [hq, Ne.symm hc]
        · exact ih (List.mem_cons_of_mem q h)

theorem intercalate_parts (mark : Char) (cs : List Char) :
    List.intercalate [mark] (parts mark cs) = cs := by
  induction cs with
  | nil => rfl
  | cons c cs ih =>
    have hne := parts_ne_nil mark cs
    unfold parts
    generalize parts mark cs = ps at ih hne
    cases ps with
    | nil => exact absurd rfl hne
    | cons p ps =>
      split
      · next h =>
        subst h
        rw [← ih]
        cases ps <;> simp [List.intercalate]
      · rw [← ih]
        cases ps <;> simp [List.intercalate, consFirst]

end WhereClause.Text
