/-!
# Locations

A place in a tree, given by the names on the way from the root to it. The names stand inmost first, so
that a step inwards or outwards touches one name only, and their number stands before them, so that
two locations at different depths are told apart without a look at the names.

* `Location.ext_names`     locations with the same names are the same;
* `Location.parent_child`  a step inwards and one outwards lead back.
-/

set_option autoImplicit false

namespace WhereClause.Files

/-- the names on the way from the root, inmost first, and their number -/
structure Location where
  depth : Nat
  names : List String
  length_names : names.length = depth
  deriving DecidableEq

namespace Location

def root : Location := ⟨0, [], rfl⟩

/-- one name further in -/
def child (l : Location) (name : String) : Location :=
  ⟨l.depth + 1, name :: l.names, by simp [l.length_names]⟩

/-- one name further out; the root stays where it is -/
def parent (l : Location) : Location :=
  ⟨l.depth - 1, l.names.tail, by simp [l.length_names]⟩

theorem ext_names {l k : Location} (h : l.names = k.names) : l = k := by
  obtain ⟨d, ns, hd⟩ := l
  obtain ⟨e, ms, he⟩ := k
  subst hd he
  simp only at h
  subst h
  rfl

theorem parent_root : root.parent = root := rfl

theorem parent_child (l : Location) (name : String) : (l.child name).parent = l :=
  ext_names rfl

theorem child_ne_root (l : Location) (name : String) : l.child name ≠ root := by
  intro h
  exact absurd (congrArg names h) (List.cons_ne_nil _ _)

end Location

end WhereClause.Files
