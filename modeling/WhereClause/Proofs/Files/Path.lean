import WhereClause.Files.Path

/-!
# Files of a directory

A path continued by the name of a file has the parts of the path and the name behind them, however the
path ends. It begins where the path begins.

* `IsName`      a text that names something in a directory;
* `parts_join`  the parts of a path continued by a name.
-/

set_option autoImplicit false

namespace WhereClause.Text

/-! ## parts of two texts -/

theorem parts_append_mark (mark : Char) (cs ds : List Char) :
    parts mark (cs ++ mark :: ds) = parts mark cs ++ parts mark ds := by
  induction cs with
  | nil => exact parts_mark mark ds
  | cons c cs ih =>
    obtain ⟨p, ps, hps⟩ := List.exists_cons_of_ne_nil (parts_ne_nil mark cs)
    rw [List.cons_append, parts, parts, ih, hps]
    split
    · rfl
    · rfl

theorem parts_of_not_mem {mark : Char} {cs : List Char} (h : mark ∉ cs) :
    parts mark cs = [cs] := by
  induction cs with
  | nil => rfl
  | cons c cs ih =>
    have hc : c ≠ mark := fun hc => h (hc ▸ List.mem_cons_self)
    rw [parts, if_neg hc, ih fun hm => h (List.mem_cons_of_mem c hm)]
    rfl

end WhereClause.Text

namespace WhereClause.Files

open WhereClause.Text

/-! ## names -/

/-- a text that names something in a directory -/
structure IsName (name : String) : Prop where
  ne_empty : name ≠ ""
  no_slash : '/' ∉ name.toList
  ne_here : name ≠ here
  ne_parent : name ≠ ".."

theorem IsName.parts {name : String} (h : IsName name) : (Path.mk name).parts = [name] := by
  have hne : name.toList ≠ [] := by simpa using h.ne_empty
  show ((Text.parts '/' name.toList).filter _).map _ = _
  rw [parts_of_not_mem h.no_slash]
  simp [hne]

theorem IsName.fromRoot {name : String} (h : IsName name) : (Path.mk name).fromRoot = false := by
  have hhead : name.toList.head? ≠ some '/' :=
    fun hh => h.no_slash (List.mem_of_mem_head? (Option.mem_def.mpr hh))
  exact decide_eq_false hhead

/-! ## a path and a name -/

namespace Path

/-- the three ways in which a path is continued -/
theorem join_cases (p : Path) {name : String} (h : IsName name) :
    (p.text = "" ∧ p.join ⟨name⟩ = ⟨name⟩) ∨
      (∃ cs, p.text.toList = cs ++ ['/'] ∧ p.join ⟨name⟩ = ⟨p.text ++ name⟩) ∨
      (p.text ≠ "" ∧ p.join ⟨name⟩ = ⟨p.text ++ "/" ++ name⟩) := by
  have hroot : ¬ (Path.mk name).fromRoot = true := by
    rw [h.fromRoot]
    exact Bool.false_ne_true
  unfold join
  by_cases hp : p.text = ""
  · exact .inl ⟨hp, if_pos (.inr hp)⟩
  rw [if_neg fun hc => hc.elim hroot hp]
  by_cases hl : p.text.toList.getLast? = some '/'
  · obtain ⟨cs, hcs⟩ := List.getLast?_eq_some_iff.mp hl
    exact .inr (.inl ⟨cs, hcs, if_pos hl⟩)
  · exact .inr (.inr ⟨hp, if_neg hl⟩)

theorem fromRoot_join (p : Path) {name : String} (h : IsName name) :
    (p.join ⟨name⟩).fromRoot = p.fromRoot := by
  have hne : name.toList ≠ [] := by simpa using h.ne_empty
  obtain ⟨hp, hj⟩ | ⟨cs, hcs, hj⟩ | ⟨hp, hj⟩ := p.join_cases h
  · rw [hj, h.fromRoot, fromRoot, hp]
    rfl
  · rw [hj]
    show decide ((p.text ++ name).toList.head? = some '/') =
      decide (p.text.toList.head? = some '/')
    rw [String.toList_append, hcs]
    cases cs <;> rfl
  · have hp' : p.text.toList ≠ [] := by simpa using hp
    obtain ⟨c, cs, hcs⟩ := List.exists_cons_of_ne_nil hp'
    rw [hj]
    show decide ((p.text ++ "/" ++ name).toList.head? = some '/') =
      decide (p.text.toList.head? = some '/')
    rw [String.toList_append, String.toList_append, hcs]
    rfl

/-- **The parts of a path continued by a name** are those of the path and the name. -/
theorem parts_join (p : Path) {name : String} (h : IsName name) :
    (p.join ⟨name⟩).parts = p.parts ++ [name] := by
  have hname : ((Text.parts '/' name.toList).filter fun cs => !cs.isEmpty).map String.ofList =
      [name] := h.parts
  have hsplit (cs : List Char) :
      ((Text.parts '/' (cs ++ '/' :: name.toList)).filter fun cs => !cs.isEmpty).map String.ofList =
        ((Text.parts '/' cs).filter fun cs => !cs.isEmpty).map String.ofList ++ [name] := by
    rw [parts_append_mark, List.filter_append, List.map_append, hname]
  obtain ⟨hp, hj⟩ | ⟨cs, hcs, hj⟩ | ⟨_, hj⟩ := p.join_cases h
  · rw [hj, h.parts, parts, hp]
    rfl
  · have hlast : ((Text.parts '/' (cs ++ ['/'])).filter fun cs => !cs.isEmpty) =
        (Text.parts '/' cs).filter fun cs => !cs.isEmpty := by
      rw [parts_append_mark, List.filter_append]
      exact List.append_nil _
    rw [hj, parts, parts, String.toList_append, hcs, hlast, List.append_assoc]
    exact hsplit cs
  · rw [hj, parts, parts, String.toList_append, String.toList_append, List.append_assoc]
    exact hsplit p.text.toList

end Path

end WhereClause.Files
