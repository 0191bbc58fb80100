import WhereClause.Proofs.Filter.Structure

/-!
# Fragments together and alone

The fragments of a condition are rendered in one pass over all their values. What comes out is the
same as if each had been rendered alone, and the fragment of a comparison is one for which this holds.

* `predicate_yields`  the fragment of a comparison has as many values as placeholders, and is rendered
                      as an atom is;
* `render_eq_alone`   fragments rendered together are the fragments rendered alone.
-/

set_option autoImplicit false

namespace WhereClause.Filter

open WhereClause.Sql

theorem predicate_yields (o : Options) (operator field : String) (x : Operand) (k : Comparison) :
    Yields (fun f => f.Fits ∧ ∃ a, k.atom? field x = some a ∧
        Fragment.render o [f] = a.piece o)
      (k.predicate operator field x) (k.faults operator x) := by
  refine .of_agree (predicate_agree o operator field x k) (print_yields o operator field x k) ?_
  rintro f t ⟨hfits, htexts⟩ ⟨a, ha, rfl⟩
  refine ⟨hfits f List.mem_cons_self, a, ha, ?_⟩
  rw [Fragment.render_singleton]
  exact (List.cons.inj htexts).1

/-- **Fragments together are the fragments alone**: their texts with `AND` between them, or the error
of the first of them that has one. What is rendered already is kept as it is, and the fragment of a
comparison has as many values as placeholders. -/
theorem render_eq_alone (o : Options) (fs : List Fragment) (hfs : ∀ f ∈ fs, f.Fits) :
    Fragment.render o fs = (do
        let ts ← fs.mapM fun f => Fragment.render o [f]
        .ok (" AND ".intercalate ts)) ∧
      (∀ e, Fragment.render o fs = .error e ↔ ∃ before f behind, fs = before ++ f :: behind ∧
        (∀ g ∈ before, ∃ t, Fragment.render o [g] = .ok t) ∧ Fragment.render o [f] = .error e) ∧
      (∀ text, Fragment.render o [.rendered text] = .ok text) ∧
      ∀ (k : Comparison) (operator field : String) (x : Operand) (f : Fragment),
        k.predicate operator field x = .ok f → f.Fits := by
  have halone : (fun f => Fragment.render o [f]) = Fragment.alone o := by
    funext f
    exact Fragment.render_singleton o f
  have hrender := Fragment.render_eq_mapM o fs hfs
  rw [← halone] at hrender
  refine ⟨hrender, ?_, ?_, ?_⟩
  · intro e
    rw [hrender, bind_ok_error_iff, mapM_error_iff]
  · intro text
    exact Fragment.render_singleton o (.rendered text)
  · intro k operator field x f hf
    exact ((predicate_yields o operator field x k).of_ok hf).2.1

/-- question marks in what is rendered already and in values are no placeholders, and a name that is
none is the error of all -/
theorem render_eq_alone_question_marks :
    let fs : List Fragment := [.rendered "?? = ? OR ???", .ofText "?? = ?" [.string "a?", .string "??"],
      .rendered "?"]
    let g : Fragment := .ofText "?? < ?" [.boolean true, .null]
    (∀ f ∈ fs ++ [g], f.Fits) ∧
      Fragment.render {} fs = .ok "?? = ? OR ??? AND `a?` = '??' AND ?" ∧
      Fragment.render {} (fs ++ [g]) = .error (.identifier ⟨"boolean"⟩) := by
  intro fs g
  have hnil {P : Fragment → Prop} : ∀ f ∈ ([] : List Fragment), P f :=
    fun _ h => absurd h List.not_mem_nil
  have hfs : ∀ f ∈ fs, f.Fits := by
    simp only [fs, List.forall_mem_cons]
    exact ⟨trivial, rfl, trivial, hnil⟩
  have hfits : ∀ f ∈ fs ++ [g], f.Fits :=
    List.forall_mem_append.mpr ⟨hfs, List.forall_mem_singleton.mpr rfl⟩
  have halone : ∀ f ∈ fs, ∃ t, Fragment.render {} [f] = .ok t := by
    simp only [fs, List.forall_mem_cons]
    exact ⟨⟨_, rfl⟩, ⟨_, rfl⟩, ⟨_, rfl⟩, hnil⟩
  refine ⟨hfits, (render_eq_alone {} fs hfs).1.trans (by rfl), ?_⟩
  exact ((render_eq_alone {} (fs ++ [g]) hfits).2.1 _).mpr ⟨fs, g, [], rfl, halone, by rfl⟩

end WhereClause.Filter
