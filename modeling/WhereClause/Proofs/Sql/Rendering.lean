import WhereClause.Sql.Fragment

/-!
# Rendering in one pass

The fragments of a condition are put into one template and filled with all their values at once.
Here it is shown that this is the same as filling each fragment on its own.

* `renderSegments_append`  segments one behind the other, each with its own values;
* `render_pushText`        text at the end of a template is taken as it is;
* `render_append`          two templates, one behind the other;
* `render_eq_mapM`         fragments whose values fit their placeholders, each rendered alone, with
                           `AND` between the texts.
-/

set_option autoImplicit false

namespace WhereClause.Sql

variable (o : Options)

/-! ## segments -/

namespace Template

/-- segments rendered alike are rendered alike behind any segment -/
theorem renderSegments_cons_congr (s : Segment) {xs ys : List Segment}
    (h : ∀ vs, renderSegments o xs vs = renderSegments o ys vs) (vs : List Value) :
    renderSegments o (s :: xs) vs = renderSegments o (s :: ys) vs := by
  cases s <;> cases vs <;> simp only [renderSegments, h]

/-- text that joins the text before it is rendered as text of its own -/
theorem renderSegments_pushTextTo (t : String) (xs ss : List Segment) (vs : List Value) :
    renderSegments o (pushTextTo t xs ++ ss) vs = renderSegments o (xs ++ .text t :: ss) vs := by
  fun_induction pushTextTo t xs generalizing vs with
  | case1 h =>
    subst h
    show renderSegments o ss vs = _
    rw [List.nil_append, renderSegments]
    cases renderSegments o ss vs <;> simp [bind, Except.bind]
  | case2 => rfl
  | case3 s =>
    simp only [List.cons_append, List.nil_append, renderSegments]
    cases renderSegments o ss vs <;> simp [bind, Except.bind, String.append_assoc]
  | case4 s xs _ ih => exact renderSegments_cons_congr o s ih vs

theorem renderSegments_foldl_push (x : Template) (ss : List Segment) (vs : List Value) :
    renderSegments o (ss.foldl push x).segments vs = renderSegments o (x.segments ++ ss) vs := by
  induction ss generalizing x with
  | nil => rw [List.foldl_nil, List.append_nil]
  | cons s ss ih =>
    rw [List.foldl_cons, ih]
    cases s with
    | text t => exact renderSegments_pushTextTo o t x.segments ss vs
    | identifier =>
      show renderSegments o (x.segments ++ [.identifier] ++ ss) vs = _
      rw [← List.append_cons]
    | value =>
      show renderSegments o (x.segments ++ [.value] ++ ss) vs = _
      rw [← List.append_cons]

theorem countP_text (t : String) (xs : List Segment) :
    (.text t :: xs).countP isPlaceholder = xs.countP isPlaceholder :=
  List.countP_cons_of_neg Bool.false_ne_true

theorem countP_identifier (xs : List Segment) :
    (.identifier :: xs).countP isPlaceholder = xs.countP isPlaceholder + 1 :=
  List.countP_cons_of_pos rfl

theorem countP_value (xs : List Segment) :
    (.value :: xs).countP isPlaceholder = xs.countP isPlaceholder + 1 :=
  List.countP_cons_of_pos rfl

/-- segments one behind the other: the first ones take the first values -/
theorem renderSegments_append (xs ys : List Segment) (vs ws : List Value)
    (h : vs.length = xs.countP isPlaceholder) :
    renderSegments o (xs ++ ys) (vs ++ ws) =
      (do
        let s ← renderSegments o xs vs
        let t ← renderSegments o ys ws
        .ok (s ++ t)) := by
  induction xs generalizing vs with
  | nil =>
    have hv : vs = [] := List.length_eq_zero_iff.mp h
    subst hv
    rw [List.nil_append, List.nil_append, renderSegments]
    cases renderSegments o ys ws <;> simp [bind, Except.bind]
  | cons s xs ih =>
    cases s with
    | text t =>
      rw [countP_text] at h
      simp only [List.cons_append, renderSegments, ih vs h]
      cases renderSegments o xs vs <;> cases renderSegments o ys ws <;>
        simp [bind, Except.bind, String.append_assoc]
    | identifier =>
      rw [countP_identifier] at h
      obtain ⟨v, vs, rfl⟩ := List.exists_cons_of_length_eq_add_one h
      simp only [List.cons_append, renderSegments, ih vs (Nat.succ.inj h)]
      cases (v.identifier o.dialect).error <;> cases renderSegments o xs vs <;>
        cases renderSegments o ys ws <;> simp [bind, Except.bind, String.append_assoc]
    | value =>
      rw [countP_value] at h
      obtain ⟨v, vs, rfl⟩ := List.exists_cons_of_length_eq_add_one h
      simp only [List.cons_append, renderSegments, ih vs (Nat.succ.inj h)]
      cases v.rendered o <;> cases renderSegments o xs vs <;> cases renderSegments o ys ws <;>
        simp [bind, Except.bind, String.append_assoc]

/-! ## templates -/

theorem placeholderCount_pushTextTo (t : String) (xs : List Segment) :
    (pushTextTo t xs).countP isPlaceholder = xs.countP isPlaceholder := by
  fun_induction pushTextTo t xs with
  | case1 => rfl
  | case2 => rfl
  | case3 => rfl
  | case4 s xs _ ih => rw [List.countP_cons, List.countP_cons, ih]

theorem placeholderCount_pushText (x : Template) (t : String) :
    (x.pushText t).placeholderCount = x.placeholderCount :=
  placeholderCount_pushTextTo t x.segments

theorem placeholderCount_append (x y : Template) :
    (x.append y).placeholderCount = x.placeholderCount + y.placeholderCount := by
  unfold append placeholderCount
  generalize y.segments = ss
  induction ss generalizing x with
  | nil => rfl
  | cons s ss ih =>
    rw [List.foldl_cons, ih]
    cases s with
    | text t =>
      show (pushTextTo t x.segments).countP isPlaceholder + _ = _
      rw [placeholderCount_pushTextTo, countP_text]
    | identifier =>
      show (x.segments ++ [Segment.identifier]).countP isPlaceholder + _ = _
      rw [List.countP_append, countP_identifier, countP_identifier, List.countP_nil]
      omega
    | value =>
      show (x.segments ++ [Segment.value]).countP isPlaceholder + _ = _
      rw [List.countP_append, countP_value, countP_value, List.countP_nil]
      omega

theorem render_pushText (x : Template) (t : String) (vs : List Value)
    (h : vs.length = x.placeholderCount) :
    (x.pushText t).render o vs = (do let s ← x.render o vs; .ok (s ++ t)) := by
  have hp := renderSegments_pushTextTo o t x.segments [] vs
  have ha := renderSegments_append o x.segments [.text t] vs [] h
  rw [List.append_nil] at hp ha
  show renderSegments o (pushTextTo t x.segments) vs = _
  rw [hp, ha]
  simp [renderSegments, render, bind, Except.bind]

theorem render_append (x y : Template) (vs ws : List Value)
    (h : vs.length = x.placeholderCount) :
    (x.append y).render o (vs ++ ws) =
      (do
        let s ← x.render o vs
        let t ← y.render o ws
        .ok (s ++ t)) := by
  show renderSegments o (y.segments.foldl push x).segments (vs ++ ws) = _
  rw [renderSegments_foldl_push]
  exact renderSegments_append o x.segments y.segments vs ws h

end Template

/-! ## fragments -/

namespace Fragment

/-- a fragment rendered with nothing beside it -/
def alone : Fragment → Except RenderError String
  | .leaf template vs => template.render o vs
  | .rendered text => .ok text

/-- a leaf has as many values as placeholders -/
def Fits : Fragment → Prop
  | .leaf template vs => vs.length = template.placeholderCount
  | .rendered _ => True

theorem length_values_addTo {x : Template} {vs : List Value} (hx : vs.length = x.placeholderCount)
    {f : Fragment} (hf : f.Fits) : (vs ++ f.values).length = (f.addTo x).placeholderCount := by
  cases f with
  | leaf template ws =>
    have hw : ws.length = template.placeholderCount := hf
    show (vs ++ ws).length = (x.append template).placeholderCount
    rw [List.length_append, Template.placeholderCount_append, hx, hw]
  | rendered text =>
    show (vs ++ []).length = (x.pushText text).placeholderCount
    rw [List.append_nil, Template.placeholderCount_pushText, hx]

theorem render_addTo {x : Template} {vs : List Value} (hx : vs.length = x.placeholderCount)
    (f : Fragment) :
    (f.addTo x).render o (vs ++ f.values) =
      (do
        let s ← x.render o vs
        let t ← f.alone o
        .ok (s ++ t)) := by
  cases f with
  | leaf template ws => exact Template.render_append o x template vs ws hx
  | rendered text =>
    show (x.pushText text).render o (vs ++ []) = _
    rw [List.append_nil]
    exact Template.render_pushText o x text vs hx

/-- a fragment as the only one of its condition -/
theorem render_singleton (f : Fragment) : render o [f] = f.alone o := by
  have h0 : ([] : List Value).length = ({} : Template).placeholderCount := rfl
  have h := render_addTo o h0 f
  rw [List.nil_append] at h
  show (f.addTo {}).render o (f.values ++ []) = _
  rw [List.append_nil, h]
  cases f.alone o <;> simp [Template.render, Template.renderSegments, bind, Except.bind]

/-- the step of the loop: every further fragment stands behind an `AND` -/
theorem render_foldl (fs : List Fragment) (hf : ∀ f ∈ fs, f.Fits) (x : Template) (vs : List Value)
    (hx : vs.length = x.placeholderCount) :
    (fs.foldl (fun x f => f.addTo (x.pushText " AND ")) x).render o (vs ++ fs.flatMap values) =
      (do
        let s ← x.render o vs
        let ts ← fs.mapM (alone o)
        .ok (" AND ".intercalate (s :: ts))) := by
  induction fs generalizing x vs with
  | nil =>
    rw [List.foldl_nil, List.flatMap_nil, List.append_nil]
    cases x.render o vs <;> simp [bind, Except.bind, pure, Except.pure]
  | cons f fs ih =>
    have hp : vs.length = (x.pushText " AND ").placeholderCount := by
      rw [Template.placeholderCount_pushText, hx]
    have hs : (x.pushText " AND ").render o vs =
        (do let s ← x.render o vs; .ok (s ++ " AND ")) :=
      Template.render_pushText o x _ vs hx
    rw [List.foldl_cons, List.flatMap_cons, ← List.append_assoc,
      ih (fun g hg => hf g (List.mem_cons_of_mem f hg)) _ _
        (length_values_addTo hp (hf f List.mem_cons_self)),
      render_addTo o hp f, hs, List.mapM_cons]
    cases x.render o vs with
    | error e => rfl
    | ok s =>
      cases f.alone o with
      | error e => rfl
      | ok t =>
        cases fs.mapM (alone o) with
        | error e => rfl
        | ok ts =>
          simp only [bind, Except.bind, pure, Except.pure, String.intercalate_cons_cons]
          rw [← String.intercalate_cons_append, String.append_assoc]

/-- **Rendering in one pass**: the values of one fragment never reach the placeholders of another,
and the error of the first fragment that has one is the error of all. -/
theorem render_eq_mapM (fs : List Fragment) (hf : ∀ f ∈ fs, f.Fits) :
    render o fs = (do let ts ← fs.mapM (alone o); .ok (" AND ".intercalate ts)) := by
  cases fs with
  | nil => simp [render, conjunction, Template.render, Template.renderSegments, bind, Except.bind,
      pure, Except.pure]
  | cons f fs =>
    have h0 : ([] : List Value).length = ({} : Template).placeholderCount := rfl
    have hv := length_values_addTo h0 (hf f List.mem_cons_self)
    have hr := render_addTo o h0 f
    rw [List.nil_append] at hv hr
    show (fs.foldl _ (f.addTo {})).render o (List.flatMap values (f :: fs)) = _
    rw [List.flatMap_cons, render_foldl o fs (fun g hg => hf g (List.mem_cons_of_mem f hg)) _ _ hv,
      hr, List.mapM_cons]
    cases f.alone o with
    | error e => rfl
    | ok t => cases fs.mapM (alone o) <;> simp [bind, Except.bind, pure, Except.pure,
        Template.render, Template.renderSegments]

end Fragment

end WhereClause.Sql
