import Mathlib.Data.List.Chain
import WhereClause.Proofs.Sql.Rendering

/-!
# Templates one behind the other

Text is joined to the text before it, so a template has one form however it has been put together: no
text in it is empty, and no two texts are neighbours. In this form templates are a monoid, and
rendering goes along with it.

* `pushText_cases`     text at the end of a template, by what stands there;
* `IsNormal`, `Built`  the form, and the templates that can be put together (`Built.isNormal`);
* `append_assoc`, `empty_append`  the monoid;
* `pushRuns_runs_append`  texts cut into runs one behind the other, if no run of marks goes on from one
                          into the other;
* `append_laws`        all of it.
-/

set_option autoImplicit false

namespace WhereClause.Sql.Template

/-! ## text at the end -/

theorem pushTextTo_concat_text (ss : List Segment) (s t : String) :
    pushTextTo t (ss ++ [.text s]) = ss ++ [.text (s ++ t)] := by
  induction ss with
  | nil => rfl
  | cons a ss ih =>
    have hne : ss ++ [Segment.text s] ≠ [] := List.concat_ne_nil _ ss
    rw [List.cons_append, pushTextTo, ih, List.cons_append]
    exact fun _ _ h => absurd h hne

theorem pushTextTo_of_no_text {ss : List Segment} (h : ∀ s, ss.getLast? ≠ some (.text s))
    (t : String) : pushTextTo t ss = ss ++ if t = "" then [] else [.text t] := by
  fun_induction pushTextTo t ss with
  | case1 ht => rw [if_pos ht, List.append_nil]
  | case2 ht => rw [if_neg ht, List.nil_append]
  | case3 s => exact absurd rfl (h s)
  | case4 a ss hne ih =>
    have hlast : ∀ s, ss.getLast? ≠ some (.text s) := by
      intro s hs
      cases ss with
      | nil => cases hs
      | cons b ss => exact h s (by rw [List.getLast?_cons_cons, hs])
    rw [ih hlast, List.cons_append]

/-- text at the end of a template joins the text that stands there; otherwise it is a segment of its
own, unless it is empty -/
theorem pushText_cases (x : Template) :
    (∃ ss s, x = ⟨ss ++ [.text s]⟩ ∧ ∀ t, x.pushText t = ⟨ss ++ [.text (s ++ t)]⟩) ∨
      (∀ s, x.segments.getLast? ≠ some (.text s)) ∧
        ∀ t, x.pushText t = ⟨x.segments ++ if t = "" then [] else [.text t]⟩ := by
  obtain ⟨xs⟩ := x
  by_cases h : ∃ s, xs.getLast? = some (.text s)
  · obtain ⟨s, hs⟩ := h
    obtain ⟨ss, rfl⟩ := List.getLast?_eq_some_iff.mp hs
    exact .inl ⟨ss, s, rfl, fun t => congrArg mk (pushTextTo_concat_text ss s t)⟩
  · have hno : ∀ s, xs.getLast? ≠ some (.text s) := fun s hs => h ⟨s, hs⟩
    exact .inr ⟨hno, fun t => congrArg mk (pushTextTo_of_no_text hno t)⟩

theorem pushText_empty (x : Template) : x.pushText "" = x := by
  obtain ⟨ss, s, rfl, ht⟩ | ⟨-, ht⟩ := pushText_cases x
  · rw [ht, String.append_empty]
  · rw [ht, if_pos rfl, List.append_nil]

/-- two texts pushed in turn are one text pushed -/
theorem pushText_pushText (x : Template) (s t : String) :
    (x.pushText s).pushText t = x.pushText (s ++ t) := by
  obtain ⟨ss, r, rfl, hs⟩ | ⟨-, hs⟩ := pushText_cases x
  · rw [hs, hs]
    exact congrArg mk ((pushTextTo_concat_text ss (r ++ s) t).trans (by rw [String.append_assoc]))
  · by_cases h : s = ""
    · subst h
      rw [pushText_empty, String.empty_append]
    · have hst : s ++ t ≠ "" := fun he => h (String.append_eq_empty_iff.mp he).1
      rw [hs, hs, if_neg h, if_neg hst]
      exact congrArg mk (pushTextTo_concat_text x.segments s t)

/-! ## the normal form -/

/-- no text is empty, and no two texts are neighbours -/
structure IsNormal (x : Template) : Prop where
  filled : .text "" ∉ x.segments
  apart : x.segments.IsChain fun a b => isPlaceholder a = true ∨ isPlaceholder b = true

/-- the templates that are put together from no segments and from texts, by pushing text and
templates; a template may be pushed to itself -/
inductive Built : Template → Prop where
  | empty : Built {}
  | parse (s : String) : Built (parse s)
  | pushText {x : Template} (h : Built x) (t : String) : Built (x.pushText t)
  | append {x y : Template} (h : Built x) (h' : Built y) : Built (x.append y)

namespace IsNormal

theorem empty : IsNormal {} := ⟨List.not_mem_nil, .nil⟩

theorem concat {ss : List Segment} {s : Segment} (h : IsNormal ⟨ss⟩) (hs : s ≠ .text "")
    (hlast : ∀ a ∈ ss.getLast?, isPlaceholder a = true ∨ isPlaceholder s = true) :
    IsNormal ⟨ss ++ [s]⟩ := by
  refine ⟨?_, List.isChain_append.mpr ⟨h.apart, List.isChain_singleton s, ?_⟩⟩
  · intro hm
    rcases List.mem_append.mp hm with hm | hm
    · exact h.filled hm
    · exact hs (List.mem_singleton.mp hm).symm
  · intro a ha b hb
    cases hb
    exact hlast a ha

/-- what a template in normal form is in front of its last segment -/
theorem of_concat {ss : List Segment} {s : Segment} (h : IsNormal ⟨ss ++ [s]⟩) :
    IsNormal ⟨ss⟩ ∧ s ≠ .text "" ∧
      ∀ a ∈ ss.getLast?, isPlaceholder a = true ∨ isPlaceholder s = true := by
  obtain ⟨hss, -, hlast⟩ := List.isChain_append.mp h.apart
  refine ⟨⟨fun hm => h.filled (List.mem_append_left _ hm), hss⟩, ?_, fun a ha => hlast a ha s rfl⟩
  rintro rfl
  exact h.filled (List.mem_append_right ss List.mem_cons_self)

theorem pushText {x : Template} (h : x.IsNormal) (t : String) : (x.pushText t).IsNormal := by
  obtain ⟨ss, s, rfl, ht⟩ | ⟨hno, ht⟩ := pushText_cases x
  · obtain ⟨hss, hs, hlast⟩ := h.of_concat
    have hst : Segment.text (s ++ t) ≠ .text "" := by
      intro he
      have hempty := (String.append_eq_empty_iff.mp (Segment.text.inj he)).1
      exact hs (congrArg Segment.text hempty)
    rw [ht]
    exact hss.concat hst hlast
  · rw [ht]
    split
    · rwa [List.append_nil]
    · next hne =>
      refine h.concat (fun he => hne (Segment.text.inj he)) fun a ha => .inl ?_
      cases a with
      | text s => exact absurd ha (hno s)
      | _ => rfl

/-- a step of pushing a template -/
theorem push {x : Template} (h : x.IsNormal) (s : Segment) : (x.push s).IsNormal := by
  cases s with
  | text t => exact h.pushText t
  | _ => exact h.concat (fun he => nomatch he) fun _ _ => .inr rfl

theorem foldl_push {x : Template} (h : x.IsNormal) (ss : List Segment) :
    (ss.foldl Template.push x).IsNormal := by
  induction ss generalizing x with
  | nil => exact h
  | cons s ss ih => exact ih (h.push s)

end IsNormal

/-! ## runs -/

/-- the segments of runs at the end of a template -/
def pushRuns (x : Template) (rs : List (List Char)) : Template :=
  rs.foldl (fun x run => x.push (segmentOf run)) x

theorem pushRuns_cons (x : Template) (r : List Char) (rs : List (List Char)) :
    pushRuns x (r :: rs) = pushRuns (x.push (segmentOf r)) rs := rfl

theorem pushRuns_eq_append (x : Template) (rs : List (List Char)) :
    pushRuns x rs = x.append ⟨rs.map segmentOf⟩ := by
  rw [pushRuns, append, List.foldl_map]

/-- whatever is put together is in normal form -/
theorem Built.isNormal {x : Template} (h : Built x) : x.IsNormal := by
  induction h with
  | empty => exact .empty
  | parse s =>
    show (pushRuns {} (runs s.toList)).IsNormal
    rw [pushRuns_eq_append]
    exact IsNormal.empty.foldl_push _
  | pushText _ t ih => exact ih.pushText t
  | @append x y _ _ ih _ => exact ih.foldl_push y.segments

/-! ## the monoid -/

theorem append_push (x y : Template) (s : Segment) : x.append (y.push s) = (x.append y).push s := by
  cases s with
  | text t =>
    show x.append (y.pushText t) = (x.append y).pushText t
    obtain ⟨ss, r, rfl, ht⟩ | ⟨-, ht⟩ := pushText_cases y
    · rw [ht]
      simp only [append, List.foldl_append, List.foldl_cons, List.foldl_nil]
      exact (pushText_pushText _ r t).symm
    · rw [ht, append, List.foldl_append]
      split
      · next he =>
        subst he
        exact (pushText_empty _).symm
      · rfl
  | _ =>
    show x.append ⟨y.segments ++ [_]⟩ = _
    rw [append, List.foldl_append]
    rfl

/-- a template pushed behind others, segment by segment -/
theorem append_foldl_push (x y : Template) (ss : List Segment) :
    x.append (ss.foldl push y) = ss.foldl push (x.append y) := by
  induction ss generalizing y with
  | nil => rfl
  | cons s ss ih => rw [List.foldl_cons, ih, append_push, List.foldl_cons]

theorem append_assoc (x y z : Template) : (x.append y).append z = x.append (y.append z) :=
  (append_foldl_push x y z.segments).symm

theorem append_empty (x : Template) : x.append {} = x := rfl

/-- a segment at the end of a template in normal form is pushed as it is -/
theorem push_eq_of_isNormal {ss : List Segment} {s : Segment} (h : IsNormal ⟨ss ++ [s]⟩) :
    push ⟨ss⟩ s = ⟨ss ++ [s]⟩ := by
  obtain ⟨-, hs, hlast⟩ := h.of_concat
  cases s with
  | text t =>
    have hno : ∀ r, ss.getLast? ≠ some (.text r) := fun r hr => by
      rcases hlast _ hr with h | h <;> exact nomatch h
    have ht : t ≠ "" := fun he => hs (congrArg Segment.text he)
    exact congrArg mk ((pushTextTo_of_no_text hno t).trans (by rw [if_neg ht]))
  | _ => rfl

theorem empty_append {x : Template} (h : x.IsNormal) : append {} x = x := by
  obtain ⟨ss⟩ := x
  -- from the last segment to the first, as the form is that of every front part
  induction ss using List.reverseRecOn with
  | nil => rfl
  | append_singleton ss s ih =>
    have hpush : append {} ⟨ss ++ [s]⟩ = (append {} ⟨ss⟩).push s := by
      rw [append, List.foldl_append]
      rfl
    rw [hpush, ih h.of_concat.1, push_eq_of_isNormal h]

/-! ## texts one behind the other -/

/-- the first run begins with the first character -/
theorem exists_runs_cons (c : Char) (cs : List Char) : ∃ r rs, runs (c :: cs) = (c :: r) :: rs := by
  rw [runs_cons]
  unfold consRun
  split
  · split <;> exact ⟨_, _, rfl⟩
  · exact ⟨_, _, rfl⟩

/-- question marks in front of something else are a run -/
theorem runs_marks {ms cs : List Char} (hne : ms ≠ []) (hms : ∀ c ∈ ms, isMark c = true)
    (hcs : ∀ c ∈ cs.head?, isMark c = false) : runs (ms ++ cs) = ms :: runs cs := by
  induction ms with
  | nil => exact absurd rfl hne
  | cons c ms ih =>
    obtain ⟨hc, hms⟩ := List.forall_mem_cons.mp hms
    rw [List.cons_append, runs_cons]
    cases ms with
    | nil =>
      cases cs with
      | nil => rfl
      | cons d cs =>
        obtain ⟨r, rs, hruns⟩ := exists_runs_cons d cs
        rw [List.nil_append, hruns, consRun, hc, hcs d rfl, if_neg Bool.noConfusion]
    | cons d ms =>
      have hd : isMark d = true := hms d List.mem_cons_self
      rw [ih (List.cons_ne_nil d ms) hms, consRun, hc, hd, if_pos rfl]

theorem segmentOf_cons {c : Char} (hc : isMark c = false) (r : List Char) :
    segmentOf (c :: r) = .text (String.ofList (c :: r)) := by
  have hne : c ≠ '?' := of_decide_eq_false hc
  rw [segmentOf, if_neg (fun h => hne (List.cons.inj h).1),
    if_neg (fun h => hne (List.cons.inj h).1)]

/-- a character that is no mark is pushed as text, whatever run it belongs to -/
theorem pushRuns_runs_cons (x : Template) {c : Char} (hc : isMark c = false) (cs : List Char) :
    pushRuns x (runs (c :: cs)) = pushRuns (x.pushText (String.ofList [c])) (runs cs) := by
  have halone (rs : List (List Char)) :
      pushRuns x ([c] :: rs) = pushRuns (x.pushText (String.ofList [c])) rs := by
    rw [pushRuns_cons, segmentOf_cons hc]
    rfl
  rw [runs_cons]
  unfold consRun
  split
  · next d r rs hruns =>
    split
    · next hd =>
      have htext : (x.pushText (String.ofList [c])).pushText (String.ofList (d :: r)) =
          x.pushText (String.ofList (c :: d :: r)) := by
        rw [pushText_pushText, ← String.ofList_append]
        rfl
      rw [hruns, pushRuns_cons, pushRuns_cons, segmentOf_cons hc, segmentOf_cons (hd ▸ hc)]
      show pushRuns (x.pushText _) rs = pushRuns ((x.pushText _).pushText _) rs
      rw [htext]
    · rw [hruns]
      exact halone _
  · exact halone _

/-- a text is the marks that it begins with and something else -/
theorem exists_marks (cs : List Char) : ∃ ms rest, cs = ms ++ rest ∧
    (∀ c ∈ ms, isMark c = true) ∧ ∀ c ∈ rest.head?, isMark c = false := by
  induction cs with
  | nil => exact ⟨[], [], rfl, by simp, by simp⟩
  | cons c cs ih =>
    by_cases hc : isMark c = true
    · obtain ⟨ms, rest, rfl, hms, hrest⟩ := ih
      exact ⟨c :: ms, rest, rfl, List.forall_mem_cons.mpr ⟨hc, hms⟩, hrest⟩
    · exact ⟨[], c :: cs, rfl, by simp, by simpa using hc⟩

theorem isMark_iff {c : Char} : isMark c = true ↔ c = '?' := decide_eq_true_iff

/-- **Texts one behind the other** are cut as each of them is, unless a run of marks goes on from the
first into the second. -/
theorem pushRuns_runs_append (x : Template) {cs ds : List Char}
    (h : cs.getLast? ≠ some '?' ∨ ds.head? ≠ some '?') :
    pushRuns x (runs (cs ++ ds)) = pushRuns (pushRuns x (runs cs)) (runs ds) := by
  -- either the marks that the text begins with are taken off its front, or a character that is none
  induction hn : cs.length using Nat.strongRecOn generalizing x cs with
  | ind n ih =>
    subst hn
    obtain ⟨ms, rest, rfl, hms, hrest⟩ := exists_marks cs
    by_cases hne : ms = []
    · subst hne
      cases rest with
      | nil => rfl
      | cons c rest =>
        have hc := hrest c rfl
        have h' : rest.getLast? ≠ some '?' ∨ ds.head? ≠ some '?' := by
          cases rest with
          | nil => exact .inl (by simp)
          | cons d rest => exact h
        rw [List.nil_append, List.cons_append, pushRuns_runs_cons x hc, pushRuns_runs_cons x hc]
        exact ih rest.length (Nat.lt_succ_self _) _ h' rfl
    · have hlast : rest = [] → (ms ++ rest).getLast? = some '?' := by
        rintro rfl
        obtain ⟨ms, c, rfl⟩ := (List.eq_nil_or_concat ms).resolve_left hne
        simpa [isMark_iff] using hms c (by simp)
      have hbehind : ∀ c ∈ (rest ++ ds).head?, isMark c = false := by
        cases rest with
        | nil =>
          have hds : ds.head? ≠ some '?' := h.resolve_left fun hno => hno (hlast rfl)
          intro c hc
          exact Bool.eq_false_iff.mpr fun hm => hds (isMark_iff.mp hm ▸ hc)
        | cons d rest => exact hrest
      have h' : rest.getLast? ≠ some '?' ∨ ds.head? ≠ some '?' := by
        cases rest with
        | nil => exact .inl (by simp)
        | cons d rest =>
          rwa [List.getLast?_append_of_ne_nil ms (List.cons_ne_nil d rest)] at h
      have hlt : rest.length < (ms ++ rest).length := by
        have := List.length_pos_iff.mpr hne
        rw [List.length_append]
        omega
      rw [List.append_assoc, runs_marks hne hms hbehind, runs_marks hne hms hrest, pushRuns_cons,
        pushRuns_cons]
      exact ih rest.length hlt _ h' rfl

/-- a template is put behind another one by pushing the runs of its text -/
theorem append_parse (x : Template) (s : String) :
    x.append (parse s) = pushRuns x (runs s.toList) := by
  show x.append (pushRuns {} (runs s.toList)) = _
  rw [pushRuns_eq_append, pushRuns_eq_append]
  exact append_foldl_push x {} _

theorem parse_append (t u : String) (h : t.toList.getLast? ≠ some '?' ∨ u.toList.head? ≠ some '?') :
    (parse t).append (parse u) = parse (t ++ u) := by
  rw [append_parse]
  show pushRuns (pushRuns {} (runs t.toList)) _ = pushRuns {} (runs (t ++ u).toList)
  rw [String.toList_append, pushRuns_runs_append {} h]

/-! ## laws -/

/-- **Templates in normal form are a monoid**, and rendering goes along with it. Whatever is put together
is in normal form. It does not matter which of three templates are put together first, and the template
of no segments changes none. Placeholders add up: the first of two templates takes as many values as it
has placeholders and the second one takes the others, and the error of the first is the error of both.
Texts may be parsed one by one, unless a run of marks goes on from one into the next. -/
theorem append_laws (o : Options) :
    (∀ x : Template, Built x → x.IsNormal) ∧
      (∀ x y z : Template, (x.append y).append z = x.append (y.append z)) ∧
      (∀ x : Template, x.IsNormal → append {} x = x ∧ x.append {} = x) ∧
      (∀ x y : Template,
        (x.append y).placeholderCount = x.placeholderCount + y.placeholderCount) ∧
      (∀ (x y : Template) (vs ws : List Value), vs.length = x.placeholderCount →
        (x.append y).render o (vs ++ ws) = (do
          let s ← x.render o vs
          let t ← y.render o ws
          .ok (s ++ t))) ∧
      ∀ t u : String, t.toList.getLast? ≠ some '?' ∨ u.toList.head? ≠ some '?' →
        (parse t).append (parse u) = parse (t ++ u) := by
  refine ⟨fun _ => Built.isNormal, append_assoc, fun x h => ⟨empty_append h, append_empty x⟩,
    placeholderCount_append, render_append o, parse_append⟩

/-- text that is put behind a place, and all of it twice -/
def doubled : Template := ((parse "?? > ?").pushText " ??").append ((parse "?? > ?").pushText " ??")

theorem append_laws_doubled :
    doubled.IsNormal ∧
      doubled.segments = [.identifier, .text " > ", .value, .text " ??", .identifier, .text " > ",
        .value, .text " ??"] ∧
      (doubled.append doubled).placeholderCount = 8 ∧
      (doubled.append doubled).render {} ([.string "a", .null, .string "?", .string "?"] ++
        [.boolean true, .null]) = .error (.identifier ⟨"boolean"⟩) ∧
      (parse "a???").append (parse "b ?") = parse "a???b ?" := by
  have h : doubled.IsNormal :=
    (append_laws {}).1 doubled (.append ((Built.parse _).pushText _) ((Built.parse _).pushText _))
  refine ⟨h, rfl, ?_, ?_, (append_laws {}).2.2.2.2.2 _ _ (.inr (by decide))⟩
  · rw [(append_laws {}).2.2.2.1]
    rfl
  · rw [(append_laws {}).2.2.2.2.1 doubled doubled _ _ rfl]
    rfl

/-- a run of marks that is cut makes other places -/
example : (parse "?").append (parse "?") ≠ parse "??" := by decide

end WhereClause.Sql.Template
