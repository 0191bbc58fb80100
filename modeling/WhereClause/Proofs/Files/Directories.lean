import WhereClause.Proofs.Files.Tree

/-!
# Directories that are made

Making a directory makes those on the way to it as well. Whether or not the end of the way is reached,
directories appear where nothing was, and nothing else changes. So a place that a path leads to only
once directories have been made was not in use before, unless the path goes into one of these
directories and out of it again: it turns back.

* `Made`                   the changes that making directories may leave behind;
* `made_makeDirectories`   it leaves no others, whatever its result is;
* `WellFormed`             everything lies in a directory, and still does behind each of the two changes;
* `TurnsBack`              a path that goes into a place where nothing is, and out again;
* `find?_of_not_turnsBack`, `contains_of_not_turnsBack`  any other path that leads to a new place
                           leads to one where nothing was.
-/

set_option autoImplicit false

namespace WhereClause.Files.Tree

variable {t t' : Tree} {p : Path} {l k : Location}

/-! ## what is made -/

/-- a directory at `k` where nothing was, on the way along `ps` from `l` -/
structure NewDirectory (l : Location) (ps : List String) (t t' : Tree) (k : Location) : Prop where
  before : t.find? k = none
  now : t'.find? k = some .directory
  onWay : ∃ qs, qs <+: ps ∧ t'.follow l qs = .ok k

theorem NewDirectory.mono {ps : List String} {t'' : Tree} (h : NewDirectory l ps t t' k)
    (hkeeps : KeepsDirectories t' t'') : NewDirectory l ps t t'' k := by
  obtain ⟨qs, hqs, hfollow⟩ := h.onWay
  exact ⟨h.before, hkeeps.directory k h.now, qs, hqs, follow_of_keeps hkeeps hfollow⟩

/-- nothing but directories on the way along `ps` from `l` has come to the tree -/
structure Made (l : Location) (ps : List String) (t t' : Tree) : Prop where
  workingDirectory : t'.workingDirectory = t.workingDirectory
  entry : ∀ k, t'.find? k = t.find? k ∨ NewDirectory l ps t t' k

namespace Made

variable {ps leg : List String} {m : Location}

theorem refl (l : Location) (ps : List String) (t : Tree) : Made l ps t t :=
  ⟨rfl, fun _ => .inl rfl⟩

/-- what was there stays as it was -/
theorem find? (h : Made l ps t t') {e : Entry} (hk : t.find? k = some e) :
    t'.find? k = some e := by
  rcases h.entry k with hsame | hnew
  · rw [hsame, hk]
  · exact nomatch hk.symm.trans hnew.before

theorem keepsDirectories (h : Made l ps t t') : KeepsDirectories t t' :=
  ⟨h.workingDirectory, fun _ hk => h.find? hk⟩

/-- a leg that leads to a directory, and what is made further on -/
theorem behind (hleg : t.follow l leg = .ok m) (h : Made m ps t t') : Made l (leg ++ ps) t t' := by
  refine ⟨h.workingDirectory, fun k => (h.entry k).imp_right fun hnew => ?_⟩
  obtain ⟨qs, hqs, hfollow⟩ := hnew.onWay
  have hway : t'.follow l (leg ++ qs) = .ok k := by
    rw [follow_append, follow_of_keeps h.keepsDirectories hleg]
    exact hfollow
  exact ⟨hnew.before, hnew.now, leg ++ qs, (List.prefix_append_right_inj leg).mpr hqs, hway⟩

/-- a directory made at the end of a leg, and what is made further on -/
theorem atEnd (hleg : t.follow l leg = .ok m) (hm : t.find? m = none)
    (h : Made m ps (t.put m .directory) t') : Made l (leg ++ ps) t t' := by
  have hnone : t.find? m ≠ some .directory := by simp [hm]
  have hput := keepsDirectories_put .directory hnone
  have h' := behind (follow_of_keeps hput hleg) h
  refine ⟨h'.workingDirectory, fun k => ?_⟩
  by_cases hmk : m = k
  · subst hmk
    have hway : t'.follow l leg = .ok m :=
      follow_of_keeps h.keepsDirectories (follow_of_keeps hput hleg)
    exact .inr ⟨hm, h.find? (find?_put_self _ hnone), leg, List.prefix_append leg ps, hway⟩
  · have hsame := find?_put_of_ne t .directory hmk
    rcases h'.entry k with hk | hk
    · exact .inl (hk.trans hsame)
    · exact .inr ⟨hsame ▸ hk.before, hk.now, hk.onWay⟩

end Made

theorem made_makeAlong (t : Tree) (made : Bool) (l : Location) (legs : List (List String)) :
    Made l legs.flatten t (t.makeAlong made l legs).1 := by
  induction legs generalizing t made l with
  | nil => exact .refl l _ t
  | cons leg legs ih =>
    rw [makeAlong, List.flatten_cons]
    split
    · exact .refl l _ t
    · next m hleg =>
      split
      · next hm => exact .atEnd hleg hm (ih _ true m)
      · exact .behind hleg (ih t made m)
      · exact .refl l _ t

/-- **Making a directory** makes directories on the way to it, and changes nothing else. -/
theorem made_makeDirectories (t : Tree) (p : Path) :
    Made (t.start p) p.parts t (t.makeDirectories p).1 := by
  unfold makeDirectories
  split
  · exact .refl _ _ t
  · split
    · exact .refl _ _ t
    · have h := made_makeAlong t false (t.start p) (legs p.parts)
      rwa [flatten_legs] at h

/-! ## trees in which everything lies in a directory -/

/-- everything lies in a directory, and the working directory is one -/
structure WellFormed (t : Tree) : Prop where
  parent : ∀ k e, t.find? k = some e → t.find? k.parent = some .directory
  workingDirectory : t.find? t.workingDirectory = some .directory

namespace WellFormed

theorem empty : WellFormed {} := by
  refine ⟨fun k e hk => ?_, find?_root _⟩
  have hroot : k = .root := by
    refine Decidable.byContradiction fun hne => ?_
    rw [Tree.find?, if_neg hne] at hk
    cases hk
  rw [hroot]
  exact find?_root _

theorem start (h : WellFormed t) (p : Path) : t.find? (t.start p) = some .directory := by
  unfold Tree.start
  split
  · exact find?_root t
  · exact h.workingDirectory

/-- nothing lies in a place where nothing is -/
theorem find?_child (h : WellFormed t) (hk : t.find? k = none) (name : String) :
    t.find? (k.child name) = none := by
  refine Option.eq_none_iff_forall_ne_some.mpr fun e he => ?_
  have hparent := h.parent _ e he
  rw [Location.parent_child, hk] at hparent
  exact nomatch hparent

end WellFormed

/-! ## steps -/

theorem step_cases {part : String} (h : t.step l part = .ok k) :
    (part = here ∧ k = l) ∨ (part = ".." ∧ k = l.parent) ∨ k = l.child part := by
  have hl := find?_of_step h
  unfold step at h
  rw [hl] at h
  dsimp only at h
  split at h
  · next hp => exact .inl ⟨hp, (Except.ok.inj h).symm⟩
  · split at h
    · next hp => exact .inr (.inl ⟨hp, (Except.ok.inj h).symm⟩)
    · split at h
      · exact nomatch h
      · exact .inr (.inr (Except.ok.inj h).symm)

/-- what a way leads to lies in a directory, if the place does where it begins -/
theorem WellFormed.parent_of_follow (h : WellFormed t) {ps : List String}
    (hl : t.find? l.parent = some .directory) (hf : t.follow l ps = .ok k) :
    t.find? k.parent = some .directory := by
  induction ps generalizing l with
  | nil =>
    cases hf
    exact hl
  | cons part ps ih =>
    obtain ⟨m, hm, hf⟩ := bind_ok_iff.mp hf
    refine ih ?_ hf
    obtain ⟨_, rfl⟩ | ⟨_, rfl⟩ | rfl := step_cases hm
    · exact hl
    · exact h.parent _ _ hl
    · rw [Location.parent_child]
      exact find?_of_step hm

/-- nothing lies behind a place where nothing is, as long as the way does not lead out again -/
theorem find?_of_follow (ht : WellFormed t) {ps : List String} (hps : ".." ∉ ps)
    (hl : t.find? l = none) (h : t'.follow l ps = .ok k) : t.find? k = none := by
  induction ps generalizing l with
  | nil =>
    cases h
    exact hl
  | cons part ps ih =>
    obtain ⟨m, hm, h⟩ := bind_ok_iff.mp h
    refine ih (fun hmem => hps (List.mem_cons_of_mem _ hmem)) ?_ h
    obtain ⟨_, rfl⟩ | ⟨rfl, _⟩ | rfl := step_cases hm
    · exact hl
    · exact absurd List.mem_cons_self hps
    · exact ht.find?_child hl part

/-- a way that does not lead out leads no less deep -/
theorem depth_le_of_follow {ps : List String} (hps : ".." ∉ ps) (h : t.follow l ps = .ok k) :
    l.depth ≤ k.depth := by
  induction ps generalizing l with
  | nil =>
    cases h
    exact Nat.le_refl _
  | cons part ps ih =>
    obtain ⟨m, hm, h⟩ := bind_ok_iff.mp h
    have hle : m.depth ≤ k.depth := ih (fun hmem => hps (List.mem_cons_of_mem _ hmem)) h
    obtain ⟨_, rfl⟩ | ⟨rfl, _⟩ | rfl := step_cases hm
    · exact hle
    · exact absurd List.mem_cons_self hps
    · exact Nat.le_of_succ_le hle

/-! ## what keeps a tree well-formed -/

namespace WellFormed

/-- something put into a directory, where no directory is -/
theorem put (h : WellFormed t) (e : Entry) (hl : t.find? l ≠ some .directory)
    (hparent : t.find? l.parent = some .directory) : WellFormed (t.put l e) := by
  have hkeeps := keepsDirectories_put e hl
  refine ⟨fun k e' hk => hkeeps.directory _ ?_, hkeeps.directory _ h.workingDirectory⟩
  by_cases hlk : l = k
  · subst hlk
    exact hparent
  · rw [find?_put_of_ne t e hlk] at hk
    exact h.parent k e' hk

theorem makeAlong (h : WellFormed t) (made : Bool) (legs : List (List String))
    (hl : t.find? l.parent = some .directory) : WellFormed (t.makeAlong made l legs).1 := by
  induction legs generalizing t made l with
  | nil => exact h
  | cons leg legs ih =>
    rw [Tree.makeAlong]
    split
    · exact h
    · next m hleg =>
      have hm := h.parent_of_follow hl hleg
      split
      · next hnone =>
        have hno : t.find? m ≠ some .directory := by simp [hnone]
        exact ih (h.put _ hno hm) true ((keepsDirectories_put .directory hno).directory _ hm)
      · exact ih h made hm
      · exact h

theorem makeDirectories (h : WellFormed t) (p : Path) : WellFormed (t.makeDirectories p).1 := by
  unfold Tree.makeDirectories
  split
  · exact h
  · split
    · exact h
    · exact h.makeAlong false _ (h.parent _ _ (h.start p))

theorem writeText (h : WellFormed t) {s : String} (hw : t.writeText p s = .ok t') :
    WellFormed t' := by
  obtain ⟨l, hl, hd, rfl⟩ := write_ok_iff.mp hw
  obtain ⟨-, -, hf⟩ := locate_ok_iff.mp hl
  exact h.put _ hd (h.parent_of_follow (h.parent _ _ (h.start p)) hf)

end WellFormed

/-! ## paths that turn back -/

/-- a path that goes into a place where nothing is, and out of it again -/
def TurnsBack (t : Tree) (p : Path) : Prop :=
  ∃ ps qs k, p.parts = ps ++ qs ∧ t.follow (t.start p) ps = .ok k ∧ t.find? k = none ∧ ".." ∈ qs

theorem TurnsBack.mem_parts (h : TurnsBack t p) : ".." ∈ p.parts := by
  obtain ⟨ps, qs, _, hparts, _, _, hmem⟩ := h
  rw [hparts]
  exact List.mem_append_right ps hmem

/-- a way that can be gone in the greater tree can be gone in the smaller one to its end, or to a
place where nothing is -/
theorem follow_or_missing (hkept : ∀ k e, t.find? k = some e → t'.find? k = some e)
    {ps : List String} (h : t'.follow l ps = .ok k) :
    (t.follow l ps = .ok k ∧ t.find? k ≠ none) ∨
      ∃ qs rs m, ps = qs ++ rs ∧ t.follow l qs = .ok m ∧ t.find? m = none ∧
        t'.follow m rs = .ok k := by
  induction ps generalizing l with
  | nil =>
    cases h
    by_cases hk : t.find? k = none
    · exact .inr ⟨[], [], k, rfl, rfl, hk, rfl⟩
    · exact .inl ⟨rfl, hk⟩
  | cons part ps ih =>
    cases hl : t.find? l with
    | none => exact .inr ⟨[], part :: ps, l, rfl, rfl, hl, h⟩
    | some e =>
      obtain ⟨m, hm, hf⟩ := bind_ok_iff.mp h
      -- the place is a directory in the greater tree, and so in the smaller one
      have hm' : t.step l part = .ok m := by
        have hdirectory := find?_of_step hm
        unfold step at hm ⊢
        rw [hdirectory] at hm
        rw [hl, ← hkept l e hl, hdirectory]
        exact hm
      obtain ⟨hf', hk⟩ | ⟨qs, rs, n, rfl, hqs, hn, hrs⟩ := ih hf
      · exact .inl ⟨bind_ok_iff.mpr ⟨m, hm', hf'⟩, hk⟩
      · exact .inr ⟨part :: qs, rs, n, rfl, bind_ok_iff.mpr ⟨m, hm', hqs⟩, hn, hrs⟩

theorem contains_iff : t.contains p = true ↔ ∃ l e, t.locate p = .ok l ∧ t.find? l = some e := by
  constructor
  · intro h
    unfold contains at h
    split at h
    · next e he =>
      obtain ⟨l, hl, hf⟩ := lookup_ok_iff.mp he
      exact ⟨l, e, hl, hf⟩
    · exact nomatch h
  · rintro ⟨l, e, hl, hf⟩
    rw [contains, lookup_ok_iff.mpr ⟨l, hl, hf⟩]

section

variable {name : String}

/-- a path continued by a name: along the path, and one step to the name -/
theorem locate_join_iff (hn : IsName name) : t.locate (p.join ⟨name⟩) = .ok l ↔
    (p.join ⟨name⟩).text ≠ "" ∧ checkText (p.join ⟨name⟩) = .ok () ∧
      ∃ d, t.follow (t.start p) p.parts = .ok d ∧ t.step d name = .ok l := by
  have hstart : t.start (p.join ⟨name⟩) = t.start p := by
    rw [start, start, Path.fromRoot_join p hn]
  have hlast (d : Location) : t.follow d [name] = t.step d name := by
    rw [follow]
    cases t.step d name with
    | error e => rfl
    | ok k => rfl
  rw [locate_ok_iff, hstart, Path.parts_join p hn, follow_append, bind_ok_iff]
  simp only [hlast]

/-- a name that can be gone to in one directory can be gone to in any -/
theorem step_child (hn : IsName name) {d : Location} (h : t'.step l name = .ok k)
    (hd : t.find? d = some .directory) : t.step d name = .ok (d.child name) := by
  have hl := find?_of_step h
  unfold step at h ⊢
  rw [hl] at h
  rw [hd]
  simp only [if_neg hn.ne_here, if_neg hn.ne_parent] at h ⊢
  split at h
  · exact nomatch h
  · next hsize => rw [if_neg hsize]

variable {ps : List String} (ht : WellFormed t) (hn : IsName name)
  (hmade : Made (t.start p) p.parts t t') (hback : ¬ TurnsBack t p)
  (hc : t.contains (p.join ⟨name⟩) = false)

include ht hn hmade hback hc

/-- a path and a name that led to nothing lead to a place where nothing was, unless the path turns
back -/
theorem find?_of_not_turnsBack (hl : t'.locate (p.join ⟨name⟩) = .ok l) : t.find? l = none := by
  obtain ⟨hp, hcheck, d, hd, hstep⟩ := (locate_join_iff hn).mp hl
  have hstart : t'.start p = t.start p := by
    rw [start, start, hmade.workingDirectory]
  have hdirectory := find?_of_step hstep
  have hchild := eq_child_of_step hn hstep
  subst hchild
  rw [hstart] at hd
  obtain ⟨hd, hne⟩ | ⟨qs, rs, m, hparts, hqs, hm, hrs⟩ :=
    follow_or_missing (fun k e hk => hmade.find? hk) hd
  · obtain ⟨e, he⟩ := Option.ne_none_iff_exists'.mp hne
    have hdirectory' : t.find? d = some .directory := by
      rw [he, ← hmade.find? he, hdirectory]
    have hfound : t.locate (p.join ⟨name⟩) = .ok (d.child name) :=
      (locate_join_iff hn).mpr ⟨hp, hcheck, d, hd, step_child hn hstep hdirectory'⟩
    refine Option.eq_none_iff_forall_ne_some.mpr fun e he => ?_
    exact Bool.false_ne_true (hc.symm.trans (contains_iff.mpr ⟨_, e, hfound, he⟩))
  · have hrs' : ".." ∉ rs := fun hmem => hback ⟨qs, rs, m, hparts, hqs, hm, hmem⟩
    exact ht.find?_child (find?_of_follow ht hrs' hm hrs) name

/-- making the directories on a path makes nothing that has the name, unless the path turns back -/
theorem contains_of_not_turnsBack : t'.contains (p.join ⟨name⟩) = false := by
  refine Bool.eq_false_iff.mpr fun hc' => ?_
  obtain ⟨l, e, hl, he⟩ := contains_iff.mp hc'
  have hnone := find?_of_not_turnsBack ht hn hmade hback hc hl
  obtain ⟨-, -, d, hd, hstep⟩ := (locate_join_iff hn).mp hl
  have hstart : t'.start p = t.start p := by
    rw [start, start, hmade.workingDirectory]
  rw [hstart] at hd
  have hchild := eq_child_of_step hn hstep
  subst hchild
  -- what has the name is a directory on the path, and the path leads out of it again
  have hnew : NewDirectory (t.start p) p.parts t t' (d.child name) :=
    (hmade.entry _).resolve_left fun hsame =>
      Option.some_ne_none e (he.symm.trans (hsame.trans hnone))
  obtain ⟨qs, ⟨us, hus⟩, hqs⟩ := hnew.onWay
  have hout : ".." ∈ us := by
    refine Decidable.byContradiction fun hus' => ?_
    have hrest : t'.follow (d.child name) us = .ok d := by
      rw [← hus, follow_append, hqs] at hd
      exact hd
    exact absurd (depth_le_of_follow hus' hrest) (Nat.not_succ_le_self d.depth)
  obtain ⟨-, hne⟩ | ⟨rs, rs', m, hsplit, hrs, hm, -⟩ :=
    follow_or_missing (fun k e hk => hmade.find? hk) hqs
  · exact hne hnone
  · refine hback ⟨rs, rs' ++ us, m, ?_, hrs, hm, List.mem_append_right _ hout⟩
    rw [← hus, hsplit, List.append_assoc]

end

end WhereClause.Files.Tree
