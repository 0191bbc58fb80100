import WhereClause.Files.Tree
import WhereClause.Proofs.Files.Path
import WhereClause.Proofs.Outcome

/-!
# Files that are written and read

A written file has its new text, and so has every other one its old text. Ways through a tree go
through directories only, so a way that leads somewhere still does when directories stay.

* `KeepsDirectories`     what is a directory in one tree is one in another;
* `locate_of_keeps`      a path leads where it led;
* `write_ok_iff`, `readText_ok_iff`  what can be written and read;
* `find?_writeText`      what writing changes;
* `readText_writeText`   a file that has been written;
* `readText_writeText_of_ne`  a file beside it in a directory.
-/

set_option autoImplicit false

namespace WhereClause.Files.Tree

variable {t t' : Tree} {p : Path}

/-! ## entries -/

theorem find?_root (t : Tree) : t.find? .root = some .directory := if_pos rfl

theorem find?_put_of_ne (t : Tree) {l k : Location} (e : Entry) (h : l ≠ k) :
    (t.put l e).find? k = t.find? k := by
  unfold find?
  rw [put, Entries.get?_insert, if_neg h]

/-- what no directory lies at is not the root, and so what is put there is found -/
theorem find?_put_self {l : Location} (e : Entry) (h : t.find? l ≠ some .directory) :
    (t.put l e).find? l = some e := by
  have hroot : l ≠ .root := by
    rintro rfl
    exact h (find?_root t)
  rw [find?, if_neg hroot, put, Entries.get?_insert, if_pos rfl]

/-! ## trees with the same directories and more -/

/-- what is a directory in `t` is one in `t'`, and paths begin at the same places -/
structure KeepsDirectories (t t' : Tree) : Prop where
  workingDirectory : t'.workingDirectory = t.workingDirectory
  directory : ∀ l, t.find? l = some .directory → t'.find? l = some .directory

/-- nothing is put in the place of a directory but a directory -/
theorem keepsDirectories_put {l : Location} (e : Entry)
    (h : t.find? l ≠ some .directory) : KeepsDirectories t (t.put l e) := by
  refine ⟨rfl, fun k hk => ?_⟩
  have hne : l ≠ k := by
    rintro rfl
    exact h hk
  rw [find?_put_of_ne t e hne, hk]

theorem find?_of_step {l k : Location} {part : String} (h : t.step l part = .ok k) :
    t.find? l = some .directory := by
  unfold step at h
  split at h
  · assumption
  · exact nomatch h
  · exact nomatch h

theorem step_of_keeps (ht : KeepsDirectories t t') {l k : Location} {part : String}
    (h : t.step l part = .ok k) : t'.step l part = .ok k := by
  have hl := find?_of_step h
  unfold step at h ⊢
  rw [hl] at h
  rw [ht.directory l hl]
  exact h

theorem follow_of_keeps (ht : KeepsDirectories t t') {l k : Location} {ps : List String}
    (h : t.follow l ps = .ok k) : t'.follow l ps = .ok k := by
  induction ps generalizing l with
  | nil => exact h
  | cons part ps ih =>
    obtain ⟨m, hm, hk⟩ := bind_ok_iff.mp h
    exact bind_ok_iff.mpr ⟨m, step_of_keeps ht hm, ih hk⟩

theorem locate_ok_iff {l : Location} : t.locate p = .ok l ↔
    p.text ≠ "" ∧ checkText p = .ok () ∧ t.follow (t.start p) p.parts = .ok l := by
  unfold locate
  split
  · next hp => exact ⟨fun h => (nomatch h), fun ⟨h, _⟩ => absurd hp h⟩
  · next hp =>
    rw [bind_ok_iff]
    exact ⟨fun ⟨_, hc, hf⟩ => ⟨hp, hc, hf⟩, fun ⟨_, hc, hf⟩ => ⟨(), hc, hf⟩⟩

theorem locate_of_keeps (ht : KeepsDirectories t t') {l : Location} (h : t.locate p = .ok l) :
    t'.locate p = .ok l := by
  obtain ⟨hp, hc, hf⟩ := locate_ok_iff.mp h
  have hstart : t'.start p = t.start p := by
    rw [start, start, ht.workingDirectory]
  exact locate_ok_iff.mpr ⟨hp, hc, hstart ▸ follow_of_keeps ht hf⟩

/-! ## the last part of a path -/

theorem follow_append (t : Tree) (l : Location) (ps qs : List String) :
    t.follow l (ps ++ qs) = (t.follow l ps >>= fun k => t.follow k qs) := by
  induction ps generalizing l with
  | nil => rfl
  | cons part ps ih =>
    rw [List.cons_append, follow, follow]
    cases t.step l part with
    | error e => rfl
    | ok k => exact ih k

theorem eq_child_of_step {l k : Location} {name : String} (hn : IsName name)
    (h : t.step l name = .ok k) : k = l.child name := by
  have hl := find?_of_step h
  unfold step at h
  rw [hl] at h
  simp only [if_neg hn.ne_here, if_neg hn.ne_parent] at h
  split at h
  · exact nomatch h
  · cases h
    rfl

/-- a path continued by a name leads to this name in the directory that the path leads to -/
theorem exists_child_of_locate {name : String} (hn : IsName name) {l : Location}
    (h : t.locate (p.join ⟨name⟩) = .ok l) :
    ∃ d, t.follow (t.start p) p.parts = .ok d ∧ l = d.child name := by
  obtain ⟨_, _, hf⟩ := locate_ok_iff.mp h
  have hstart : t.start (p.join ⟨name⟩) = t.start p := by
    rw [start, start, Path.fromRoot_join p hn]
  rw [hstart, Path.parts_join p hn, follow_append] at hf
  obtain ⟨d, hd, hstep⟩ := bind_ok_iff.mp hf
  obtain ⟨k, hk, hl⟩ := bind_ok_iff.mp hstep
  cases hl
  exact ⟨d, hd, eq_child_of_step hn hk⟩

/-! ## reading and writing -/

theorem lookup_ok_iff {e : Entry} :
    t.lookup p = .ok e ↔ ∃ l, t.locate p = .ok l ∧ t.find? l = some e := by
  unfold lookup
  rw [bind_ok_iff]
  refine exists_congr fun l => and_congr_right fun _ => ?_
  cases t.find? l with
  | none => simp
  | some e' => simp

theorem readText_ok_iff {s : String} : t.readText p = .ok s ↔ t.lookup p = .ok (.text s) := by
  unfold readText
  rw [bind_ok_iff]
  constructor
  · rintro ⟨e, he, h⟩
    cases e with
    | text s' =>
      cases h
      exact he
    | bytes _ => exact nomatch h
    | directory => exact nomatch h
  · exact fun h => ⟨_, h, rfl⟩

theorem write_ok_iff {e : Entry} : t.write p e = .ok t' ↔
    ∃ l, t.locate p = .ok l ∧ t.find? l ≠ some .directory ∧ t' = t.put l e := by
  unfold write
  rw [bind_ok_iff]
  refine exists_congr fun l => and_congr_right fun _ => ?_
  split
  · next h => exact ⟨fun h => (nomatch h), fun ⟨hd, _⟩ => absurd h hd⟩
  · next h => exact ⟨fun ht => ⟨h, (Except.ok.inj ht).symm⟩, fun ⟨_, ht⟩ => congrArg _ ht.symm⟩

/-- a file that can be read is there -/
theorem contains_of_readText {s : String} (h : t.readText p = .ok s) : t.contains p = true := by
  unfold contains
  rw [readText_ok_iff.mp h]

theorem keepsDirectories_writeText {s : String} (h : t.writeText p s = .ok t') :
    KeepsDirectories t t' := by
  obtain ⟨l, _, hd, rfl⟩ := write_ok_iff.mp h
  exact keepsDirectories_put _ hd

/-- where a file is written its text is, and all else is the same -/
theorem find?_writeText {s : String} (h : t.writeText p s = .ok t') (k : Location) :
    (t'.locate p = .ok k ∧ t'.find? k = some (.text s)) ∨ t'.find? k = t.find? k := by
  have hkeeps := keepsDirectories_writeText h
  obtain ⟨l, hl, hd, rfl⟩ := write_ok_iff.mp h
  by_cases hlk : l = k
  · subst hlk
    exact .inl ⟨locate_of_keeps hkeeps hl, find?_put_self _ hd⟩
  · exact .inr (find?_put_of_ne t _ hlk)

/-- **A written file has its text.** -/
theorem readText_writeText {s : String} (h : t.writeText p s = .ok t') :
    t'.readText p = .ok s := by
  obtain ⟨l, hl, hd, rfl⟩ := write_ok_iff.mp h
  have hlocate := locate_of_keeps (keepsDirectories_put (.text s) hd) hl
  exact readText_ok_iff.mpr (lookup_ok_iff.mpr ⟨l, hlocate, find?_put_self _ hd⟩)

/-- **A file keeps its text** when one of another name is written beside it. -/
theorem readText_writeText_of_ne {name name' : String} (hn : IsName name) (hn' : IsName name')
    (hne : name ≠ name') {q : Path} {s s' : String} (hs : t.readText (p.join ⟨name⟩) = .ok s)
    (h : t.writeText (q.join ⟨name'⟩) s' = .ok t') : t'.readText (p.join ⟨name⟩) = .ok s := by
  obtain ⟨l, hl, hd, rfl⟩ := write_ok_iff.mp h
  obtain ⟨k, hk, hf⟩ := lookup_ok_iff.mp (readText_ok_iff.mp hs)
  have hlk : l ≠ k := by
    obtain ⟨d, _, rfl⟩ := exists_child_of_locate hn' hl
    obtain ⟨d', _, rfl⟩ := exists_child_of_locate hn hk
    intro heq
    have hnames : name' :: d.names = name :: d'.names := congrArg Location.names heq
    exact hne (List.cons.inj hnames).1.symm
  have hlocate := locate_of_keeps (keepsDirectories_put (.text s') hd) hk
  refine readText_ok_iff.mpr (lookup_ok_iff.mpr ⟨k, hlocate, ?_⟩)
  rw [find?_put_of_ne t _ hlk, hf]

end WhereClause.Files.Tree
