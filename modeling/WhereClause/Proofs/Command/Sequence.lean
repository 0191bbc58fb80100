import WhereClause.Proofs.Command.SetUp

/-!
# Commands one after the other

Any commands on any contexts, in a tree of any kind. Builds leave the tree alone, and setting up refuses
a context whose settings it finds. The look for them comes before the directories are made, so that a
path that turns back may lead to settings that were not found: these are written over. Every other
settings file has its content to the end.

* `sessionAfter`          the session behind a list of commands;
* `wellFormed_sessionAfter`  in which everything still lies in a directory;
* `Detour`                a command of the list comes to a settings file by a path that turns back;
* `find?_sessionAfter`    without one the file is as it was;
* `tree_of_commands`      all of this for one session.
-/

set_option autoImplicit false

namespace WhereClause.Command

open WhereClause.Files WhereClause.Filter

/-! ## sessions -/

/-- the session behind one command -/
def sessionBehind (w : Session) (step : Command × Path) : Session :=
  ((run step.1 step.2 : StateM Session (Except Failure String)) w).2

/-- the session behind commands on contexts, run one after the other -/
def sessionAfter (w : Session) (steps : List (Command × Path)) : Session :=
  steps.foldl sessionBehind w

theorem sessionAfter_append (w : Session) (before after : List (Command × Path)) :
    sessionAfter w (before ++ after) = sessionAfter (sessionAfter w before) after :=
  List.foldl_append

/-! ## well-formed trees -/

variable {context : Path} {t t' : Tree}

theorem wellFormed_of_written {s : Settings} {r : Except Fault Unit}
    (h : Written s context t r t') (ht : t.WellFormed) : t'.WellFormed := by
  have hmade {t₁ : Tree} {r : Except Fault Unit} (hm : t.makeDirectories context = (t₁, r)) :
      t₁.WellFormed := by
    have hwell := ht.makeDirectories context
    rwa [hm] at hwell
  cases h with
  | noDirectory hm => exact hmade hm
  | noSettings hm _ => exact hmade hm
  | noSchema hm h₁ _ => exact (hmade hm).writeText h₁
  | both hm h₁ h₂ => exact ((hmade hm).writeText h₁).writeText h₂

theorem wellFormed_of_setUp {r : Except Failure String} (h : SetUp context t r t')
    (ht : t.WellFormed) : t'.WellFormed := by
  cases h with
  | refused _ => exact ht
  | failed _ hw => exact wellFormed_of_written hw ht
  | done _ hw => exact wellFormed_of_written hw ht

theorem wellFormed_sessionBehind {w : Session} (hw : w.tree.WellFormed) (step : Command × Path) :
    (sessionBehind w step).tree.WellFormed := by
  obtain ⟨command, context⟩ := step
  cases command with
  | build filter negate =>
    have hsame : (sessionBehind w (.build filter negate, context)).tree = w.tree :=
      (run_build filter negate context w).2
    rwa [hsame]
  | setUp => exact wellFormed_of_setUp (setUp_of_eq rfl) hw

theorem wellFormed_sessionAfter {w : Session} (hw : w.tree.WellFormed)
    (steps : List (Command × Path)) : (sessionAfter w steps).tree.WellFormed := by
  induction steps generalizing w with
  | nil => exact hw
  | cons step steps ih => exact ih (wellFormed_sessionBehind hw step)

/-! ## settings files -/

/-- the place of the settings file in a directory -/
def settingsPlace (directory : Location) : Location := directory.child "configuration.json"

variable {d : Location} {e : Entry}

theorem locate_schemaFile_ne : t.locate (schemaFile context) ≠ .ok (settingsPlace d) := by
  intro h
  obtain ⟨d', _, hd⟩ := Tree.exists_child_of_locate isName_schemaFile h
  have hnames : "configuration.json" :: d.names = "schema.json" :: d'.names :=
    congrArg Location.names hd
  exact absurd (List.cons.inj hnames).1 (by decide)

/-- the settings file is written where nothing was, unless the path turns back -/
theorem find?_of_settings_written {t₁ t₂ : Tree} {text : String} (ht : t.WellFormed)
    (hc : t.contains (settingsFile context) = false)
    (hmade : Tree.Made (t.start context) context.parts t t₁)
    (hw : t₁.writeText (settingsFile context) text = .ok t₂)
    (he : t.find? (settingsPlace d) = some e)
    (hdetour : t.TurnsBack context → t₂.locate (settingsFile context) ≠ .ok (settingsPlace d)) :
    t₂.find? (settingsPlace d) = some e := by
  have hkeeps := Tree.keepsDirectories_writeText hw
  obtain ⟨l, hl, hd, rfl⟩ := Tree.write_ok_iff.mp hw
  have hne : l ≠ settingsPlace d := by
    rintro rfl
    have hback : ¬ t.TurnsBack context := fun hback =>
      hdetour hback (Tree.locate_of_keeps hkeeps hl)
    have hnone := Tree.find?_of_not_turnsBack ht isName_settingsFile hmade hback hc hl
    exact nomatch he.symm.trans hnone
  rw [Tree.find?_put_of_ne t₁ _ hne]
  exact hmade.find? he

/-- **Setting up a context** leaves every settings file alone, unless it comes there by a path that
turns back. -/
theorem find?_of_setUp {r : Except Failure String} (ht : t.WellFormed)
    (h : SetUp context t r t') (he : t.find? (settingsPlace d) = some e)
    (hdetour : t.TurnsBack context → t'.locate (settingsFile context) ≠ .ok (settingsPlace d)) :
    t'.find? (settingsPlace d) = some e := by
  have hwritten {s : Except Fault Unit} (hc : t.contains (settingsFile context) = false)
      (hw : Written Settings.initial context t s t') : t'.find? (settingsPlace d) = some e := by
    cases hw with
    | noDirectory hm => exact (made_of_makeDirectories hm).find? he
    | noSettings hm _ => exact (made_of_makeDirectories hm).find? he
    | noSchema hm h₁ _ =>
      exact find?_of_settings_written ht hc (made_of_makeDirectories hm) h₁ he hdetour
    | both hm h₁ h₂ =>
      have hkeeps := Tree.keepsDirectories_writeText h₂
      obtain ⟨hk, _⟩ | hsame := Tree.find?_writeText h₂ (settingsPlace d)
      · exact absurd hk locate_schemaFile_ne
      · rw [hsame]
        exact find?_of_settings_written ht hc (made_of_makeDirectories hm) h₁ he
          fun hback hl => hdetour hback (Tree.locate_of_keeps hkeeps hl)
  cases h with
  | refused _ => exact he
  | failed hc hw => exact hwritten hc hw
  | done hc hw => exact hwritten hc hw

/-! ## lists of commands -/

/-- one of the commands sets up a context by a path that turns back, and comes to the place `l` -/
def Detour (w : Session) (steps : List (Command × Path)) (l : Location) : Prop :=
  ∃ before context after, steps = before ++ (.setUp, context) :: after ∧
    (sessionAfter w before).tree.TurnsBack context ∧
    (sessionAfter w (before ++ [(.setUp, context)])).tree.locate (settingsFile context) = .ok l

theorem find?_sessionBehind {w : Session} {step : Command × Path} (hw : w.tree.WellFormed)
    (he : w.tree.find? (settingsPlace d) = some e) (h : ¬ Detour w [step] (settingsPlace d)) :
    (sessionBehind w step).tree.find? (settingsPlace d) = some e := by
  obtain ⟨command, context⟩ := step
  cases command with
  | build filter negate =>
    have hsame : (sessionBehind w (.build filter negate, context)).tree = w.tree :=
      (run_build filter negate context w).2
    rwa [hsame]
  | setUp =>
    exact find?_of_setUp hw (setUp_of_eq rfl) he fun hback hl => h ⟨[], context, [], rfl, hback, hl⟩

/-- **A settings file is as it was** behind commands none of which comes to it by a detour. -/
theorem find?_sessionAfter {w : Session} {steps : List (Command × Path)} (hw : w.tree.WellFormed)
    (he : w.tree.find? (settingsPlace d) = some e) (h : ¬ Detour w steps (settingsPlace d)) :
    (sessionAfter w steps).tree.find? (settingsPlace d) = some e := by
  induction steps generalizing w with
  | nil => exact he
  | cons step steps ih =>
    have hfirst : ¬ Detour w [step] (settingsPlace d) := by
      rintro ⟨before, context, after, hsteps, hback, hl⟩
      refine h ⟨before, context, after ++ steps, ?_, hback, hl⟩
      rw [← List.singleton_append, hsteps, List.append_assoc, List.cons_append]
    refine ih (wellFormed_sessionBehind hw step) (find?_sessionBehind hw he hfirst) ?_
    rintro ⟨before, context, after, rfl, hback, hl⟩
    exact h ⟨step :: before, context, after, rfl, hback, hl⟩

/-- **Commands keep the settings that they find.** A build leaves the tree; setting up is refused and
leaves the tree where it finds settings; else it makes directories on the way to the context where
nothing was, and writes the settings file and the schema file. So a settings file, once it is
there, is the same behind all later commands that do not come to it by a path that turns back. -/
theorem tree_of_commands (w : Session) :
    (∀ (filter : Option String) (negate : Bool) (context : Path),
      (sessionBehind w (.build filter negate, context)).tree = w.tree) ∧
    (∀ context : Path, w.tree.contains (settingsFile context) = true →
      ((run .setUp context : StateM Session (Except Failure String)) w).1 =
          .error (.settingsExist (settingsFile context)) ∧
        (sessionBehind w (.setUp, context)).tree = w.tree) ∧
    (∀ (context : Path) (l : Location),
      Change context w.tree (sessionBehind w (.setUp, context)).tree l) ∧
    (w.tree.WellFormed → ∀ (before later : List (Command × Path)) (d : Location) (e : Entry),
      (sessionAfter w before).tree.find? (settingsPlace d) = some e →
        ¬ Detour (sessionAfter w before) later (settingsPlace d) →
          (sessionAfter w (before ++ later)).tree.find? (settingsPlace d) = some e) := by
  refine ⟨fun filter negate context => (run_build filter negate context w).2, fun context hc => ?_,
    fun context l => change_of_setUp (setUp_of_eq rfl) l, fun hw before later d e he h => ?_⟩
  · have hs : SetUp context w.tree
        ((run .setUp context : StateM Session (Except Failure String)) w).1
        (sessionBehind w (.setUp, context)).tree := setUp_of_eq rfl
    exact ⟨(setUp_refused_iff hs).mpr hc, tree_of_refused hs hc⟩
  · rw [sessionAfter_append]
    exact find?_sessionAfter (wellFormed_sessionAfter hw before) he h

/-- a tree with settings in the directory `b` -/
def settled : Session :=
  { tree := (({} : Tree).put (Location.root.child "b") .directory).put
      (settingsPlace (Location.root.child "b"))
      (.text "\x7b\"version\":1,\"dialect\":\"postgres\"\x7d") }

theorem wellFormed_settled : settled.tree.WellFormed :=
  (Tree.WellFormed.empty.put .directory (by decide) (by decide)).put (.text _) (by decide) (by decide)

/-- a path that turns back, but comes to no settings that are there; and the settings themselves -/
def pastSettled : List (Command × Path) := [(.setUp, ⟨"a/../c"⟩), (.setUp, ⟨"b/"⟩)]

theorem not_detour_pastSettled :
    ¬ Detour settled pastSettled (settingsPlace (Location.root.child "b")) := by
  rintro ⟨before, context, after, hsteps, hback, hl⟩
  match before with
  | [] =>
    cases hsteps
    have hplace : (sessionAfter settled [(.setUp, ⟨"a/../c"⟩)]).tree.locate
        (settingsFile ⟨"a/../c"⟩) = .ok (settingsPlace (Location.root.child "c")) := rfl
    have hsame := Except.ok.inj (hplace.symm.trans hl)
    exact absurd (congrArg Location.names hsame) (by decide)
  | [_] =>
    cases hsteps
    exact absurd hback.mem_parts (by decide)
  | _ :: _ :: before =>
    have hrest := (List.cons.inj (List.cons.inj hsteps).2).2
    exact absurd hrest (by simp)

theorem tree_of_commands_settled :
    settled.tree.WellFormed ∧ settled.tree.contains (settingsFile ⟨"b/"⟩) = true ∧
      ((run .setUp ⟨"b/"⟩ : StateM Session (Except Failure String)) settled).1 =
        .error (.settingsExist ⟨"b/configuration.json"⟩) ∧
      ¬ Detour settled pastSettled (settingsPlace (Location.root.child "b")) ∧
      (sessionAfter settled pastSettled).tree.find? (settingsPlace (Location.root.child "b")) =
        some (.text "\x7b\"version\":1,\"dialect\":\"postgres\"\x7d") := by
  have hcontains : settled.tree.contains (settingsFile ⟨"b/"⟩) = true := rfl
  obtain ⟨-, hrefused, -, hkept⟩ := tree_of_commands settled
  exact ⟨wellFormed_settled, hcontains, (hrefused _ hcontains).1, not_detour_pastSettled,
    hkept wellFormed_settled [] pastSettled _ _ rfl not_detour_pastSettled⟩

/-- settings that are there may be written over -/
theorem exists_settings_written_over :
    ¬ ∀ (w : Session) (steps : List (Command × Path)) (d : Location) (e : Entry),
      w.tree.WellFormed → w.tree.find? (settingsPlace d) = some e →
        (sessionAfter w steps).tree.find? (settingsPlace d) = some e := by
  intro h
  have hkept := h settled [(.setUp, ⟨"a/../b"⟩)] (Location.root.child "b") _ wellFormed_settled rfl
  have hover : (sessionAfter settled [(.setUp, ⟨"a/../b"⟩)]).tree.find?
      (settingsPlace (Location.root.child "b")) = some (.text Settings.initial.fileText) := rfl
  have htexts := Entry.text.inj (Option.some.inj (hover.symm.trans hkept))
  have hsecond : "\x7b\"version\":1,\"dialect\":\"postgres\"\x7d".toList.tail.head? = some '"' := by
    decide
  have hinitial : Settings.initial.fileText.toList.tail.head? = some '\n' := by
    rw [Settings.toList_fileText]
    rfl
  rw [htexts, hsecond] at hinitial
  exact absurd hinitial (by decide)

end WhereClause.Command
