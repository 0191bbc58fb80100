import WhereClause.Proofs.Command.RoundTrip
import WhereClause.Proofs.Files.Directories

/-!
# Setting up a context

What setting up a context answers, and what it leaves in the tree, for every tree and every path. There is
no way back in it: what has been made or written before a fault stays. So a failure after the settings
file has been written leaves this file, and every later attempt is refused because of it.

* `SetUp`               the ways in which setting up ends;
* `Change`              what may become of one place in the tree;
* `run_setUp_failed`    what a failure leaves behind;
* `run_build_eq`        a build answers behind a success as it did before it.
-/

set_option autoImplicit false

namespace WhereClause.Command

open WhereClause.Files WhereClause.Filter

variable {context : Path} {t t' : Tree}

/-! ## the ways in which setting up ends -/

inductive SetUp (context : Path) (t : Tree) : Except Failure String → Tree → Prop where
  | refused (h : t.contains (settingsFile context) = true) :
      SetUp context t (.error (.settingsExist (settingsFile context))) t
  | failed {e : Fault} {t' : Tree} (h : t.contains (settingsFile context) = false)
      (hw : Written Settings.initial context t (.error e) t') :
      SetUp context t (.error (.unwritten e)) t'
  | done {t' : Tree} (h : t.contains (settingsFile context) = false)
      (hw : Written Settings.initial context t (.ok ()) t') :
      SetUp context t (.ok ("wrote " ++ (settingsFile context).text)) t'

theorem runSetUp_runs (context : Path) (t : Tree) :
    ∃ r t', SetUp context t r t' ∧ Runs (runSetUp context) t r t' := by
  have hcontains := Runs.contains t (settingsFile context)
  unfold runSetUp
  cases h : t.contains (settingsFile context) with
  | true =>
    rw [h] at hcontains
    exact ⟨_, _, .refused h, .bind hcontains (.pure t _)⟩
  | false =>
    rw [h] at hcontains
    obtain ⟨r, t', hw, hruns⟩ := writeSettings_runs Settings.initial context t
    cases r with
    | error e => exact ⟨_, _, .failed h hw, .bind hcontains (.bind hruns (.pure t' _))⟩
    | ok _ =>
      exact ⟨_, _, .done h hw,
        .bind hcontains (.bind hruns (.bind (.note t' _) (.pure t' _)))⟩

/-- what a session is left with when a context is set up in it -/
theorem setUp_of_eq {w w' : Session} {r : Except Failure String}
    (h : (run .setUp context : StateM Session (Except Failure String)) w = (r, w')) :
    SetUp context w.tree r w'.tree := by
  obtain ⟨r', t', hs, hruns⟩ := runSetUp_runs context w.tree
  obtain ⟨hr, ht⟩ := hruns w rfl
  have h' : (runSetUp context : StateM Session (Except Failure String)) w = (r, w') := h
  rw [h'] at hr ht
  cases hr
  cases ht
  exact hs

/-! ## what becomes of a place -/

/-- a directory on the way to the context, where nothing was -/
abbrev NewOnWay (context : Path) (t t' : Tree) (k : Location) : Prop :=
  Tree.NewDirectory (t.start context) context.parts t t' k

/-- what setting up a context may do at the place `k` -/
inductive Change (context : Path) (t t' : Tree) (k : Location) : Prop where
  | none (h : t'.find? k = t.find? k)
  | directory (h : NewOnWay context t t' k)
  | settings (hk : t'.locate (settingsFile context) = .ok k)
      (h : t'.find? k = some (.text Settings.initial.fileText))
  | schema (hk : t'.locate (schemaFile context) = .ok k)
      (h : t'.find? k = some (.text Settings.schemaText))

/-- what is made on the way to the context, if the end is reached -/
theorem made_of_makeDirectories {r : Except Fault Unit} (h : t.makeDirectories context = (t', r)) :
    Tree.Made (t.start context) context.parts t t' := by
  have hmade := Tree.made_makeDirectories t context
  rwa [h] at hmade

/-- a later step that leaves the place alone -/
theorem Change.mono {t'' : Tree} {k : Location} (h : Change context t t' k)
    (hkeeps : Tree.KeepsDirectories t' t'') (hsame : t''.find? k = t'.find? k) :
    Change context t t'' k := by
  cases h with
  | none hk => exact .none (hsame.trans hk)
  | directory hk => exact .directory (hk.mono hkeeps)
  | settings hk htext => exact .settings (Tree.locate_of_keeps hkeeps hk) (hsame.trans htext)
  | schema hk htext => exact .schema (Tree.locate_of_keeps hkeeps hk) (hsame.trans htext)

theorem change_of_written {r : Except Fault Unit} (h : Written Settings.initial context t r t')
    (k : Location) : Change context t t' k := by
  have hmade {t₁ : Tree} {r : Except Fault Unit} (h : t.makeDirectories context = (t₁, r)) :
      Change context t t₁ k :=
    ((made_of_makeDirectories h).entry k).elim .none .directory
  have hsettings {t₁ t₂ : Tree} (hk : Change context t t₁ k)
      (h₁ : t₁.writeText (settingsFile context) Settings.initial.fileText = .ok t₂) :
      Change context t t₂ k := by
    obtain ⟨hl, htext⟩ | hsame := Tree.find?_writeText h₁ k
    · exact .settings hl htext
    · exact hk.mono (Tree.keepsDirectories_writeText h₁) hsame
  cases h with
  | noDirectory h => exact hmade h
  | noSettings h _ => exact hmade h
  | noSchema h h₁ _ => exact hsettings (hmade h) h₁
  | both h h₁ h₂ =>
    obtain ⟨hl, htext⟩ | hsame := Tree.find?_writeText h₂ k
    · exact .schema hl htext
    · exact (hsettings (hmade h) h₁).mono (Tree.keepsDirectories_writeText h₂) hsame

theorem change_of_setUp {r : Except Failure String} (h : SetUp context t r t') (k : Location) :
    Change context t t' k := by
  cases h with
  | refused _ => exact .none rfl
  | failed _ hw => exact change_of_written hw k
  | done _ hw => exact change_of_written hw k

/-! ## failures -/

/-- what a failure leaves behind of a tree `t` -/
inductive LeftBehind (context : Path) (t : Tree) : Failure → Tree → Prop where
  /-- the context has settings: nothing has been done -/
  | nothing (h : t.contains (settingsFile context) = true) :
      LeftBehind context t (.settingsExist (settingsFile context)) t
  /-- the settings file could not be written: there are directories on the way to the context, but
  no settings file, unless the path turns back -/
  | directories {e : Fault} {t' : Tree} (h : t.contains (settingsFile context) = false)
      (hmade : Tree.Made (t.start context) context.parts t t')
      (hnone : t.WellFormed → ¬ t.TurnsBack context → t'.contains (settingsFile context) = false) :
      LeftBehind context t (.unwritten e) t'
  /-- the schema file could not be written: there is the settings file as well, where nothing was
  unless the path turns back -/
  | settings {e : Fault} {t' : Tree} {l : Location}
      (h : t.contains (settingsFile context) = false)
      (hl : t'.locate (settingsFile context) = .ok l)
      (htext : t'.find? l = some (.text Settings.initial.fileText))
      (hschema : t'.writeText (schemaFile context) Settings.schemaText = .error e)
      (hother : ∀ k, k ≠ l → t'.find? k = t.find? k ∨ NewOnWay context t t' k)
      (hnew : t.WellFormed → ¬ t.TurnsBack context → t.find? l = none) :
      LeftBehind context t (.unwritten e) t'

theorem leftBehind_of_setUp {f : Failure} (h : SetUp context t (.error f) t') : LeftBehind context t f t' := by
  cases h with
  | refused h => exact .nothing h
  | @failed e _ h hw =>
    have hdirectories {t₁ : Tree} {r : Except Fault Unit} (hm : t.makeDirectories context = (t₁, r)) :
        LeftBehind context t (.unwritten e) t₁ := by
      have hmade := made_of_makeDirectories hm
      exact .directories h hmade fun hwell hback =>
        Tree.contains_of_not_turnsBack hwell isName_settingsFile hmade hback h
    cases hw with
    | noDirectory hm => exact hdirectories hm
    | noSettings hm _ => exact hdirectories hm
    | @noSchema t₁ _ _ hm h₁ h₂ =>
      have hmade := made_of_makeDirectories hm
      have hkeeps := Tree.keepsDirectories_writeText h₁
      obtain ⟨l, hl, hd, rfl⟩ := Tree.write_ok_iff.mp h₁
      refine .settings h (Tree.locate_of_keeps hkeeps hl) (Tree.find?_put_self _ hd) h₂
        (fun k hk => ?_) fun hwell hback =>
          Tree.find?_of_not_turnsBack hwell isName_settingsFile hmade hback h hl
      have hsame : (t₁.put l (.text Settings.initial.fileText)).find? k = t₁.find? k :=
        Tree.find?_put_of_ne t₁ _ hk.symm
      rcases hmade.entry k with hk' | hk'
      · exact .inl (hsame.trans hk')
      · exact .inr (hk'.mono hkeeps)

/-- setting up is refused just where the settings file is found -/
theorem setUp_refused_iff {r : Except Failure String} (h : SetUp context t r t') :
    r = .error (.settingsExist (settingsFile context)) ↔
      t.contains (settingsFile context) = true := by
  cases h with
  | refused h => exact ⟨fun _ => h, fun _ => rfl⟩
  | failed h _ => exact ⟨fun hr => (nomatch hr), fun ht => (nomatch h.symm.trans ht)⟩
  | done h _ => exact ⟨fun hr => (nomatch hr), fun ht => (nomatch h.symm.trans ht)⟩

theorem tree_of_refused {r : Except Failure String} (h : SetUp context t r t')
    (hc : t.contains (settingsFile context) = true) : t' = t := by
  cases h with
  | refused _ => rfl
  | failed h _ => exact nomatch h.symm.trans hc
  | done h _ => exact nomatch h.symm.trans hc

/-- **A failure takes nothing back.** The tree behind it is the one before, or has directories on the
way to the context as well, or the settings file besides, if only the schema file could not be
written. Another attempt is refused just when the settings file is there. -/
theorem run_setUp_failed {w w' : Session} {f : Failure}
    (h : (run .setUp context : StateM Session (Except Failure String)) w = (.error f, w')) :
    LeftBehind context w.tree f w'.tree ∧
      (((run .setUp context : StateM Session (Except Failure String)) w').1 =
          .error (.settingsExist (settingsFile context)) ↔
        w'.tree.contains (settingsFile context) = true) :=
  ⟨leftBehind_of_setUp (setUp_of_eq h), setUp_refused_iff (setUp_of_eq rfl)⟩

/-- a working directory whose schema file cannot be written -/
def blocked : Session :=
  { tree := { entries := [(Location.root.child "schema.json", .directory)] } }

/-- what comes of setting it up -/
def blockedSetUp : Except Failure String × Session :=
  (run .setUp ⟨"."⟩ : StateM Session (Except Failure String)) blocked

theorem run_setUp_failed_blocked :
    blockedSetUp.1 = .error (.unwritten .isDirectory) ∧
      LeftBehind ⟨"."⟩ blocked.tree (.unwritten .isDirectory) blockedSetUp.2.tree ∧
      blockedSetUp.2.tree.contains (settingsFile ⟨"."⟩) = true ∧
      ((run .setUp ⟨"."⟩ : StateM Session (Except Failure String)) blockedSetUp.2).1 =
        .error (.settingsExist ⟨"./configuration.json"⟩) := by
  have hfailed : blockedSetUp = (.error (.unwritten .isDirectory), blockedSetUp.2) := rfl
  have hcontains : blockedSetUp.2.tree.contains (settingsFile ⟨"."⟩) = true := rfl
  obtain ⟨hleft, hretry⟩ := run_setUp_failed hfailed
  exact ⟨rfl, hleft, hcontains, hretry.mpr hcontains⟩

/-- a failure may leave a file behind that was not there -/
theorem exists_left_by_run_setUp :
    ¬ ∀ (context : Path) (w w' : Session) (f : Failure),
      (run .setUp context : StateM Session (Except Failure String)) w = (.error f, w') →
        ∀ l, w'.tree.find? l = w.tree.find? l := by
  intro h
  have hsame := h ⟨"."⟩ blocked blockedSetUp.2 (.unwritten .isDirectory) rfl
    (Location.root.child "configuration.json")
  have hbefore : blocked.tree.find? (Location.root.child "configuration.json") = none := rfl
  have hbehind : blockedSetUp.2.tree.find? (Location.root.child "configuration.json") =
      some (.text Settings.initial.fileText) := rfl
  exact nomatch hbehind.symm.trans (hsame.trans hbefore)

/-! ## building before and behind -/

/-- in both trees the same lies where the settings file is looked for, or nothing does -/
def SameSettings (context : Path) (t t' : Tree) : Prop :=
  ∀ e, t.lookup (settingsFile context) = .ok e ↔ t'.lookup (settingsFile context) = .ok e

theorem configurationIn_of_same (h : SameSettings context t t') :
    configurationIn t context = configurationIn t' context := by
  cases hl : t.lookup (settingsFile context) with
  | ok e =>
    have hl' := (h e).mp hl
    have hread : t.readText (settingsFile context) = t'.readText (settingsFile context) := by
      rw [Tree.readText, Tree.readText, hl, hl']
    rw [configurationIn, configurationIn, Tree.contains, Tree.contains, hl, hl', settingsIn,
      settingsIn, hread]
  | error f =>
    cases hl' : t'.lookup (settingsFile context) with
    | ok e =>
      have hfault : Except.error f = Except.ok e := hl.symm.trans ((h e).mpr hl')
      cases hfault
    | error f' =>
      rw [configurationIn, configurationIn, Tree.contains, Tree.contains, hl, hl']
      rfl

/-- the settings that a context is set up with say what holds without settings -/
theorem configurationIn_of_setUp {out : String} (h : SetUp context t (.ok out) t') :
    configurationIn t' context = configurationIn t context := by
  cases h with
  | done h hw =>
    rw [configurationIn_of_written hw, Settings.configuration_initial, configurationIn, h]
    rfl

/-- **Settings are all that a build looks at**, and the initial ones change nothing. Behind a context
that has been set up a build answers as before, and in two trees that agree in the settings of a
context it answers the same, whatever else they hold. -/
theorem run_build_eq (context : Path) (filter : Option String) (negate : Bool) (input : String) :
    (∀ (w w' : Session) (out : String),
      (run .setUp context : StateM Session (Except Failure String)) w = (.ok out, w') →
        ((run (.build filter negate) context : StateM Session (Except Failure String))
            { w' with input := input }).1 =
          ((run (.build filter negate) context : StateM Session (Except Failure String))
            { w with input := input }).1) ∧
      ∀ w w' : Session, SameSettings context w.tree w'.tree →
        ((run (.build filter negate) context : StateM Session (Except Failure String))
            { w with input := input }).1 =
          ((run (.build filter negate) context : StateM Session (Except Failure String))
            { w' with input := input }).1 := by
  have hanswer {w w' : Session}
      (h : configurationIn w.tree context = configurationIn w'.tree context) :
      ((run (.build filter negate) context : StateM Session (Except Failure String))
          { w with input := input }).1 =
        ((run (.build filter negate) context : StateM Session (Except Failure String))
          { w' with input := input }).1 := by
    rw [(run_build filter negate context _).1, (run_build filter negate context _).1]
    show (configurationIn w.tree context >>= _) = (configurationIn w'.tree context >>= _)
    rw [h]
  refine ⟨fun w w' out h => ?_, fun w w' h => ?_⟩
  · exact hanswer (configurationIn_of_setUp (setUp_of_eq h))
  · exact hanswer (configurationIn_of_same h)

/-- what comes of setting up a directory that is not there yet -/
def freshSetUp : Except Failure String × Session :=
  (run .setUp ⟨"srv/f/"⟩ : StateM Session (Except Failure String)) { tree := {} }

/-- a working directory with settings and other files -/
def crowded : Session :=
  { tree := { entries :=
      [(Location.root.child "configuration.json", .text "\x7b\"version\":2\x7d"),
        (Location.root.child "schema.json", .bytes [0xff])] } }

/-- the same settings alone -/
def alone : Session :=
  { tree := { entries :=
      [(Location.root.child "configuration.json", .text "\x7b\"version\":2\x7d")] } }

theorem run_build_eq_fresh :
    freshSetUp.1 = .ok "wrote srv/f/configuration.json" ∧
      ((run (.build none true) ⟨"srv/f/"⟩ : StateM Session (Except Failure String))
          { freshSetUp.2 with input := "\x7b\"a\":1\x7d" }).1 =
        ((run (.build none true) ⟨"srv/f/"⟩ : StateM Session (Except Failure String))
          { tree := {}, input := "\x7b\"a\":1\x7d" }).1 ∧
      SameSettings ⟨"."⟩ crowded.tree alone.tree ∧
      ((run (.build (some "null") false) ⟨"."⟩ : StateM Session (Except Failure String))
          { crowded with input := "" }).1 =
        ((run (.build (some "null") false) ⟨"."⟩ : StateM Session (Except Failure String))
          { alone with input := "" }).1 := by
  have hfresh : freshSetUp = (.ok "wrote srv/f/configuration.json", freshSetUp.2) := rfl
  have hsame : SameSettings ⟨"."⟩ crowded.tree alone.tree := fun _ => Iff.rfl
  exact ⟨rfl, (run_build_eq ⟨"srv/f/"⟩ none true _).1 { tree := {} } freshSetUp.2 _ hfresh, hsame,
    (run_build_eq ⟨"."⟩ (some "null") false "").2 crowded alone hsame⟩

end WhereClause.Command
