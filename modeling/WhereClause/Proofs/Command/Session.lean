import WhereClause.Command.Basic
import WhereClause.Proofs.Files.Tree

/-!
# Commands in a session

What a command answers, and what becomes of the tree, are functions of the tree it begins with: no
event plays a part.

* `Runs`               a computation in every session with a tree, its answer and the tree behind it;
* `conditionIn`        the condition of a filter, compiled with the settings in a tree;
* `runBuild_runs`      a build answers with this condition and leaves the tree (`run_build` as a
                       command);
* `Written`, `writeSettings_runs`  the ways in which writing settings ends.
-/

set_option autoImplicit false

namespace WhereClause.Command

open WhereClause.Files WhereClause.Filter

/-! ## running on a tree -/

/-- in each session with the tree `t` the answer is `a`, and the tree is `t'` behind it -/
def Runs {α : Type} (x : StateM Session α) (t : Tree) (a : α) (t' : Tree) : Prop :=
  ∀ w : Session, w.tree = t → (x w).1 = a ∧ (x w).2.tree = t'

namespace Runs

variable {α β : Type} {t t' t'' : Tree}

theorem pure (t : Tree) (a : α) : Runs (Pure.pure a) t a t := fun _ h => ⟨rfl, h⟩

theorem bind {x : StateM Session α} {f : α → StateM Session β} {a : α} {b : β}
    (h : Runs x t a t') (hf : Runs (f a) t' b t'') : Runs (x >>= f) t b t'' := by
  intro w hw
  obtain ⟨ha, ht⟩ := h w hw
  have hb := hf (x w).2 ht
  show (f (x w).1 (x w).2).1 = b ∧ (f (x w).1 (x w).2).2.tree = t''
  rw [ha]
  exact hb

theorem note (t : Tree) (e : Event) : Runs (Host.note e) t () t := fun _ h => ⟨rfl, h⟩

theorem contains (t : Tree) (p : Path) : Runs (Host.contains p) t (t.contains p) t := by
  rintro w rfl
  exact ⟨rfl, rfl⟩

theorem readText (t : Tree) (p : Path) : Runs (Host.readText p) t (t.readText p) t := by
  rintro w rfl
  exact ⟨rfl, rfl⟩

theorem makeDirectories {p : Path} {r : Except Fault Unit} (h : t.makeDirectories p = (t', r)) :
    Runs (Host.makeDirectories p) t r t' := by
  rintro w rfl
  show (w.tree.makeDirectories p).2 = r ∧ (w.tree.makeDirectories p).1 = t'
  rw [h]
  exact ⟨rfl, rfl⟩

theorem writeText_ok {p : Path} {s : String} (h : t.writeText p s = .ok t') :
    Runs (Host.writeText p s) t (.ok ()) t' := by
  rintro w rfl
  have hw : w.write p s = (.ok (), { w with tree := t' }) := by rw [Session.write, h]
  show (w.write p s).1 = .ok () ∧ (w.write p s).2.tree = t'
  rw [hw]
  exact ⟨rfl, rfl⟩

theorem writeText_error {p : Path} {s : String} {e : Fault} (h : t.writeText p s = .error e) :
    Runs (Host.writeText p s) t (.error e) t := by
  rintro w rfl
  have hw : w.write p s = (.error e, w) := by rw [Session.write, h]
  show (w.write p s).1 = .error e ∧ (w.write p s).2.tree = w.tree
  rw [hw]
  exact ⟨rfl, rfl⟩

end Runs

/-! ## building -/

/-- the settings of a file in a tree -/
def settingsIn (t : Tree) (file : Path) : Except Failure Settings :=
  match t.readText file with
  | .error e => .error (.settingsUnread file e)
  | .ok text => (Settings.read text).mapError (.settingsUnfit file)

/-- the configuration of a context in a tree -/
def configurationIn (t : Tree) (context : Path) : Except Failure Configuration :=
  if t.contains (settingsFile context) then do
    let s ← settingsIn t (settingsFile context)
    s.configuration.mapError .settingsRefused
  else .ok {}

/-- the condition of a filter with a configuration, empty when there is no query -/
def conditionOf (c : Configuration) (negate : Bool) (filter : String) : Except Failure String := do
  let q ← readFilter filter
  (Query.buildOptional c (polarityOf negate) q).mapError .filterRefused

/-- the condition of a filter with the configuration of a context in a tree -/
def conditionIn (t : Tree) (context : Path) (negate : Bool) (filter : String) :
    Except Failure String := do
  let c ← configurationIn t context
  conditionOf c negate filter

theorem readSettings_runs (t : Tree) (file : Path) :
    Runs (readSettings file) t (settingsIn t file) t := by
  unfold readSettings settingsIn
  refine .bind (.note t _) (.bind (.readText t file) ?_)
  cases t.readText file with
  | error e => exact .pure t _
  | ok text =>
    dsimp only
    cases Settings.read text with
    | error e => exact .pure t _
    | ok s => exact .bind (.note t _) (.pure t _)

theorem readConfiguration_runs (t : Tree) (context : Path) :
    Runs (readConfiguration context) t (configurationIn t context) t := by
  unfold readConfiguration configurationIn
  refine .bind (.contains t _) ?_
  split
  · refine .bind (readSettings_runs t _) ?_
    cases settingsIn t (settingsFile context) with
    | error e => exact .pure t _
    | ok s => exact .pure t _
  · exact .bind (.note t _) (.pure t _)

/-- a condition is compiled as the filter says, and is empty when it says nothing -/
theorem conditionOf_eq (c : Configuration) (negate : Bool) (filter : String) :
    conditionOf c negate filter = (compile c negate filter).map fun sql => sql.getD "" := by
  unfold conditionOf compile
  cases readFilter filter with
  | error e => rfl
  | ok q =>
    cases q with
    | none => rfl
    | some q =>
      show (q.build c (polarityOf negate)).mapError Failure.filterRefused =
        ((q.build c (polarityOf negate)).mapError Failure.filterRefused >>= _).map _
      cases q.build c (polarityOf negate) with
      | error e => rfl
      | ok sql => rfl

/-- **A build answers from the tree**, and leaves it as it is. -/
theorem runBuild_runs (t : Tree) (filter : String) (negate : Bool) (context : Path) :
    Runs (runBuild filter negate context) t (conditionIn t context negate filter) t := by
  unfold runBuild conditionIn
  refine .bind (readConfiguration_runs t context) ?_
  cases configurationIn t context with
  | error e => exact .pure t _
  | ok c =>
    have hcondition : (Except.ok c >>= fun c => conditionOf c negate filter) =
        (compile c negate filter).map fun sql => sql.getD "" := conditionOf_eq c negate filter
    rw [hcondition]
    dsimp only
    cases compile c negate filter with
    | error e => exact .pure t _
    | ok sql =>
      cases sql with
      | none => exact .pure t _
      | some sql => exact .bind (.note t _) (.pure t _)

/-- a build as a command: its filter may be what waits on the standard input -/
theorem run_build (filter : Option String) (negate : Bool) (context : Path) (w : Session) :
    ((run (.build filter negate) context : StateM Session (Except Failure String)) w).1 =
        conditionIn w.tree context negate (filter.getD w.input) ∧
      ((run (.build filter negate) context : StateM Session (Except Failure String)) w).2.tree =
        w.tree := by
  cases filter with
  | some filter => exact runBuild_runs w.tree filter negate context w rfl
  | none => exact runBuild_runs w.tree w.input negate context { w with input := "" } rfl

/-! ## writing settings -/

/-- the four ways in which writing settings ends, with the tree that is left -/
inductive Written (s : Settings) (directory : Path) (t : Tree) : Except Fault Unit → Tree → Prop where
  | noDirectory {t₁ : Tree} {e : Fault} (h : t.makeDirectories directory = (t₁, .error e)) :
      Written s directory t (.error e) t₁
  | noSettings {t₁ : Tree} {e : Fault} (h : t.makeDirectories directory = (t₁, .ok ()))
      (h₁ : t₁.writeText (settingsFile directory) s.fileText = .error e) :
      Written s directory t (.error e) t₁
  | noSchema {t₁ t₂ : Tree} {e : Fault} (h : t.makeDirectories directory = (t₁, .ok ()))
      (h₁ : t₁.writeText (settingsFile directory) s.fileText = .ok t₂)
      (h₂ : t₂.writeText (schemaFile directory) Settings.schemaText = .error e) :
      Written s directory t (.error e) t₂
  | both {t₁ t₂ t₃ : Tree} (h : t.makeDirectories directory = (t₁, .ok ()))
      (h₁ : t₁.writeText (settingsFile directory) s.fileText = .ok t₂)
      (h₂ : t₂.writeText (schemaFile directory) Settings.schemaText = .ok t₃) :
      Written s directory t (.ok ()) t₃

theorem writeSettings_runs (s : Settings) (directory : Path) (t : Tree) :
    ∃ r t', Written s directory t r t' ∧ Runs (writeSettings s directory) t r t' := by
  have hnote := Runs.note t writingSettings
  cases h : t.makeDirectories directory with
  | mk t₁ r =>
    cases r with
    | error e => exact ⟨_, _, .noDirectory h, .bind hnote (.bind (.makeDirectories h) (.pure t₁ _))⟩
    | ok _ =>
      cases h₁ : t₁.writeText (settingsFile directory) s.fileText with
      | error e =>
        exact ⟨_, _, .noSettings h h₁,
          .bind hnote (.bind (.makeDirectories h) (.bind (.writeText_error h₁) (.pure t₁ _)))⟩
      | ok t₂ =>
        cases h₂ : t₂.writeText (schemaFile directory) Settings.schemaText with
        | error e =>
          exact ⟨_, _, .noSchema h h₁ h₂,
            .bind hnote (.bind (.makeDirectories h) (.bind (.writeText_ok h₁) (.writeText_error h₂)))⟩
        | ok t₃ =>
          exact ⟨_, _, .both h h₁ h₂,
            .bind hnote (.bind (.makeDirectories h) (.bind (.writeText_ok h₁) (.writeText_ok h₂)))⟩

/-- what a session is left with when settings are written in it -/
theorem written_of_eq {s : Settings} {directory : Path} {w w' : Session} {r : Except Fault Unit}
    (h : (writeSettings s directory : StateM Session (Except Fault Unit)) w = (r, w')) :
    Written s directory w.tree r w'.tree := by
  obtain ⟨r', t', hw, hruns⟩ := writeSettings_runs s directory w.tree
  obtain ⟨hr, ht⟩ := hruns w rfl
  rw [h] at hr ht
  cases hr
  cases ht
  exact hw

end WhereClause.Command
