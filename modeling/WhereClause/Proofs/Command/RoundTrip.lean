import WhereClause.Proofs.Command.Session
import WhereClause.Proofs.Settings.Document

/-!
# Settings that are written and used

Settings written into a directory are the settings that a build finds there: the schema file, which is
written behind them, has another name, and the document reads back whatever the settings are.

* `settingsIn_of_written`       the settings in the tree that is left;
* `configurationIn_of_written`  the configuration that a build makes of them;
* `run_after_writeSettings`     both for the commands themselves.
-/

set_option autoImplicit false

namespace WhereClause.Command

open WhereClause.Files WhereClause.Filter

theorem isName_settingsFile : IsName "configuration.json" :=
  ⟨by decide, by decide, by decide, by decide⟩

theorem isName_schemaFile : IsName "schema.json" :=
  ⟨by decide, by decide, by decide, by decide⟩

/-! ## in the tree -/

variable {s : Settings} {directory : Path} {t t' : Tree}

/-- the settings file is written first, and the schema file beside it leaves it as it is -/
theorem readText_of_written (h : Written s directory t (.ok ()) t') :
    t'.readText (settingsFile directory) = .ok s.fileText := by
  cases h with
  | both _ h₁ h₂ =>
    have hwritten := Tree.readText_writeText h₁
    exact Tree.readText_writeText_of_ne isName_settingsFile isName_schemaFile (by decide)
      hwritten h₂

theorem settingsIn_of_written (h : Written s directory t (.ok ()) t') :
    settingsIn t' (settingsFile directory) = .ok s := by
  unfold settingsIn
  rw [readText_of_written h]
  show (Settings.read s.fileText).mapError _ = _
  rw [Settings.read_fileText]
  rfl

theorem configurationIn_of_written (h : Written s directory t (.ok ()) t') :
    configurationIn t' directory = s.configuration.mapError .settingsRefused := by
  have hcontains := Tree.contains_of_readText (readText_of_written h)
  rw [configurationIn, if_pos hcontains, settingsIn_of_written h]
  rfl

/-! ## by the commands -/

/-- **Written settings read back.** Once settings have been written into a directory, whatever their
version, dialect, time zone and depth are, they are read there as they are; and if they make a
configuration, a build there answers for every filter and from either table as this configuration
does. -/
theorem run_after_writeSettings {s : Settings} {directory : Path} {w w' : Session}
    (h : (writeSettings s directory : StateM Session (Except Fault Unit)) w = (.ok (), w')) :
    ((readSettings (settingsFile directory) : StateM Session (Except Failure Settings)) w').1 =
        .ok s ∧
      ∀ c, s.configuration = .ok c → ∀ (filter : String) (negate : Bool),
        ((runBuild filter negate directory : StateM Session (Except Failure String)) w').1 = (do
          let q ← readFilter filter
          (Query.buildOptional c (polarityOf negate) q).mapError .filterRefused) := by
  have hw := written_of_eq h
  constructor
  · rw [(readSettings_runs w'.tree (settingsFile directory) w' rfl).1]
    exact settingsIn_of_written hw
  · intro c hc filter negate
    rw [(runBuild_runs w'.tree filter negate directory w' rfl).1, conditionIn,
      configurationIn_of_written hw, hc]
    rfl

/-- settings with an offset as their time zone, and the greatest depth -/
def deepest : Settings :=
  { version := 1, dialect := .postgres, timeZone := "+05:30", maxDepth := 18446744073709551615 }

/-- what comes of writing them where there are no directories yet -/
def deepestWritten : Except Fault Unit × Session :=
  (writeSettings deepest ⟨"srv/f/"⟩ : StateM Session (Except Fault Unit)) { tree := {} }

theorem run_after_writeSettings_deepest :
    deepestWritten.1 = .ok () ∧
      ((readSettings (settingsFile ⟨"srv/f/"⟩) : StateM Session (Except Failure Settings))
        deepestWritten.2).1 = .ok deepest ∧
      ((runBuild "\x7b\"a\":1\x7d" true ⟨"srv/f/"⟩ :
        StateM Session (Except Failure String)) deepestWritten.2).1 = .ok "\"a\" != 1" := by
  have hok : deepestWritten.1 = .ok () := rfl
  have hw : deepestWritten = (.ok (), deepestWritten.2) := by
    rw [← hok]
  have hc : deepest.configuration =
      .ok ⟨⟨.postgres, .offset 330 (by decide)⟩, 18446744073709551615⟩ := rfl
  have hfilter : readFilter "\x7b\"a\":1\x7d" = .ok (some [("a", .number (.integer 1))]) := by
    have hchars : "\x7b\"a\":1\x7d".toList = ['\x7b', '"', 'a', '"', ':', '1', '\x7d'] := by decide
    rw [readFilter, Json.read, hchars]
    rfl
  obtain ⟨hread, hbuild⟩ := run_after_writeSettings hw
  refine ⟨hok, hread, ?_⟩
  rw [hbuild _ hc, hfilter]
  rfl

end WhereClause.Command
