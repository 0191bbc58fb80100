import WhereClause.Files.Host
import WhereClause.Filter.Document
import WhereClause.Settings.Configuration
import WhereClause.Settings.Reader
import WhereClause.Settings.Schema

/-!
# Commands

There are two commands, and both work on a context, a directory that may hold settings.

* `runBuild`     the condition of a filter, compiled with the settings of the context, or with the
  default configuration if it has none;
* `runSetUp`     writes the initial settings and their schema into the context, unless it has
  settings;
* `Failure.chain`  a failure with what it comes from.
-/

set_option autoImplicit false

namespace WhereClause

open WhereClause.Files WhereClause.Filter WhereClause.Text

inductive Command where
  /-- the filter is on the standard input if it is not given -/
  | build (filter : Option String) (negate : Bool)
  | setUp
  deriving DecidableEq

namespace Command

/-- the file with the settings of a context -/
def settingsFile (context : Path) : Path := context.join ⟨"configuration.json"⟩

/-- the file with the schema of the settings -/
def schemaFile (context : Path) : Path := context.join ⟨"schema.json"⟩

/-! ## failures -/

/-- why a command has no output -/
inductive Failure where
  | input (e : Fault)
  | settingsUnread (file : Path) (e : Fault)
  | settingsUnfit (file : Path) (e : Settings.Error)
  | settingsRefused (e : Settings.Refusal)
  | filterUnread (e : Json.Error)
  | filterRefused (e : Filter.Error)
  | settingsExist (file : Path)
  | unwritten (e : Fault)

namespace Failure

def message : Failure → String
  | .input e => e.message
  | .settingsUnread file e => "I/O error: " ++ file.text ++ ": " ++ e.message
  | .settingsUnfit file e =>
    "parse error on " ++ file.text ++ ":" ++ String.ofList (decimal e.position.line) ++ ":" ++
      String.ofList (decimal e.position.column) ++ ": " ++ e.message
  | .settingsRefused e => e.message
  | .filterUnread e => e.message
  | .filterRefused e => e.message
  | .settingsExist file => "a configuration already exists at " ++ file.text
  | .unwritten e => "I/O error: " ++ e.message

/-- what a failure comes from, if that has words of its own -/
def cause? : Failure → Option String
  | .settingsRefused (.timeZone e) => some e.message
  | .filterRefused (.document e) => some e.message
  | .unwritten e => some e.message
  | _ => none

/-- the exit code of a failure; 101 is that of a program that has ended itself -/
def code : Failure → UInt32
  | .filterRefused (.rendering .outsideCalendar) => 101
  | _ => 1

/-- a failure and what it comes from -/
def chain (f : Failure) : String :=
  match f.cause? with
  | some cause => f.message ++ ": " ++ cause
  | none => f.message

end Failure

/-! ## events -/

def noSettings : Event := ⟨.debug, "no configuration found, using defaults"⟩

def readingSettings : Event := ⟨.info, "reading the configuration"⟩

def settingsRead : Event := ⟨.debug, "parsed configuration"⟩

def compiled (sql : String) : Event := ⟨.debug, "compiled filter: " ++ sql⟩

def writingSettings : Event := ⟨.info, "writing the configuration"⟩

def initialized : Event := ⟨.info, "initialized configuration"⟩

/-! ## building -/

section

variable {m : Type → Type} [Host m]

/-- the settings of a file -/
def readSettings (file : Path) : m (Except Failure Settings) := do
  Host.note readingSettings
  match ← Host.readText file with
  | .error e => pure (.error (.settingsUnread file e))
  | .ok text =>
    match Settings.read text with
    | .error e => pure (.error (.settingsUnfit file e))
    | .ok settings => do
      Host.note settingsRead
      pure (.ok settings)

/-- the configuration of a context -/
def readConfiguration (context : Path) : m (Except Failure Configuration) := do
  if ← Host.contains (settingsFile context) then
    match ← readSettings (settingsFile context) with
    | .error e => pure (.error e)
    | .ok settings => pure (settings.configuration.mapError .settingsRefused)
  else do
    Host.note noSettings
    pure (.ok {})

/-- the query of a filter as it is given to a command -/
def readFilter (filter : String) : Except Failure (Option Query) := do
  let v ← (Json.read filter).mapError .filterUnread
  (Query.ofJson v).mapError .filterRefused

/-- the table that a command begins with -/
def polarityOf (negate : Bool) : Polarity := if negate then .negated else .direct

/-- the condition of a filter with a configuration -/
def compile (c : Configuration) (negate : Bool) (filter : String) : Except Failure (Option String) := do
  match ← readFilter filter with
  | none => .ok none
  | some q => do
    let sql ← (q.build c (polarityOf negate)).mapError .filterRefused
    .ok (some sql)

/-- the condition of a filter, compiled with the settings of a context -/
def runBuild (filter : String) (negate : Bool) (context : Path) : m (Except Failure String) := do
  match ← readConfiguration context with
  | .error e => pure (.error e)
  | .ok c =>
    match compile c negate filter with
    | .error e => pure (.error e)
    | .ok none => pure (.ok "")
    | .ok (some sql) => do
      Host.note (compiled sql)
      pure (.ok sql)

/-! ## setting up -/

/-- settings and their schema written into a directory, which is made if needed -/
def writeSettings (settings : Settings) (directory : Path) : m (Except Fault Unit) := do
  Host.note writingSettings
  match ← Host.makeDirectories directory with
  | .error e => pure (.error e)
  | .ok () =>
    match ← Host.writeText (settingsFile directory) settings.fileText with
    | .error e => pure (.error e)
    | .ok () => Host.writeText (schemaFile directory) Settings.schemaText

/-- the initial settings written into a context that has none -/
def runSetUp (context : Path) : m (Except Failure String) := do
  let file := settingsFile context
  if ← Host.contains file then pure (.error (.settingsExist file))
  else
    match ← writeSettings Settings.initial context with
    | .error e => pure (.error (.unwritten e))
    | .ok () => do
      Host.note initialized
      pure (.ok ("wrote " ++ file.text))

/-- a command on a context -/
def run (command : Command) (context : Path) : m (Except Failure String) := do
  match command with
  | .build (some filter) negate => runBuild filter negate context
  | .build none negate => do
    match ← Host.readInput with
    | .error e => pure (.error (.input e))
    | .ok filter => runBuild filter negate context
  | .setUp => runSetUp context

end

end Command

end WhereClause
