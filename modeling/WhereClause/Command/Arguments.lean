import WhereClause.Command.Basic
import WhereClause.Text.ControlSequence

/-!
# Command lines

A command line names a command, its filter and its options. The context is taken from the option
behind the command, else from the one before it, else from the environment, else it is the working
directory. The option takes a value that stands beside it or behind an equals sign; a value that
stands beside it is only checked when the next thing that is known comes.

* `Progress.settle`  checks and keeps a value that stands beside its option;
* `parseWords`       the words behind the command;
* `parse`            a whole command line.
-/

set_option autoImplicit false

namespace WhereClause.Command

open WhereClause.Files WhereClause.Text

/-! ## results -/

/-- what is wrong with a command line -/
inductive UsageError where
  | unrecognizedCommand (name : String)
  | unexpectedArgument (word : String)
  | noContext
  | repeatedContext
  | repeatedNegate
  | unwantedValue (value option : String)
  | noCommand
  deriving DecidableEq

def contextOption : String := "--context <DIRECTORY>"

/-- a message quotes words without the orders to a terminal that they hold -/
def UsageError.message : UsageError → String
  | .unrecognizedCommand name =>
    "error: unrecognized subcommand '" ++ stripControls name ++ "'"
  | .unexpectedArgument word =>
    "error: unexpected argument '" ++ stripControls word ++ "' found"
  | .noContext =>
    "error: a value is required for '" ++ contextOption ++ "' but none was supplied"
  | .repeatedContext =>
    "error: the argument '" ++ contextOption ++ "' cannot be used multiple times"
  | .repeatedNegate => "error: the argument '--negate' cannot be used multiple times"
  | .unwantedValue value option =>
    "error: unexpected value '" ++ stripControls value ++ "' for '" ++ option ++
      "' found; no more were expected"
  | .noCommand => "error: 'sqlfilter' requires a subcommand but one was not provided"

/-- what a command line asks for -/
inductive Request where
  | run (command : Command) (context : Path)
  | help
  | version
  /-- help, for want of anything else to do -/
  | helpForWant
  deriving DecidableEq

/-! ## words -/

/-- whose words are read: those before any command, or those of a command -/
inductive Scope where
  | program
  | build
  | setUp
  deriving DecidableEq

/-- a word as an option: its name, and the value behind an equals sign -/
inductive Word where
  /-- the mark that no options follow -/
  | noMoreOptions
  | long (name : String) (value : Option String)
  | short (letter : Char)
  | plain
  deriving DecidableEq

/-- the name of a long option and the value behind its equals sign -/
def splitValue (cs : List Char) : String × Option String :=
  let rest := cs.dropWhile (· ≠ '=')
  (String.ofList (cs.takeWhile (· ≠ '=')),
    if rest.isEmpty then none else some (String.ofList (rest.drop 1)))

def Word.ofString (s : String) : Word :=
  match s.toList with
  | ['-', '-'] => .noMoreOptions
  | '-' :: '-' :: cs => .long (splitValue cs).1 (splitValue cs).2
  | '-' :: c :: _ => .short c
  | _ => .plain

/-! ## progress -/

/-- a value that stands beside its option and has not been checked -/
inductive Pending where
  | nothing
  | awaited
  | value (s : String)
  deriving DecidableEq

/-- what the words of a scope have said so far -/
structure Progress where
  pending : Pending := .nothing
  context : Option String := none
  negate : Bool := false
  filter : Option String := none
  noMoreOptions : Bool := false
  deriving DecidableEq

namespace Progress

/-- the context, given once and not empty -/
def withContext (p : Progress) (value : String) : Except UsageError Progress :=
  if p.context.isSome then .error .repeatedContext
  else if value = "" then .error .noContext
  else .ok { p with context := some value, pending := .nothing }

/-- a value that stands beside its option, checked and kept -/
def settle (p : Progress) : Except UsageError Progress :=
  match p.pending with
  | .nothing => .ok p
  | .awaited => .error .noContext
  | .value s => p.withContext s

/-- the end of the words of a scope: an empty context in the environment counts only if no context
was given -/
def finish (p : Progress) (environment : Option String) : Except UsageError Progress := do
  let p ← p.settle
  if p.context.isNone ∧ environment = some "" then .error .noContext else .ok p

end Progress

/-! ## options -/

/-- what a word leads to -/
inductive Step where
  | more (p : Progress)
  | done (r : Request)

/-- an option that takes no value, kept by `keep` -/
def readFlag (p : Progress) (name : String) (value : Option String)
    (keep : Progress → Except UsageError Step) : Except UsageError Step :=
  match value with
  | some v => .error (.unwantedValue v ("--" ++ name))
  | none => do keep (← p.settle)

def keepNegate (p : Progress) : Except UsageError Step :=
  if p.negate then .error .repeatedNegate else .ok (.more { p with negate := true })

def readLong (scope : Scope) (p : Progress) (name : String) (value : Option String) :
    Except UsageError Step :=
  if name = "context" then do
    let p ← p.settle
    match value with
    | some v => do .ok (.more (← p.withContext v))
    | none => .ok (.more { p with pending := .awaited })
  else if name = "help" then readFlag p name value fun _ => .ok (.done .help)
  else if name = "version" ∧ scope = .program then readFlag p name value fun _ => .ok (.done .version)
  else if name = "negate" ∧ scope = .build then readFlag p name value keepNegate
  else .error (.unexpectedArgument ("--" ++ name))

def readShort (scope : Scope) (p : Progress) (letter : Char) : Except UsageError Step :=
  if letter = 'h' then do
    let _ ← p.settle
    .ok (.done .help)
  else if letter = 'V' ∧ scope = .program then do
    let _ ← p.settle
    .ok (.done .version)
  else .error (.unexpectedArgument (String.ofList ['-', letter]))

/-! ## commands -/

/-- the scope of the name of a command -/
def scopeOfName? (s : String) : Option Scope :=
  if s = "build" then some .build else if s = "initialize" then some .setUp else none

def isCommandName (s : String) : Bool := s = "help" || (scopeOfName? s).isSome

/-- a word that is no option -/
def readPlain (scope : Scope) (p : Progress) (word : String) : Except UsageError Step :=
  match scope with
  | .program =>
    if p.noMoreOptions ∧ isCommandName word then .error (.unexpectedArgument word)
    else .error (.unrecognizedCommand word)
  | .build =>
    if p.filter.isSome then .error (.unexpectedArgument word)
    else do
      let p ← p.settle
      .ok (.more { p with filter := some word })
  | .setUp => .error (.unexpectedArgument word)

/-- a word that may be an option, or the value of one -/
def readWord (scope : Scope) (p : Progress) (word : String) : Except UsageError Step :=
  if p.noMoreOptions then readPlain scope p word
  else
    match Word.ofString word with
    | .noMoreOptions => .ok (.more { p with noMoreOptions := true })
    | .long name value => readLong scope p name value
    | .short letter => readShort scope p letter
    | .plain =>
      if p.pending = .awaited then .ok (.more { p with pending := .value word })
      else readPlain scope p word

/-- the words of a scope to their end -/
def parseWords (scope : Scope) : Progress → List String → Except UsageError Step
  | p, [] => .ok (.more p)
  | p, word :: words => do
    match ← readWord scope p word with
    | .more p => parseWords scope p words
    | .done r => .ok (.done r)

/-- help asked for by its command: the words behind it name commands one inside the other -/
def parseHelp : List String → Except UsageError Request
  | [] => .ok .help
  | [word] => if isCommandName word then .ok .help else .error (.unrecognizedCommand word)
  | word :: inner :: _ =>
    if isCommandName word then .error (.unrecognizedCommand inner)
    else .error (.unrecognizedCommand word)

/-- the command of a scope -/
def commandOf (scope : Scope) (p : Progress) : Command :=
  match scope with
  | .setUp => .setUp
  | _ => .build p.filter p.negate

/-- the context when none is given at all -/
def defaultContext : String := "."

/-- the words behind a command; `outer` is what was said before it -/
def parseCommand (environment : Option String) (outer : Progress) (scope : Scope)
    (words : List String) : Except UsageError Request := do
  match ← parseWords scope {} words with
  | .done r => .ok r
  | .more p => do
    let inner ← p.finish environment
    let outer ← outer.finish environment
    let context := ((inner.context.or outer.context).or environment).getD defaultContext
    .ok (.run (commandOf scope inner) ⟨context⟩)

/-- a command line without a command -/
def withoutCommand (environment : Option String) (p : Progress) : Except UsageError Request := do
  let p ← p.finish environment
  if p.context.isNone ∧ environment.isNone then .ok .helpForWant else .error .noCommand

/-- the words of a command line, before which `p` was said -/
def parseFrom (environment : Option String) : Progress → List String → Except UsageError Request
  | p, [] => withoutCommand environment p
  | p, word :: words =>
    if p.noMoreOptions = false ∧ p.pending ≠ .awaited ∧ isCommandName word then
      match scopeOfName? word with
      | some scope => parseCommand environment p scope words
      | none => parseHelp words
    else do
      match ← readWord .program p word with
      | .more p => parseFrom environment p words
      | .done r => .ok r

/-- what a command line asks for; `environment` is the context that the environment names -/
def parse (environment : Option String) (words : List String) : Except UsageError Request :=
  parseFrom environment {} words

/-! ## texts -/

def versionText : String := "sqlfilter 0.1.1"

def helpText : String :=
  "Compile Mongo-style JSON filters into SQL predicates\n\n" ++
  "Usage: sqlfilter [OPTIONS] <COMMAND>\n\n" ++
  "Commands:\n" ++
  "  build       Compile a JSON filter into a SQL predicate\n" ++
  "  initialize  Write a default configuration and its JSON schema\n" ++
  "  help        Print this message or the help of the given subcommand(s)\n\n" ++
  "Options:\n" ++
  "      --context <DIRECTORY>  The directory holding `configuration.json` " ++
  "[env: SQLFILTER_CONTEXT_PATH=] [default: .]\n" ++
  "  -h, --help                 Print help\n" ++
  "  -V, --version              Print version"

end WhereClause.Command
