import WhereClause.Command.Arguments

/-!
# The program as a whole

A command line is read, its command is run, and what comes of it is written: output with exit code 0,
a failure with its own exit code, and a command line that makes no sense with exit code 2. Of a program
that ends itself only the reason is written, and not where in the program it did.
-/

set_option autoImplicit false

namespace WhereClause.Command

open WhereClause.Files

/-- what the program writes, and its exit code -/
structure Outcome where
  code : UInt32
  output : String := ""
  errors : String := ""
  deriving DecidableEq

/-- text that ends a line -/
def line (s : String) : String := s ++ "\n"

section

variable {m : Type → Type} [Host m]

/-- what comes of a request -/
def answer : Request → m Outcome
  | .help => pure { code := 0, output := line helpText }
  | .version => pure { code := 0, output := line versionText }
  | .helpForWant => pure { code := 2, errors := line helpText }
  | .run command context => do
    match ← run command context with
    | .ok output => pure { code := 0, output := line output }
    | .error e => pure { code := e.code, errors := line e.chain }

/-- what comes of a command line; `environment` is the context that the environment names -/
def program (environment : Option String) (words : List String) : m Outcome :=
  match parse environment words with
  | .ok request => answer request
  | .error e => pure { code := 2, errors := line e.message }

end

end WhereClause.Command
