import WhereClause.Command.Program

/-!
# The program

The command line run in the real world. The context may be named by `SQLFILTER_CONTEXT_PATH`, and
`SQLFILTER_LOG` says which events are written to the standard error.
-/

set_option autoImplicit false

namespace WhereClause.Main

open WhereClause.Files

/-- why the system refused -/
def faultOf : IO.Error → Fault
  | .noFileOrDirectory .. => .notFound
  | .alreadyExists .. => .alreadyExists
  | .inappropriateType _ code _ => if code = 21 then .isDirectory else .notDirectory
  | e@(.invalidArgument _ code _) => if code = 36 then .nameTooLong else .other (toString e)
  | e => .other (toString e)

/-- the result of an action, with what the system said if it refused -/
def attempt {α : Type} (action : IO α) : IO (Except Fault α) := do
  try
    return .ok (← action)
  catch e => return .error (faultOf e)

def textOf (bytes : ByteArray) : Except Fault String :=
  match String.fromUTF8? bytes with
  | some s => .ok s
  | none => .error .notText

/-- the real world; events up to the level are written -/
abbrev World := ReaderT (Option Level) IO

instance : Host World where
  contains p := do
    match ← attempt (discard (IO.FS.Handle.mk p.text .read)) with
    | .ok () => return true
    | .error .notFound => return false
    | .error .notDirectory => return false
    | .error .nameTooLong => return false
    | .error .isDirectory => return true
    | .error _ => return true
  readText p := do return (← attempt (IO.FS.readBinFile p.text)).bind textOf
  makeDirectories p := attempt (IO.FS.createDirAll p.text)
  writeText p s := attempt (IO.FS.writeFile p.text s)
  readInput := do return (← attempt (do (← IO.getStdin).readBinToEnd)).bind textOf
  note e := do
    match ← read with
    | some level => if e.level.rank ≤ level.rank then IO.eprintln e.words
    | none => return ()

end WhereClause.Main

def main (words : List String) : IO UInt32 := do
  let level := (← IO.getEnv "SQLFILTER_LOG").bind WhereClause.Files.Level.ofName?
  let environment ← IO.getEnv "SQLFILTER_CONTEXT_PATH"
  let program : WhereClause.Main.World WhereClause.Command.Outcome :=
    WhereClause.Command.program environment words
  let outcome ← program.run level
  IO.print outcome.output
  IO.eprint outcome.errors
  return outcome.code
