import WhereClause.Files.Tree

/-!
# Hosts

What a command can do to the world around it, as the operations of a monad. `Session` is a world that
is a value: a file tree, the text that waits on the standard input, and the events noted so far.
-/

set_option autoImplicit false

namespace WhereClause.Files

/-- how much an event matters, from the most to the least -/
inductive Level where
  | error
  | warn
  | info
  | debug
  | trace
  deriving DecidableEq

def Level.rank : Level → Nat
  | error => 1
  | warn => 2
  | info => 3
  | debug => 4
  | trace => 5

/-- the level of a word, in either case -/
def Level.ofName? (s : String) : Option Level :=
  match s.toLower with
  | "error" => some error
  | "warn" => some warn
  | "info" => some info
  | "debug" => some debug
  | "trace" => some trace
  | _ => none

/-- something that happened on the way -/
structure Event where
  level : Level
  words : String
  deriving DecidableEq

/-- what a command asks of the world -/
class Host (m : Type → Type) extends Monad m where
  contains : Path → m Bool
  readText : Path → m (Except Fault String)
  makeDirectories : Path → m (Except Fault Unit)
  writeText : Path → String → m (Except Fault Unit)
  readInput : m (Except Fault String)
  note : Event → m Unit

/-! ## a world as a value -/

structure Session where
  tree : Tree
  input : String := ""
  events : List Event := []
  deriving DecidableEq

namespace Session

/-- the session with text written, or unchanged -/
def write (s : Session) (p : Path) (text : String) : Except Fault Unit × Session :=
  match s.tree.writeText p text with
  | .ok t => (.ok (), { s with tree := t })
  | .error e => (.error e, s)

/-- the session with directories made -/
def makeDirectories (s : Session) (p : Path) : Except Fault Unit × Session :=
  let (t, result) := s.tree.makeDirectories p
  (result, { s with tree := t })

instance : Host (StateM Session) where
  contains p := fun s => (s.tree.contains p, s)
  readText p := fun s => (s.tree.readText p, s)
  makeDirectories p := fun s => s.makeDirectories p
  writeText p text := fun s => s.write p text
  readInput := fun s => (.ok s.input, { s with input := "" })
  note e := fun s => ((), { s with events := s.events ++ [e] })

end Session

end WhereClause.Files
