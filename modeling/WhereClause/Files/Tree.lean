import WhereClause.Entries
import WhereClause.Files.Location
import WhereClause.Files.Path

/-!
# File trees

A tree of directories and files, and a working directory in it. A file whose content is text is kept as
text. A fault here comes from what lies at a path and on the way to it, or from the path itself. There
are no links, nothing is forbidden, and a file is written as a whole or not at all.

* `Tree.locate`           where a path leads, if the directories on its way exist;
* `Tree.readText`         the text of a file;
* `Tree.writeText`        the tree with a file written;
* `Tree.makeDirectories`  the tree with a directory made, and those that enclose it; what was made
  before a fault stays.
-/

set_option autoImplicit false

namespace WhereClause.Files

/-! ## faults -/

/-- why something cannot be done with a path -/
inductive Fault where
  | notFound
  | alreadyExists
  | notDirectory
  | isDirectory
  | nameTooLong
  | nulInPath
  | notText
  | other (text : String)
  deriving DecidableEq

def Fault.message : Fault → String
  | .notFound => "No such file or directory (os error 2)"
  | .alreadyExists => "File exists (os error 17)"
  | .notDirectory => "Not a directory (os error 20)"
  | .isDirectory => "Is a directory (os error 21)"
  | .nameTooLong => "File name too long (os error 36)"
  | .nulInPath => "file name contained an unexpected NUL byte"
  | .notText => "stream did not contain valid UTF-8"
  | .other text => text

/-! ## trees -/

inductive Entry where
  | text (content : String)
  /-- a file whose bytes are no text -/
  | bytes (content : List UInt8)
  | directory
  deriving DecidableEq

structure Tree where
  workingDirectory : Location := .root
  entries : Entries Location Entry := []
  deriving DecidableEq

namespace Tree

/-- what lies at a location; the root is always a directory -/
def find? (t : Tree) (l : Location) : Option Entry :=
  if l = .root then some .directory else Entries.get? l t.entries

def put (t : Tree) (l : Location) (e : Entry) : Tree :=
  { t with entries := Entries.insert l e t.entries }

/-! ## paths -/

/-- the bytes that a name may take -/
def maxNameLength : Nat := 255

/-- the bytes that a whole path may take -/
def maxPathLength : Nat := 4095

/-- one part further from a location, which has to be a directory -/
def step (t : Tree) (l : Location) (part : String) : Except Fault Location :=
  match t.find? l with
  | some .directory =>
    if part = here then .ok l
    else if part = ".." then .ok l.parent
    else if maxNameLength < part.utf8ByteSize then .error .nameTooLong
    else .ok (l.child part)
  | some _ => .error .notDirectory
  | none => .error .notFound

def follow (t : Tree) : Location → List String → Except Fault Location
  | l, [] => .ok l
  | l, part :: parts => do
    let l ← t.step l part
    follow t l parts

/-- a path is not gone along at all if its text does not do -/
def checkText (p : Path) : Except Fault Unit :=
  if p.text.toList.contains '\x00' then .error .nulInPath
  else if maxPathLength < p.text.utf8ByteSize then .error .nameTooLong
  else .ok ()

/-- where a path begins -/
def start (t : Tree) (p : Path) : Location := if p.fromRoot then .root else t.workingDirectory

/-- where a path leads; nothing needs to lie there, and the empty path leads nowhere -/
def locate (t : Tree) (p : Path) : Except Fault Location :=
  if p.text = "" then .error .notFound
  else do
    checkText p
    t.follow (t.start p) p.parts

/-- what lies where a path leads -/
def lookup (t : Tree) (p : Path) : Except Fault Entry := do
  match t.find? (← t.locate p) with
  | some e => .ok e
  | none => .error .notFound

def contains (t : Tree) (p : Path) : Bool :=
  match t.lookup p with
  | .ok _ => true
  | .error _ => false

/-! ## files -/

def readText (t : Tree) (p : Path) : Except Fault String := do
  match ← t.lookup p with
  | .text s => .ok s
  | .bytes _ => .error .notText
  | .directory => .error .isDirectory

/-- the tree with an entry where a path leads; no directory is replaced -/
def write (t : Tree) (p : Path) (e : Entry) : Except Fault Tree := do
  let l ← t.locate p
  match t.find? l with
  | some .directory => .error .isDirectory
  | _ => .ok (t.put l e)

def writeText (t : Tree) (p : Path) (s : String) : Except Fault Tree := t.write p (.text s)

/-! ## directories -/

/-- a directory made at the end of each leg that has none there; `made` once one has been made. A
file there takes the place of a directory to be made if the leg is the last one or if one has been
made before; else it is merely no directory to go through. -/
def makeAlong (t : Tree) (made : Bool) (l : Location) :
    List (List String) → Tree × Except Fault Unit
  | [] => (t, .ok ())
  | leg :: legs =>
    match t.follow l leg with
    | .error e => (t, .error e)
    | .ok l =>
      match t.find? l with
      | none => makeAlong (t.put l .directory) true l legs
      | some .directory => makeAlong t made l legs
      | some _ => (t, .error (if made ∨ legs.isEmpty then .alreadyExists else .notDirectory))

/-- the tree with a directory and those on the way to it -/
def makeDirectories (t : Tree) (p : Path) : Tree × Except Fault Unit :=
  if p.text = "" then (t, .ok ())
  else
    match checkText p with
    | .error e => (t, .error e)
    | .ok () => t.makeAlong false (t.start p) (legs p.parts)

end Tree

end WhereClause.Files
