import WhereClause.Json.Printer
import WhereClause.Sql.Dialect

/-!
# Settings

The settings of a directory are kept in a JSON document of four members. Only the version has to be
given; the others have defaults.

* `Settings.toJson`    the document as a value;
* `Settings.fileText`  the document as it is written.
-/

set_option autoImplicit false

namespace WhereClause

open WhereClause.Sql

/-- what the document of a directory says -/
structure Settings where
  version : UInt32
  dialect : Dialect := .mysql
  timeZone : String := "local"
  maxDepth : UInt64 := 32
  deriving DecidableEq

namespace Settings

/-- the version of the document that is understood -/
def currentVersion : UInt32 := 1

/-- the settings that a directory begins with -/
def initial : Settings := { version := currentVersion }

/-! ## members -/

/-- the members of the document, in their order -/
inductive Field where
  | version
  | dialect
  | timeZone
  | maxDepth
  deriving DecidableEq

namespace Field

def name : Field → String
  | version => "version"
  | dialect => "dialect"
  | timeZone => "timeZone"
  | maxDepth => "maxDepth"

def all : List Field := [version, dialect, timeZone, maxDepth]

/-- the member of a key -/
def ofName? (s : String) : Option Field := all.find? fun f => f.name = s

theorem mem_all (f : Field) : f ∈ all := by cases f <;> decide

theorem ofName?_name (f : Field) : ofName? f.name = some f := by cases f <;> decide

end Field

/-- what is written for a member -/
def memberJson (s : Settings) : Field → Json
  | .version => .number (.integer s.version.toNat)
  | .dialect => .string s.dialect.name
  | .timeZone => .string s.timeZone
  | .maxDepth => .number (.integer s.maxDepth.toNat)

def toJson (s : Settings) : Json := .object (Field.all.map fun f => (f.name, s.memberJson f))

/-- the text of the document, which ends a line -/
def fileText (s : Settings) : String := s.toJson.pretty ++ "\n"

end Settings

end WhereClause
