import WhereClause.Json.Reader
import WhereClause.Json.Skip
import WhereClause.Settings.Error

/-!
# Reading the settings document

The document is an object, whose members come in any order, or an array, whose elements come in the
order of the members. An unknown member is skipped; a known one must not come twice. The
dialect is a string, or an object that has the dialect for its one key and `null` beside it.

* `readField`      the value of one member;
* `readMembers`    the members of an object;
* `readElements`   the elements of an array;
* `Settings.read`  the settings of a whole text.
-/

set_option autoImplicit false

namespace WhereClause.Settings

open WhereClause.Text WhereClause.Sql

/-- a reader of JSON inside the document -/
def lift {α : Type} (r : Except (Stop Json.Fault) α) : Except (Stop Fault) α :=
  r.mapError (Stop.map .json)

/-- a stop at a fault of the JSON -/
def jsonStop (f : Json.Fault) (rest : List Char) (ahead : Nat) : Stop Fault :=
  ⟨.json f, rest, ahead⟩

/-! ## values of a wrong kind -/

/-- the stop at a value that is not wanted. A number, a word or a string is read first; an array or
an object is not -/
def unwanted (expected : Expected) (cs : List Char) : Stop Fault :=
  let behind (found : Found) (r : Except (Stop Json.Fault) (List Char)) : Stop Fault :=
    match lift r with
    | .ok rest => ⟨.wrongKind found expected, rest, 0⟩
    | .error s => s
  match cs with
  | [] => jsonStop .expectedValue [] 1
  | c :: rest =>
    if c = 'n' then behind .null (Json.readWord ['u', 'l', 'l'] rest)
    else if c = 't' then behind (.boolean true) (Json.readWord ['r', 'u', 'e'] rest)
    else if c = 'f' then behind (.boolean false) (Json.readWord ['a', 'l', 's', 'e'] rest)
    else if c = '-' ∨ c.isDigit then
      match lift (Json.readNumber (c :: rest)) with
      | .ok (n, rest) => ⟨.wrongKind (.number n) expected, rest, 0⟩
      | .error s => s
    else if c = '"' then
      match lift (Json.readQuoted rest) with
      | .ok (s, rest) => ⟨.wrongKind (.string s) expected, rest, 0⟩
      | .error s => s
    else if c = '[' then ⟨.wrongKind .sequence expected, c :: rest, 0⟩
    else if c = '\x7b' then ⟨.wrongKind .map expected, c :: rest, 0⟩
    else jsonStop .expectedValue (c :: rest) 1

/-! ## values -/

/-- a number from 0 to below `limit` -/
def readNatural (limit : Nat) (expected : Expected) : Reader Fault Nat := fun cs =>
  match Json.skipSpace cs with
  | [] => .error (jsonStop .endOfValue [] 0)
  | c :: cs =>
    if c = '-' ∨ c.isDigit then do
      let (n, rest) ← lift (Json.readNumber (c :: cs))
      match n with
      | .integer n =>
        if 0 ≤ n ∧ n < limit then .ok (n.toNat, rest) else .error ⟨.outOfRange n expected, rest, 0⟩
      | .double x => .error ⟨.wrongKind (.number (.double x)) expected, rest, 0⟩
    else .error (unwanted expected (c :: cs))

def readString : Reader Fault String := fun cs =>
  match Json.skipSpace cs with
  | [] => .error (jsonStop .endOfValue [] 0)
  | c :: cs =>
    if c = '"' then lift (Json.readQuoted cs) else .error (unwanted .string (c :: cs))

/-- the dialect of a name, read from behind its opening quote -/
def readDialectName : Reader Fault Dialect := fun cs => do
  let (name, rest) ← lift (Json.readQuoted cs)
  match Dialect.ofName? name with
  | some d => .ok (d, rest)
  | none => .error ⟨.unknownDialect name, rest, 0⟩

/-- the text behind `null` -/
def readNothing (cs : List Char) : Except (Stop Fault) (List Char) :=
  match Json.skipSpace cs with
  | [] => .error (jsonStop .endOfValue [] 0)
  | c :: cs =>
    if c = 'n' then lift (Json.readWord ['u', 'l', 'l'] cs)
    else .error (unwanted .nothing (c :: cs))

/-- the one key of an object, read from behind its opening bracket -/
def readDialectObject : Reader Fault Dialect := fun cs =>
  match Json.skipSpace cs with
  | [] => .error (jsonStop .endOfObject [] 0)
  | c :: cs =>
    if c = '"' then do
      let (d, cs) ← readDialectName cs
      let cs ← lift (Json.readColon cs)
      let cs ← readNothing cs
      match Json.skipSpace cs with
      | [] => .error (jsonStop .endOfObject [] 0)
      | c :: cs =>
        if c = '\x7d' then .ok (d, cs) else .error (jsonStop .expectedValue (c :: cs) 0)
    else if c = '\x7d' then .error (jsonStop .expectedValue (c :: cs) 1)
    else .error (jsonStop .keyNotString (c :: cs) 1)

def readDialect : Reader Fault Dialect := fun cs =>
  match Json.skipSpace cs with
  | [] => .error (jsonStop .endOfValue [] 0)
  | c :: cs =>
    if c = '"' then readDialectName cs
    else if c = '\x7b' then readDialectObject cs
    else .error (jsonStop .expectedValue (c :: cs) 1)

/-! ## members -/

/-- the members read so far -/
structure Known where
  version : Option UInt32 := none
  dialect : Option Dialect := none
  timeZone : Option String := none
  maxDepth : Option UInt64 := none

def Known.has (k : Known) : Field → Bool
  | .version => k.version.isSome
  | .dialect => k.dialect.isSome
  | .timeZone => k.timeZone.isSome
  | .maxDepth => k.maxDepth.isSome

/-- the settings, if the version is known; what else is not known has its default -/
def Known.settings? (k : Known) : Option Settings :=
  k.version.map fun version =>
    { version
      dialect := k.dialect.getD Settings.initial.dialect
      timeZone := k.timeZone.getD Settings.initial.timeZone
      maxDepth := k.maxDepth.getD Settings.initial.maxDepth }

/-- the value of a member, read and kept -/
def readField (k : Known) : Field → Reader Fault Known
  | .version, cs => do
    let (n, rest) ← readNatural (Nat.pow 2 32) .version cs
    .ok ({ k with version := some (UInt32.ofNat n) }, rest)
  | .dialect, cs => do
    let (d, rest) ← readDialect cs
    .ok ({ k with dialect := some d }, rest)
  | .timeZone, cs => do
    let (s, rest) ← readString cs
    .ok ({ k with timeZone := some s }, rest)
  | .maxDepth, cs => do
    let (n, rest) ← readNatural (Nat.pow 2 64) .depth cs
    .ok ({ k with maxDepth := some (UInt64.ofNat n) }, rest)

/-- the stop at a fault of the document as a whole: behind the mark that ends it, or a part of it, if
this comes next -/
def wholeStop (f : Fault) (marks : List Char) (cs : List Char) : Stop Fault :=
  match Json.skipSpace cs with
  | [] => ⟨f, [], 0⟩
  | c :: cs => if c ∈ marks then ⟨f, cs, 0⟩ else ⟨f, c :: cs, 0⟩

/-! ## objects -/

/-- what follows the key of a member -/
def readMemberValue (k : Known) (key : String) : Reader Fault Known := fun cs =>
  match Field.ofName? key with
  | none => do
    let cs ← lift (Json.readColon cs)
    let (_, cs) ← lift (Json.skipValue cs)
    .ok (k, cs)
  | some f =>
    if k.has f then .error (wholeStop (.repeated f) ['\x7d'] cs)
    else do
      let cs ← lift (Json.readColon cs)
      readField k f cs

/-- one member and the ones after it, up to the closing bracket, which is left. A member takes a
character at least, so a bound as long as the text does not run out. -/
def readMembers : (bound : List Char) → Known → Reader Fault Known
  | _ :: bound, k, '"' :: cs => do
    let (key, cs) ← lift (Json.readQuoted cs)
    let (k, cs) ← readMemberValue k key cs
    match Json.skipSpace cs with
    | [] => .error (jsonStop .endOfObject [] 0)
    | c :: cs =>
      if c = '\x7d' then .ok (k, c :: cs)
      else if c = ',' then
        match Json.skipSpace cs with
        | [] => .error (jsonStop .endOfValue [] 0)
        | d :: cs =>
          if d = '\x7d' then .error (jsonStop .trailingComma (d :: cs) 1)
          else readMembers bound k (d :: cs)
      else .error (jsonStop .expectedObjectEnd (c :: cs) 1)
  | _, _, cs => .error (jsonStop .keyNotString cs 1)

/-- the settings of an object, read from behind its opening bracket -/
def readObject : Reader Fault Settings := fun cs => do
  let (k, cs) ←
    match Json.skipSpace cs with
    | [] => .error (jsonStop .endOfObject [] 0)
    | c :: cs =>
      if c = '\x7d' then .ok ({}, c :: cs) else readMembers (c :: cs) {} (c :: cs)
  match k.settings? with
  | some s => .ok (s, cs.drop 1)
  | none => .error (wholeStop (.missing .version) ['\x7d'] cs)

/-! ## arrays -/

/-- an element for each member in turn, as long as there are elements; `first` when none has been
read yet -/
def readElements : (first : Bool) → List Field → Known → Reader Fault Known
  | _, [], k, cs => .ok (k, cs)
  | first, f :: fs, k, cs =>
    match Json.skipSpace cs with
    | [] => .error (jsonStop .endOfList [] 0)
    | c :: cs =>
      if c = ']' then .ok (k, c :: cs)
      else if first then do
        let (k, cs) ← readField k f (c :: cs)
        readElements false fs k cs
      else if c = ',' then
        match Json.skipSpace cs with
        | [] => .error (jsonStop .endOfValue [] 0)
        | d :: cs =>
          if d = ']' then .error (jsonStop .trailingComma (d :: cs) 1)
          else do
            let (k, cs) ← readField k f (d :: cs)
            readElements false fs k cs
      else .error (jsonStop .expectedListEnd (c :: cs) 1)

/-- the text behind the closing bracket of an array -/
def readArrayEnd (cs : List Char) : Except (Stop Fault) (List Char) :=
  match Json.skipSpace cs with
  | [] => .error (jsonStop .endOfList [] 0)
  | c :: cs =>
    if c = ']' then .ok cs
    else if c = ',' then
      match Json.skipSpace cs with
      | d :: cs =>
        if d = ']' then .error (jsonStop .trailingComma (d :: cs) 1)
        else .error (jsonStop .trailingCharacters (d :: cs) 1)
      | [] => .error (jsonStop .trailingCharacters [] 0)
    else .error (jsonStop .trailingCharacters (c :: cs) 1)

/-- the settings of an array, read from behind its opening bracket -/
def readArray : Reader Fault Settings := fun cs => do
  let (k, cs) ← readElements true Field.all {} cs
  match k.settings? with
  | some s => do
    let cs ← readArrayEnd cs
    .ok (s, cs)
  | none => .error (wholeStop .noElements [']', ','] cs)

/-! ## documents -/

def readSettings : Reader Fault Settings := fun cs =>
  match Json.skipSpace cs with
  | [] => .error (jsonStop .endOfValue [] 0)
  | c :: cs =>
    if c = '[' then readArray cs
    else if c = '\x7b' then readObject cs
    else .error (unwanted .document (c :: cs))

def readDocument (cs : List Char) : Except (Stop Fault) Settings := do
  let (s, rest) ← readSettings cs
  lift (Json.readEnd rest)
  .ok s

/-- the settings of a text, or the error with its place -/
def read (text : String) : Except Error Settings :=
  (readDocument text.toList).mapError (Error.ofStop text.toList)

end WhereClause.Settings
