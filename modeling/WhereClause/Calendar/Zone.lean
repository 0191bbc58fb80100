import WhereClause.Text.CharSet
import WhereClause.Text.Digits

/-!
# Time zones

A zone is that of the host, UTC, or a fixed offset in minutes of less than a day. No text names
an offset with seconds. The host is taken to keep UTC, but its zone is shown under its own name.

* `readOffset?`   an offset such as `+05:30` at the front of a text;
* `Zone.read?`    a zone by its text. Text behind an offset is not looked at;
* `Zone.text`     the text of a zone.
-/

set_option autoImplicit false

namespace WhereClause.Calendar

open WhereClause.Text

inductive Zone where
  | host
  | utc
  | offset (minutes : Int) (within_day : minutes.natAbs < 1440)
  deriving DecidableEq

/-! ## offsets -/

/-- whether a sign takes away: a hyphen and the minus sign of mathematics do -/
def offsetSign? (c : Char) : Option Bool :=
  if c = '+' then some false
  else if c = '-' ∨ c = '\u2212' then some true
  else none

/-- a sign, two digits of hours and two of minutes below 60, in minutes; `gap` takes what stands
between the two -/
def readOffset? (gap : List Char → Option (List Char)) : List Char → Option (Int × List Char)
  | [] => none
  | c :: cs => do
    let negative ← offsetSign? c
    let (hours, cs) ← readDigits? 2 cs
    let cs ← gap cs
    let (minutes, cs) ← readDigits? 2 cs
    if minutes < 60 then
      let size : Int := (hours * 60 + minutes : Nat)
      some (if negative then -size else size, cs)
    else none

/-- the text behind colons and white space -/
def skipGap (cs : List Char) : List Char := cs.dropWhile fun c => c = ':' || isBlank c

/-! ## zones -/

/-- a text that is no zone -/
structure ZoneError where
  text : String
  deriving DecidableEq

def ZoneError.message (e : ZoneError) : String :=
  "invalid time zone '" ++ e.text ++ "', expected 'local', 'Z' or an offset such as '+05:30'"

namespace Zone

/-- the zone of an offset of less than a day -/
def ofMinutes? (minutes : Int) : Option Zone :=
  if h : minutes.natAbs < 1440 then some (.offset minutes h) else none

def read? (s : String) : Option Zone :=
  if s = "local" then some .host
  else if s = "Z" ∨ s = "z" then some .utc
  else do
    let (minutes, _) ← readOffset? (fun cs => some (skipGap cs)) s.toList
    ofMinutes? minutes

/-- the zone of a text, or why there is none -/
def read (s : String) : Except ZoneError Zone :=
  match read? s with
  | some z => .ok z
  | none => .error ⟨s⟩

/-- how many minutes the clocks of a zone are ahead of UTC; those of the host are taken to show UTC -/
def minutes : Zone → Int
  | .host => 0
  | .utc => 0
  | .offset m _ => m

/-- an offset by its sign, hours and minutes -/
def offsetText (m : Int) : List Char :=
  (if m < 0 then '-' else '+') :: padded 2 (m.natAbs / 60) ++ ':' :: padded 2 (m.natAbs % 60)

def text : Zone → String
  | .host => "local"
  | .utc => "Z"
  | .offset m _ => String.ofList (offsetText m)

end Zone

end WhereClause.Calendar
