import WhereClause.Calendar.Timestamp

/-!
# Reading timestamps

Four forms are tried in turn, and each takes the whole text or nothing.

* `readInstant?`       `2020-02-01T23:04:05.006+05:30`, every field at its full width;
* `readJoined?`        `2020-02-01T23:04:05.006` with no offset;
* `readSpaced?`        `2020-02-01 23:04:05.006` with no offset;
* `readDay?`           `2020-02-01`, which is its midnight.

In the last three forms white space may stand before a number, a number may have fewer digits, and
a year with a sign may have more.
-/

set_option autoImplicit false

namespace WhereClause.Calendar

open WhereClause.Text

/-! ## fields -/

/-- nanoseconds behind a point, at least one digit and nine that count; none without a point -/
def readFraction? : List Char → Option (Nat × List Char)
  | '.' :: cs =>
    let (ds, rest) := takeDigits cs
    let kept := ds.take 9
    if ds.isEmpty then none else some (digitsValue kept * Nat.pow 10 (9 - kept.length), rest)
  | cs => some (0, cs)

/-- a number of at most `width` digits behind white space -/
def readField? (width : Nat) (cs : List Char) : Option (Nat × List Char) :=
  readNumber? width (skipBlanks cs)

/-- all the digits at the front of a text as a number -/
def readAllDigits? (cs : List Char) : Option (Nat × List Char) := readNumber? cs.length cs

/-- a year behind white space: up to four digits, or a sign and any number of digits -/
def readYear? (cs : List Char) : Option (Int × List Char) :=
  match skipBlanks cs with
  | '-' :: cs => (readAllDigits? cs).map fun r => (-(r.1 : Int), r.2)
  | '+' :: cs => (readAllDigits? cs).map fun r => ((r.1 : Int), r.2)
  | cs => (readNumber? 4 cs).map fun r => ((r.1 : Int), r.2)

/-- a date in the calendar -/
def readDate? (cs : List Char) : Option (Date × List Char) := do
  let (year, cs) ← readYear? cs
  let cs ← readChar? '-' cs
  let (month, cs) ← readField? 2 cs
  let cs ← readChar? '-' cs
  let (day, cs) ← readField? 2 cs
  let date ← Date.of? year month day
  if date.InCalendar then some (date, cs) else none

/-- a time of day with seconds up to 60 and a fraction or none -/
def readClock? (cs : List Char) : Option (Clock × List Char) := do
  let (hour, cs) ← readField? 2 cs
  let cs ← readChar? ':' cs
  let (minute, cs) ← readField? 2 cs
  let cs ← readChar? ':' cs
  let (second, cs) ← readField? 2 cs
  let (nano, cs) ← readFraction? cs
  let clock ← Clock.ofWritten? hour minute second nano
  some (clock, cs)

/-! ## forms without an offset -/

/-- a date and a time with `gap` taking what stands between them, and nothing behind -/
def readNaive? (gap : List Char → Option (List Char)) (cs : List Char) : Option DateTime := do
  let (date, cs) ← readDate? cs
  let cs ← gap cs
  let (clock, cs) ← readClock? cs
  if cs.isEmpty then some ⟨date, clock⟩ else none

def readJoined? (cs : List Char) : Option DateTime := readNaive? (readChar? 'T') cs

/-- any white space stands between date and time, even none -/
def readSpaced? (cs : List Char) : Option DateTime := readNaive? (fun cs => some (skipBlanks cs)) cs

def readDay? (cs : List Char) : Option DateTime := do
  let (date, cs) ← readDate? cs
  if cs.isEmpty then some ⟨date, Clock.midnight⟩ else none

/-! ## the form with an offset -/

/-- the mark between the date and the time of an instant -/
def readInstantGap? : List Char → Option (List Char)
  | c :: cs => if c = 'T' ∨ c = 't' ∨ c = ' ' then some cs else none
  | [] => none

/-- the offset of an instant in minutes: `Z`, or a sign, hours, a colon and minutes -/
def readInstantOffset? : List Char → Option (Int × List Char)
  | c :: cs => if c = 'Z' ∨ c = 'z' then some (0, cs) else readOffset? (readChar? ':') (c :: cs)
  | [] => none

/-- an instant as its local time and its offset in minutes -/
def readInstant? (cs : List Char) : Option (DateTime × Int) := do
  let (year, cs) ← readDigits? 4 cs
  let cs ← readChar? '-' cs
  let (month, cs) ← readDigits? 2 cs
  let cs ← readChar? '-' cs
  let (day, cs) ← readDigits? 2 cs
  let cs ← readInstantGap? cs
  let (hour, cs) ← readDigits? 2 cs
  let cs ← readChar? ':' cs
  let (minute, cs) ← readDigits? 2 cs
  let cs ← readChar? ':' cs
  let (second, cs) ← readDigits? 2 cs
  let (nano, cs) ← readFraction? cs
  let (offset, cs) ← readInstantOffset? cs
  let date ← Date.of? year month day
  let clock ← Clock.ofWritten? hour minute second nano
  if cs.isEmpty ∧ offset.natAbs < 1440 then some (⟨date, clock⟩, offset) else none

/-! ## all forms -/

/-- the timestamp of a text: an instant if it can be read as one, else a time of no zone -/
def Timestamp.read? (s : String) : Option Timestamp :=
  let cs := s.toList
  match readInstant? cs with
  | some (localTime, offset) => some (.zoned (localTime.addMinutes (-offset)) (offset * 60))
  | none => ((readJoined? cs).or ((readSpaced? cs).or (readDay? cs))).map .naive

end WhereClause.Calendar
