import WhereClause.Calendar.DateTime
import WhereClause.Calendar.Zone

/-!
# Timestamps

A timestamp is a date and time that no zone is known of, or an instant, held in UTC with the offset
it was given with.

* `Timestamp.same`   the same time, or the same instant whatever the offsets;
* `Timestamp.text?`  the text `2020-02-01 23:04:05.006`: an instant as the clocks of a zone show it. At
  the ends of the calendar an offset may leave it, and then there is no text.
-/

set_option autoImplicit false

namespace WhereClause.Calendar

open WhereClause.Text

inductive Timestamp where
  | naive (time : DateTime)
  /-- `offset` is in seconds -/
  | zoned (utc : DateTime) (offset : Int)
  deriving DecidableEq

/-! ## writing -/

/-- a year: four digits from 0 to 9999, with a sign and at least four digits outside -/
def yearText (y : Int) : List Char :=
  if 0 ≤ y ∧ y ≤ 9999 then padded 4 y.natAbs
  else (if y < 0 then '-' else '+') :: padded 4 y.natAbs

def dateText (d : Date) : List Char :=
  yearText d.year ++ '-' :: padded 2 d.month ++ '-' :: padded 2 d.day

/-- the time of day with milliseconds, which are cut off and not rounded -/
def clockText (t : Clock) : List Char :=
  padded 2 t.hour ++ ':' :: padded 2 t.minute ++ ':' :: padded 2 t.shownSecond
    ++ '.' :: padded 3 t.millisecond

def DateTime.text (t : DateTime) : String :=
  String.ofList (dateText t.date ++ ' ' :: clockText t.clock)

namespace Timestamp

/-- what the clocks of a zone show; a time of no zone is shown as it is -/
def shownIn? (z : Zone) : Timestamp → Option DateTime
  | .naive t => some t
  | .zoned utc _ => if z = .utc then some utc else utc.shift? z.minutes

def text? (z : Zone) (t : Timestamp) : Option String := (t.shownIn? z).map DateTime.text

/-! ## sameness -/

def same : Timestamp → Timestamp → Bool
  | .naive s, .naive t => s = t
  | .zoned s _, .zoned t _ => s = t
  | _, _ => false

/-- the instant a number of milliseconds after the start of 1970 -/
def ofMilliseconds? (ms : Int) : Option Timestamp :=
  (DateTime.ofMilliseconds? ms).map fun t => .zoned t 0

end Timestamp

end WhereClause.Calendar
