import WhereClause.Text.CharSet

/-!
# Control sequences

A terminal takes parts of a text as orders: most begin with the escape character and go on to a
character that ends them. `stripControls` leaves them out, and with them every other control character
that does not lay the text out.

* `Stage.next`               where a reader is behind a character that is left out;
* `stripFrom_of_isPlain`     a text of plain characters is kept as it is;
* `isPlain_of_mem_stripFrom` nothing but plain characters is kept.
-/

set_option autoImplicit false

namespace WhereClause.Text

/-! ## characters -/

/-- the controls that lay a text out: tab, line feed, form feed and carriage return -/
def isLayout (c : Char) : Bool := c = '\t' || c = '\n' || c = '\x0c' || c = '\r'

/-- the characters that stand for themselves outside of control sequences -/
def isPlain (c : Char) : Bool := (' ' ≤ c && c ≠ '\x7f') || isLayout c

/-- from the blank to the slash: they may stand in front of the end of a sequence -/
def intermediates : CharRange := ⟨0x20, 0x2F⟩

/-- from the digit 0 to the question mark: they write the parameters of a sequence -/
def parameters : CharRange := ⟨0x30, 0x3F⟩

/-- from the at sign to the tilde: they end a sequence that has parameters -/
def finals : CharRange := ⟨0x40, 0x7E⟩

/-- from the digit 0 to the tilde: they end a sequence that has no parameters -/
def shortFinals : CharRange := ⟨0x30, 0x7E⟩

/-- from the less-than sign to the tilde: they end the parameters of a sequence for a device, in
which the first four of them may only stand first -/
def deviceFinals : CharRange := ⟨0x3C, 0x7E⟩

/-- the byte that ends a string, where it stands inside a character too -/
def stringEnd : UInt8 := 0x9C

/-! ## stages -/

/-- where a reader is -/
inductive Stage where
  /-- outside of any sequence -/
  | ground
  /-- behind the escape character -/
  | escape
  /-- in front of the end of a sequence without parameters -/
  | intermediate
  /-- behind the bracket that begins parameters -/
  | control
  /-- at the beginning of a sequence for a device -/
  | deviceStart
  | deviceParameter
  | deviceIntermediate
  /-- in a string for a device or for another program -/
  | string
  /-- in an order to the operating system, which a bell ends -/
  | command
  deriving DecidableEq

namespace Stage

/-- the stage behind a character that is left out -/
def next (s : Stage) (c : Char) : Stage :=
  if c = '\x1b' then .escape
  else if c = '\x18' ∨ c = '\x1a' then .ground
  else
    match s with
    | .ground => .ground
    | .escape =>
      if intermediates.contains c then .intermediate
      else if c = '[' then .control
      else if c = ']' then .command
      else if c = 'P' then .deviceStart
      else if c = 'X' ∨ c = '^' ∨ c = '_' then .string
      else if shortFinals.contains c then .ground
      else .escape
    | .intermediate => if shortFinals.contains c then .ground else .intermediate
    | .control => if finals.contains c then .ground else .control
    | .deviceStart =>
      if intermediates.contains c then .deviceIntermediate
      else if parameters.contains c then .deviceParameter
      else if finals.contains c then .string
      else .deviceStart
    | .deviceParameter =>
      if intermediates.contains c then .deviceIntermediate
      else if deviceFinals.contains c then .string
      else .deviceParameter
    | .deviceIntermediate => if shortFinals.contains c then .string else .deviceIntermediate
    | .string => if stringEnd ∈ String.utf8EncodeChar c then .ground else .string
    | .command => if c = '\x07' then .ground else .command

/-- characters that are kept although none was kept before them: white space inside a sequence counts
as if it stood behind it -/
def shows (s : Stage) (c : Char) : Bool :=
  match s with
  | .ground => isPlain c
  | .escape | .intermediate | .control => isLayout c
  | _ => false

end Stage

/-! ## texts -/

/-- the characters that are kept from a stage on. Behind one that is kept (`kept`) all plain ones are,
also inside a sequence, which goes on behind them unless one of them lies outside ASCII. -/
def stripFrom (kept : Bool) (s : Stage) : List Char → List Char
  | [] => []
  | c :: cs =>
    if (kept && isPlain c) || s.shows c then
      c :: stripFrom true (if c.toNat < 128 then s else .ground) cs
    else stripFrom false (s.next c) cs

theorem stripFrom_nil (kept : Bool) (s : Stage) : stripFrom kept s [] = [] := rfl

theorem stripFrom_of_isPlain {kept : Bool} {cs : List Char} (h : ∀ c ∈ cs, isPlain c = true) :
    stripFrom kept .ground cs = cs := by
  induction cs generalizing kept with
  | nil => rfl
  | cons c cs ih =>
    have hc : Stage.ground.shows c = true := h c List.mem_cons_self
    simp [stripFrom, hc, ih fun d hd => h d (List.mem_cons_of_mem c hd)]

theorem isPlain_of_shows {s : Stage} {c : Char} (h : s.shows c = true) : isPlain c = true := by
  cases s <;> simp_all [Stage.shows, isPlain]

theorem isPlain_of_mem_stripFrom {kept : Bool} {s : Stage} {cs : List Char} {c : Char}
    (h : c ∈ stripFrom kept s cs) : isPlain c = true := by
  induction cs generalizing kept s with
  | nil => simp [stripFrom] at h
  | cons d cs ih =>
    unfold stripFrom at h
    split at h
    · next hd =>
      rcases List.mem_cons.mp h with rfl | h
      · rcases Bool.or_eq_true_iff.mp hd with hd | hd
        · exact (Bool.and_eq_true_iff.mp hd).2
        · exact isPlain_of_shows hd
      · exact ih h
    · exact ih h

/-- the text as a terminal that obeys no orders would show it -/
def stripControls (text : String) : String :=
  String.ofList (stripFrom false .ground text.toList)

end WhereClause.Text
