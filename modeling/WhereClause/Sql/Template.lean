import WhereClause.Sql.Value

/-!
# Templates

A template is text with placeholders: `?` takes the next value as a literal, `??` takes it as a name.
Three question marks or more in a row are text. A template is kept in one form: no segment of text is
empty, and no two of them are neighbours.

* `Template.parse`   the template of a text, cut into `runs` of question marks and of other text;
* `Template.append`  two templates, one behind the other;
* `Template.render`  the placeholders filled with values in turn. A placeholder that no value is left
  for is written as it is, and values that no placeholder is left for are dropped. A value without a
  literal ends the program.
-/

set_option autoImplicit false

namespace WhereClause.Sql

inductive Segment where
  | text (s : String)
  | identifier
  | value
  deriving DecidableEq

structure Template where
  segments : List Segment := []
  deriving DecidableEq

/-! ## runs -/

def isMark (c : Char) : Bool := c = '?'

/-- a character put in front of the first run, if it is of the same sort, or as a run of its own -/
def consRun (c : Char) : List (List Char) → List (List Char)
  | (d :: r) :: rs => if isMark c = isMark d then (c :: d :: r) :: rs else [c] :: (d :: r) :: rs
  | rs => [c] :: rs

/-- a text cut into its longest runs of question marks and of other characters -/
def runs : List Char → List (List Char)
  | [] => []
  | c :: cs => consRun c (runs cs)

theorem runs_nil : runs [] = [] := rfl

theorem runs_cons (c : Char) (cs : List Char) : runs (c :: cs) = consRun c (runs cs) := rfl

namespace Template

/-! ## building -/

/-- text at the end of segments: it joins the text that stands there -/
def pushTextTo (t : String) : List Segment → List Segment
  | [] => if t = "" then [] else [.text t]
  | [.text s] => [.text (s ++ t)]
  | s :: ss => s :: pushTextTo t ss

def pushText (x : Template) (t : String) : Template := ⟨pushTextTo t x.segments⟩

def push (x : Template) : Segment → Template
  | .text t => x.pushText t
  | s => ⟨x.segments ++ [s]⟩

def append (x y : Template) : Template := y.segments.foldl push x

/-- the segment of a run -/
def segmentOf (run : List Char) : Segment :=
  if run = ['?'] then .value else if run = ['?', '?'] then .identifier else .text (String.ofList run)

def parse (s : String) : Template := (runs s.toList).foldl (fun x run => x.push (segmentOf run)) {}

def isEmpty (x : Template) : Bool := x.segments.isEmpty

def isPlaceholder : Segment → Bool
  | .text _ => false
  | _ => true

/-- how many values a template takes -/
def placeholderCount (x : Template) : Nat := x.segments.countP isPlaceholder

end Template

/-! ## rendering -/

/-- why there is no text -/
inductive RenderError where
  | identifier (e : IdentifierError)
  /-- no error that is returned: the program ends at a time outside of the calendar -/
  | outsideCalendar
  deriving DecidableEq

def RenderError.message : RenderError → String
  | .identifier e => e.message
  | .outsideCalendar => "Local time out of range for \x60NaiveDateTime\x60"

/-- a value in the place of a literal -/
def Value.rendered (o : Options) (v : Value) : Except RenderError String :=
  match v.literal? o with
  | some s => .ok s
  | none => .error .outsideCalendar

namespace Template

def renderSegments (o : Options) : List Segment → List Value → Except RenderError String
  | [], _ => .ok ""
  | .text t :: ss, vs => do .ok (t ++ (← renderSegments o ss vs))
  | .identifier :: ss, [] => do .ok ("??" ++ (← renderSegments o ss []))
  | .value :: ss, [] => do .ok ("?" ++ (← renderSegments o ss []))
  | .identifier :: ss, v :: vs =>
    let w := v.identifier o.dialect
    match w.error with
    | some e => .error (.identifier e)
    | none => do .ok (w.text ++ (← renderSegments o ss vs))
  | .value :: ss, v :: vs => do
    let s ← v.rendered o
    .ok (s ++ (← renderSegments o ss vs))

def render (o : Options) (x : Template) (vs : List Value) : Except RenderError String :=
  renderSegments o x.segments vs

/-- a text with its placeholders filled -/
def format (o : Options) (s : String) (vs : List Value) : Except RenderError String :=
  (parse s).render o vs

end Template

end WhereClause.Sql
