import WhereClause.Json.Error

/-!
# JSON strings

A string is written between double quotes; the quote, the backslash and the controls are escaped.
Reading also knows escapes that writing does not use: `\/`, and any UTF-16 unit by four hexadecimal
digits, where a leading surrogate needs its trailing one.

* `quoted`      a string as it is written;
* `readQuoted`  a string read from behind its opening quote;
* `skipQuoted`  the same with no string made: escapes are checked, surrogates are not.
-/

set_option autoImplicit false

namespace WhereClause.Json

open WhereClause.Text

/-! ## writing -/

/-- a character inside a string -/
def escaped (c : Char) : List Char :=
  if c = '"' then ['\\', '"']
  else if c = '\\' then ['\\', '\\']
  else if c = '\x08' then ['\\', 'b']
  else if c = '\t' then ['\\', 't']
  else if c = '\n' then ['\\', 'n']
  else if c = '\x0c' then ['\\', 'f']
  else if c = '\r' then ['\\', 'r']
  else if c.toNat < 0x20 then
    ['\\', 'u', '0', '0', Nat.digitChar (c.toNat / 16), Nat.digitChar (c.toNat % 16)]
  else [c]

def quoted (s : String) : String :=
  String.ofList ('"' :: s.toList.flatMap escaped ++ ['"'])

/-! ## escapes -/

/-- the character that a backslash and a single character stand for -/
def shortEscape? : Char → Option Char
  | '"' => some '"'
  | '\\' => some '\\'
  | '/' => some '/'
  | 'b' => some '\x08'
  | 'f' => some '\x0c'
  | 'n' => some '\n'
  | 'r' => some '\r'
  | 't' => some '\t'
  | _ => none

/-- the number that four hexadecimal digits name -/
def hexUnit? (a b c d : Char) : Option Nat := do
  let a ← hexValue? a
  let b ← hexValue? b
  let c ← hexValue? c
  let d ← hexValue? d
  pure (((a * 16 + b) * 16 + c) * 16 + d)

/-- four hexadecimal digits as a number; four bytes are read before they are looked at -/
def readUnit (cs : List Char) : Except (Stop Fault) (Nat × List Char) :=
  let found : Option (Nat × List Char) :=
    match cs with
    | a :: b :: c :: d :: rest => (hexUnit? a b c d).map fun u => (u, rest)
    | _ => none
  match found with
  | some r => .ok r
  | none =>
    if byteLength cs < 4 then .error ⟨.endOfString, [], 0⟩
    else .error ⟨.invalidEscape, cs, 4⟩

def isLeading (unit : Nat) : Bool := 0xD800 ≤ unit && unit ≤ 0xDBFF

def isTrailing (unit : Nat) : Bool := 0xDC00 ≤ unit && unit ≤ 0xDFFF

/-- the character of a surrogate pair -/
def pairChar (leading trailing : Nat) : Char :=
  Char.ofNat (0x10000 + (leading - 0xD800) * 0x400 + (trailing - 0xDC00))

/-- the next character, which has to be the one given -/
def readPairMark (mark : Char) : List Char → Except (Stop Fault) (List Char)
  | [] => .error ⟨.endOfString, [], 0⟩
  | c :: cs => if c = mark then .ok cs else .error ⟨.endOfSurrogatePair, c :: cs, 1⟩

/-- the character of an escape by code, read behind `\u`, and the number of characters read -/
def readCode (cs : List Char) : Except (Stop Fault) (Char × Nat) := do
  let (u, rest) ← readUnit cs
  if isTrailing u then .error ⟨.loneSurrogate, rest, 0⟩
  else if isLeading u then do
    let rest ← readPairMark '\\' rest
    let rest ← readPairMark 'u' rest
    let (v, rest) ← readUnit rest
    if isTrailing v then .ok (pairChar u v, 10) else .error ⟨.loneSurrogate, rest, 0⟩
  else .ok (Char.ofNat u, 4)

/-- the character of an escape, read behind its backslash, and the number of characters read -/
def readEscape : List Char → Except (Stop Fault) (Char × Nat)
  | [] => .error ⟨.endOfString, [], 0⟩
  | c :: cs =>
    if c = 'u' then (readCode cs).map fun r => (r.1, r.2 + 1)
    else
      match shortEscape? c with
      | some d => .ok (d, 1)
      | none => .error ⟨.invalidEscape, c :: cs, 1⟩

/-! ## reading -/

/-- the characters up to the closing quote; the first `taken` characters of the text belong to an
escape that has been read -/
def readChars : (taken : Nat) → Reader Fault (List Char)
  | _, [] => .error ⟨.endOfString, [], 0⟩
  | taken + 1, _ :: cs => readChars taken cs
  | 0, c :: cs =>
    if c = '"' then .ok ([], cs)
    else if c = '\\' then do
      let (d, taken) ← readEscape cs
      let (ds, rest) ← readChars taken cs
      .ok (d :: ds, rest)
    else if c.toNat < 0x20 then .error ⟨.controlCharacter, c :: cs, 1⟩
    else do
      let (ds, rest) ← readChars 0 cs
      .ok (c :: ds, rest)

def readQuoted : Reader Fault String := fun cs => do
  let (ds, rest) ← readChars 0 cs
  .ok (String.ofList ds, rest)

/-! ## skipping -/

/-- the number of characters of an escape behind its backslash -/
def skipEscape : List Char → Except (Stop Fault) Nat
  | [] => .error ⟨.endOfString, [], 0⟩
  | c :: cs =>
    if c = 'u' then (readUnit cs).map fun _ => 5
    else if (shortEscape? c).isSome then .ok 1
    else .error ⟨.invalidEscape, c :: cs, 1⟩

/-- the text behind the closing quote; a control is reported where it stands, unread -/
def skipChars : (taken : Nat) → Reader Fault Unit
  | _, [] => .error ⟨.endOfString, [], 0⟩
  | taken + 1, _ :: cs => skipChars taken cs
  | 0, c :: cs =>
    if c = '"' then .ok ((), cs)
    else if c = '\\' then do
      let taken ← skipEscape cs
      skipChars taken cs
    else if c.toNat < 0x20 then .error ⟨.controlCharacter, c :: cs, 0⟩
    else skipChars 0 cs

def skipQuoted : Reader Fault Unit := skipChars 0

end WhereClause.Json
