import WhereClause.Text.Position
import WhereClause.Text.Digits

/-!
# Errors of JSON texts

What can be wrong with a text (`Fault`), each with its words (`Fault.message`), and an error with its
place (`Error.message`).
-/

set_option autoImplicit false

namespace WhereClause.Json

open WhereClause.Text

inductive Fault where
  | endOfValue
  | endOfList
  | endOfObject
  | endOfString
  | expectedValue
  | expectedWord
  | expectedColon
  | expectedListEnd
  | expectedObjectEnd
  | keyNotString
  | trailingComma
  | trailingCharacters
  | invalidNumber
  | numberOutOfRange
  | invalidEscape
  | loneSurrogate
  | endOfSurrogatePair
  | controlCharacter
  | nestedTooDeep
  deriving DecidableEq

def Fault.message : Fault → String
  | .endOfValue => "EOF while parsing a value"
  | .endOfList => "EOF while parsing a list"
  | .endOfObject => "EOF while parsing an object"
  | .endOfString => "EOF while parsing a string"
  | .expectedValue => "expected value"
  | .expectedWord => "expected ident"
  | .expectedColon => "expected `:`"
  | .expectedListEnd => "expected `,` or `]`"
  | .expectedObjectEnd => "expected `,` or `\x7d`"
  | .keyNotString => "key must be a string"
  | .trailingComma => "trailing comma"
  | .trailingCharacters => "trailing characters"
  | .invalidNumber => "invalid number"
  | .numberOutOfRange => "number out of range"
  | .invalidEscape => "invalid escape"
  | .loneSurrogate => "lone leading surrogate in hex escape"
  | .endOfSurrogatePair => "unexpected end of hex escape"
  | .controlCharacter => "control character (\\u0000-\\u001F) found while parsing a string"
  | .nestedTooDeep => "recursion limit exceeded"

/-- words with the place they speak of -/
def messageAt (words : String) (p : Position) : String :=
  words ++ " at line " ++ String.ofList (decimal p.line)
    ++ " column " ++ String.ofList (decimal p.column)

structure Error where
  fault : Fault
  position : Position
  deriving DecidableEq

def Error.message (e : Error) : String := messageAt e.fault.message e.position

/-- the error of a stop, placed inside the whole text -/
def Error.ofStop (text : List Char) (s : Stop Fault) : Error := ⟨s.what, s.position text⟩

end WhereClause.Json
