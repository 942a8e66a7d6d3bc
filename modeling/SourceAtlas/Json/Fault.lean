import SourceAtlas.Json.Value
import SourceAtlas.Text.Quoted
set_option autoImplicit false

namespace SourceAtlas.Json

inductive Cause
  | endInList
  | endInObject
  | endInString
  | endInValue
  | expectedColon
  | expectedListEnd
  | expectedObjectEnd
  | expectedWord
  | expectedValue
  | invalidEscape
  | invalidNumber
  | numberOutOfRange
  | loneSurrogate
  | endInEscape
  | controlCharacter
  | keyNotString
  | trailingComma
  | trailingCharacters
  | tooDeep
  /-- Another kind of value than expected; of a list or an object it is told only that it is one. -/
  | wrongKind (found : Json) (expected : String)
  | unknownWord (found : String) (expected : List String)
  | repeatedKey (key : String)
  | missingKey (key : String)

def marked (text : String) : String :=
  String.ofList ('\x60' :: text.toList ++ ['\x60'])

def kind : Json → String
  | .null => "null"
  | .bool true => "boolean " ++ marked "true"
  | .bool false => "boolean " ++ marked "false"
  | .number (.integer value) => "integer " ++ marked (toString value)
  | .number (.real value) => "floating point " ++ marked (value.write decimalStyle)
  | .string value => "string " ++ Text.quoted value
  | .array _ => "sequence"
  | .object _ => "map"

def Cause.message : Cause → String
  | .endInList => "EOF while parsing a list"
  | .endInObject => "EOF while parsing an object"
  | .endInString => "EOF while parsing a string"
  | .endInValue => "EOF while parsing a value"
  | .expectedColon => "expected " ++ marked ":"
  | .expectedListEnd => "expected " ++ marked "," ++ " or " ++ marked "]"
  | .expectedObjectEnd => "expected " ++ marked "," ++ " or " ++ marked "\x7d"
  | .expectedWord => "expected ident"
  | .expectedValue => "expected value"
  | .invalidEscape => "invalid escape"
  | .invalidNumber => "invalid number"
  | .numberOutOfRange => "number out of range"
  | .loneSurrogate => "lone leading surrogate in hex escape"
  | .endInEscape => "unexpected end of hex escape"
  | .controlCharacter => "control character (\\u0000-\\u001F) found while parsing a string"
  | .keyNotString => "key must be a string"
  | .trailingComma => "trailing comma"
  | .trailingCharacters => "trailing characters"
  | .tooDeep => "recursion limit exceeded"
  | .wrongKind found expected => "invalid type: " ++ kind found ++ ", expected " ++ expected
  | .unknownWord found expected =>
    "unknown variant " ++ marked found ++ ", expected one of " ++
      ", ".intercalate (expected.map marked)
  | .repeatedKey key => "duplicate field " ++ marked key
  | .missingKey key => "missing field " ++ marked key

/-- A cause, the text that follows the place where it arose, and how many bytes of that text were
looked at before it was noticed. -/
structure Fault where
  cause : Cause
  rest : List Char
  ahead : Nat

variable {α : Type}

def stopAt (cause : Cause) (rest : List Char) : Except Fault α :=
  .error ⟨cause, rest, 0⟩

def stopOn (cause : Cause) (rest : List Char) : Except Fault α :=
  .error ⟨cause, rest, 1⟩

def byteCount (cs : List Char) : Nat :=
  cs.foldr (fun c bytes => c.utf8Size + bytes) 0

/-- The line that a byte offset reaches into, and how many bytes of that line. -/
def place : Nat → Nat → Nat → List Char → Nat × Nat
  | line, column, _, [] => (line, column)
  | line, column, offset, c :: cs =>
    if offset = 0 then (line, column)
    else if c = '\n' then place (line + 1) 0 (offset - 1) cs
    else place line (column + min offset c.utf8Size) (offset - c.utf8Size) cs

def Fault.message (text : List Char) (fault : Fault) : String :=
  let offset := byteCount text - byteCount fault.rest + fault.ahead
  let (line, column) := place 1 0 offset text
  fault.cause.message ++ " at line " ++ toString line ++ " column " ++ toString column

end SourceAtlas.Json
