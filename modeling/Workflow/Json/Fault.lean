namespace Workflow.Json

/-- Why a text cannot be read. -/
inductive Cause where
  | endInValue
  | endInList
  | endInObject
  | endInText
  | expectedValue
  | expectedWord
  | expectedColon
  | expectedCommaInList
  | expectedCommaInObject
  | expectedKey
  | trailingComma
  | trailingCharacters
  | invalidNumber
  | numberOutOfRange
  | invalidEscape
  | unpairedSurrogate
  | unfinishedSurrogate
  | controlCharacter
  | nestedTooDeep
  | missingField (name : String)
  | duplicateField (name : String)
  | wrongType (found wanted : String)
  | wrongLength (length : Nat) (wanted : String)
  | unknownVariant (found wanted : String)
  | rejected (message : String)
  deriving DecidableEq, Repr

def Cause.message : Cause → String
  | .endInValue => "EOF while parsing a value"
  | .endInList => "EOF while parsing a list"
  | .endInObject => "EOF while parsing an object"
  | .endInText => "EOF while parsing a string"
  | .expectedValue => "expected value"
  | .expectedWord => "expected ident"
  | .expectedColon => "expected `:`"
  | .expectedCommaInList => "expected `,` or `]`"
  | .expectedCommaInObject => "expected `,` or `\x7d`"
  | .expectedKey => "key must be a string"
  | .trailingComma => "trailing comma"
  | .trailingCharacters => "trailing characters"
  | .invalidNumber => "invalid number"
  | .numberOutOfRange => "number out of range"
  | .invalidEscape => "invalid escape"
  | .unpairedSurrogate => "lone leading surrogate in hex escape"
  | .unfinishedSurrogate => "unexpected end of hex escape"
  | .controlCharacter => "control character (\\u0000-\\u001F) found while parsing a string"
  | .nestedTooDeep => "recursion limit exceeded"
  | .missingField name => "missing field `" ++ name ++ "`"
  | .duplicateField name => "duplicate field `" ++ name ++ "`"
  | .wrongType found wanted => "invalid type: " ++ found ++ ", expected " ++ wanted
  | .wrongLength length wanted =>
    "invalid length " ++ toString length ++ ", expected " ++ wanted
  | .unknownVariant found wanted =>
    "unknown variant `" ++ found ++ "`, expected " ++ wanted
  | .rejected message => message

/-- A fault is met `past` bytes into the text that is still ahead. A reader only knows that text;
the line and the column follow from the whole one. -/
structure Fault where
  cause : Cause
  ahead : List Char
  past : Nat
  deriving DecidableEq, Repr

/-- A place in a text: the line, from one on, and the bytes since it began. -/
structure Position where
  line : Nat
  column : Nat
  deriving DecidableEq, Repr

def byteLength : List Char → Nat
  | [] => 0
  | c :: rest => c.utf8Size + byteLength rest

/-- Where one is after `count` bytes of a text, starting from a position. -/
def Position.advance : Position → Nat → List Char → Position
  | here, _, [] => here
  | here, 0, _ => here
  | here, count + 1, c :: rest =>
    if c = '\n' then advance ⟨here.line + 1, 0⟩ count rest
    else if c.utf8Size ≤ count + 1 then
      advance ⟨here.line, here.column + c.utf8Size⟩ (count + 1 - c.utf8Size) rest
    else ⟨here.line, here.column + count + 1⟩

/-- The position of a fault in the text that was read. -/
def Fault.position (text : List Char) (fault : Fault) : Position :=
  Position.advance ⟨1, 0⟩ (byteLength text - byteLength fault.ahead + fault.past) text

/-- A fault with its position in the text. -/
structure Error where
  cause : Cause
  position : Position
  deriving DecidableEq, Repr

def Error.message (error : Error) : String :=
  error.cause.message ++ " at line " ++ toString error.position.line ++ " column " ++
    toString error.position.column

end Workflow.Json
