import ChangeDispatch.Decimal.Shortest
import ChangeDispatch.Text.Quoted

/-!
# What can be wrong with a document

A document is read in one pass from left to right, and the first problem met is the
answer. `Problem` has the faults of the grammar, the values that stand where another kind
is expected, and the faults of a record as a whole.
-/
namespace ChangeDispatch.Json

/-- A value that stands where another kind of value is expected. -/
inductive Unexpected where
  | null
  | boolean (value : Bool)
  | integer (value : Int)
  /-- A number with a fraction, an exponent or too many digits, in its shortest form. -/
  | fraction (written : String)
  | text (value : String)
  | sequence
  | map
  deriving DecidableEq, Repr

def Unexpected.message : Unexpected → String
  | null => "null"
  | boolean value => s!"boolean `{value}`"
  | integer value => s!"integer `{value}`"
  | fraction written => s!"floating point `{written}`"
  | text value => "string " ++ Text.quoted value
  | sequence => "sequence"
  | map => "map"

inductive Problem where
  | endInValue
  | endInString
  | endInObject
  | endInList
  | expectedValue
  | expectedIdent
  | expectedColon
  | expectedObjectEnd
  | expectedListEnd
  | keyNotString
  | trailingComma
  | trailingCharacters
  | invalidNumber
  | numberOutOfRange
  | invalidEscape
  | loneSurrogate
  | unfinishedSurrogate
  | controlCharacter
  | invalidUnicode
  | nestedTooDeep
  | invalidType (found : Unexpected) (expected : String)
  | invalidValue (found : Unexpected) (expected : String)
  | invalidLength (length : Nat) (expected : String)
  | missingField (name : String)
  | duplicateField (name : String)
  | unknownVariant (name : String) (expected : List String)
  /-- A string that does not denote a value of its field's type. -/
  | malformed (detail : String)
  deriving DecidableEq, Repr

namespace Problem

def message : Problem → String
  | endInValue => "EOF while parsing a value"
  | endInString => "EOF while parsing a string"
  | endInObject => "EOF while parsing an object"
  | endInList => "EOF while parsing a list"
  | expectedValue => "expected value"
  | expectedIdent => "expected ident"
  | expectedColon => "expected `:`"
  | expectedObjectEnd => "expected `,` or `\x7d`"
  | expectedListEnd => "expected `,` or `]`"
  | keyNotString => "key must be a string"
  | trailingComma => "trailing comma"
  | trailingCharacters => "trailing characters"
  | invalidNumber => "invalid number"
  | numberOutOfRange => "number out of range"
  | invalidEscape => "invalid escape"
  | loneSurrogate => "lone leading surrogate in hex escape"
  | unfinishedSurrogate => "unexpected end of hex escape"
  | controlCharacter =>
      "control character (\\u0000-\\u001F) found while parsing a string"
  | invalidUnicode => "invalid unicode code point"
  | nestedTooDeep => "recursion limit exceeded"
  | invalidType found expected => s!"invalid type: " ++ found.message ++ s!", expected {expected}"
  | invalidValue found expected =>
      s!"invalid value: " ++ found.message ++ s!", expected {expected}"
  | invalidLength length expected => s!"invalid length {length}, expected {expected}"
  | missingField name => s!"missing field `{name}`"
  | duplicateField name => s!"duplicate field `{name}`"
  | unknownVariant name expected =>
      s!"unknown variant `{name}`, expected one of "
        ++ ", ".intercalate (expected.map fun e => s!"`{e}`")
  | malformed detail => detail

end Problem

end ChangeDispatch.Json
