import Provenance.Number
import Provenance.Text.Quoted

/-!
# Faults of JSON text

A fault has a cause and the line on which reading stopped. Causes fall into three categories: the
text is not JSON, it is JSON of the wrong shape, or it ends too early. The line belongs to the place
of the reader and not to the cause, so the same cause may be met on any line; line `0` stands for a
fault without place.
-/

namespace Provenance.Json

/-- The categories of causes. -/
inductive Category where
  /-- The text is not JSON. -/
  | malformed
  /-- The text has the wrong shape. -/
  | mismatched
  /-- The text ends too early. -/
  | cutOff
deriving DecidableEq, Inhabited

/-- What stands in the text where something else is wanted. -/
inductive Found where
  | null
  | flag (value : Bool)
  | number (value : Number)
  | text (value : String)
  | list
  | object
deriving DecidableEq, Inhabited

/-- What is wanted. -/
inductive Wanted where
  | text
  | path
  | flag
  /-- A whole number of 32 bits. -/
  | word
  /-- A whole number of 64 bits. -/
  | size
  | list
  | object
  | null
  /-- A record of the given kind. -/
  | record (kind : String)
deriving DecidableEq, Inhabited

/-- Why a text cannot be read. -/
inductive Cause where
  /-- The text ends inside a value or where one is due. -/
  | endOfValue
  | endOfText
  | endOfList
  | endOfObject
  /-- A colon is due after a key. -/
  | colonDue
  /-- A comma or the end of the list is due. -/
  | listGoesOn
  /-- A comma or the end of the object is due. -/
  | objectGoesOn
  /-- A value is due. -/
  | valueDue
  /-- One of the words `null`, `true` and `false` is misspelled. -/
  | misspelled
  /-- A quote is due after a numeric key. -/
  | quoteDue
  | badEscape
  | badNumber
  | numberOutOfRange
  /-- Half of a surrogate pair stands alone. -/
  | loneSurrogate
  /-- The second half of a surrogate pair is due. -/
  | endOfEscape
  | controlCharacter
  /-- A key is not a text. -/
  | keyDue
  /-- A key is not a number in quotes. -/
  | numericKeyDue
  | trailingComma
  | trailingCharacters
  | tooDeep
  | wrongType (found : Found) (wanted : Wanted)
  | wrongValue (found : Found) (wanted : Wanted)
  /-- A record of `size` fields in list form has the given length only. -/
  | wrongLength (length : Nat) (kind : String) (size : Nat)
  | missingField (key : String)
  | duplicateField (key : String)
  | unknownVariant (name : String) (known : List String)
  /-- The value is none of the kinds that the named type allows. -/
  | noVariant (type : String)
deriving DecidableEq, Inhabited

/-- A cause, and the line it was met on. -/
structure Fault where
  /-- Why the text cannot be read. -/
  cause : Cause
  /-- Where reading stopped. -/
  line : Nat
deriving DecidableEq, Inhabited

/-! ### Wording -/

/-- The category of a cause. -/
def Cause.category : Cause → Category
  | endOfValue | endOfText | endOfList | endOfObject => .cutOff
  | wrongType .. | wrongValue .. | wrongLength .. | missingField _ | duplicateField _
  | unknownVariant .. | noVariant _ => .mismatched
  | _ => .malformed

/-- How a value in the text is called. -/
def Found.words : Found → String
  | null => "null"
  | flag true => "boolean `true`"
  | flag false => "boolean `false`"
  | number (.real isNegative x) => "floating point " ++ ticked (Number.real isNegative x).text
  | number n => "integer " ++ ticked n.text
  | text s => "string " ++ Quoted.encode s
  | list => "sequence"
  | object => "map"

/-- How a wanted value is called. -/
def Wanted.words : Wanted → String
  | text => "a string"
  | path => "a UTF-8 path string"
  | flag => "a boolean"
  | word => "u32"
  | size => "usize"
  | list => "a sequence"
  | object => "a map"
  | null => "unit"
  | record kind => "struct " ++ kind

/-- What is said of a cause. -/
def Cause.message : Cause → String
  | endOfValue => "EOF while parsing a value"
  | endOfText => "EOF while parsing a string"
  | endOfList => "EOF while parsing a list"
  | endOfObject => "EOF while parsing an object"
  | colonDue => "expected `:`"
  | listGoesOn => "expected `,` or `]`"
  | objectGoesOn => "expected `,` or `\x7d`"
  | valueDue => "expected value"
  | misspelled => "expected ident"
  | quoteDue => "expected `\"`"
  | badEscape => "invalid escape"
  | badNumber => "invalid number"
  | numberOutOfRange => "number out of range"
  | loneSurrogate => "lone leading surrogate in hex escape"
  | endOfEscape => "unexpected end of hex escape"
  | controlCharacter => "control character (\\u0000-\\u001F) found while parsing a string"
  | keyDue => "key must be a string"
  | numericKeyDue => "invalid value: expected key to be a number in quotes"
  | trailingComma => "trailing comma"
  | trailingCharacters => "trailing characters"
  | tooDeep => "recursion limit exceeded"
  | wrongType found wanted => "invalid type: " ++ found.words ++ ", expected " ++ wanted.words
  | wrongValue found wanted => "invalid value: " ++ found.words ++ ", expected " ++ wanted.words
  | wrongLength length kind size =>
    "invalid length " ++ decimal length ++ ", expected struct " ++ kind ++ " with " ++ decimal size
      ++ (if size = 1 then " element" else " elements")
  | missingField key => "missing field " ++ ticked key
  | duplicateField key => "duplicate field " ++ ticked key
  | unknownVariant name known =>
    "unknown variant " ++ ticked name ++ ", expected one of " ++ ", ".intercalate (known.map ticked)
  | noVariant type => "data did not match any variant of untagged enum " ++ type

/-- What is said of a fault. -/
def Fault.message (f : Fault) : String := f.cause.message

/-- The category of a fault. -/
def Fault.category (f : Fault) : Category := f.cause.category

end Provenance.Json
