import Criteria.Text.Quoted

namespace Criteria.Json

inductive Place where
  | value | list | object | string
  deriving DecidableEq

def Place.word : Place → String
  | .value => "value"
  | .list => "list"
  | .object => "object"
  | .string => "string"

inductive Found where
  | null
  | boolean (b : Bool)
  | integer (n : Int)
  | decimal (text : String)
  | string (s : String)
  | sequence
  | map
  deriving DecidableEq

def Found.phrase : Found → String
  | .null => "null"
  | .boolean b => "boolean `" ++ (if b then "true" else "false") ++ "`"
  | .integer n => "integer `" ++ n.repr ++ "`"
  | .decimal text => "floating point `" ++ text ++ "`"
  | .string s => "string " ++ Text.quoted s
  | .sequence => "sequence"
  | .map => "map"

inductive Fault where
  | unfinished (place : Place)
  | expectedValue
  | expectedWord
  | expectedColon
  | expectedCommaOrBracket
  | expectedCommaOrBrace
  | trailingComma
  | trailingCharacters
  | keyNotString
  | invalidNumber
  | numberOutOfRange
  | invalidEscape
  | loneSurrogate
  | unpairedSurrogate
  | controlCharacter
  | tooDeep
  | missingField (name : String)
  | duplicateField (name : String)
  | unknownVariant (name : String) (known : List String)
  | wrongType (found : Found) (wanted : String)
  | wrongLength (length : Nat) (record : String) (size : Nat)
  deriving DecidableEq

def ticked (s : String) : String := "`" ++ s ++ "`"

def Fault.message : Fault → String
  | .unfinished place => "EOF while parsing a" ++ (if place = .object then "n " else " ") ++ place.word
  | .expectedValue => "expected value"
  | .expectedWord => "expected ident"
  | .expectedColon => "expected `:`"
  | .expectedCommaOrBracket => "expected `,` or `]`"
  | .expectedCommaOrBrace => "expected `,` or `\x7d`"
  | .trailingComma => "trailing comma"
  | .trailingCharacters => "trailing characters"
  | .keyNotString => "key must be a string"
  | .invalidNumber => "invalid number"
  | .numberOutOfRange => "number out of range"
  | .invalidEscape => "invalid escape"
  | .loneSurrogate => "lone leading surrogate in hex escape"
  | .unpairedSurrogate => "unexpected end of hex escape"
  | .controlCharacter => "control character (\\u0000-\\u001F) found while parsing a string"
  | .tooDeep => "recursion limit exceeded"
  | .missingField name => "missing field " ++ ticked name
  | .duplicateField name => "duplicate field " ++ ticked name
  | .unknownVariant name known =>
    "unknown variant " ++ ticked name ++ ", expected one of " ++ ", ".intercalate (known.map ticked)
  | .wrongType found wanted => "invalid type: " ++ found.phrase ++ ", expected " ++ wanted
  | .wrongLength length record size =>
    "invalid length " ++ length.repr ++ ", expected struct " ++ record ++ " with " ++ size.repr ++
      (if size = 1 then " element" else " elements")

end Criteria.Json
