import Criteria.Json.Number

namespace Criteria

inductive Json where
  | null
  | bool (b : Bool)
  | number (n : Json.Number)
  | string (s : String)
  | array (items : List Json)
  | object (members : List (String × Json))

namespace Json

def found : Json → Found
  | .null => .null
  | .bool b => .boolean b
  | .number (.integer n) => .integer n
  | .number n => .decimal n.text
  | .string s => .string s
  | .array _ => .sequence
  | .object _ => .map

-- The value of the last member under a key.
def member? (members : List (String × Json)) (key : String) : Option Json :=
  members.reverse.lookup key

mutual

def chars : Json → List Char
  | .null => "null".toList
  | .bool true => "true".toList
  | .bool false => "false".toList
  | .number n => n.text.toList
  | .string s => writeString s
  | .array items => '[' :: itemChars items
  | .object members => '{' :: memberChars members

def itemChars : List Json → List Char
  | [] => [']']
  | v :: vs => chars v ++ moreItemChars vs

def moreItemChars : List Json → List Char
  | [] => [']']
  | v :: vs => ',' :: chars v ++ moreItemChars vs

def memberChars : List (String × Json) → List Char
  | [] => ['}']
  | (key, v) :: ms => writeString key ++ ':' :: chars v ++ moreMemberChars ms

def moreMemberChars : List (String × Json) → List Char
  | [] => ['}']
  | (key, v) :: ms => ',' :: writeString key ++ ':' :: chars v ++ moreMemberChars ms

end

def render (v : Json) : String := .ofList v.chars

end Json
end Criteria
