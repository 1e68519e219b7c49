import Criteria.Params
import Criteria.Text.Percent

namespace Criteria

def flagText (b : Bool) : String := if b then "true" else "false"

def Content.written (key : String) : Content → List String
  | .list ids => ids.map fun id => Text.percentEncode key ++ "[]=" ++ Text.percentEncode id
  | .flag b => [Text.percentEncode key ++ "=" ++ flagText b]
  | .text s => [Text.percentEncode key ++ "=" ++ Text.percentEncode s]
  | .tag o => [Text.percentEncode key ++ "=" ++ o.tag]

def Combinator.written : Combinator → String
  | .custom s => Text.percentEncode s
  | known => known.text

namespace Query

def written (merged : Contents) : List String := merged.entries.flatMap fun e => e.2.written e.1

def withCombinator (tokens : List String) (combinator : Combinator) : List String :=
  if tokens.isEmpty then tokens else tokens ++ [combinatorKey ++ "=" ++ combinator.written]

def compile (catalog : Catalog) (conditions : List Condition) (combinator : Combinator) : Traced String := do
  let found ← criteria catalog conditions
  let tokens := withCombinator (written (Contents.merge found)) combinator
  if !tokens.isEmpty then
    combinator.reportSent
    .emit (.queryCompiled tokens.length)
  pure ("&".intercalate tokens)

end Query

structure Token where
  key : String
  item : Bool
  value : String
  deriving DecidableEq

namespace Token

def render (t : Token) : String :=
  Text.percentEncode t.key ++ (if t.item then "[]" else "") ++ "=" ++ Text.percentEncode t.value

def ofEntry : String × Param → List Token
  | (key, .list ids) => ids.map fun id => ⟨key, true, id⟩
  | (key, .flag b) => [⟨key, false, flagText b⟩]
  | (key, .text s) => [⟨key, false, s⟩]

def ofEntries (entries : List (String × Param)) : List Token := entries.flatMap ofEntry

end Token

namespace Query

def render (tokens : List Token) : String := "&".intercalate (tokens.map Token.render)

end Query

def splitFirst (c : Char) (s : List Char) : Option (List Char × List Char) :=
  match s.dropWhile (· != c) with
  | [] => none
  | _ :: after => some (s.takeWhile (· != c), after)

def Token.parse? (s : List Char) : Option Token := do
  let (key, value) ← splitFirst '=' s
  let item := key.drop (key.length - 2) = ['[', ']']
  let key := if item then key.take (key.length - 2) else key
  pure ⟨← Text.percentDecode? (.ofList key), item, ← Text.percentDecode? (.ofList value)⟩

-- An item goes to the end of the list under its key; any other value replaces what is there. No item may come to
-- a key that holds something else than a list.
def Token.putInto (m : Params) (t : Token) : Option Params :=
  if t.item then
    match m.get? t.key with
    | none => some (m.insert t.key (.list [t.value]))
    | some (.list ids) => some (m.insert t.key (.list (ids ++ [t.value])))
    | some _ => none
  else some (m.insert t.key (.text t.value))

-- What a query string tells of a parameter: it has no mark for flags, so they are read as text.
def Param.plain : Param → Param
  | .flag b => .text (flagText b)
  | p => p

namespace Query

def tokens? (s : String) : Option (List Token) :=
  if s = "" then some [] else (s.toList.splitOn '&').mapM Token.parse?

def parse? (s : String) : Option Params := do (← tokens? s).foldlM Token.putInto .empty

end Query
end Criteria
