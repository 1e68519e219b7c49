import Criteria.Catalog
import Criteria.Condition
import Criteria.Combinator
import Criteria.Json.Record

namespace Criteria
open Json (Reader Slot Layout)

-- Straight from the text and not by way of a tree, so that the first fault in reading order is the one reported.
def decodeWith {α : Type} (p : Nat → Reader α) (text : String) : Except Error α :=
  (Json.decode (p Json.room) text).mapError .malformed

namespace Operator

def toJson (o : Operator) : Json := .string o.tag

def reader : Nat → Reader Operator := Json.Reader.variant tagged

def decode : String → Except Error Operator := decodeWith reader

end Operator

namespace Kind

def toJson (k : Kind) : Json := .string k.tag

def reader : Nat → Reader Kind := Json.Reader.variant tagged

def decode : String → Except Error Kind := decodeWith reader

end Kind

namespace Combinator

def toJson (k : Combinator) : Json := .string k.text

def reader (_room : Nat) : Reader Combinator := Json.Reader.text.map ofText

def decode : String → Except Error Combinator := decodeWith reader

end Combinator

namespace Period

def toJson (p : Period) : Json := .object [("start", .string p.start), ("end", .string p.stop)]

-- A period on its own is read strictly: its ends are strings, or not there.
def layout : Layout Period where
  name := "DateRange"
  start := ⟨"", ""⟩
  slots := [
    ⟨"start", false, fun _ => Json.Reader.text.map fun s p => { p with start := s }⟩,
    ⟨"end", false, fun _ => Json.Reader.text.map fun s p => { p with stop := s }⟩]

def decode : String → Except Error Period := decodeWith layout.read

end Period

namespace Value

def reader (room : Nat) : Reader Value := (Json.Reader.value room).map ofJson

def decode : String → Except Error Value := decodeWith reader

end Value

namespace Condition

def toJson (c : Condition) : Json :=
  .object [
    ("id", .string c.id),
    ("field", (c.field.map .string).getD .null),
    ("operator", (c.operator.map Operator.toJson).getD .null),
    ("value", c.value.toJson)]

-- An empty field is none, and so is an operator that is not known.
def layout : Layout Condition where
  name := "Condition"
  start := .blank ""
  slots := [
    ⟨"id", true, fun _ => Json.Reader.text.map fun s c => { c with id := s }⟩,
    ⟨"field", false, fun _ => Json.Reader.textOrNull.map fun f c => { c with field := f.filter (· ≠ "") }⟩,
    ⟨"operator", false, fun _ =>
      Json.Reader.textOrNull.map fun o c => { c with operator := o.bind Operator.ofTag? }⟩,
    ⟨"value", false, fun room => (Value.reader room).map fun v c => { c with value := v }⟩]

def decode : String → Except Error Condition := decodeWith layout.read

def decodeList : String → Except Error (List Condition) := decodeWith (Json.Reader.sequence layout.read)

def listToJson (cs : List Condition) : Json := .array (cs.map toJson)

end Condition

namespace Field

def toJson (f : Field) : Json :=
  .object [
    ("id", .string f.id),
    ("label", .string f.label),
    ("kind", f.kind.toJson),
    ("operators", .array (f.operators.map Operator.toJson))]

-- What a field starts with is replaced, but for the label.
def layout : Layout Field where
  name := "FieldDescriptor"
  start := ⟨"", "", .text, []⟩
  slots := [
    ⟨"id", true, fun _ => Json.Reader.text.map fun s f => { f with id := s }⟩,
    ⟨"label", false, fun _ => Json.Reader.text.map fun s f => { f with label := s }⟩,
    ⟨"kind", true, fun room => (Kind.reader room).map fun k f => { f with kind := k }⟩,
    ⟨"operators", true, fun room =>
      (Json.Reader.sequence Operator.reader room).map fun os f => { f with operators := os }⟩]

def decode : String → Except Error Field := decodeWith layout.read

end Field

namespace Catalog

def layout : Layout (List Field) where
  name := "RegistryConfig"
  start := []
  slots := [⟨"fields", true, fun room => (Json.Reader.sequence Field.layout.read room).map fun fs _ => fs⟩]

def toJson (fields : List Field) : Json := .object [("fields", .array (fields.map Field.toJson))]

def decode (text : String) : Traced (Except Error Catalog) :=
  match decodeWith layout.read text with
  | .error e => pure (.error e)
  | .ok fields => build fields

end Catalog
end Criteria
