import Criteria.Json.Passed
import Criteria.Json.Value

namespace Criteria.Json

-- What a slot reads is how it changes the record.
structure Slot (σ : Type) where
  name : String
  required : Bool
  read : Nat → Reader (σ → σ)

-- Read from an object whose members may come in any order, or from an array of the slots in theirs.
structure Layout (σ : Type) where
  name : String
  start : σ
  slots : List (Slot σ)

namespace Layout
variable {σ : Type}

def firstRequired (slots : List (Slot σ)) (index : Nat) : Option Nat :=
  (slots.findIdx? Slot.required).map (index + ·)

def arrayEnd : Reader Unit :=
  Reader.spaced fun s =>
    match s with
    | [] => .error (.unfinished .list)
    | c :: r =>
      if c = ']' then .ok ((), .tail c r)
      else if c = ',' ∧ (Reader.skipSpace r).head? = some ']' then .error .trailingComma
      else .error .trailingCharacters

def positions (l : Layout σ) (room : Nat) : List (Slot σ) → Nat → σ → Reader σ
  | [], _, state => arrayEnd.map fun _ => state
  | slot :: slots, index, state => fun s =>
    match Reader.nextItem (index == 0) s with
    | .error fault => .error fault
    | .ok (.stop r) =>
      match firstRequired (slot :: slots) index with
      | none => .ok (state, r)
      | some i => .error (.wrongLength i l.name l.slots.length)
    | .ok (.next t) =>
      match slot.read room t.1 with
      | .error fault => .error fault
      | .ok (change, r) =>
        match l.positions room slots (index + 1) (change state) r.1 with
        | .error fault => .error fault
        | .ok (final, u) => .ok (final, (r.trans u).widen t.2)

def member (l : Layout σ) (room : Nat) (state : σ × List String) (key : String) :
    Except Fault (Reader (σ × List String)) :=
  match l.slots.find? (·.name == key) with
  | none => .ok (Reader.map (fun _ => state) Reader.passValue)
  | some slot =>
    if key ∈ state.2 then .error (.duplicateField key)
    else .ok ((slot.read room).map fun change => (change state.1, key :: state.2))

def finish (l : Layout σ) (state : σ × List String) : Except Fault σ :=
  match l.slots.find? fun slot => slot.required && !state.2.contains slot.name with
  | some slot => .error (.missingField slot.name)
  | none => .ok state.1

def asArray (l : Layout σ) (room : Nat) : Reader σ :=
  (Reader.char (.unfinished .value) .expectedValue '[').andThen fun _ => l.positions room l.slots 0 l.start

def asObject (l : Layout σ) (room : Nat) : Reader σ :=
  (Reader.object (l.member room) (l.start, [])).check l.finish

def read (l : Layout σ) (room : Nat) : Reader σ :=
  Reader.choose fun c =>
    if c = '[' then Reader.nested room l.asArray
    else if c = '{' then Reader.nested room l.asObject
    else Reader.mismatch ("struct " ++ l.name) c

end Layout

namespace Reader
variable {α : Type}

def variantNamed (known : List (String × α)) (tag : String) : Except Fault α :=
  match known.lookup tag with
  | some a => .ok a
  | none => .error (.unknownVariant tag (known.map Prod.fst))

def noContent : Reader Unit :=
  choose fun c => if c = 'n' then word () 'n' ['u', 'l', 'l'] else mismatch "unit" c

def variantKey : Reader String := fun s =>
  match nextMember true s with
  | .error fault => .error fault
  | .ok (.stop _) => .error .expectedValue
  | .ok (.next key r) => .ok (key, r)

def variantObject (known : List (String × α)) : Reader α :=
  (char (.unfinished .value) .expectedValue '{').andThen fun _ =>
    (variantKey.check (variantNamed known)).andThen fun a =>
      colon.andThen fun _ =>
        noContent.andThen fun _ =>
          (spaced (char (.unfinished .object) .expectedValue '}')).map fun _ => a

def variant (known : List (String × α)) (room : Nat) : Reader α :=
  choose fun c =>
    if c = '"' then string.check (variantNamed known)
    else if c = '{' then nested room fun _ => variantObject known
    else fail .expectedValue

end Reader
end Criteria.Json
