import Criteria.Edit
import Criteria.Query

namespace Criteria

structure Panel where
  catalog : Catalog
  conditions : List Condition
  combinator : Combinator
  next : UInt64

def numberedId (n : UInt64) : String := "condition-" ++ n.toNat.repr

-- The first number from `n` on whose id is free, if one of the next `tries` is; else the number behind them.
def firstFree (taken : String → Bool) : Nat → UInt64 → UInt64
  | 0, n => n
  | tries + 1, n => if taken (numberedId n) then firstFree taken tries (n + 1) else n

def amendFirst (id : String) (change : Change) : List Condition → List Condition
  | [] => []
  | c :: cs => if c.id = id then c.apply change :: cs else c :: amendFirst id change cs

namespace Panel

def new (catalog : Catalog) : Panel := ⟨catalog, [], .and, 1⟩

def find? (p : Panel) (id : String) : Option Condition := p.conditions.find? (·.id == id)

def contains (p : Panel) (id : String) : Bool := p.conditions.any (·.id == id)

def size (p : Panel) : Nat := p.conditions.length

def isEmpty (p : Panel) : Bool := p.conditions.isEmpty

-- As many ids as there are conditions can be taken, so one more number is tried than that.
def add (p : Panel) : String × Panel :=
  let n := firstFree p.contains p.size p.next
  (numberedId n, { p with conditions := p.conditions ++ [.blank (numberedId n)], next := n + 1 })

def push (p : Panel) (c : Condition) : Except Error Panel :=
  if p.contains c.id then .error (.duplicateCondition c.id)
  else .ok { p with conditions := p.conditions ++ [c] }

def remove (p : Panel) (id : String) : Except Error (Condition × Panel) :=
  match p.find? id with
  | none => .error (.conditionNotFound id)
  | some c => .ok (c, { p with conditions := p.conditions.eraseP (·.id == id) })

def amend (p : Panel) (id : String) (change : Change) : Except Error Panel :=
  if p.contains id then .ok { p with conditions := amendFirst id change p.conditions }
  else .error (.conditionNotFound id)

def clear (p : Panel) : Panel := { p with conditions := [] }

def combine (p : Panel) (k : Combinator) : Panel := { p with combinator := k }

def activeCount (p : Panel) : Nat := (criteria p.catalog p.conditions).value.length

def hasActive (p : Panel) : Bool := p.conditions.any (·.isComplete p.catalog)

def params (p : Panel) : Traced Params := Params.compile p.catalog p.conditions p.combinator

def query (p : Panel) : Traced String := Query.compile p.catalog p.conditions p.combinator

end Panel

inductive Command where
  | add
  | push (c : Condition)
  | pushText (json : String)
  | remove (id : String)
  | edit (id : String) (e : Edit)
  | combine (k : Combinator)
  | clear

inductive Reply where
  | done
  | id (s : String)
  | removed (c : Condition)
  | found (c : Option Condition)
  | held (b : Bool)
  | restored (b : Bool)
  deriving DecidableEq

namespace Panel

-- An operation checks all that it can be refused for before it changes anything, so that a refusal has no panel of its
-- own to give back. A tag is looked at before the id it is meant for, and the text of a value after it.
def perform (p : Panel) : Command → Except Error (Reply × Panel)
  | .add => .ok (.id p.add.1, p.add.2)
  | .push c => (p.push c).map (.done, ·)
  | .pushText json => do
    let c ← Condition.decode json
    (p.push c).map (.done, ·)
  | .remove id => (p.remove id).map fun r => (.removed r.1, r.2)
  | .edit id (.valueText json) =>
    if p.contains id then do
      let change ← (Edit.valueText json).change?
      (p.amend id change).map (.done, ·)
    else .error (.conditionNotFound id)
  | .edit id e => do
    let change ← e.change?
    (p.amend id change).map (.done, ·)
  | .combine k => .ok (.done, p.combine k)
  | .clear => .ok (.done, p.clear)

theorem contains_iff {p : Panel} {id : String} : p.contains id = true ↔ ∃ c ∈ p.conditions, c.id = id := by
  simp [contains]

theorem find?_isSome {p : Panel} {id : String} : (p.find? id).isSome = p.contains id := by
  rw [Bool.eq_iff_iff, contains_iff]
  simp [find?]

theorem conditions_add (p : Panel) : p.add.2.conditions = p.conditions ++ [.blank p.add.1] := rfl

theorem push_eq_ok_iff {p q : Panel} {c : Condition} :
    p.push c = .ok q ↔ p.contains c.id = false ∧ q = { p with conditions := p.conditions ++ [c] } := by
  unfold push
  cases p.contains c.id <;> simp [eq_comm]

theorem amend_eq_ok_iff {p q : Panel} {id : String} {change : Change} :
    p.amend id change = .ok q ↔
      p.contains id = true ∧ q = { p with conditions := amendFirst id change p.conditions } := by
  unfold amend
  cases p.contains id <;> simp [eq_comm]

theorem remove_eq_ok_iff {p q : Panel} {id : String} {c : Condition} :
    p.remove id = .ok (c, q) ↔
      p.find? id = some c ∧ q = { p with conditions := p.conditions.eraseP (·.id == id) } := by
  unfold remove
  cases p.find? id <;> simp [eq_comm]

end Panel

def Command.events : Command → List Event
  | .combine k => if k.isCustom then [.customCombinatorChosen k.text] else []
  | _ => []

end Criteria
