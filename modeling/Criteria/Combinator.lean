namespace Criteria

inductive Combinator where
  | and
  | or
  | custom (s : String)
  deriving DecidableEq

namespace Combinator

def ofText (s : String) : Combinator :=
  if s = "and" then .and else if s = "or" then .or else .custom s

-- Where a combinator is asked for, a text will do, and one that is not known is handed on as it is.
instance : Coe String Combinator := ⟨ofText⟩

def text : Combinator → String
  | .and => "and"
  | .or => "or"
  | .custom s => s

def isCustom : Combinator → Bool
  | .custom _ => true
  | _ => false

theorem text_ofText (s : String) : (ofText s).text = s := by
  unfold ofText
  split
  · simp [text, *]
  · split <;> simp [text, *]

end Combinator
end Criteria
