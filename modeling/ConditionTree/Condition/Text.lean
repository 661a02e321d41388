import ConditionTree.Condition.Wire
import ConditionTree.Json5.Reader

/-!
# Conditions in texts

A condition is read from the text of its JSON form. The text may be JSON5, so there may be comments in it and commas at
the end of lists.
-/

namespace ConditionTree

/-- Why a text is no condition. -/
inductive TextError
  /-- It is no JSON5 text. -/
  | unparsable
  | invalid (error : DecodeError)
deriving Repr

/-- The condition in a text. -/
def Condition.ofText (text : String) : Except TextError Condition :=
  match Json5.document? text with
  | some v => (ofJson v).mapError .invalid
  | none => .error .unparsable

end ConditionTree
