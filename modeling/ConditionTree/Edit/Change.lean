import ConditionTree.Condition.Wire

/-!
# Changes

What a host is told after an edit: an object with the new tree, or with null once nothing is left.
-/

namespace ConditionTree

structure Change where
  conditions : Option Condition
deriving DecidableEq, Repr

namespace Change

def toJson (c : Change) : Json :=
  .object [("conditions", (c.conditions.map Condition.toJson).getD .null)]

/-- The tree of a change, with null for none. -/
def ofTree (v : Json) : Except DecodeError Change :=
  match v with
  | .null => .ok ⟨none⟩
  | v => (Condition.ofJson v).map fun c => ⟨some c⟩

/-- Reads a change. Nothing but the tree counts, and where it is not given there is none. The list
of the only field is a change as well. -/
def ofJson? : Json → Option Change
  | .object members => (ofTree ((members.lookup "conditions").getD .null)).toOption
  | .array [v] => (ofTree v).toOption
  | _ => none

end Change

end ConditionTree
