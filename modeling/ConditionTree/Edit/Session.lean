import ConditionTree.Condition

/-!
# Editing sessions

A session remembers the connective last chosen for a whole tree. The choice is dropped when a tree
is met whose root says otherwise, since such a tree was changed elsewhere.
-/

namespace ConditionTree

structure Session where
  override : Option Connective := none
deriving DecidableEq, Repr, Inhabited

/-- The session once it has seen the root of the tree to edit. -/
def Session.observe (s : Session) (root : Condition) : Session :=
  match s.override, root with
  | some chosen, .boolean o _ _ => if o = chosen then s else {}
  | _, _ => s

/-- The connective that a sibling added to a node joins with. The parent decides if it is a boolean
node or a group; otherwise the session does, then the node itself, then the default. -/
def Session.effective (s : Session) (default : Connective) (parent : Option Condition)
    (node : Condition) : Connective :=
  match parent.bind Condition.connective? with
  | some o => o
  | none =>
    match s.override, node with
    | some chosen, _ => chosen
    | none, .boolean o _ _ => o
    | none, _ => default

end ConditionTree
