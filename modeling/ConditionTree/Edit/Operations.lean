import ConditionTree.Condition.Violation

/-!
# Tree operations

The pieces that edits are made of. Each builds a new tree. The result of an edit below a node is
folded back into the node, which collapses around a branch that is gone.
-/

namespace ConditionTree

/-- Why a branch cannot be put back into a node. -/
inductive FoldError
  | operandRemoved (branch : Branch)
  | branchMismatch (branch : Branch) (kind : NodeKind)
deriving DecidableEq, Repr

def FoldError.message : FoldError → String
  | operandRemoved b => "A comparison cannot lose its '" ++ b.name ++ "' operand"
  | branchMismatch b kind => "A " ++ kind.name ++ " node has no '" ++ b.name ++ "' branch"

namespace Condition

/-- The node joined with a further comparison. -/
def addSibling (node : Condition) (o : Connective) (placeholder : Condition) : Condition :=
  boolean o node placeholder

/-- The node joined with a new group. The group has the other polarity, or it would be no different
from its surroundings. -/
def addGroup (node : Condition) (o : Connective) (placeholder : Condition) : Condition :=
  boolean o node (group o.complement placeholder)

/-- What a deleted node leaves: nothing, and the node above it closes the gap. -/
def delete (_ : Condition) : Option Condition :=
  none

/-- The node with one of its branches replaced. -/
def replaceBranch : Condition → Branch → Condition → Condition
  | comparison o _ r, .left, new => comparison o new r
  | comparison o l _, .right, new => comparison o l new
  | boolean o _ r, .left, new => boolean o new r
  | boolean o l _, .right, new => boolean o l new
  | group o _, .child, new => group o new
  | c, _, _ => c

/-- The node after an edit of a branch, which is gone if nothing is given. A group goes with its
child and leaves the place to another group that its child became; a boolean node leaves it to its
other side; a comparison keeps both operands. -/
def fold (b : Branch) (update : Option Condition) (node : Condition) :
    Except FoldError (Option Condition) :=
  if (node.branch? b).isNone then .error (.branchMismatch b node.kind)
  else
    match update, b.sibling? with
    | none, some other =>
      if node.kind = .comparison then .error (.operandRemoved b) else .ok (node.branch? other)
    | none, none => .ok none
    | some new, none => .ok (some (if new.isGroup then new else node.replaceBranch b new))
    | some new, some _ => .ok (some (node.replaceBranch b new))

/-- Puts every connective under a node in line with a polarity: boolean nodes take it, groups take
its complement and hand that on. -/
def align (o : Connective) : Condition → Condition
  | boolean _ l r => boolean o (l.align o) (r.align o)
  | group _ child => group o.complement (child.align o.complement)
  | c => c

@[simp] theorem isOperand_align (o : Connective) (c : Condition) :
    (c.align o).isOperand = c.isOperand := by
  cases c <;> rfl

@[simp] theorem isGroup_align (o : Connective) (c : Condition) :
    (c.align o).isGroup = c.isGroup := by
  cases c <;> rfl

/-- A group with another polarity, handed on to what it holds. -/
def setGroupOperator? (o : Connective) : Condition → Option Condition
  | group _ child => some (group o (child.align o))
  | _ => none

end Condition

end ConditionTree
