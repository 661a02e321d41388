import ConditionTree.Condition
import ConditionTree.Json

/-!
# Structural rules

A group may not hold a group directly, and a comparison stands between two operands. `validate`
reports each place where a tree breaks one of these rules; `flatten` mends the first of them.
-/

namespace ConditionTree

inductive Violation
  /-- The group at the path holds another group. -/
  | nestedGroup (path : Path)
  /-- The node at the path is a side of a comparison and no operand. -/
  | nonOperand (path : Path) (kind : NodeKind)
deriving DecidableEq, Repr

namespace Violation

def message : Violation → String
  | nestedGroup path => path.text ++ ": group directly contains another group"
  | nonOperand path kind =>
    path.text ++ ": comparison operand must be a number or number-ref, found " ++ kind.name

def toJson : Violation → Json
  | nestedGroup path => .object [("path", .string path.text), ("rule", .string "nested-group")]
  | nonOperand path kind =>
    .object [("kind", .string kind.name), ("path", .string path.text),
      ("rule", .string "non-operand-in-comparison")]

end Violation

namespace Condition

def isGroup : Condition → Bool
  | group _ _ => true
  | _ => false

@[simp] theorem isGroup_group (o : Connective) (c : Condition) : (group o c).isGroup = true := rfl

@[simp] theorem isGroup_boolean (o : Connective) (l r : Condition) :
    (boolean o l r).isGroup = false := rfl

@[simp] theorem isGroup_comparison (o : Comparator) (l r : Condition) :
    (comparison o l r).isGroup = false := rfl

/-- What is wrong with one side of a comparison. -/
def sideViolations (path : Path) (side : Condition) : List Violation :=
  if side.isOperand then [] else [.nonOperand path side.kind]

/-- The rules broken at a node itself. -/
def violationsAt (path : Path) : Condition → List Violation
  | group _ child => if child.isGroup then [.nestedGroup path] else []
  | comparison _ l r => sideViolations (path ++ [.left]) l ++ sideViolations (path ++ [.right]) r
  | _ => []

/-- Every violation in the tree, in the order of the nodes. -/
def validate (c : Condition) : List Violation :=
  c.walk.flatMap fun (path, node) => violationsAt path node

/-- A group around a condition, which is the condition itself if it is a group already. -/
def enclose (o : Connective) (child : Condition) : Condition :=
  if child.isGroup then child else group o child

/-- Replaces groups nested in one another by the innermost one. -/
def flatten : Condition → Condition
  | group o child => enclose o child.flatten
  | boolean o l r => boolean o l.flatten r.flatten
  | comparison o l r => comparison o l.flatten r.flatten
  | c@(number _) | c@(reference _) => c

end Condition

end ConditionTree
