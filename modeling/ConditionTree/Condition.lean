import ConditionTree.Number.Double
import ConditionTree.Operator
import ConditionTree.Path

/-!
# Condition trees

The condition of an event definition is a small tree. Its leaves are thresholds and references to
aggregation series; comparisons, connectives and groups stand above them. Trees are values: an edit
builds a new tree.
-/

namespace ConditionTree

inductive Condition
  /-- A literal threshold. -/
  | number (value : Double)
  /-- A series by its name, or none chosen yet. -/
  | reference (series : Option String)
  | comparison (operator : Comparator) (left right : Condition)
  | boolean (operator : Connective) (left right : Condition)
  /-- Brackets, with the polarity of what they hold. -/
  | group (operator : Connective) (child : Condition)
deriving DecidableEq, Repr, Inhabited

inductive NodeKind
  | number
  | reference
  | comparison
  | boolean
  | group
deriving DecidableEq, Repr

namespace NodeKind

def name : NodeKind → String
  | number => "number"
  | reference => "number-ref"
  | comparison => "comparison"
  | boolean => "boolean"
  | group => "group"

/-- Only these may stand on a side of a comparison. -/
def isOperand : NodeKind → Bool
  | number | reference => true
  | _ => false

end NodeKind

namespace Condition

def kind : Condition → NodeKind
  | number _ => .number
  | reference _ => .reference
  | comparison _ _ _ => .comparison
  | boolean _ _ _ => .boolean
  | group _ _ => .group

def isOperand (c : Condition) : Bool :=
  c.kind.isOperand

/-- The connective that a condition added inside the node joins with. -/
def connective? : Condition → Option Connective
  | boolean o _ _ | group o _ => some o
  | _ => none

/-- The branches that a node of this kind has, in the order of display. -/
def branches : Condition → List Branch
  | comparison _ _ _ | boolean _ _ _ => [.left, .right]
  | group _ _ => [.child]
  | number _ | reference _ => []

def branch? : Condition → Branch → Option Condition
  | comparison _ l _, .left | boolean _ l _, .left => some l
  | comparison _ _ r, .right | boolean _ _ r, .right => some r
  | group _ c, .child => some c
  | _, _ => none

/-- The node at a path, if every branch on the way is there. -/
def get? : Condition → Path → Option Condition
  | c, [] => some c
  | c, b :: path => (c.branch? b).bind (·.get? path)

/-- The number of nodes on the longest way from the root to a leaf. -/
def depth : Condition → Nat
  | number _ | reference _ => 1
  | comparison _ l r | boolean _ l r => 1 + max l.depth r.depth
  | group _ c => 1 + c.depth

/-- Nodes found below a branch, with their paths from above it. -/
def under (b : Branch) (nodes : List (Path × Condition)) : List (Path × Condition) :=
  nodes.map fun (path, node) => (b :: path, node)

/-- Every node with its path, a node before those below it and left before right. -/
def walk : Condition → List (Path × Condition)
  | c@(number _) | c@(reference _) => [([], c)]
  | c@(comparison _ l r) | c@(boolean _ l r) =>
    ([], c) :: (under .left l.walk ++ under .right r.walk)
  | c@(group _ child) => ([], c) :: under .child child.walk

def nodeCount (c : Condition) : Nat :=
  c.walk.length

/-- Equality with numbers compared by value: the two zeros are equal. -/
def equal : Condition → Condition → Bool
  | number x, number y => x.equal y
  | reference s, reference t => s == t
  | comparison o l r, comparison o' l' r' => o == o' && l.equal l' && r.equal r'
  | boolean o l r, boolean o' l' r' => o == o' && l.equal l' && r.equal r'
  | group o c, group o' c' => o == o' && c.equal c'
  | _, _ => false

@[simp] theorem isOperand_number (x : Double) : (number x).isOperand = true := rfl

@[simp] theorem isOperand_reference (s : Option String) : (reference s).isOperand = true := rfl

@[simp] theorem isOperand_comparison (o : Comparator) (l r : Condition) :
    (comparison o l r).isOperand = false := rfl

@[simp] theorem isOperand_boolean (o : Connective) (l r : Condition) :
    (boolean o l r).isOperand = false := rfl

@[simp] theorem isOperand_group (o : Connective) (c : Condition) :
    (group o c).isOperand = false := rfl

@[simp] theorem get?_nil (c : Condition) : c.get? [] = some c := by
  cases c <;> rfl

@[simp] theorem get?_cons (c : Condition) (b : Branch) (path : Path) :
    c.get? (b :: path) = (c.branch? b).bind (·.get? path) := by
  cases c <;> rfl

theorem get?_append (c : Condition) (p q : Path) :
    c.get? (p ++ q) = (c.get? p).bind (·.get? q) := by
  induction p generalizing c with
  | nil => simp
  | cons b p ih =>
    simp only [List.cons_append, get?_cons]
    cases c.branch? b with
    | none => rfl
    | some d => exact ih d

/-- The table of branches and the branches themselves agree. -/
theorem mem_branches_iff (c : Condition) (b : Branch) :
    b ∈ c.branches ↔ (c.branch? b).isSome := by
  cases c <;> cases b <;> simp [branches, branch?]

end Condition

end ConditionTree
