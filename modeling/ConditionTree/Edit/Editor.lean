import ConditionTree.Condition.Infix
import ConditionTree.Edit.Operations
import ConditionTree.Edit.Session

/-!
# Edits

An edit goes down to the node it is meant for, changes it and folds the change back into every node
on the way up. What is left is the whole new tree, or nothing once the last condition is deleted.

* comparison, boolean, group: add an expression, add a group, delete
* comparison: set its comparator
* number, reference: set the value, set the series
* group: set its connective
* a root that is no group: set the connective of the whole tree, which the session remembers
-/

namespace ConditionTree

/-- One action of a user on one node. -/
inductive Intent
  | addExpression
  | addGroup
  | delete
  | setConnective (operator : Connective)
  | setComparator (operator : Comparator)
  | setValue (value : Double)
  | setReference (series : String)
deriving DecidableEq, Repr

def Intent.name : Intent → String
  | addExpression => "add an expression"
  | addGroup => "add a group"
  | delete => "delete"
  | setConnective _ => "set the boolean operator"
  | setComparator _ => "set the comparison operator"
  | setValue _ => "set a value"
  | setReference _ => "set a reference"

inductive EditError
  | unsupported (intent : Intent) (kind : NodeKind) (path : Path)
  | noSuchBranch (branch : Branch) (kind : NodeKind) (path : Path)
  | nonFiniteValue (value : Double) (path : Path)
  /-- The change of a node cannot be folded into its parent. -/
  | fold (error : FoldError)
deriving DecidableEq, Repr

def EditError.message : EditError → String
  | unsupported intent kind path =>
    "Cannot " ++ intent.name ++ " on a " ++ kind.name ++ " node at " ++ path.text
  | noSuchBranch b kind path =>
    "Node at " ++ path.text ++ " is a " ++ kind.name ++ " and has no '" ++ b.name ++ "' branch"
  | nonFiniteValue value path =>
    "Threshold at " ++ path.text ++ " must be a finite number, got " ++ Condition.numberText value
  | fold error => error.message

/-- What the editor fills in by itself. -/
structure EditDefaults where
  /-- The connective at the root where nothing else decides. -/
  operator : Connective
  /-- The comparison that additions bring in. -/
  placeholder : Condition
deriving DecidableEq, Repr

/-- The comparison of a new row, between a series not chosen yet and zero. -/
def Condition.emptyComparison : Condition :=
  .comparison .greater (.reference none) (.number .zero)

instance : Inhabited EditDefaults := ⟨⟨.and, .emptyComparison⟩⟩

structure Editor where
  defaults : EditDefaults := default
  session : Session := {}
deriving Repr, Inhabited

namespace Editor

def effective (e : Editor) (parent : Option Condition) (node : Condition) : Connective :=
  e.session.effective e.defaults.operator parent node

def addSibling (e : Editor) (parent : Option Condition) (node : Condition) : Condition :=
  node.addSibling (e.effective parent node) e.defaults.placeholder

def addGroup (e : Editor) (parent : Option Condition) (node : Condition) : Condition :=
  node.addGroup (e.effective parent node) e.defaults.placeholder

/-- Aligns the tree under a node with a connective and remembers it. -/
def changeOperator (e : Editor) (o : Connective) (node : Condition) : Editor × Condition :=
  ({ e with session := ⟨some o⟩ }, node.align o)

/-- The change of the node at a path under a parent. -/
def editNode (e : Editor) (intent : Intent) (parent : Option Condition) (path : Path)
    (node : Condition) : Except EditError (Option Condition) :=
  let refused := .error (.unsupported intent node.kind path)
  match intent with
  | .addExpression => if node.isOperand then refused else .ok (some (e.addSibling parent node))
  | .addGroup => if node.isOperand then refused else .ok (some (e.addGroup parent node))
  | .delete => if node.isOperand then refused else .ok node.delete
  | .setConnective o =>
    match node.setGroupOperator? o with
    | some new => .ok (some new)
    | none => if parent.isNone then .ok (some (node.align o)) else refused
  | .setComparator o =>
    match node with
    | .comparison _ l r => .ok (some (.comparison o l r))
    | _ => refused
  | .setValue x =>
    match node with
    | .number _ => if x.isFinite then .ok (some (.number x)) else .error (.nonFiniteValue x path)
    | _ => refused
  | .setReference series =>
    match node with
    | .reference _ => .ok (some (.reference (some series)))
    | _ => refused

/-- The change of a node by an edit below it, at the end of the branches that remain. -/
def editAt (e : Editor) (intent : Intent) (parent : Option Condition) (path : Path)
    (node : Condition) : Path → Except EditError (Option Condition)
  | [] => e.editNode intent parent path node
  | b :: rest =>
    match node.branch? b with
    | none => .error (.noSuchBranch b node.kind path)
    | some child => do
      let update ← e.editAt intent (some node) (path ++ [b]) child rest
      (node.fold b update).mapError .fold

/-- What the session remembers after an edit that succeeded: the connective chosen for a whole
tree. -/
def remember (s : Session) (root : Condition) (path : Path) : Intent → Session
  | .setConnective o => if path = [] ∧ ¬ root.isGroup then ⟨some o⟩ else s
  | _ => s

/-- Carries out an intent at a path of a tree. The session meets the root first, whether or not the
edit succeeds. -/
def apply (e : Editor) (root : Condition) (path : Path) (intent : Intent) :
    Editor × Except EditError (Option Condition) :=
  let observed := { e with session := e.session.observe root }
  match observed.editAt intent none [] root path with
  | .ok new => ({ observed with session := remember observed.session root path intent }, .ok new)
  | .error error => (observed, .error error)

end Editor

end ConditionTree
