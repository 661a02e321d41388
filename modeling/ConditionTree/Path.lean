import ConditionTree.Text.Blank

/-!
# Node paths

A node of a tree is addressed by the branches taken from the root. A path is written `$`,
`$.right.child.left` or `right/child/left`; the text of no branch at all is the root as well.
-/

namespace ConditionTree

inductive Branch
  | left
  | right
  /-- The only branch of a group. -/
  | child
deriving DecidableEq, Repr, Inhabited

namespace Branch

def name : Branch → String
  | left => "left"
  | right => "right"
  | child => "child"

/-- The other side of a node with two branches. -/
def sibling? : Branch → Option Branch
  | left => some right
  | right => some left
  | child => none

/-- A branch by its name or its first letter, in letters of any case. The names are ASCII and no
character outside ASCII has a lower case in them, so ASCII lower case decides. -/
def ofText? (s : String) : Option Branch :=
  match String.ofList (s.toList.map Char.toLower) with
  | "left" | "l" => some left
  | "right" | "r" => some right
  | "child" | "c" => some child
  | _ => none

@[simp] theorem ofText?_name (b : Branch) : ofText? b.name = some b := by
  cases b <;> rfl

end Branch

/-- A piece of a path text that names no branch. -/
inductive PathError
  | unknownBranch (name : String)
deriving DecidableEq, Repr

def PathError.message : PathError → String
  | unknownBranch name =>
    "Invalid node path: unknown branch '" ++ name ++
      "'. Valid branches are: left (l), right (r), child (c)"

/-- The branches taken from the root, the first one first. -/
abbrev Path := List Branch

namespace Path

def text (p : Path) : String :=
  "$" ++ String.join (p.map fun b => "." ++ b.name)

def isSeparator (c : Char) : Bool :=
  c == '.' || c == '/'

/-- The pieces between separators, trimmed, without the ones that are blank. A single `$` in front
is no part of them. -/
def segments (s : String) : List String :=
  let body := match Text.trim s.toList with
    | '$' :: rest => rest
    | cs => cs
  ((body.splitOnP isSeparator).map Text.trim).filterMap fun piece =>
    if piece.isEmpty then none else some (String.ofList piece)

def branchOf (segment : String) : Except PathError Branch :=
  match Branch.ofText? segment with
  | some b => .ok b
  | none => .error (.unknownBranch segment)

/-- Reads a path; the first piece that names no branch is the error. -/
def ofText (s : String) : Except PathError Path :=
  (segments s).mapM branchOf

end Path

end ConditionTree
