import ConditionTree.Condition.Wire
import ConditionTree.Json.Pointer

/-!
# Documents

A condition mostly stands somewhere inside a larger JSON document. A pointer says where; without one
the whole document is the condition.
-/

namespace ConditionTree

structure Document where
  root : Json
  /-- Where the condition is, if it is not the whole document. -/
  pointer : Option String := none
deriving Repr, Inhabited

inductive DocumentError
  | pointerNotFound (pointer : String)
  | invalid (error : DecodeError)
deriving Repr

def DocumentError.message : DocumentError → String
  | pointerNotFound pointer => "Nothing found at JSON pointer '" ++ pointer ++ "'"
  | invalid error => error.message

namespace Document

/-- A document with the pointer as it is given; the empty one names the whole document. -/
def new (root : Json) (pointer : Option String) : Document :=
  ⟨root, pointer.filter (· ≠ "")⟩

/-- The value that should be the condition. -/
def raw (d : Document) : Except DocumentError Json :=
  match d.pointer with
  | none => .ok d.root
  | some p =>
    match (Json.pointerTokens? p).bind d.root.at? with
    | some v => .ok v
    | none => .error (.pointerNotFound p)

/-- The condition, or none where the document holds null. -/
def condition (d : Document) : Except DocumentError (Option Condition) := do
  match ← d.raw with
  | .null => return none
  | v =>
    match Condition.ofJson v with
    | .ok c => return some c
    | .error error => .error (.invalid error)

/-- The root with the condition replaced; none is written as null. -/
def replace (d : Document) (c : Option Condition) : Except DocumentError Json :=
  let new := (c.map Condition.toJson).getD .null
  match d.pointer with
  | none => .ok new
  | some p =>
    match (Json.pointerTokens? p).bind (Json.setAt? new d.root) with
    | some root => .ok root
    | none => .error (.pointerNotFound p)

end Document

end ConditionTree
