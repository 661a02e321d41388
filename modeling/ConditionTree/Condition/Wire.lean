import ConditionTree.Condition
import ConditionTree.Json.Text

/-!
# The JSON form

A node is an object that names its kind or its operator under `expr` and holds its branches under
their names. Keys of no meaning are ignored. An error names the node at fault, which is the first
one when nodes are checked before their branches and the left branch before the right one.
-/

namespace ConditionTree

/-- Why a value is no condition. Each cause holds the path of the node at fault. -/
inductive DecodeError
  | notAnObject (path : Path)
  | missingField (field : String) (path : Path)
  | tagNotAString (path : Path)
  | unknownTag (tag : String) (path : Path)
  | valueNotFinite (got : Json) (path : Path)
  | referenceNotAString (got : Json) (path : Path)
  | unknownOperator (got : Json) (path : Path)
deriving Repr

namespace DecodeError

def path : DecodeError → Path
  | notAnObject p | missingField _ p | tagNotAString p | unknownTag _ p | valueNotFinite _ p
  | referenceNotAString _ p | unknownOperator _ p => p

def invalidField (field : String) (path : Path) (reason : String) : String :=
  "Invalid field '" ++ field ++ "' at " ++ path.text ++ ": " ++ reason

def message : DecodeError → String
  | notAnObject p => "Expected an expression object at " ++ p.text
  | missingField field p => "Missing field '" ++ field ++ "' at " ++ p.text
  | tagNotAString p => invalidField "expr" p "must be a string"
  | unknownTag tag p =>
    "Unrecognized expression kind '" ++ tag ++ "' at " ++ p.text ++
      ". Valid kinds are: number, number-ref, group, &&, ||, <, <=, >, >=, =="
  | valueNotFinite got p =>
    invalidField "value" p ("expected a finite number, got " ++ got.compact)
  | referenceNotAString got p =>
    invalidField "ref" p ("expected a string, got " ++ got.compact)
  | unknownOperator got p =>
    invalidField "operator" p ("expected '&&' or '||', got " ++ got.compact)

end DecodeError

/-- What `expr` says about a node. -/
inductive Tag
  | number
  | reference
  | group
  | boolean (operator : Connective)
  | comparison (operator : Comparator)
deriving DecidableEq, Repr

def Tag.ofText? : String → Option Tag
  | "number" => some .number
  | "number-ref" => some .reference
  | "group" => some .group
  | s => ((Connective.ofSymbol? s).map .boolean).or ((Comparator.ofSymbol? s).map .comparison)

namespace Condition

/-- A threshold goes out as a whole number if it is one of less than 64 bits, and as null if it is no
finite number, since there is no JSON number for it. -/
def numberJson (x : Double) : Json :=
  match x.toInt? with
  | some n => if n.natAbs < 0x8000000000000000 then .int n else .double x
  | none => if x.isFinite then .double x else .null

def toJson : Condition → Json
  | number x => .object [("expr", .string "number"), ("value", numberJson x)]
  | reference none => .object [("expr", .string "number-ref")]
  | reference (some series) => .object [("expr", .string "number-ref"), ("ref", .string series)]
  | comparison o l r =>
    .object [("expr", .string o.symbol), ("left", l.toJson), ("right", r.toJson)]
  | boolean o l r => .object [("expr", .string o.symbol), ("left", l.toJson), ("right", r.toJson)]
  | group o child =>
    .object [("child", child.toJson), ("expr", .string "group"), ("operator", .string o.symbol)]

def tagOf (members : List (String × Json)) (path : Path) : Except DecodeError Tag :=
  match members.lookup "expr" with
  | none => .error (.missingField "expr" path)
  | some (.string s) =>
    match Tag.ofText? s with
    | some tag => .ok tag
    | none => .error (.unknownTag s path)
  | some _ => .error (.tagNotAString path)

/-- A new threshold may have no value yet, which is zero; a value has to be a finite number. -/
def numberOf (members : List (String × Json)) (path : Path) : Except DecodeError Condition :=
  match members.lookup "value" with
  | none => .ok (number .zero)
  | some v =>
    match v.asDouble?.filter Double.isFinite with
    | some x => .ok (number x)
    | none => .error (.valueNotFinite v path)

def referenceOf (members : List (String × Json)) (path : Path) : Except DecodeError Condition :=
  match members.lookup "ref" with
  | none | some .null => .ok (reference none)
  | some (.string s) => .ok (reference (some s))
  | some v => .error (.referenceNotAString v path)

def groupOperatorOf (members : List (String × Json)) (path : Path) :
    Except DecodeError Connective :=
  match members.lookup "operator" with
  | none => .error (.missingField "operator" path)
  | some v =>
    match v.asString?.bind Connective.ofSymbol? with
    | some o => .ok o
    | none => .error (.unknownOperator v path)

mutual

/-- Decodes the node at a path and all below it. -/
def decode (path : Path) : Json → Except DecodeError Condition
  | .object members => do
    match ← tagOf members path with
    | .number => numberOf members path
    | .reference => referenceOf members path
    | .group =>
      let o ← groupOperatorOf members path
      let child ← decodeBranch path .child members
      return group o child
    | .boolean o =>
      let l ← decodeBranch path .left members
      let r ← decodeBranch path .right members
      return boolean o l r
    | .comparison o =>
      let l ← decodeBranch path .left members
      let r ← decodeBranch path .right members
      return comparison o l r
  | _ => .error (.notAnObject path)

/-- Decodes the branch of a node among its members; null is no branch. -/
def decodeBranch (path : Path) (b : Branch) : List (String × Json) → Except DecodeError Condition
  | [] => .error (.missingField b.name path)
  | (key, v) :: rest =>
    if key = b.name then
      if v.isNull then .error (.missingField b.name path) else decode (path ++ [b]) v
    else decodeBranch path b rest

end

/-- The condition that a value is the JSON form of. -/
def ofJson (v : Json) : Except DecodeError Condition :=
  decode [] v

end Condition

end ConditionTree
