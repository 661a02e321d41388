import ConditionTree.Number.Decimal

/-!
# JSON values

A value keeps whole numbers and doubles apart and an object keeps its members in the order in which
they were given, so that every reading of a text can be told apart. Documents hold normal values:
keys increase and occur once, and no number is infinite or missing.
-/

namespace ConditionTree

inductive Json
  | null
  | bool (b : Bool)
  | int (n : Int)
  | double (x : Double)
  | string (s : String)
  | array (items : List Json)
  | object (members : List (String × Json))
deriving Repr, Inhabited

namespace Json

def isNull : Json → Bool
  | null => true
  | _ => false

def asString? : Json → Option String
  | string s => some s
  | _ => none

/-- A number as a double; a whole number is rounded to the nearest one. -/
def asDouble? : Json → Option Double
  | int n => some (.ofInt n)
  | double x => some x
  | _ => none

/-- The value of a key of an object. -/
def get? (key : String) : Json → Option Json
  | object members => members.lookup key
  | _ => none

/-- Puts a member at its place among members in key order, unless its key is there already. -/
def insertNew (key : String) (value : Json) : List (String × Json) → List (String × Json)
  | [] => [(key, value)]
  | (k, v) :: rest =>
    if key = k then (k, v) :: rest
    else if key < k then (key, value) :: (k, v) :: rest
    else (k, v) :: insertNew key value rest

mutual

/-- The value as a document holds it: of members with one key the last is kept, keys are put in
order, and a number that is not finite becomes null. -/
def normal : Json → Json
  | null => null
  | bool b => bool b
  | int n => int n
  | double x => if x.isFinite then double x else null
  | string s => string s
  | array items => array (normalItems items)
  | object members => object (normalMembers members)

def normalItems : List Json → List Json
  | [] => []
  | item :: rest => item.normal :: normalItems rest

def normalMembers : List (String × Json) → List (String × Json)
  | [] => []
  | (key, value) :: rest => insertNew key value.normal (normalMembers rest)

end

end Json

end ConditionTree
