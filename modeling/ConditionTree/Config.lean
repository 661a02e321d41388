import ConditionTree.Edit.Editor
import ConditionTree.Json5.Reader

/-!
# Settings of the editor

A config text is a JSON5 object. Every key may be left out and has a default then; keys of no
meaning are skipped. A known key that occurs twice, or holds what it cannot mean, makes the text
invalid.
-/

namespace ConditionTree

/-- The comparison that a new row starts with. -/
structure Placeholder where
  operator : Comparator := .greater
  series : Option String := none
  value : Double := .zero
deriving DecidableEq, Repr, Inhabited

structure Config where
  /-- The connective of the first boolean node of a tree. -/
  operator : Connective := .and
  placeholder : Placeholder := {}
  /-- Whether JSON is written over several lines. -/
  pretty : Bool := true
deriving DecidableEq, Repr, Inhabited

namespace Config

/-- What the members say under a key that may occur once, or the default where it does not occur. -/
def field {α : Type} (key : String) (default : α) (read : Json → Option α)
    (members : List (String × Json)) : Option α :=
  match members.filter (·.1 == key) with
  | [] => some default
  | [(_, v)] => read v
  | _ => none

/-- One of several names, as a string or as the only key of an object that holds null under it. -/
def choice {α : Type} (read : String → Option α) : Json → Option α
  | .string s => read s
  | .object [(s, .null)] => read s
  | _ => none

def readBool : Json → Option Bool
  | .bool b => some b
  | _ => none

def readSeries : Json → Option (Option String)
  | .null => some none
  | .string s => some (some s)
  | _ => none

def readPlaceholder : Json → Option Placeholder
  | .object members => do
    let operator ← field "operator" .greater (choice Comparator.ofSymbol?) members
    let series ← field "ref" none readSeries members
    let value ← field "value" .zero Json.asDouble? members
    return ⟨operator, series, value⟩
  | _ => none

def readOutput : Json → Option Bool
  | .object members => field "pretty" true readBool members
  | _ => none

def ofJson? : Json → Option Config
  | .object members => do
    let operator ← field "default_operator" .and (choice Connective.ofName?) members
    let placeholder ← field "placeholder" {} readPlaceholder members
    let pretty ← field "output" true readOutput members
    return ⟨operator, placeholder, pretty⟩
  | _ => none

/-- The settings of a config text, if it is a valid one. -/
def ofText? (text : String) : Option Config :=
  (Json5.read? text).bind ofJson?

def placeholderJson (p : Placeholder) : Json :=
  .object (("operator", .string p.operator.symbol) ::
    (match p.series with
      | some s => [("ref", .string s)]
      | none => []) ++ [("value", .double p.value)])

def toJson (c : Config) : Json :=
  .object [("default_operator", .string c.operator.symbol),
    ("output", .object [("pretty", .bool c.pretty)]),
    ("placeholder", placeholderJson c.placeholder)]

end Config

def Placeholder.toCondition (p : Placeholder) : Condition :=
  .comparison p.operator (.reference p.series) (.number p.value)

/-- What the settings give the editor to fill in. -/
def Config.editDefaults (c : Config) : EditDefaults :=
  ⟨c.operator, c.placeholder.toCondition⟩

end ConditionTree
