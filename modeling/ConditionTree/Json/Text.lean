import ConditionTree.Json
import ConditionTree.Number.Layout

/-!
# JSON text

A value is written without any space, or over several lines with two spaces for each level. Strings
escape no more than JSON asks for.
-/

namespace ConditionTree.Json

/-- A digit of a code point, as the escape of a control character needs it. -/
def hexDigit (n : Nat) : Char :=
  Nat.digitChar (n % 16)

/-- A character inside quotes. -/
def escape (c : Char) : List Char :=
  if c = '"' then ['\\', '"']
  else if c = '\\' then ['\\', '\\']
  else if c = '\n' then ['\\', 'n']
  else if c = '\r' then ['\\', 'r']
  else if c = '\t' then ['\\', 't']
  else if c = '\x08' then ['\\', 'b']
  else if c = '\x0c' then ['\\', 'f']
  else if c.toNat < 0x20 then ['\\', 'u', '0', '0', hexDigit (c.toNat / 16), hexDigit c.toNat]
  else [c]

def quote (s : String) : String :=
  String.ofList ('"' :: (s.toList.flatMap escape ++ ['"']))

def bracket (opening : String) (pieces : List String) (closing : String) : String :=
  opening ++ String.intercalate "," pieces ++ closing

mutual

/-- The value on one line. -/
def compact : Json → String
  | null => "null"
  | bool true => "true"
  | bool false => "false"
  | int n => String.ofList (intText n)
  | double x => String.ofList (NumberLayout.json.text x)
  | string s => quote s
  | array items => bracket "[" (compactItems items) "]"
  | object members => bracket "\x7b" (compactMembers members) "\x7d"

def compactItems : List Json → List String
  | [] => []
  | item :: rest => item.compact :: compactItems rest

def compactMembers : List (String × Json) → List String
  | [] => []
  | (key, value) :: rest => (quote key ++ ":" ++ value.compact) :: compactMembers rest

end

/-- The start of a line at a level. -/
def newLine (level : Nat) : String :=
  String.ofList ('\n' :: List.replicate (2 * level) ' ')

/-- Brackets around lines one level deeper; with nothing inside they stay on one line. -/
def block (level : Nat) (opening : String) (pieces : List String) (closing : String) : String :=
  if pieces.isEmpty then opening ++ closing
  else
    opening ++ newLine (level + 1) ++ String.intercalate ("," ++ newLine (level + 1)) pieces ++
      newLine level ++ closing

mutual

/-- The value over several lines, the first of which starts at the level given. -/
def prettyAt (level : Nat) : Json → String
  | array items => block level "[" (prettyItems (level + 1) items) "]"
  | object members => block level "\x7b" (prettyMembers (level + 1) members) "\x7d"
  | null => "null"
  | bool true => "true"
  | bool false => "false"
  | int n => String.ofList (intText n)
  | double x => String.ofList (NumberLayout.json.text x)
  | string s => quote s

def prettyItems (level : Nat) : List Json → List String
  | [] => []
  | item :: rest => item.prettyAt level :: prettyItems level rest

def prettyMembers (level : Nat) : List (String × Json) → List String
  | [] => []
  | (key, value) :: rest =>
    (quote key ++ ": " ++ value.prettyAt level) :: prettyMembers level rest

end

def pretty (v : Json) : String :=
  v.prettyAt 0

end ConditionTree.Json
