import ConditionTree.Json

/-!
# JSON pointers

A pointer names a place in a value by the keys and indexes that lead there. Its text is empty or has
a slash before each of them; `~1` stands for a slash and `~0` for a tilde.
-/

namespace ConditionTree.Json

/-- Writes one character for every pair of a tilde and a digit. -/
def replaceEscape (digit char : Char) : List Char → List Char
  | '~' :: c :: rest =>
    if c = digit then char :: replaceEscape digit char rest
    else '~' :: replaceEscape digit char (c :: rest)
  | c :: rest => c :: replaceEscape digit char rest
  | [] => []

/-- A token as it is meant. Slashes come first, so `~01` is a tilde and a one. -/
def unescapeToken (cs : List Char) : String :=
  String.ofList (replaceEscape '0' '~' (replaceEscape '1' '/' cs))

/-- The tokens of a pointer; a text that is neither empty nor starts with a slash is none. -/
def pointerTokens? (pointer : String) : Option (List String) :=
  match pointer.toList with
  | [] => some []
  | '/' :: rest => some ((rest.splitOn '/').map unescapeToken)
  | _ => none

/-- The index that a token names, in digits without a zero in front. -/
def index? (token : String) : Option Nat :=
  match token.toList with
  | [] => none
  | ['0'] => some 0
  | '0' :: _ => none
  | cs => if cs.all Char.isDigit then some (Nat.ofDigitChars 10 cs 0) else none

/-- The value at the end of the tokens. -/
def at? : Json → List String → Option Json
  | v, [] => some v
  | object members, token :: rest => (members.lookup token).bind (·.at? rest)
  | array items, token :: rest => (index? token).bind fun i => items[i]?.bind (·.at? rest)
  | _, _ :: _ => none

/-- The members with the first value of a key replaced. -/
def replaceMember (key : String) (new : Json) : List (String × Json) → List (String × Json)
  | [] => []
  | (k, v) :: rest => if key = k then (k, new) :: rest else (k, v) :: replaceMember key new rest

/-- The value with what is at the end of the tokens replaced, if something is there. -/
def setAt? (new : Json) : Json → List String → Option Json
  | _, [] => some new
  | object members, token :: rest => do
    let v ← members.lookup token
    let v ← setAt? new v rest
    return object (replaceMember token v members)
  | array items, token :: rest => do
    let i ← index? token
    let v ← items[i]?
    let v ← setAt? new v rest
    return array (items.set i v)
  | _, _ :: _ => none

end ConditionTree.Json
