import ConditionTree.Json
import ConditionTree.Json5.Quoted
import ConditionTree.Number.Numeral

/-!
# JSON5 texts

A text is read as one value with space and comments around it. The members of an object stay in the
order of the text, repeated keys included; what repetition means is for the reader of the value.
-/

namespace ConditionTree.Json5

/-- A whole number stays one as far as 64 bits hold it, with or without a sign; beyond it is the
nearest double. -/
def whole (negative : Bool) (n : Nat) : Json :=
  let i : Int := if negative then -n else n
  if -0x8000000000000000 ≤ i ∧ i < 0x10000000000000000 then .int i else .double (.ofInt i)

/-- Hexadecimal digits after `0x`. They have to fit 128 bits, with a sign if one is given. -/
def hexadecimal (negative : Bool) (cs : List Char) : Option (Json × List Char) := do
  let isHex (c : Char) : Bool := (hexValue? c).isSome
  let n ← hexNumber? (cs.takeWhile isHex)
  if (cs.takeWhile isHex).isEmpty then none
  else if n < (if negative then 1 <<< 127 + 1 else 1 <<< 128) then
    some (whole negative n, cs.dropWhile isHex)
  else none

/-- A decimal number; digits before a point begin with a zero only if it stands alone. -/
def decimal (negative : Bool) (cs : List Char) : Option (Json × List Char) := do
  let (n, rest) ← Numeral.read cs
  match n.whole with
  | '0' :: _ :: _ => none
  | _ =>
    if n.isWhole then some (whole negative (Nat.ofDigitChars 10 n.whole 0), rest)
    else some (.double (n.toDecimal.toDouble negative), rest)

def unsigned (negative : Bool) : List Char → Option (Json × List Char)
  | 'I' :: 'n' :: 'f' :: 'i' :: 'n' :: 'i' :: 't' :: 'y' :: rest =>
    some (.double (.infinite negative), rest)
  | 'N' :: 'a' :: 'N' :: rest => some (.double .nan, rest)
  | '0' :: 'x' :: rest | '0' :: 'X' :: rest => hexadecimal negative rest
  | cs => decimal negative cs

def number : List Char → Option (Json × List Char)
  | '+' :: rest => unsigned false rest
  | '-' :: rest => unsigned true rest
  | cs => unsigned false cs

/-- A value that holds no other one, with the rest. -/
def scalar : List Char → Option (Json × List Char)
  | 'n' :: 'u' :: 'l' :: 'l' :: rest => some (.null, rest)
  | 't' :: 'r' :: 'u' :: 'e' :: rest => some (.bool true, rest)
  | 'f' :: 'a' :: 'l' :: 's' :: 'e' :: rest => some (.bool false, rest)
  | '"' :: rest => (quoted '"' rest).map fun (s, tail) => (.string (String.ofList s), tail)
  | '\'' :: rest => (quoted '\'' rest).map fun (s, tail) => (.string (String.ofList s), tail)
  | cs => number cs

mutual

/-- A value after space, with the rest. Every call consumes a character before the next one, so the
length of the text bounds the calls. -/
def value : Nat → List Char → Option (Json × List Char)
  | 0, _ => none
  | fuel + 1, cs => do
    match ← skip cs with
    | '[' :: rest =>
      let (items, rest) ← items fuel rest
      some (.array items, rest)
    | '\x7b' :: rest =>
      let (members, rest) ← members fuel rest
      some (.object members, rest)
    | cs => scalar cs

/-- The items of an array up to its closing bracket. A comma may follow the last one. -/
def items : Nat → List Char → Option (List Json × List Char)
  | 0, _ => none
  | fuel + 1, cs => do
    match ← skip cs with
    | ']' :: rest => some ([], rest)
    | cs =>
      let (item, rest) ← value fuel cs
      match ← skip rest with
      | ',' :: rest =>
        let (more, rest) ← items fuel rest
        some (item :: more, rest)
      | ']' :: rest => some ([item], rest)
      | _ => none

/-- The members of an object up to its closing brace. A comma may follow the last one. -/
def members : Nat → List Char → Option (List (String × Json) × List Char)
  | 0, _ => none
  | fuel + 1, cs => do
    match ← skip cs with
    | '\x7d' :: rest => some ([], rest)
    | cs =>
      let (name, rest) ← key cs
      match ← skip rest with
      | ':' :: rest =>
        let (v, rest) ← value fuel rest
        match ← skip rest with
        | ',' :: rest =>
          let (more, rest) ← members fuel rest
          some ((name, v) :: more, rest)
        | '\x7d' :: rest => some ([(name, v)], rest)
        | _ => none
      | _ => none

end

/-- The value of a text, as it is written. -/
def read? (text : String) : Option Json := do
  let cs := text.toList
  let (v, rest) ← value (cs.length + 1) cs
  match ← skip rest with
  | [] => some v
  | _ => none

/-- The value of a text as a document holds it. -/
def document? (text : String) : Option Json :=
  (read? text).map Json.normal

end ConditionTree.Json5
