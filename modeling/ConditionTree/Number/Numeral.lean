import ConditionTree.Number.Decimal

/-!
# Written numbers

A number without a sign as it is written with digits, a point and an exponent: digits on at least
one side of the point, and at least one in an exponent.
-/

namespace ConditionTree

/-- The parts of a written number. The fraction is there if the point is. -/
structure Numeral where
  whole : List Char
  fraction : Option (List Char)
  exponent : Option Int
deriving DecidableEq, Repr

namespace Numeral

/-- The exponent after its mark. -/
def readExponent (cs : List Char) : Option (Int × List Char) :=
  let (negative, cs) : Bool × List Char := match cs with
    | '-' :: rest => (true, rest)
    | '+' :: rest => (false, rest)
    | _ => (false, cs)
  let digits := cs.takeWhile Char.isDigit
  let n : Int := (Nat.ofDigitChars 10 digits 0 : Nat)
  if digits.isEmpty then none else some (if negative then -n else n, cs.dropWhile Char.isDigit)

/-- The longest written number at the start of a text, with the rest. -/
def read (cs : List Char) : Option (Numeral × List Char) :=
  let whole := cs.takeWhile Char.isDigit
  let (fraction, rest) : Option (List Char) × List Char := match cs.dropWhile Char.isDigit with
    | '.' :: rest => (some (rest.takeWhile Char.isDigit), rest.dropWhile Char.isDigit)
    | rest => (none, rest)
  if whole.isEmpty && (fraction.getD []).isEmpty then none
  else match rest with
    | 'e' :: rest | 'E' :: rest =>
      (readExponent rest).map fun (exponent, rest) => (⟨whole, fraction, some exponent⟩, rest)
    | _ => some (⟨whole, fraction, none⟩, rest)

/-- Digits alone, with neither point nor exponent. -/
def isWhole (n : Numeral) : Bool :=
  n.fraction.isNone && n.exponent.isNone

def toDecimal (n : Numeral) : Decimal :=
  let fraction := n.fraction.getD []
  ⟨Nat.ofDigitChars 10 (n.whole ++ fraction) 0, n.exponent.getD 0 - fraction.length⟩

/-- Reads a whole text, a number with an optional sign, as the nearest double. -/
def readDouble? (s : String) : Option Double :=
  let (negative, cs) : Bool × List Char := match s.toList with
    | '-' :: rest => (true, rest)
    | '+' :: rest => (false, rest)
    | cs => (false, cs)
  match read cs with
  | some (n, []) => some (n.toDecimal.toDouble negative)
  | _ => none

end Numeral

end ConditionTree
