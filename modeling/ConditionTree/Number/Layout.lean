import ConditionTree.Number.Decimal

/-!
# The text of a number

One text for a double is fixed by a layout: where the decimal point may stand without an exponent,
whether a whole number keeps a fraction, and what is written for the numbers that have no digits.
JSON text and the plain text of a condition use one layout each.
-/

namespace ConditionTree

/-- How doubles are written. -/
structure NumberLayout where
  tie : Tie
  /-- The decimal exponents that are written by the place of the point alone. -/
  positional : Int → Bool
  /-- Whether a whole number ends in `.0` where no exponent is written. -/
  keepsFraction : Bool
  infinity : String
  minusInfinity : String
  nan : String

namespace NumberLayout

/-- JSON: an exponent below `-5` and above `15`, and no text of its own for what is not finite. -/
def json : NumberLayout where
  tie := .even
  positional e := -5 ≤ e && e ≤ 15
  keepsFraction := true
  infinity := "null"
  minusInfinity := "null"
  nan := "null"

/-- Plain text: never an exponent, and no fraction on a whole number. -/
def plain : NumberLayout where
  tie := .up
  positional _ := true
  keepsFraction := false
  infinity := "inf"
  minusInfinity := "-inf"
  nan := "NaN"

/-- Digits with a point after the first `point` of them, and zeros where there are none. -/
def place (l : NumberLayout) (digits : List Char) (point : Int) : List Char :=
  if point ≤ 0 then '0' :: '.' :: (List.replicate (-point).toNat '0' ++ digits)
  else if point < digits.length then digits.take point.toNat ++ '.' :: digits.drop point.toNat
  else
    digits ++ List.replicate (point - digits.length).toNat '0' ++
      (if l.keepsFraction then ['.', '0'] else [])

/-- One digit, the others after a point, and an exponent that always has its sign. -/
def scientific (digits : List Char) (exponent : Int) : List Char :=
  digits.take 1 ++ (if digits.length ≤ 1 then [] else '.' :: digits.drop 1) ++
    'e' :: (if exponent < 0 then '-' else '+') :: Nat.toDigits 10 exponent.natAbs

def decimal (l : NumberLayout) (d : Decimal) : List Char :=
  let digits := Nat.toDigits 10 d.digits
  if l.positional (d.point - 1) then l.place digits d.point else scientific digits (d.point - 1)

def text (l : NumberLayout) : Double → List Char
  | .finite negative m =>
    let magnitude := l.decimal (if m.val = 0 then ⟨0, 0⟩ else Double.shortest l.tie m)
    if negative then '-' :: magnitude else magnitude
  | .infinite false => l.infinity.toList
  | .infinite true => l.minusInfinity.toList
  | .nan => l.nan.toList

end NumberLayout

/-- The text of a whole number. -/
def intText (n : Int) : List Char :=
  if n < 0 then '-' :: Nat.toDigits 10 n.natAbs else Nat.toDigits 10 n.natAbs

end ConditionTree
