import ConditionTree.Number.Double

/-!
# Decimal numbers

A decimal is digits times a power of ten. Reading one gives the nearest double. The other way round,
each double is written by the fewest digits that read back as it, so no text is longer than needed
and none loses a bit.
-/

namespace ConditionTree

/-- The number `digits * 10 ^ exponent`. -/
structure Decimal where
  digits : Nat
  exponent : Int
deriving DecidableEq, Repr

namespace Decimal

/-- How many digits stand before the decimal point; negative where zeros follow it. -/
def point (d : Decimal) : Int :=
  (Nat.toDigits 10 d.digits).length + d.exponent

/-- The nearest double. Numbers of over 310 places are infinite and ones below `10 ^ -330` are zero,
which is known before the power of ten is computed. -/
def toDouble (negative : Bool) (d : Decimal) : Double :=
  if d.digits = 0 then .signedZero negative
  else if 310 < d.point then .infinite negative
  else if d.point < -330 then .signedZero negative
  else if 0 ≤ d.exponent then .ofFraction negative (d.digits * Nat.pow 10 d.exponent.toNat) 1
  else .ofFraction negative d.digits (Nat.pow 10 (-d.exponent).toNat)

/-- The same number with no zero at the end of its digits. -/
def strip (d : Decimal) : Decimal :=
  if 0 < d.digits ∧ d.digits % 10 = 0 then strip ⟨d.digits / 10, d.exponent + 1⟩ else d
termination_by d.digits
decreasing_by omega

end Decimal

/-- Which of two equally near decimals is taken. -/
inductive Tie
  | even
  | up
deriving DecidableEq, Repr

namespace Double

/-- The value of a magnitude as a decimal, every digit of it: a half is five tenths. -/
def exactDecimal (magnitude : Nat) : Decimal :=
  if 1074 ≤ scale magnitude then ⟨significand magnitude <<< (scale magnitude - 1074), 0⟩
  else
    let halvings := 1074 - scale magnitude
    ⟨significand magnitude * Nat.pow 5 halvings, -halvings⟩

/-- The two neighbours of a decimal once `dropped` of its digits are cut off, the nearer one
first. -/
def neighbours (tie : Tie) (d : Decimal) (dropped : Nat) : List Decimal :=
  let unit := Nat.pow 10 dropped
  let low : Decimal := ⟨d.digits / unit, d.exponent + dropped⟩
  let high : Decimal := ⟨d.digits / unit + 1, d.exponent + dropped⟩
  let twice := 2 * (d.digits % unit)
  let lowFirst := twice < unit ∨ twice = unit ∧ tie = .even ∧ low.digits % 2 = 0
  if lowFirst then [low, high] else [high, low]

/-- The decimal of fewest digits that reads back as the magnitude, of two the nearer one. With all
digits kept the lower neighbour is the value itself, so the search ends there at the latest. -/
def shortest (tie : Tie) (magnitude : Fin 0x7FF0000000000000) : Decimal :=
  let exact := exactDecimal magnitude
  let count := (Nat.toDigits 10 exact.digits).length
  let found := (List.range count).findSome? fun kept =>
    (neighbours tie exact (count - (kept + 1))).find? fun d =>
      d.toDouble false = finite false magnitude
  (found.getD exact).strip

end Double

end ConditionTree
