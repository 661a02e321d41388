/-!
# Double precision numbers

Thresholds are binary64 numbers, held by their bits so that every statement about them is one about
natural numbers. The value of a finite magnitude is a whole number of units of `2 ^ -1074`, and a
fraction is rounded to the nearest magnitude, halves to the even one.
-/

namespace ConditionTree

/-- A binary64 number. A finite one holds its sign and the bits below it: the exponent, which is not
all ones, above fifty-two bits of fraction. -/
inductive Double
  | finite (negative : Bool) (magnitude : Fin 0x7FF0000000000000)
  | infinite (negative : Bool)
  | nan
deriving DecidableEq, Repr

namespace Double

/-- The bit above the fraction, which the bits of a magnitude leave out. -/
abbrev leadingBit : Nat := 0x10000000000000

/-- The bits of a magnitude that make up its number, the leading one included. -/
def significand (magnitude : Nat) : Nat :=
  if magnitude / leadingBit = 0 then magnitude else leadingBit + magnitude % leadingBit

/-- How often the significand is doubled. -/
def scale (magnitude : Nat) : Nat :=
  magnitude / leadingBit - 1

/-- The value of a magnitude in units of `2 ^ -1074`. -/
def units (magnitude : Nat) : Nat :=
  significand magnitude <<< scale magnitude

/-- The whole number nearest to a fraction, of two equally near ones the even one. -/
def roundHalfEven (numerator denominator : Nat) : Nat :=
  let quotient := numerator / denominator
  let twice := 2 * (numerator % denominator)
  if twice < denominator ∨ twice = denominator ∧ quotient % 2 = 0 then quotient else quotient + 1

/-- The magnitude nearest to a fraction. The fraction is measured in units, cut to fifty-three bits
and rounded; a carry out of these bits moves into the exponent by the addition itself. -/
def nearest (numerator denominator : Nat) : Nat :=
  let scaled := numerator <<< 1074
  let shift := (scaled / denominator).log2 - 52
  roundHalfEven scaled (denominator <<< shift) + shift * leadingBit

/-- The number nearest to a fraction; what rounds above the largest finite number is infinite. -/
def ofFraction (negative : Bool) (numerator denominator : Nat) : Double :=
  if h : nearest numerator denominator < 0x7FF0000000000000 then finite negative ⟨_, h⟩
  else infinite negative

/-- The number nearest to a whole number. -/
def ofInt (n : Int) : Double :=
  ofFraction (n < 0) n.natAbs 1

/-- The zero of a sign. -/
def signedZero (negative : Bool) : Double :=
  finite negative 0

def zero : Double := signedZero false

instance : Inhabited Double := ⟨zero⟩

def isFinite : Double → Bool
  | finite _ _ => true
  | _ => false

/-- Equality of values: the two zeros are equal, and nothing equals what is not a number. -/
def equal : Double → Double → Bool
  | finite n m, finite n' m' => m == m' && (n == n' || m.val == 0)
  | infinite n, infinite n' => n == n'
  | _, _ => false

/-- The value, if it is a whole number. -/
def toInt? : Double → Option Int
  | finite negative m =>
    let one := 1 <<< 1074
    if units m % one = 0 then
      let n : Int := (units m / one : Nat)
      some (if negative then -n else n)
    else none
  | _ => none

@[simp] theorem units_zero : units 0 = 0 := rfl

/-- Nothing is lost on a fraction that is a whole number. -/
theorem roundHalfEven_mul (n : Nat) {d : Nat} (h : 0 < d) : roundHalfEven (n * d) d = n := by
  simp [roundHalfEven, Nat.mul_div_cancel n h, h]

end Double

end ConditionTree
