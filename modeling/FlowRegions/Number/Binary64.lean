/-!
# Binary floating point

Values of the 64-bit binary format, held exactly as an integer times a power of two, and the value
nearest to a decimal.  A half is rounded to the even neighbour.
-/

namespace FlowRegions

/-- A value of the 64-bit binary format.  A finite one is `mantissa · 2 ^ exponent` with its sign;
the mantissa is below `2 ^ 53`, and below `2 ^ 52` only at the smallest exponent, `-1074`. -/
inductive Binary64 where
  | nan
  | infinity (negative : Bool)
  | finite (negative : Bool) (mantissa : Nat) (exponent : Int)
deriving DecidableEq, Repr

/-- `n / d` rounded to the nearest integer, a half to the even one. -/
def roundQuotient (n d : Nat) : Nat :=
  let quotient := n / d
  let remainder := n % d
  if 2 * remainder < d then quotient
  else if d < 2 * remainder then quotient + 1
  else quotient + quotient % 2

/-- Numerator and denominator of `(num / den) / base ^ e`. -/
def scaleDown (base num den : Nat) (e : Int) : Nat × Nat :=
  if 0 ≤ e then (num, den * base.pow e.toNat) else (num * base.pow (-e).toNat, den)

def digitCount (n : Nat) : Nat :=
  (Nat.toDigits 10 n).length

namespace Binary64

/-- Mantissas stay below two to the power of 53. -/
def mantissaBound : Nat := Nat.pow 2 53

/-- Mantissa and exponent of the value nearest to the positive ratio `num / den`, or `none` beyond
the largest finite value. -/
def nearestRatio (num den : Nat) : Option (Nat × Int) :=
  let guess : Int := (Nat.log2 num : Int) - (Nat.log2 den : Int) - 53
  let scaled := scaleDown 2 num den guess
  let exponent := max (if scaled.1 / scaled.2 < mantissaBound then guess else guess + 1) (-1074)
  let scaled := scaleDown 2 num den exponent
  let mantissa := roundQuotient scaled.1 scaled.2
  let (mantissa, exponent) :=
    if mantissa = mantissaBound then (mantissaBound / 2, exponent + 1) else (mantissa, exponent)
  if 971 < exponent then none else some (mantissa, exponent)

/-- The value nearest to `± digits · 10 ^ exponent`. -/
def ofDecimal (negative : Bool) (digits : Nat) (exponent : Int) : Binary64 :=
  let magnitude := digitCount digits + exponent
  if digits = 0 ∨ magnitude < -330 then .finite negative 0 (-1074)
  else if 310 < magnitude then .infinity negative
  else
    let ratio := scaleDown 10 digits 1 (-exponent)
    match nearestRatio ratio.1 ratio.2 with
    | none => .infinity negative
    | some (mantissa, exponent) => .finite negative mantissa exponent

end Binary64

end FlowRegions
