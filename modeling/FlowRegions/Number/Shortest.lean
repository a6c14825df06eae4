import FlowRegions.Number.Binary64

/-!
# Shortest decimal text

A finite value is written with the fewest decimal digits that read back as the same value and, among
those, with the nearest ones.  On the grid of decimals with `n` digits only the two neighbours of
the value can be nearest, so the search tries those two for `n = 1, 2, …, 17`.
-/

namespace FlowRegions

/-- The place of the decimal point of the positive ratio `num / den`: the `p` with
`10 ^ (p - 1) ≤ num / den < 10 ^ p`. -/
def pointPlace (num den : Nat) : Int :=
  if den ≤ num then digitCount (num / den)
  else
    let shift := digitCount den - digitCount num
    if den ≤ num * Nat.pow 10 shift then 1 - (shift : Int) else -(shift : Int)

namespace Binary64

/-- Does `digits · 10 ^ place` read back as `mantissa · 2 ^ exponent`? -/
def readsBack (mantissa : Nat) (exponent : Int) (digits : Nat) (place : Int) : Bool :=
  ofDecimal false digits place = .finite false mantissa exponent

/-- The decimal at `place` that reads back as `mantissa · 2 ^ exponent`, if either neighbour does;
the nearer one if both do, and of two equally near the even one. -/
def decimalAt? (mantissa : Nat) (exponent : Int) (num den : Nat) (place : Int) :
    Option (Nat × Int) :=
  let scaled := scaleDown 10 num den place
  let below := scaled.1 / scaled.2
  let nearest := roundQuotient scaled.1 scaled.2
  let other := if nearest = below then below + 1 else below
  if readsBack mantissa exponent nearest place then some (nearest, place)
  else if readsBack mantissa exponent other place then some (other, place)
  else none

/-- The shortest decimal `digits · 10 ^ place` of the positive value `mantissa · 2 ^ exponent`. -/
def shortest (mantissa : Nat) (exponent : Int) : Nat × Int :=
  let ratio := scaleDown 2 mantissa 1 (-exponent)
  let point := pointPlace ratio.1 ratio.2
  let found := (List.range 17).findSome? fun (n : Nat) =>
    decimalAt? mantissa exponent ratio.1 ratio.2 (point - ((n + 1 : Nat) : Int))
  found.getD (mantissa, 0)

end Binary64

/-- How a decimal is laid out as text.  A number with its point at place `p`, as in
`0.d₁d₂… · 10 ^ p`, is positional for `lowestPoint ≤ p ≤ highestPoint`. -/
structure DecimalLayout where
  lowestPoint : Int
  highestPoint : Int
  exponentWidth : Nat

namespace DecimalLayout

/-- Numbers in messages are positional from `0.0001` up to below `10 ^ 16`, keep a fraction digit,
and have exponents of at least two digits. -/
def message : DecimalLayout := ⟨-3, 16, 2⟩

/-- The text of `0.d₁d₂… · 10 ^ point` for the digits `d₁ d₂ …`. -/
def text (layout : DecimalLayout) (digits : List Char) (point : Int) : List Char :=
  if layout.lowestPoint ≤ point && point ≤ layout.highestPoint then
    if point ≤ 0 then
      '0' :: '.' :: List.replicate (-point).toNat '0' ++ digits
    else
      let whole := digits.take point.toNat
      let fraction := digits.drop point.toNat
      whole ++ List.replicate (point.toNat - whole.length) '0' ++
        '.' :: (if fraction.isEmpty then ['0'] else fraction)
  else
    let exponent := point - 1
    let exponentDigits := Nat.toDigits 10 exponent.natAbs
    let fraction := digits.drop 1
    digits.take 1 ++ (if fraction.isEmpty then [] else '.' :: fraction) ++
      'e' :: (if exponent < 0 then '-' else '+') ::
        List.replicate (layout.exponentWidth - exponentDigits.length) '0' ++ exponentDigits

end DecimalLayout

namespace Binary64

/-- The digits of `n` without the zeros at its end. -/
def significantDigits (n : Nat) : List Char :=
  ((Nat.toDigits 10 n).reverse.dropWhile (· == '0')).reverse

def text : Binary64 → String
  | nan => "nan"
  | infinity negative => if negative then "-inf" else "inf"
  | finite negative mantissa exponent =>
    let body :=
      if mantissa = 0 then ['0', '.', '0']
      else
        let (digits, place) := shortest mantissa exponent
        DecimalLayout.message.text (significantDigits digits) (digitCount digits + place)
    String.ofList (if negative then '-' :: body else body)

end Binary64

end FlowRegions
