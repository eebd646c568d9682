/-! # Binary64 numbers and their decimals

Finite numbers of the 64-bit binary format, in exact arithmetic on natural numbers.
`Binary64.ofDecimal?` rounds a decimal to the nearest number, a tie to the even mantissa;
`Binary64.shortest` is the decimal with the fewest digits that rounds to the number, and of those
the nearest one. -/

namespace Mime

/-- The finite number `± mantissa · 2 ^ exponent`.  The mantissa has 53 bits, or fewer where the
exponent is the least one. -/
structure Binary64 where
  negative : Bool
  mantissa : Nat
  exponent : Int
deriving DecidableEq, Repr

namespace Binary64

/-- The least exponent. -/
def minExponent : Int := -1074

/-- The greatest exponent. -/
def maxExponent : Int := 971

/-- The quotient rounded to the nearest natural number, a tie to the even one. -/
def roundDiv (num den : Nat) : Nat :=
  let quotient := num / den
  let twice := 2 * (num % den)
  if twice < den then quotient
  else if den < twice then quotient + 1
  else quotient + quotient % 2

/-- Numerator and denominator of `num / den / base ^ exponent`. -/
def scale (base num den : Nat) (exponent : Int) : Nat × Nat :=
  if exponent ≥ 0 then (num, den * base.pow exponent.toNat)
  else (num * base.pow (-exponent).toNat, den)

/-- The number nearest to a positive quotient; `none` beyond the greatest number. -/
def ofQuotient? (negative : Bool) (num den : Nat) : Option Binary64 :=
  let guess : Int := (Nat.log2 num : Int) - (Nat.log2 den : Int) - 53
  let scaled := scale 2 num den guess
  let exact := if scaled.1 ≥ scaled.2 * (1 <<< 53) then guess + 1 else guess
  let exponent := max exact minExponent
  let scaled := scale 2 num den exponent
  let mantissa := roundDiv scaled.1 scaled.2
  let carried := mantissa = 1 <<< 53
  let exponent := if carried then exponent + 1 else exponent
  if exponent > maxExponent then none
  else some ⟨negative, if carried then 1 <<< 52 else mantissa, exponent⟩

/-- Zero with a sign. -/
def zero (negative : Bool) : Binary64 := ⟨negative, 0, minExponent⟩

/-- The number nearest to `± significand · 10 ^ exponent`, where the significand was written with
`count` digits; `none` beyond the greatest number. -/
def ofDecimal? (negative : Bool) (significand count : Nat) (exponent : Int) : Option Binary64 :=
  if significand = 0 then some (zero negative)
  else if exponent + count < -400 then some (zero negative)
  else if exponent > 400 then none
  else
    let scaled := scale 10 significand 1 (-exponent)
    ofQuotient? negative scaled.1 scaled.2

/-- The decimals that round to a number: all between the two bounds, which are quotients by the
same denominator; the bounds themselves belong to it iff `closed`. -/
structure Neighbourhood where
  low : Nat
  value : Nat
  high : Nat
  den : Nat
  closed : Bool

/-- Half way to the neighbouring numbers; the one below a power of two is half as far. -/
def neighbourhood (x : Binary64) : Neighbourhood :=
  let below := if x.mantissa = 1 <<< 52 ∧ x.exponent > minExponent then 1 else 2
  let shift : Nat := if x.exponent ≥ 2 then 1 <<< (x.exponent - 2).toNat else 1
  { low := (4 * x.mantissa - below) * shift
    value := 4 * x.mantissa * shift
    high := (4 * x.mantissa + 2) * shift
    den := if x.exponent ≥ 2 then 1 else 1 <<< (2 - x.exponent).toNat
    closed := x.mantissa % 2 = 0 }

/-- Whether the decimal `digits · 10 ^ exponent` rounds to the number. -/
def Neighbourhood.contains (n : Neighbourhood) (digits : Nat) (exponent : Int) : Bool :=
  let d := scale 10 digits 1 (-exponent)
  let left := n.low * d.2
  let mid := d.1 * n.den
  let right := n.high * d.2
  (left < mid || (n.closed && left == mid)) && (mid < right || (n.closed && mid == right))

/-- The number of decimal digits of a natural number. -/
def digitCount (n : Nat) : Nat :=
  (Nat.toDigits 10 n).length

/-- The decimal exponent of a positive quotient: the greatest power of ten not above it. -/
def magnitude (num den : Nat) : Int :=
  if num ≥ den then (digitCount (num / den) : Int) - 1
  else
    let d := digitCount (den / num)
    if num * Nat.pow 10 (d - 1) ≥ den then 1 - (d : Int) else -(d : Int)

/-- The decimal of `count` digits nearest to the value, among its two neighbours on that grid that
round to the number. -/
def onGrid? (n : Neighbourhood) (magnitude : Int) (count : Nat) : Option (Nat × Int) :=
  let exponent := magnitude - count + 1
  let scaled := scale 10 n.value n.den exponent
  let floor := scaled.1 / scaled.2
  let nearest := roundDiv scaled.1 scaled.2
  let further := if nearest = floor then floor + 1 else floor
  if n.contains nearest exponent then some (nearest, exponent)
  else if n.contains further exponent then some (further, exponent)
  else none

/-- Moves the zeros at the end of the digits into the exponent. -/
def stripZeros : Nat → Nat × Int → Nat × Int
  | 0, d => d
  | fuel + 1, (digits, exponent) =>
    if digits % 10 = 0 then stripZeros fuel (digits / 10, exponent + 1) else (digits, exponent)

/-- The shortest decimal `(digits, exponent)` of a number other than zero: 17 digits always do. -/
def shortest (x : Binary64) : Nat × Int :=
  let n := x.neighbourhood
  let m := magnitude n.value n.den
  let found := (List.range' 1 17).findSome? (onGrid? n m)
  stripZeros 20 (found.getD (0, 0))

end Binary64
end Mime
