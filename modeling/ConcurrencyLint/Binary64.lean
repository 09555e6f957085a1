/-!
# Double-precision numbers

Binary floating point in 64 bits, as a sign and a magnitude field. A decimal is read by rounding
its exact value once, to the nearest number with ties to even; a number is written with the fewest
digits that read back as it.
-/

namespace ConcurrencyLint

/-- A number by its sign bit and the 63 bits below it, exponent and fraction together. -/
structure Binary64 where
  negative : Bool
  magnitude : Nat
  deriving DecidableEq, Repr

namespace Binary64

def fractionBits : Nat := 52

/-- One more than the greatest fraction. -/
def fractionRange : Nat := Nat.pow 2 fractionBits

/-- The exponent of the least positive number, which is one unit of the magnitude field. -/
def leastExponent : Int := -1074

/-- The magnitude field of the infinities. Fields above it are not numbers. -/
def infinity : Nat := 2047 * fractionRange

def notANumber : Nat := infinity + fractionRange / 2

/-- All 64 bits. -/
def bits (x : Binary64) : Nat := (if x.negative then 2048 * fractionRange else 0) + x.magnitude

def isNaN (x : Binary64) : Bool := infinity < x.magnitude

def isInfinite (x : Binary64) : Bool := x.magnitude == infinity

/-- A quotient rounded to the nearest integer, a half to the even one. -/
def roundQuotient (num den : Nat) : Nat :=
  let q := num / den
  let r := num % den
  if den < 2 * r ∨ (den = 2 * r ∧ q % 2 = 1) then q + 1 else q

/-- The quotient `num / den` scaled by a power of a base, as a quotient. -/
def scale (base num den : Nat) (exponent : Int) : Nat × Nat :=
  if 0 ≤ exponent then (num * base.pow exponent.toNat, den)
  else (num, den * base.pow (-exponent).toNat)

/-- The exponent of the greatest power of two that is not above `num / den`, for positive terms. -/
def floorLog2 (num den : Nat) : Int :=
  let guess : Int := (num.log2 : Int) - den.log2
  let (n, d) := scale 2 num den (-guess)
  if n < d then guess - 1 else guess

/-- The magnitude field nearest to the positive quotient `num / den`. -/
def roundMagnitude (num den : Nat) : Nat :=
  let exponent := max leastExponent (floorLog2 num den - fractionBits)
  let (n, d) := scale 2 num den (-exponent)
  min infinity ((exponent - leastExponent).toNat * fractionRange + roundQuotient n d)

/-- The number nearest to `digits * 10 ^ exponent`. Exponents far outside the range are answered
without computing the power. -/
def ofDecimal (negative : Bool) (digits : Nat) (exponent : Int) : Binary64 :=
  let places : Int := (toString digits).length
  if digits = 0 ∨ places + exponent < -400 then ⟨negative, 0⟩
  else if 400 < places + exponent then ⟨negative, infinity⟩
  else
    let (num, den) := scale 10 digits 1 exponent
    ⟨negative, roundMagnitude num den⟩

/-- A finite magnitude as `mantissa * 2 ^ exponent`. -/
def decompose (magnitude : Nat) : Nat × Int :=
  let field := magnitude / fractionRange
  let fraction := magnitude % fractionRange
  if field = 0 then (fraction, leastExponent)
  else (fraction + fractionRange, leastExponent + (field - 1 : Nat))

/-- The `count`-digit decimals next to `mantissa * 2 ^ exponent`, below and above, as a number of
units and the power of ten of the unit; `top` is the power of ten of the leading digit. -/
def neighbours (mantissa : Nat) (exponent top : Int) (count : Nat) : (Nat × Nat) × Int :=
  let unit := top - (count : Int) + 1
  let (n, d) := scale 2 mantissa 1 exponent
  let (n, d) := scale 10 n d (-unit)
  ((n / d, if n % d = 0 then n / d else n / d + 1), unit)

/-- The decimal `units * 10 ^ unit` reads back as the given positive magnitude. -/
def readsBack (magnitude units : Nat) (unit : Int) : Bool :=
  (ofDecimal false units unit).magnitude == magnitude

/-- Which of two decimals with one unit is nearer to `mantissa * 2 ^ exponent`; of two equally near
ones the even one. -/
def nearer (mantissa : Nat) (exponent : Int) (low high : Nat) (unit : Int) : Nat :=
  let (n, d) := scale 2 mantissa 1 exponent
  let (n, d) := scale 10 n d (-unit)
  let twice := 2 * n
  let middle := (low + high) * d
  if twice < middle ∨ (twice = middle ∧ low % 2 = 0) then low else high

/-- The power of ten of the leading digit of `mantissa * 2 ^ exponent`. -/
def leadingPower (mantissa : Nat) (exponent : Int) : Int :=
  let (n, d) := scale 2 mantissa 1 exponent
  let whole : Int := (toString (n / d)).length
  if d ≤ n then whole - 1
  else
    let scaled := n * Nat.pow 10 400 / d
    ((toString scaled).length : Int) - 1 - 400

/-- The fewest digits that read back as a positive finite magnitude, and the power of ten of their
unit. Seventeen digits always do, and none of them is a zero at the end: a decimal rounded up to the
next power of ten is written with one digit. -/
def shortest (magnitude : Nat) : Nat × Int :=
  let (mantissa, exponent) := decompose magnitude
  let top := leadingPower mantissa exponent
  let candidate (count : Nat) : Option (Nat × Int) :=
    let ((low, high), unit) := neighbours mantissa exponent top count
    match readsBack magnitude low unit, readsBack magnitude high unit with
    | true, true => some (nearer mantissa exponent low high unit, unit)
    | true, false => some (low, unit)
    | false, true => some (high, unit)
    | false, false => none
  let (units, unit) := ((List.range 17).findSome? fun k => candidate (k + 1)).getD (0, 0)
  if units % 10 = 0 then (units / 10, unit + 1) else (units, unit)

/-- The digits of a decimal written out with a point and without an exponent. -/
def positional (units : Nat) (unit : Int) : String :=
  let digits := (toString units).toList
  if 0 ≤ unit then String.ofList (digits ++ List.replicate unit.toNat '0')
  else
    let places := (-unit).toNat
    let filled := List.replicate (places + 1 - digits.length) '0' ++ digits
    let whole := filled.length - places
    String.ofList (filled.take whole ++ '.' :: filled.drop whole)

end Binary64

end ConcurrencyLint
