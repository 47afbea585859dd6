import Courier.Bytes

/-!
# Double — finite double-precision numbers

A `Double` is the bit pattern of a finite binary64 number.  All arithmetic here is exact arithmetic on
natural numbers followed by one rounding to nearest, ties to even:

- `roundRatio num den` — the magnitude bits of the double nearest to `num / den`,
- `Double.ofNat`, `Double.timesPowerOfTen`, `Double.overPowerOfTen` — the roundings that reading a decimal
  numeral needs.
-/

namespace Courier

/-- The field of the eleven exponent bits. -/
def exponentField (bits : UInt64) : Nat :=
  bits.toNat / 2 ^ 52 % 2048

/-- A finite binary64 number, as its bit pattern. -/
structure Double where
  bits : UInt64
  finite : exponentField bits ≠ 2047
deriving DecidableEq

namespace Double

/-- The finite number of a bit pattern; none for an infinity or a NaN. -/
def ofBits? (bits : UInt64) : Option Double :=
  if h : exponentField bits ≠ 2047 then some ⟨bits, h⟩ else none

/-! ## Sign, significand and scale -/

/-- Whether the sign bit is set. -/
def isNegative (x : Double) : Bool :=
  2 ^ 63 ≤ x.bits.toNat

/-- The significand field. -/
def fraction (x : Double) : Nat :=
  x.bits.toNat % 2 ^ 52

/-- The integer `m` of the magnitude `m * 2 ^ q`. -/
def significand (x : Double) : Nat :=
  if exponentField x.bits = 0 then x.fraction else 2 ^ 52 + x.fraction

/-- The scale of the magnitude, counted from `-1074`: the magnitude is
`significand * 2 ^ (scale - 1074)`. -/
def scale (x : Double) : Nat :=
  exponentField x.bits - 1

/-- Whether the number is one of the two zeros. -/
def isZero (x : Double) : Bool :=
  x.significand == 0

/-- Equality of the numbers: both zeros are equal, all else is told apart by its bits. -/
def same (x y : Double) : Bool :=
  x.bits == y.bits || (x.isZero && y.isZero)

/-- Numerator and denominator of the magnitude. -/
def ratio (x : Double) : Nat × Nat :=
  (x.significand * 2 ^ x.scale, 2 ^ 1074)

/-! ## Rounding -/

/-- The quotient `num / den` rounded to the nearest integer, a tie to the even one. -/
def roundQuotient (num den : Nat) : Nat :=
  let floor := num / den
  let twice := 2 * (num % den)
  if twice < den then floor
  else if twice = den then floor + floor % 2
  else floor + 1

/-- The magnitude bits of the double nearest to `num / den`; `2047 * 2 ^ 52` or more when it is beyond the
finite range.  The spacing of doubles near the quotient is `2 ^ (scale - 1074)`, and a significand that
rounds up to the next power of two carries into the exponent field by itself. -/
def roundRatio (num den : Nat) : Nat :=
  if num = 0 then 0
  else
    let scaled := num * 2 ^ 1074
    -- Truncated at zero: subnormal numbers all have the finest spacing.
    let scale := (scaled / den).log2 - 52
    scale * 2 ^ 52 + roundQuotient scaled (den * 2 ^ scale)

/-- The magnitude bits above which a number is not finite. -/
def infinite : Nat := 2047 * 2 ^ 52

/-- The double with the given sign and magnitude bits; none when it is not finite. -/
def ofMagnitude? (negative : Bool) (magnitude : Nat) : Option Double :=
  if magnitude < infinite then
    ofBits? (UInt64.ofNat (magnitude + if negative then 2 ^ 63 else 0))
  else none

/-- Zero, with a sign. -/
def zero (negative : Bool) : Double :=
  ⟨if negative then 0x8000000000000000 else 0, by cases negative <;> decide⟩

/-- The same magnitude with the given sign. -/
def withSign (negative : Bool) (x : Double) : Double :=
  (ofMagnitude? negative (x.bits.toNat % 2 ^ 63)).getD (zero negative)

/-- The double nearest to a natural number. -/
def ofNat? (n : Nat) : Option Double :=
  ofMagnitude? false (roundRatio n 1)

/-! ## Powers of ten -/

/-- The magnitude of the double nearest to `10 ^ e`, as a ratio. -/
def powerOfTen (e : Nat) : Nat × Nat :=
  match ofNat? (10 ^ e) with
  | some p => p.ratio
  | none => (0, 1)

/-- The magnitude of `x` times the double nearest to `10 ^ e`, rounded; none when it is not finite. -/
def timesPowerOfTen (x : Double) (e : Nat) : Option Double :=
  let (num, den) := x.ratio
  let (pnum, pden) := powerOfTen e
  ofMagnitude? false (roundRatio (num * pnum) (den * pden))

/-- The magnitude of `x` divided by the double nearest to `10 ^ e`, rounded. -/
def overPowerOfTen (x : Double) (e : Nat) : Double :=
  let (num, den) := x.ratio
  let (pnum, pden) := powerOfTen e
  (ofMagnitude? false (roundRatio (num * pden) (den * pnum))).getD (zero false)

/-! ## Single precision -/

/-- The double equal to a single-precision number; none for an infinity or a NaN. -/
def ofSingle? (bits : UInt32) : Option Double :=
  let field := bits.toNat / 2 ^ 23 % 256
  let fraction := bits.toNat % 2 ^ 23
  let significand := if field = 0 then fraction else 2 ^ 23 + fraction
  if field = 255 then none
  else ofMagnitude? (2 ^ 31 ≤ bits.toNat) (roundRatio (significand * 2 ^ (field - 1)) (2 ^ 149))

end Double
end Courier
