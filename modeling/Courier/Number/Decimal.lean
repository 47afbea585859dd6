import Courier.Number.Double

/-!
# Decimal — reading `significand * 10 ^ exponent`

The reader of numerals keeps a 64-bit significand and scales it in double arithmetic: the significand is
rounded once and the scaling once more for each factor, so a result may be a neighbour of the nearest
double.  Powers of ten above `10 ^ 308` are not doubles; larger divisions go in steps of `10 ^ 308`.
-/

namespace Courier
namespace Decimal

/-- The largest power of ten that is a double. -/
def maxPower : Nat := 308

/-- Divides by `10 ^ e`, at most `10 ^ 308` at a time; `fuel` bounds the number of steps. -/
def scaleDown : Nat → Double → Nat → Double
  | 0, x, _ => x
  | fuel + 1, x, e =>
    if e ≤ maxPower then x.overPowerOfTen e
    else if x.isZero then x
    else scaleDown fuel (x.overPowerOfTen maxPower) (e - maxPower)

/-- The double that `significand * 10 ^ exponent` is read as; none when it is out of range. -/
def toDouble? (negative : Bool) (significand : Nat) (exponent : Int) : Option Double :=
  match Double.ofNat? significand with
  | none => none
  | some x =>
    let scaled :=
      match exponent with
      | .ofNat e =>
        -- No power above this one is a double, so only zero survives it.
        if e ≤ maxPower then x.timesPowerOfTen e
        else if x.isZero then some x
        else none
      | .negSucc e => some (scaleDown (e + 1) x (e + 1))
    scaled.map (Double.withSign negative)

end Decimal
end Courier
