import Courier.Number.Double

/-!
# Shortest — the fewest digits that read back

`shortest tie x` finds the decimal `digits * 10 ^ exponent` with the fewest digits among those that round to
`x`, and of these the one nearest to `x`; `tie` decides between two at the same distance.  `Layout` is how such
a decimal is written: one record per format.
-/

namespace Courier

/-- A decimal number `digits * 10 ^ exponent`. -/
structure Scaled where
  digits : Nat
  exponent : Int
deriving DecidableEq, Repr

/-- Which of two decimals is taken that are equally near. -/
inductive Tie where
  /-- The one whose last digit is even. -/
  | even
  /-- The one with the greater magnitude. -/
  | up
deriving DecidableEq, Repr

namespace Tie

/-- Whether the lower of two neighbours is taken. -/
def takesLower (tie : Tie) (lower : Nat) : Bool :=
  match tie with
  | .even => lower % 2 = 0
  | .up => false

end Tie

namespace Shortest

/-- `n * 10 ^ e` as numerator and denominator. -/
def scaleRatio (num den : Nat) : Int → Nat × Nat
  | .ofNat e => (num * 10 ^ e, den)
  | .negSucc e => (num, den * 10 ^ (e + 1))

/-- The number of decimal digits of `n`. -/
def width (n : Nat) : Nat :=
  (Bytes.numeral n).length

/-- The exponent of the leading digit of a positive ratio. -/
def leadingExponent (num den : Nat) : Int :=
  let guess : Int := width num - width den
  let (n, d) := scaleRatio num den (-guess)
  if d ≤ n then guess else guess - 1

/-- The reals that round to a double, as multiples of `unit / den`, with `middle` the double itself. -/
structure Interval where
  (low middle high : Nat)
  den : Nat
  closed : Bool

/-- The reals that round to the magnitude of `x`: half the spacing to each side, a quarter below a power of
two, the ends included when the significand is even. -/
def interval (x : Double) : Interval :=
  let m := x.significand
  let unit := 2 ^ x.scale
  let below := if m = 2 ^ 52 && 0 < x.scale then 1 else 2
  { low := (4 * m - below) * unit
    middle := 4 * m * unit
    high := (4 * m + 2) * unit
    den := 4 * 2 ^ 1074
    closed := m % 2 = 0 }

/-- Whether `digits * 10 ^ exponent` lies in the interval. -/
def Interval.contains (i : Interval) (digits : Nat) (exponent : Int) : Bool :=
  let (n, d) := scaleRatio digits 1 exponent
  let point := n * i.den
  if i.closed then i.low * d ≤ point && point ≤ i.high * d
  else i.low * d < point && point < i.high * d

/-- The two neighbours of the middle on the grid of multiples of `10 ^ exponent` that lie in the interval,
the nearer one if both do, the one that `tie` takes at equal distance. -/
def Interval.nearest? (i : Interval) (tie : Tie) (exponent : Int) : Option Nat :=
  let (num, den) := scaleRatio i.middle i.den (-exponent)
  let below := num / den
  let twice := 2 * (num % den)
  -- Without digits the text would read back as zero, which is another number.
  let lower := i.contains below exponent && below != 0
  let upper := i.contains (below + 1) exponent
  if lower && upper then
    if twice < den || (twice = den && tie.takesLower below) then some below else some (below + 1)
  else if lower then some below
  else if upper then some (below + 1)
  else none

/-- Tries grids from coarse to fine, starting at `exponent`, and takes the first with a point. -/
def search (i : Interval) (tie : Tie) : Nat → Int → Scaled
  | 0, exponent => ⟨(i.nearest? tie exponent).getD 0, exponent⟩
  | fuel + 1, exponent =>
    match i.nearest? tie exponent with
    | some digits => ⟨digits, exponent⟩
    | none => search i tie fuel (exponent - 1)

/-- Moves trailing zeros of the digits into the exponent. -/
def stripZeros : Nat → Scaled → Scaled
  | 0, d => d
  | fuel + 1, d =>
    if d.digits % 10 = 0 && d.digits != 0 then
      stripZeros fuel ⟨d.digits / 10, d.exponent + 1⟩
    else d

end Shortest

/-- The decimal with the fewest digits that reads back as the magnitude of `x`. -/
def Double.shortest (tie : Tie) (x : Double) : Scaled :=
  if x.isZero then ⟨0, 0⟩
  else
    let i := Shortest.interval x
    Shortest.stripZeros 17 (Shortest.search i tie 17 (Shortest.leadingExponent i.middle i.den))

/-! ## Written forms -/

/-- How a format writes doubles: positionally when the exponent of the leading digit is in the range. -/
structure Layout where
  (lowest highest : Int)
  /-- Which of two equally near decimals is written. -/
  tie : Tie

namespace Scaled

/-- `count` zeros. -/
def zeros (count : Nat) : Bytes :=
  List.replicate count 48

/-- The exponent of the leading digit. -/
def leading (d : Scaled) : Int :=
  d.exponent + (Shortest.width d.digits - 1 : Nat)

/-- Positional notation with at least one digit on each side of the point. -/
def positional (d : Scaled) : Bytes :=
  let digits := Bytes.numeral d.digits
  match d.exponent with
  | .ofNat e => digits ++ zeros e ++ Bytes.ascii ".0"
  | .negSucc e =>
    let places := e + 1
    let padded := zeros (places + 1 - digits.length) ++ digits
    padded.take (padded.length - places) ++ Bytes.ascii "." ++ padded.drop (padded.length - places)

/-- Scientific notation: one digit, the other digits after a point, and a signed exponent. -/
def scientific (d : Scaled) : Bytes :=
  let digits := Bytes.numeral d.digits
  let mantissa :=
    match digits with
    | first :: second :: rest => first :: 46 :: second :: rest
    | short => short
  let exponent :=
    match d.leading with
    | .ofNat e => Bytes.ascii "e+" ++ Bytes.numeral e
    | .negSucc e => Bytes.ascii "e-" ++ Bytes.numeral (e + 1)
  mantissa ++ exponent

end Scaled

/-- The shortest text of a double in a layout. -/
def Double.text (layout : Layout) (x : Double) : Bytes :=
  let d := x.shortest layout.tie
  let magnitude :=
    if layout.lowest ≤ d.leading && d.leading ≤ layout.highest then d.positional else d.scientific
  if x.isNegative then 45 :: magnitude else magnitude

end Courier
