import Courier.Json.Cursor
import Courier.Number.Decimal
import Courier.Number.Shortest

/-!
# Numeral — numbers in a document

A numeral without fraction and exponent is an integer if it fits the wire range, `-0` excepted; every other
numeral is a double.  Digits are collected into a 64-bit significand as long as they fit; the integer digits
after that only raise the exponent, the fraction digits after that are dropped.
-/

namespace Courier
namespace Json

/-- A number as a document writes it. -/
inductive Number where
  | int (n : WireInt)
  | float (x : Double)

/-- Doubles are positional when their leading digit is between `10 ^ -5` and `10 ^ 15`; ties go to the even
digit. -/
def numberLayout : Layout := ⟨-5, 15, .even⟩

namespace Number

/-- The value of a number. -/
def toValue : Number → Value
  | .int n => .int n
  | .float x => .float x

/-- A number as a reader's finding. -/
def toFound : Number → Found
  | .int n => .int n.val
  | .float x => .float (String.ofList ((x.text numberLayout).map fun b => Char.ofNat b.toNat))

end Number

namespace Numeral

/-! ## Digits -/

/-- Reads digits onto `value` as long as it stays below `bound`; `count` counts them. -/
def digitsFrom (bound value count : Nat) : Bytes → Nat × Nat × Bytes
  | [] => (value, count, [])
  | b :: rest =>
    let value' := value * 10 + Bytes.digitValue b
    -- The first digit that does not fit stays unread, so the caller can tell it from the end.
    if Bytes.isDigit b && value' < bound then digitsFrom bound value' (count + 1) rest
    else (value, count, b :: rest)

/-- Reads digits onto `value` as long as it stays below `bound`, and counts them. -/
def digits (bound value : Nat) (c : Cursor) : Nat × Nat × Cursor :=
  let (value, count, rest) := digitsFrom bound value 0 c.rest
  (value, count, ⟨rest, c.line, c.column + count⟩)

/-- Reads digits and counts them. -/
def skipDigits (c : Cursor) : Nat × Cursor :=
  let c' := c.skipWhile Bytes.isDigit
  (c'.column - c.column, c')

/-- Whether the next byte is a digit. -/
def atDigit (c : Cursor) : Bool :=
  c.peek.any Bytes.isDigit

/-- Whether the next byte starts an exponent. -/
def atExponent (c : Cursor) : Bool :=
  c.peek == some 101 || c.peek == some 69

/-- Significands are below this. -/
def significandBound : Nat := 2 ^ 64

/-- Exponents are below this. -/
def exponentBound : Nat := 2 ^ 31

/-! ## The parts of a numeral -/

/-- The double of a finished numeral. -/
def double (negative : Bool) (significand : Nat) (exponent : Int) (c : Cursor) : Read Number :=
  match Decimal.toDouble? negative significand exponent with
  | some x => .ok (.float x, c)
  | none => .error (c.fault .numberOutOfRange)

/-- Reads the digits of an exponent, whose sign has been read. -/
def exponentDigits (negative down : Bool) (significand : Nat) (shift : Int) (c : Cursor) :
    Read Number :=
  match c.peek with
  | none => .error (c.fault .eofValue)
  | some _ =>
    if atDigit c then
      let (e, _, c) := digits exponentBound 0 c
      -- More digits than an exponent holds: the number reads as zero, or is beyond every double.
      if atDigit c then
        let c := c.advance
        if significand ≠ 0 && !down then .error (c.fault .numberOutOfRange)
        else .ok (.float (Double.zero negative), (skipDigits c).2)
      else double negative significand (if down then shift - e else shift + e) c
    else .error (c.advance.fault .invalidNumber)

/-- Reads an exponent, whose `e` is next. -/
def exponent (negative : Bool) (significand : Nat) (shift : Int) (c : Cursor) : Read Number :=
  let c := c.advance
  let down := c.peek == some 45
  exponentDigits negative down significand shift
    (if down || c.peek == some 43 then c.advance else c)

/-- Reads an exponent if one is next. -/
def exponentOrEnd (negative : Bool) (significand : Nat) (shift : Int) (c : Cursor) : Read Number :=
  if atExponent c then exponent negative significand shift c
  else double negative significand shift c

/-- Reads a fraction, whose point is next. -/
def fraction (negative : Bool) (significand : Nat) (shift : Nat) (c : Cursor) : Read Number :=
  let (significand, count, c) := digits significandBound significand c.advance
  let places : Int := (shift : Int) - count
  if atDigit c then exponentOrEnd negative significand places (skipDigits c).2
  else if count = 0 then
    match c.peek with
    | some _ => .error (c.faultNext .invalidNumber)
    | none => .error (c.faultNext .eofValue)
  else exponentOrEnd negative significand places c

/-- The number of an integer numeral. -/
def whole (negative : Bool) (significand : Nat) (c : Cursor) : Read Number :=
  -- Minus zero is no integer, and below `-2 ^ 63` there is none on the wire.
  if negative && (significand = 0 || 2 ^ 63 < significand) then double true significand 0 c
  else
    match WireInt.ofInt? (if negative then -(significand : Int) else significand) with
    | some n => .ok (.int n, c)
    | none => double negative significand 0 c

/-- Reads what follows the integer digits. -/
def afterWhole (negative : Bool) (significand : Nat) (c : Cursor) : Read Number :=
  if c.peek == some 46 then fraction negative significand 0 c
  else if atExponent c then exponent negative significand 0 c
  else whole negative significand c

/-- Reads what follows the integer digits when there are more than the significand holds. -/
def afterLong (negative : Bool) (significand : Nat) (c : Cursor) : Read Number :=
  let (shift, c) := skipDigits c
  if c.peek == some 46 then fraction negative significand shift c
  else exponentOrEnd negative significand shift c

/-- Reads a numeral whose sign has been read. -/
def read (negative : Bool) (c : Cursor) : Read Number :=
  match c.peek with
  | none => .error (c.fault .eofValue)
  | some b =>
    if b = 48 then
      if atDigit c.advance then .error (c.advance.faultNext .invalidNumber)
      else afterWhole negative 0 c.advance
    else if Bytes.isDigit b then
      let (significand, _, c) := digits significandBound 0 c
      if atDigit c then afterLong negative significand c
      else afterWhole negative significand c
    else .error (c.advance.fault .invalidNumber)

/-! ## Skipping

The numeral of an ignored value is checked for its form only. -/

/-- Skips an exponent, whose `e` is next. -/
def skipExponent (c : Cursor) : Except Fault Cursor :=
  let c := c.advance
  let c := if c.peek == some 43 || c.peek == some 45 then c.advance else c
  if atDigit c then .ok (skipDigits c).2
  else .error (c.advance.fault .invalidNumber)

/-- Skips an exponent if one is next. -/
def skipExponentOrEnd (c : Cursor) : Except Fault Cursor :=
  if atExponent c then skipExponent c else .ok c

/-- Skips what follows the integer digits. -/
def skipAfterWhole (c : Cursor) : Except Fault Cursor :=
  if c.peek == some 46 then
    let (count, c) := skipDigits c.advance
    if count = 0 then .error (c.faultNext .invalidNumber) else skipExponentOrEnd c
  else skipExponentOrEnd c

/-- Skips a numeral whose sign has been read. -/
def skip (c : Cursor) : Except Fault Cursor :=
  match c.peek with
  | none => .error (c.fault .invalidNumber)
  | some b =>
    if b = 48 then
      if atDigit c.advance then .error (c.advance.faultNext .invalidNumber)
      else skipAfterWhole c.advance
    else if Bytes.isDigit b then skipAfterWhole (skipDigits c).2
    else .error (c.advance.fault .invalidNumber)

end Numeral
end Json
end Courier
