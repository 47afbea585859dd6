/-!
# Bytes — raw data on the wire

A byte stream, a frame and a line are all lists of bytes.  This module holds the two conversions every
format needs: fixed-width big-endian numbers, and plain decimal numerals.
-/

-- Whatever else is imported, powers and sums of numbers are those of the core library.
attribute [instance (1100)] instPowNat Zero.ofOfNat0
attribute [default_instance 100000] instPowNat

namespace Courier

/-- Raw data, in stream order. -/
abbrev Bytes := List UInt8

namespace Bytes

/-! ## Big-endian numbers -/

/-- The low `width` bytes of `n`, most significant first. -/
def bigEndian : Nat → Nat → Bytes
  | 0, _ => []
  | width + 1, n => UInt8.ofNat (n / 256 ^ width) :: bigEndian width n

/-- The number whose big-endian bytes are given. -/
def toNat (bytes : Bytes) : Nat :=
  bytes.foldl (fun n b => n * 256 + b.toNat) 0

/-! ## Decimal numerals -/

/-- The numeral of one digit. -/
def digit (n : Nat) : UInt8 :=
  UInt8.ofNat (48 + n % 10)

/-- Puts the last digits of `n` in front of `tail`; `fuel` bounds their number. -/
def numeralOnto : Nat → Nat → Bytes → Bytes
  | 0, n, tail => digit n :: tail
  | fuel + 1, n, tail =>
    if n < 10 then digit n :: tail else numeralOnto fuel (n / 10) (digit n :: tail)

/-- The decimal numeral of `n`, without leading zeros. -/
def numeral (n : Nat) : Bytes :=
  numeralOnto n n []

/-- Whether a byte is an ASCII digit. -/
def isDigit (b : UInt8) : Bool :=
  48 ≤ b && b ≤ 57

/-- The value of an ASCII digit. -/
def digitValue (b : UInt8) : Nat :=
  b.toNat - 48

/-- The bytes of a text that is known to be ASCII. -/
def ascii (s : String) : Bytes :=
  s.toList.map fun c => UInt8.ofNat c.toNat

end Bytes
end Courier
