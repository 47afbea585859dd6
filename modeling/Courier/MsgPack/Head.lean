import Courier.Mismatch
import Courier.Number.Shortest
import Courier.Text.Utf8

/-!
# Head — the first bytes of a packed value

Every packed value starts with a marker byte, followed by the number itself or by the length of what comes
next.  A `Head` is a marker with its number or length; `Head.read` reads one and `Head.write` writes the
shortest one there is.
-/

namespace Courier
namespace MsgPack

/-- Why a packed message cannot be read. -/
inductive Fault where
  /-- The data ends where a value should start. -/
  | noMarker
  /-- The data ends inside a number or a length. -/
  | shortNumber
  /-- The data ends inside a text or binary value. -/
  | shortData
  /-- The marker that no value has. -/
  | reservedMarker
  /-- An array that is longer than what was read of it. -/
  | unreadElements (read : Nat)
  | invalidText (f : Utf8.Fault)
  | nestedTooDeep
  | mismatch (m : Mismatch)

/-- The wording of a fault. -/
def Fault.message : Fault → String
  | .noMarker => "IO error while reading marker: failed to fill whole buffer"
  | .shortNumber => "IO error while reading data: failed to fill whole buffer"
  | .shortData => "IO error while reading data: unexpected end of file"
  | .reservedMarker => "wrong msgpack marker Reserved"
  | .unreadElements read => s!"array had incorrect length, expected {read}"
  | .invalidText f => s!"string found to be invalid utf8: {f.message}"
  | .nestedTooDeep => "depth limit exceeded"
  | .mismatch m => m.message

/-- What a reader returns: a value with the bytes after it, or a fault. -/
abbrev Read (α : Type) := Except Fault (α × Bytes)

/-! ## Real numbers -/

/-- A floating-point number of either width, widened to a double. -/
inductive Real where
  | finite (x : Double)
  | infinity (negative : Bool)
  | nan

namespace Real

/-- The number of a double-precision bit pattern. -/
def ofDouble (bits : Nat) : Real :=
  match Double.ofBits? (UInt64.ofNat bits) with
  | some x => .finite x
  | none => if bits % 2 ^ 52 = 0 then .infinity (2 ^ 63 ≤ bits) else .nan

/-- The number of a single-precision bit pattern. -/
def ofSingle (bits : Nat) : Real :=
  match Double.ofSingle? (UInt32.ofNat bits) with
  | some x => .finite x
  | none => if bits % 2 ^ 23 = 0 then .infinity (2 ^ 31 ≤ bits) else .nan

/-- The value of a number; only finite numbers have one, the others count as null. -/
def toValue : Real → Value
  | .finite x => .float x
  | .infinity _ => .null
  | .nan => .null

/-- The text of a number in a message, which is always positional; ties go up. -/
def text : Real → String
  | .finite x =>
    let digits := String.ofList ((x.shortest .up).positional.map fun b => Char.ofNat b.toNat)
    if x.isNegative then "-" ++ digits else digits
  | .infinity negative => if negative then "-inf" else "inf"
  | .nan => "NaN"

end Real

/-! ## Heads -/

/-- A marker with its number or length. -/
inductive Head where
  | null
  | bool (b : Bool)
  | unsigned (n : UInt64)
  | signed (n : Int64)
  | real (x : Real)
  | text (length : Nat)
  | binary (length : Nat)
  | array (length : Nat)
  | map (length : Nat)
  | extension (length : Nat)

/-- Takes the first `n` bytes, or fails with `fault` when there are fewer. -/
def takeBytes (fault : Fault) (n : Nat) (bytes : Bytes) : Read Bytes :=
  let front := bytes.take n
  if front.length < n then .error fault else .ok (front, bytes.drop n)

/-- Reads a big-endian number of `width` bytes. -/
def readNumber (width : Nat) (bytes : Bytes) : Read Nat :=
  (takeBytes .shortNumber width bytes).map fun (front, rest) => (Bytes.toNat front, rest)

/-- The signed number whose two's complement in `width` bytes is `n`. -/
def signedOf (width n : Nat) : Int64 :=
  Int64.ofInt (if n < 2 ^ (8 * width - 1) then (n : Int) else (n : Int) - 2 ^ (8 * width))

namespace Head

/-- The head of the fixed part of the marker space: small numbers, short texts, arrays and maps. -/
def ofSmall? (b : UInt8) : Option Head :=
  let n := b.toNat
  if n < 0x80 then some (.unsigned (UInt64.ofNat n))
  else if n < 0x90 then some (.map (n - 0x80))
  else if n < 0xA0 then some (.array (n - 0x90))
  else if n < 0xC0 then some (.text (n - 0xA0))
  -- What is left between the texts and the small negative numbers is up to `afterMarker`.
  else if 0xE0 ≤ n then some (.signed (Int64.ofInt (n - 256)))
  else none

/-- Reads the head that the marker `b` announces. -/
def afterMarker (b : UInt8) (rest : Bytes) : Read Head :=
  let number (width : Nat) (make : Nat → Head) : Read Head :=
    (readNumber width rest).map fun (n, rest) => (make n, rest)
  match b.toNat with
  | 0xC0 => .ok (.null, rest)
  | 0xC2 => .ok (.bool false, rest)
  | 0xC3 => .ok (.bool true, rest)
  | 0xC4 => number 1 .binary
  | 0xC5 => number 2 .binary
  | 0xC6 => number 4 .binary
  | 0xC7 => number 1 .extension
  | 0xC8 => number 2 .extension
  | 0xC9 => number 4 .extension
  | 0xCA => number 4 fun n => .real (.ofSingle n)
  | 0xCB => number 8 fun n => .real (.ofDouble n)
  | 0xCC => number 1 fun n => .unsigned (UInt64.ofNat n)
  | 0xCD => number 2 fun n => .unsigned (UInt64.ofNat n)
  | 0xCE => number 4 fun n => .unsigned (UInt64.ofNat n)
  | 0xCF => number 8 fun n => .unsigned (UInt64.ofNat n)
  | 0xD0 => number 1 fun n => .signed (signedOf 1 n)
  | 0xD1 => number 2 fun n => .signed (signedOf 2 n)
  | 0xD2 => number 4 fun n => .signed (signedOf 4 n)
  | 0xD3 => number 8 fun n => .signed (signedOf 8 n)
  | 0xD4 => .ok (.extension 1, rest)
  | 0xD5 => .ok (.extension 2, rest)
  | 0xD6 => .ok (.extension 4, rest)
  | 0xD7 => .ok (.extension 8, rest)
  | 0xD8 => .ok (.extension 16, rest)
  | 0xD9 => number 1 .text
  | 0xDA => number 2 .text
  | 0xDB => number 4 .text
  | 0xDC => number 2 .array
  | 0xDD => number 4 .array
  | 0xDE => number 2 .map
  | 0xDF => number 4 .map
  | _ => .error .reservedMarker

/-- Reads a head. -/
def read : Bytes → Read Head
  | [] => .error .noMarker
  | b :: rest =>
    match ofSmall? b with
    | some head => .ok (head, rest)
    | none => afterMarker b rest

/-! ## Writing -/

/-- A marker with a big-endian number of `width` bytes. -/
def marked (marker : UInt8) (width n : Nat) : Bytes :=
  marker :: Bytes.bigEndian width n

/-- The head of an integer, in the fewest bytes. -/
def writeInt (n : WireInt) : Bytes :=
  match n.val with
  | .ofNat k =>
    if k < 0x80 then [UInt8.ofNat k]
    else if k < 2 ^ 8 then marked 0xCC 1 k
    else if k < 2 ^ 16 then marked 0xCD 2 k
    else if k < 2 ^ 32 then marked 0xCE 4 k
    else marked 0xCF 8 k
  | .negSucc k =>
    if k < 32 then [UInt8.ofNat (255 - k)]
    else if k < 2 ^ 7 then marked 0xD0 1 (2 ^ 8 - 1 - k)
    else if k < 2 ^ 15 then marked 0xD1 2 (2 ^ 16 - 1 - k)
    else if k < 2 ^ 31 then marked 0xD2 4 (2 ^ 32 - 1 - k)
    else marked 0xD3 8 (2 ^ 64 - 1 - k)

/-- The head of a text, in the fewest bytes. -/
def writeText (length : Nat) : Bytes :=
  if length < 32 then [UInt8.ofNat (0xA0 + length)]
  else if length < 2 ^ 8 then marked 0xD9 1 length
  else if length < 2 ^ 16 then marked 0xDA 2 length
  else marked 0xDB 4 length

/-- The head of an array, in the fewest bytes. -/
def writeArray (length : Nat) : Bytes :=
  if length < 16 then [UInt8.ofNat (0x90 + length)]
  else if length < 2 ^ 16 then marked 0xDC 2 length
  else marked 0xDD 4 length

/-- The head of a map, in the fewest bytes. -/
def writeMap (length : Nat) : Bytes :=
  if length < 16 then [UInt8.ofNat (0x80 + length)]
  else if length < 2 ^ 16 then marked 0xDE 2 length
  else marked 0xDF 4 length

end Head
end MsgPack
end Courier
