import Courier.Bytes

/-!
# UTF-8 — text as bytes

`encode` writes a text, `decode` reads one and says where and why it is not well formed.  The ranges of
the second byte follow the table of well-formed sequences: no overlong form, no surrogate, nothing above
`U+10FFFF`.
-/

namespace Courier
namespace Utf8

/-- Why a byte sequence is not well-formed UTF-8. -/
inductive Fault where
  /-- At `position`, `length` bytes can start no character. -/
  | malformed (position length : Nat)
  /-- The character that starts at `position` is cut off by the end. -/
  | truncated (position : Nat)
deriving DecidableEq, Repr

/-- Where the character that is not well formed starts. -/
def Fault.position : Fault → Nat
  | .malformed position _ => position
  | .truncated position => position

/-- The wording of a fault. -/
def Fault.message : Fault → String
  | .malformed position length =>
    s!"invalid utf-8 sequence of {length} bytes from index {position}"
  | .truncated position => s!"incomplete utf-8 byte sequence from index {position}"

/-- The bytes of a text. -/
def encode (s : String) : Bytes :=
  s.toList.flatMap String.utf8EncodeChar

/-! ## Decoding -/

/-- Whether `b` continues a character. -/
def isContinuation (b : UInt8) : Bool :=
  0x80 ≤ b && b ≤ 0xBF

/-- Whether `second` may follow the lead byte `lead` of a three-byte character. -/
def secondOfThree (lead second : UInt8) : Bool :=
  isContinuation second &&
    (if lead = 0xE0 then 0xA0 ≤ second else if lead = 0xED then second ≤ 0x9F else true)

/-- Whether `second` may follow the lead byte `lead` of a four-byte character. -/
def secondOfFour (lead second : UInt8) : Bool :=
  isContinuation second &&
    (if lead = 0xF0 then 0x90 ≤ second else if lead = 0xF4 then second ≤ 0x8F else true)

/-- The payload bits of a continuation byte. -/
def low6 (b : UInt8) : Nat :=
  b.toNat % 64

/-- Decodes from byte `position` on; `done` holds the characters before it, last first. -/
def decodeFrom (position : Nat) (done : List Char) : Bytes → Except Fault (List Char)
  | [] => .ok done.reverse
  | b :: s =>
    if b < 0x80 then
      decodeFrom (position + 1) (Char.ofNat b.toNat :: done) s
    else if 0xC2 ≤ b && b ≤ 0xDF then
      match s with
      | [] => .error (.truncated position)
      | b₂ :: s =>
        if isContinuation b₂ then
          decodeFrom (position + 2) (Char.ofNat (b.toNat % 32 * 64 + low6 b₂) :: done) s
        else .error (.malformed position 1)
    else if 0xE0 ≤ b && b ≤ 0xEF then
      match s with
      | [] => .error (.truncated position)
      | b₂ :: s =>
        if secondOfThree b b₂ then
          match s with
          | [] => .error (.truncated position)
          | b₃ :: s =>
            if isContinuation b₃ then
              decodeFrom (position + 3)
                (Char.ofNat (b.toNat % 16 * 4096 + low6 b₂ * 64 + low6 b₃) :: done) s
            else .error (.malformed position 2)
        else .error (.malformed position 1)
    else if 0xF0 ≤ b && b ≤ 0xF4 then
      match s with
      | [] => .error (.truncated position)
      | b₂ :: s =>
        if secondOfFour b b₂ then
          match s with
          | [] => .error (.truncated position)
          | b₃ :: s =>
            if isContinuation b₃ then
              match s with
              | [] => .error (.truncated position)
              | b₄ :: s =>
                if isContinuation b₄ then
                  decodeFrom (position + 4)
                    (Char.ofNat
                      (b.toNat % 8 * 262144 + low6 b₂ * 4096 + low6 b₃ * 64 + low6 b₄) :: done) s
                else .error (.malformed position 3)
            else .error (.malformed position 2)
        else .error (.malformed position 1)
    else .error (.malformed position 1)

/-- The text that the bytes encode. -/
def decode (bytes : Bytes) : Except Fault String :=
  (decodeFrom 0 [] bytes).map String.ofList

end Utf8
end Courier
