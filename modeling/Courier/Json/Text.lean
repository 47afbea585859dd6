import Courier.Json.Cursor
import Courier.Text.Utf8

/-!
# Text — strings in a document

`Text.read` reads a string whose opening quote has been read; `Text.skip` checks the form of one that is
ignored, which leaves surrogates and the encoding unchecked.  `Text.write` is the written form.  A string is
read byte by byte; the bytes of an escape are counted as they are read, so `fuel`, the length of the document,
is never used up.
-/

namespace Courier
namespace Json
namespace Text

/-! ## Escapes -/

/-- The value of a hexadecimal digit. -/
def hexValue? (b : UInt8) : Option Nat :=
  if 48 ≤ b && b ≤ 57 then some (b.toNat - 48)
  else if 97 ≤ b && b ≤ 102 then some (b.toNat - 87)
  else if 65 ≤ b && b ≤ 70 then some (b.toNat - 55)
  else none

/-- Reads the four digits of a `\u` escape. -/
def hexEscape (c : Cursor) : Read Nat :=
  match c.rest with
  | a :: b :: d :: e :: _ =>
    let after := c.advance.advance.advance.advance
    match hexValue? a, hexValue? b, hexValue? d, hexValue? e with
    | some a, some b, some d, some e => .ok (((a * 16 + b) * 16 + d) * 16 + e, after)
    | _, _, _, _ => .error (after.fault .invalidEscape)
  -- Too few bytes are left: all of them count as read.
  | _ => .error ((c.skipWhile fun _ => true).fault .eofString)

/-- The byte that a one-letter escape stands for. -/
def shortEscape? (b : UInt8) : Option UInt8 :=
  if b = 34 || b = 92 || b = 47 then some b
  else if b = 98 then some 8
  else if b = 102 then some 12
  else if b = 110 then some 10
  else if b = 114 then some 13
  else if b = 116 then some 9
  else none

/-- Whether a UTF-16 unit opens a surrogate pair. -/
def isLeading (unit : Nat) : Bool :=
  0xD800 ≤ unit && unit ≤ 0xDBFF

/-- Whether a UTF-16 unit closes a surrogate pair. -/
def isTrailing (unit : Nat) : Bool :=
  0xDC00 ≤ unit && unit ≤ 0xDFFF

/-- Reads one expected byte between the halves of a surrogate pair. -/
def pairByte (expected : UInt8) (c : Cursor) : Except Fault Cursor :=
  match c.peek with
  | none => .error (c.fault .eofString)
  | some b =>
    if b = expected then .ok c.advance else .error (c.advance.fault .unfinishedSurrogate)

/-- Reads a `\u` escape, whose `\u` has been read, as a character. -/
def unicodeEscape (c : Cursor) : Except Fault (Char × Cursor) := do
  let (unit, c) ← hexEscape c
  if isTrailing unit then .error (c.fault .loneSurrogate)
  else if isLeading unit then
    let c ← pairByte 92 c
    let c ← pairByte 117 c
    let (second, c) ← hexEscape c
    -- `Char.ofNat` gets a code point from 0x10000 to 0x10FFFF here, so it is the character itself.
    if isTrailing second then
      .ok (Char.ofNat ((unit - 0xD800) * 1024 + (second - 0xDC00) + 0x10000), c)
    else .error (c.fault .loneSurrogate)
  else .ok (Char.ofNat unit, c)

/-- Reads an escape whose backslash has been read, as the bytes it stands for. -/
def escape (c : Cursor) : Read Bytes :=
  match c.peek with
  | none => .error (c.fault .eofString)
  | some b =>
    match shortEscape? b with
    | some b => .ok ([b], c.advance)
    | none =>
      if b = 117 then
        (unicodeEscape c.advance).map fun (ch, c) => (String.utf8EncodeChar ch, c)
      else .error (c.advance.fault .invalidEscape)

/-- Skips an escape whose backslash has been read. -/
def skipEscape (c : Cursor) : Except Fault Cursor :=
  match c.peek with
  | none => .error (c.fault .eofString)
  | some b =>
    if (shortEscape? b).isSome then .ok c.advance
    else if b = 117 then (hexEscape c.advance).map (·.2)
    else .error (c.advance.fault .invalidEscape)

/-! ## Strings -/

/-- Reads up to the closing quote; `done` holds the bytes so far, last first. -/
def readBytes : Nat → Bytes → Cursor → Read Bytes
  | 0, _, c => .error (c.fault .eofString)
  | fuel + 1, done, c =>
    match c.peek with
    | none => .error (c.fault .eofString)
    | some b =>
      if b = 34 then .ok (done.reverse, c.advance)
      else if b = 92 then
        match escape c.advance with
        | .ok (bytes, c) => readBytes fuel (bytes.reverse ++ done) c
        | .error e => .error e
      -- The fault stands behind the control character; `skip` reports it in front.
      else if b < 32 then .error (c.advance.fault .controlCharacter)
      else readBytes fuel (b :: done) c.advance

/-- A text that is not well-formed UTF-8, read up to its closing quote.  The place is as many bytes before the
closing quote as the text, escapes resolved, has from its first bad byte on. -/
def malformed (text : Bytes) (f : Utf8.Fault) (after : Cursor) : Fault :=
  ⟨.invalidUnicode, after.line, after.column - (text.length - f.position)⟩

/-- Reads a string whose opening quote has been read.  It has to be well-formed UTF-8. -/
def read (fuel : Nat) (c : Cursor) : Read String :=
  match readBytes fuel [] c with
  | .ok (text, after) =>
    match Utf8.decode text with
    | .ok s => .ok (s, after)
    | .error f => .error (malformed text f after)
  | .error e => .error e

/-- Skips a string whose opening quote has been read. -/
def skip : Nat → Cursor → Except Fault Cursor
  | 0, c => .error (c.fault .eofString)
  | fuel + 1, c =>
    match c.peek with
    | none => .error (c.fault .eofString)
    | some b =>
      if b = 34 then .ok c.advance
      else if b = 92 then
        match skipEscape c.advance with
        | .ok c => skip fuel c
        | .error e => .error e
      else if b < 32 then .error (c.fault .controlCharacter)
      else skip fuel c.advance

/-! ## Writing -/

/-- The hexadecimal digit of a number below 16. -/
def hexDigit (n : Nat) : UInt8 :=
  UInt8.ofNat (if n < 10 then 48 + n else 87 + n)

/-- The written form of one character. -/
def writeChar (ch : Char) : Bytes :=
  if ch = '"' then [92, 34]
  else if ch = '\\' then [92, 92]
  else if ch.toNat = 8 then [92, 98]
  else if ch.toNat = 12 then [92, 102]
  else if ch.toNat = 10 then [92, 110]
  else if ch.toNat = 13 then [92, 114]
  else if ch.toNat = 9 then [92, 116]
  else if ch.toNat < 32 then
    [92, 117, 48, 48, hexDigit (ch.toNat / 16), hexDigit (ch.toNat % 16)]
  else String.utf8EncodeChar ch

/-- The written form of a string, with its quotes. -/
def write (s : String) : Bytes :=
  34 :: s.toList.flatMap writeChar ++ [34]

end Text
end Json
end Courier
