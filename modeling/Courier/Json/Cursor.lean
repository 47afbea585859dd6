import Courier.Mismatch

/-!
# Cursor — a place in a document

A `Cursor` is the unread part of a document together with its line and column.  `Fault` is a cause at a
place.  A fault is reported either at the cursor (after the last byte read) or one byte further, when the
byte that is about to be read is to blame.
-/

namespace Courier
namespace Json

/-- Why a document cannot be read. -/
inductive Cause where
  | eofList
  | eofObject
  | eofString
  | eofValue
  | expectedColon
  | expectedListCommaOrEnd
  | expectedObjectCommaOrEnd
  | expectedWord
  | expectedValue
  | invalidEscape
  | invalidNumber
  | numberOutOfRange
  | invalidUnicode
  | controlCharacter
  | keyMustBeString
  | loneSurrogate
  | unfinishedSurrogate
  | trailingComma
  | trailingCharacters
  | nestedTooDeep
  | mismatch (m : Mismatch)

/-- The wording of a cause. -/
def Cause.message : Cause → String
  | .eofList => "EOF while parsing a list"
  | .eofObject => "EOF while parsing an object"
  | .eofString => "EOF while parsing a string"
  | .eofValue => "EOF while parsing a value"
  | .expectedColon => "expected `:`"
  | .expectedListCommaOrEnd => "expected `,` or `]`"
  | .expectedObjectCommaOrEnd => "expected `,` or `\x7d`"
  | .expectedWord => "expected ident"
  | .expectedValue => "expected value"
  | .invalidEscape => "invalid escape"
  | .invalidNumber => "invalid number"
  | .numberOutOfRange => "number out of range"
  | .invalidUnicode => "invalid unicode code point"
  | .controlCharacter => "control character (\\u0000-\\u001F) found while parsing a string"
  | .keyMustBeString => "key must be a string"
  | .loneSurrogate => "lone leading surrogate in hex escape"
  | .unfinishedSurrogate => "unexpected end of hex escape"
  | .trailingComma => "trailing comma"
  | .trailingCharacters => "trailing characters"
  | .nestedTooDeep => "recursion limit exceeded"
  | .mismatch m => m.message

/-- A cause and the place where it was noticed. -/
structure Fault where
  cause : Cause
  line : Nat
  column : Nat

/-- The wording of a fault. -/
def Fault.message (f : Fault) : String :=
  s!"{f.cause.message} at line {f.line} column {f.column}"

/-- The unread part of a document and its place. -/
structure Cursor where
  rest : Bytes
  line : Nat
  column : Nat

namespace Cursor

/-- The beginning of a document. -/
def start (document : Bytes) : Cursor := ⟨document, 1, 0⟩

/-- The next byte, which stays unread. -/
def peek (c : Cursor) : Option UInt8 :=
  c.rest.head?

/-- The place after `b`, with `rest` still unread. -/
def past (c : Cursor) (b : UInt8) (rest : Bytes) : Cursor :=
  if b = 10 then ⟨rest, c.line + 1, 0⟩ else ⟨rest, c.line, c.column + 1⟩

/-- Reads one byte, if there is one. -/
def advance (c : Cursor) : Cursor :=
  match c.rest with
  | [] => c
  | b :: rest => c.past b rest

/-- A fault at the cursor. -/
def fault (c : Cursor) (cause : Cause) : Fault := ⟨cause, c.line, c.column⟩

/-- A fault of the byte about to be read. -/
def faultNext (c : Cursor) (cause : Cause) : Fault := c.advance.fault cause

/-- Reads the bytes that satisfy `p`, up to the first that does not. -/
def skipFrom (p : UInt8 → Bool) (line column : Nat) : Bytes → Cursor
  | [] => ⟨[], line, column⟩
  | b :: rest =>
    if p b then
      if b = 10 then skipFrom p (line + 1) 0 rest else skipFrom p line (column + 1) rest
    else ⟨b :: rest, line, column⟩

/-- Reads the bytes that satisfy `p`, up to the first that does not. -/
def skipWhile (p : UInt8 → Bool) (c : Cursor) : Cursor :=
  skipFrom p c.line c.column c.rest

/-- Whether a byte is white space between tokens. -/
def isBlank (b : UInt8) : Bool :=
  b = 32 || b = 10 || b = 9 || b = 13

/-- Reads white space. -/
def skipBlank (c : Cursor) : Cursor :=
  c.skipWhile isBlank

end Cursor

/-- What a reader returns: a value with the place after it, or a fault. -/
abbrev Read (α : Type) := Except Fault (α × Cursor)

end Json
end Courier
