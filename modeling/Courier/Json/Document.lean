import Courier.Json.Reader

/-!
# Document — messages and values as whole documents

A message is an object of its fields, in any order and among unknown ones, or an array of its fields by
position.  `readMessage` and `readValue` take a whole document, so nothing but white space may follow.

A field that is repeated or missing is no fault of a single byte.  It is noticed at a key or at the end of
the fields and reported where the reader stands once it has looked for the end of the message.
-/

namespace Courier
namespace Json

/-- Arrays and objects may be nested one level less than this. -/
def maxDepth : Nat := 128

/-- Refuses the value at the cursor because another kind was wanted.  An atom is read and blamed at its end,
an array or object is blamed at its beginning. -/
def refuse (fuel : Nat) (wanted : Wanted) (c : Cursor) : Fault :=
  let kind (found : Found) (c : Cursor) : Fault := c.fault (.mismatch (.kind found wanted))
  let atom (found : Found) : Except Fault Cursor → Fault
    | .ok c => kind found c
    | .error e => e
  let number : Read Number → Fault
    | .ok (n, c) => kind n.toFound c
    | .error e => e
  match c.peek with
  | none => c.faultNext .expectedValue
  | some b =>
    if b = 110 then atom (.null "null") (word nullTail c.advance)
    else if b = 116 then atom (.bool true) (word trueTail c.advance)
    else if b = 102 then atom (.bool false) (word falseTail c.advance)
    else if b = 45 then number (Numeral.read true c.advance)
    else if Bytes.isDigit b then number (Numeral.read false c)
    else if b = 34 then
      match Text.read fuel c.advance with
      | .ok (s, c) => kind (.str s) c
      | .error e => e
    else if b = 91 then kind .sequence c
    else if b = 123 then kind .map c
    else c.faultNext .expectedValue

/-- Reads the opening byte `b` of the wanted kind, after white space. -/
def opening (fuel : Nat) (wanted : Wanted) (b : UInt8) (c : Cursor) : Except Fault Cursor :=
  let c := c.skipBlank
  match c.peek with
  | none => .error (c.faultNext .eofValue)
  | some b' => if b' = b then .ok c.advance else .error (refuse fuel wanted c)

/-! ## Fields -/

/-- Reads the command. -/
def readCommand (fuel : Nat) (c : Cursor) : Read String :=
  match opening fuel .string 34 c with
  | .error e => .error e
  | .ok c => Text.read fuel c

/-- Reads the positional arguments. -/
def readArgs (fuel depth : Nat) (c : Cursor) : Read (List Value) :=
  match opening fuel .sequence 91 c with
  | .error e => .error e
  | .ok c => elements fuel (value fuel depth) c

/-- Reads the named arguments. -/
def readKwargs (fuel depth : Nat) (c : Cursor) : Read Entries :=
  match opening fuel .map 123 c with
  | .error e => .error e
  | .ok c => members fuel (value fuel depth) c

/-- Reads a field into a draft.  The fields stand two levels below the document. -/
def readField (fuel depth : Nat) (field : Field) (d : Draft) (c : Cursor) : Read Draft :=
  match field with
  | .command => (readCommand fuel c).map fun (s, c) => ({ d with command := some s }, c)
  | .args => (readArgs fuel depth c).map fun (xs, c) => ({ d with args := some xs }, c)
  | .kwargs => (readKwargs fuel depth c).map fun (es, c) => ({ d with kwargs := some es }, c)

/-- How reading fields ends without success: with a fault, or with a mismatch that still lacks a place. -/
inductive Refusal where
  | fault (f : Fault)
  | unplaced (m : Mismatch) (c : Cursor)

/-- Where a reader stands that was told to read the closing brace of an object. -/
def atObjectEnd (c : Cursor) : Cursor :=
  let c := c.skipBlank
  if c.peek == some 125 then c.advance else c

/-- Where a reader stands that was told to read the closing bracket of an array. -/
def atArrayEnd (c : Cursor) : Cursor :=
  let c := c.skipBlank
  if c.peek == some 93 then c.advance
  else if c.peek == some 44 then c.advance.skipBlank
  else c

/-- Reads fields by name up to the closing brace. -/
def namedFields (fuel depth : Nat) :
    Nat → Bool → Draft → Cursor → Except Refusal (Draft × Cursor)
  | 0, _, _, c => .error (.fault (c.fault .eofObject))
  | steps + 1, first, d, c =>
    match nextKey first c with
    | .error e => .error (.fault e)
    | .ok none => .ok (d, c)
    | .ok (some c) =>
      match Text.read fuel c.advance with
      | .error e => .error (.fault e)
      | .ok (key, c) =>
        match Field.ofName? key with
        | some field =>
          -- Before the colon is looked for: a repeated field is refused for its name alone.
          if d.has field then .error (.unplaced (.repeatedField field) c)
          else
            match colon c with
            | .error e => .error (.fault e)
            | .ok c =>
              match readField fuel depth field d c with
              | .error e => .error (.fault e)
              | .ok (d, c) => namedFields fuel depth steps false d c
        | none =>
          match colon c with
          | .error e => .error (.fault e)
          | .ok c =>
            match skip fuel c with
            | .error e => .error (.fault e)
            | .ok c => namedFields fuel depth steps false d c

/-- Reads the fields that a positional form has, in their order. -/
def positionalFields (fuel depth : Nat) :
    List Field → Bool → Draft → Cursor → Except Fault (Draft × Cursor)
  | [], _, d, c => .ok (d, c)
  | field :: fields, first, d, c =>
    match nextElement first c with
    | .error e => .error e
    | .ok none => .ok (d, c)
    | .ok (some c) =>
      match readField fuel depth field d c with
      | .error e => .error e
      | .ok (d, c) => positionalFields fuel depth fields false d c

/-! ## Messages -/

/-- Reads the map form of a message, whose opening brace has been read. -/
def namedMessage (fuel depth : Nat) (c : Cursor) : Read Message :=
  match namedFields fuel depth fuel true .empty c with
  | .error (.fault e) => .error e
  | .error (.unplaced m c) => .error ((atObjectEnd c).fault (.mismatch m))
  | .ok (d, c) =>
    match d.message? with
    | none => .error ((atObjectEnd c).fault (.mismatch (.missingField .command)))
    | some m => (closeObject c).map (m, ·)

/-- Reads the positional form of a message, whose opening bracket has been read. -/
def positionalMessage (fuel depth : Nat) (c : Cursor) : Read Message :=
  match positionalFields fuel depth [.command, .args, .kwargs] true .empty c with
  | .error e => .error e
  | .ok (d, c) =>
    match d.message? with
    | none => .error ((atArrayEnd c).fault (.mismatch (.tooShort 0)))
    | some m => (closeArray c).map (m, ·)

/-- Reads a message. -/
def message (fuel : Nat) (c : Cursor) : Read Message :=
  let c := c.skipBlank
  match c.peek with
  | none => .error (c.faultNext .eofValue)
  | some b =>
    if b = 91 then positionalMessage fuel (maxDepth - 2) c.advance
    else if b = 123 then namedMessage fuel (maxDepth - 2) c.advance
    else .error (refuse fuel .message c)

/-! ## Whole documents -/

/-- Checks that only white space is left. -/
def finish {α : Type} : Read α → Except Fault α
  | .error e => .error e
  | .ok (x, c) =>
    let c := c.skipBlank
    match c.peek with
    | none => .ok x
    | some _ => .error (c.faultNext .trailingCharacters)

/-- A bound for the loops over a document. -/
def fuelFor (document : Bytes) : Nat :=
  document.length + 1

/-- Reads a document that is one message. -/
def readMessage (document : Bytes) : Except Fault Message :=
  finish (message (fuelFor document) (.start document))

/-- Reads a document that is one value. -/
def readValue (document : Bytes) : Except Fault Value :=
  finish (value (fuelFor document) maxDepth (.start document))

end Json
end Courier
