import Courier.MsgPack.Head

/-!
# Reader — packed messages

A message is a map from its fields to their values, or an array of its fields by position.  Fields are named
by a text, by a binary value or by a number; unknown fields are passed over.  Bytes after the message are
left unread.

`depth` counts the levels that may still be opened, plus one.
-/

namespace Courier
namespace MsgPack

/-- Arrays and maps may be nested one level less than this. -/
def maxDepth : Nat := 1024

/-- A value of the wrong kind. -/
def refused (found : Found) (wanted : Wanted) : Fault :=
  .mismatch (.kind found wanted)

/-- Reads the bytes of a text or binary value. -/
def readData (length : Nat) (bytes : Bytes) : Read Bytes :=
  takeBytes .shortData length bytes

/-- Reads the bytes of a text. -/
def readText (length : Nat) (bytes : Bytes) : Read String :=
  match readData length bytes with
  | .error e => .error e
  | .ok (data, rest) =>
    match Utf8.decode data with
    | .ok s => .ok (s, rest)
    | .error f => .error (.invalidText f)

/-- Why a value with the given head is refused where `wanted` was asked for.  A text is read first, and an
array, a map or an extension has to be within the depth limit. -/
def refuse (depth : Nat) (wanted : Wanted) (rest : Bytes) : Head → Fault
  | .null => refused (.null "unit value") wanted
  | .bool b => refused (.bool b) wanted
  | .unsigned n => refused (.int n.toNat) wanted
  | .signed n => refused (.int n.toInt) wanted
  | .real x => refused (.float x.text) wanted
  | .text length =>
    match readText length rest with
    | .ok (s, _) => refused (.str s) wanted
    | .error e => e
  | .binary length =>
    match readData length rest with
    | .ok _ => refused .bytes wanted
    | .error e => e
  | .array _ => if depth ≤ 1 then .nestedTooDeep else refused .sequence wanted
  | .map _ => if depth ≤ 1 then .nestedTooDeep else refused .map wanted
  | .extension _ => if depth ≤ 1 then .nestedTooDeep else refused .extension wanted

/-! ## Repeated parts -/

/-- Reads `count` items; `done` holds those before them, last first. -/
def itemsFrom {α : Type} (item : Bytes → Read α) : Nat → List α → Bytes → Read (List α)
  | 0, done, bytes => .ok (done.reverse, bytes)
  | count + 1, done, bytes =>
    match item bytes with
    | .error e => .error e
    | .ok (x, rest) => itemsFrom item count (x :: done) rest

/-- Reads a key and its value into `done`; a repeated key takes its last value. -/
def entry (key : Bytes → Read String) (item : Bytes → Read Value) (done : Entries) (bytes : Bytes) :
    Read Entries :=
  match key bytes with
  | .error e => .error e
  | .ok (k, rest) =>
    match item rest with
    | .error e => .error e
    | .ok (v, rest) => .ok (Entries.insert k v done, rest)

/-- Reads `count` entries. -/
def entriesFrom (key : Bytes → Read String) (item : Bytes → Read Value) :
    Nat → Entries → Bytes → Read Entries
  | 0, done, bytes => .ok (done, bytes)
  | count + 1, done, bytes =>
    match entry key item done bytes with
    | .error e => .error e
    | .ok (done, rest) => entriesFrom key item count done rest

/-- Passes over `count` items. -/
def skipItems (item : Bytes → Except Fault Bytes) : Nat → Bytes → Except Fault Bytes
  | 0, bytes => .ok bytes
  | count + 1, bytes =>
    match item bytes with
    | .error e => .error e
    | .ok rest => skipItems item count rest

/-! ## Texts and keys -/

/-- Reads a text where a binary value may stand for one. -/
def string (depth : Nat) (bytes : Bytes) : Read String :=
  match Head.read bytes with
  | .error e => .error e
  | .ok (.text length, rest) => readText length rest
  | .ok (.binary length, rest) =>
    match readData length rest with
    | .error e => .error e
    | .ok (data, rest) =>
      match Utf8.decode data with
      | .ok s => .ok (s, rest)
      | .error _ => .error (.mismatch (.unusable .bytes .string))
  | .ok (head, rest) => .error (refuse depth .string rest head)

/-- Reads the first key of an object, for which no binary value may stand. -/
def firstKey (depth : Nat) (bytes : Bytes) : Read String :=
  match Head.read bytes with
  | .error e => .error e
  | .ok (.text length, rest) => readText length rest
  | .ok (head, rest) => .error (refuse depth .stringKey rest head)

/-- Reads the entries of an object.  Only the first key is held to be a text; for the others a binary value
may stand. -/
def objectEntries (depth : Nat) (item : Bytes → Read Value) (count : Nat) (bytes : Bytes) : Read Entries :=
  match count with
  | 0 => .ok ([], bytes)
  | count + 1 =>
    -- The first key decides that this is an object, hence the stricter reader.
    match entry (firstKey depth) item [] bytes with
    | .error e => .error e
    | .ok (done, rest) => entriesFrom (string depth) item count done rest

/-! ## Values -/

/-- Reads a value. -/
def value : Nat → Bytes → Read Value
  | 0, _ => .error .nestedTooDeep
  | depth + 1, bytes =>
    match Head.read bytes with
    | .error e => .error e
    | .ok (.null, rest) => .ok (.null, rest)
    | .ok (.bool b, rest) => .ok (.bool b, rest)
    | .ok (.unsigned n, rest) => .ok (.int (.ofUnsigned n), rest)
    | .ok (.signed n, rest) => .ok (.int (.ofSigned n), rest)
    | .ok (.real x, rest) => .ok (x.toValue, rest)
    | .ok (.text length, rest) => (readText length rest).map fun (s, rest) => (.str s, rest)
    | .ok (.array length, rest) =>
      if depth = 0 then .error .nestedTooDeep
      else (itemsFrom (value depth) length [] rest).map fun (xs, rest) => (.arr xs, rest)
    | .ok (.map length, rest) =>
      if depth = 0 then .error .nestedTooDeep
      else
        (objectEntries depth (value depth) length rest).map fun (es, rest) => (.obj es, rest)
    -- Binary values and extensions are no untyped arguments.
    | .ok (head, rest) => .error (refuse (depth + 1) .value rest head)

/-- Passes over an extension: its type, then its data. -/
def skipExtension (length : Nat) (bytes : Bytes) : Except Fault Bytes :=
  match readNumber 1 bytes with
  | .error e => .error e
  | .ok (_, rest) => (readData length rest).map (·.2)

/-- Passes over a value that nobody wants.  An extension counts as a level of its own. -/
def skip : Nat → Bytes → Except Fault Bytes
  | 0, _ => .error .nestedTooDeep
  | depth + 1, bytes =>
    match Head.read bytes with
    | .error e => .error e
    | .ok (.text length, rest) => (readData length rest).map (·.2)
    | .ok (.binary length, rest) => (readData length rest).map (·.2)
    | .ok (.extension length, rest) =>
      if depth = 0 then .error .nestedTooDeep else skipExtension length rest
    | .ok (.array length, rest) =>
      if depth = 0 then .error .nestedTooDeep else skipItems (skip depth) length rest
    | .ok (.map length, rest) =>
      if depth = 0 then .error .nestedTooDeep else skipItems (skip depth) (2 * length) rest
    | .ok (_, rest) => .ok rest

/-! ## Fields -/

/-- Reads the key of a field; none for an unknown one. -/
def fieldKey (depth : Nat) (bytes : Bytes) : Read (Option Field) :=
  let named (length : Nat) (rest : Bytes) : Read (Option Field) :=
    (readData length rest).map fun (data, rest) =>
      (match Utf8.decode data with
        | .ok s => Field.ofName? s
        | .error _ => none, rest)
  match Head.read bytes with
  | .error e => .error e
  | .ok (.text length, rest) => named length rest
  | .ok (.binary length, rest) => named length rest
  | .ok (.unsigned n, rest) => .ok (Field.ofIndex? n.toNat, rest)
  | .ok (head, rest) => .error (refuse depth .field rest head)

/-- Reads the positional arguments; a binary value is the list of its bytes. -/
def readArgs (depth : Nat) (bytes : Bytes) : Read (List Value) :=
  match Head.read bytes with
  | .error e => .error e
  | .ok (.array length, rest) => itemsFrom (value (depth - 1)) length [] rest
  | .ok (.binary length, rest) =>
    (readData length rest).map fun (data, rest) =>
      (data.map fun b => .int (.ofUnsigned (UInt64.ofNat b.toNat)), rest)
  | .ok (head, rest) => .error (refuse depth .sequence rest head)

/-- Reads the named arguments. -/
def readKwargs (depth : Nat) (bytes : Bytes) : Read Entries :=
  match Head.read bytes with
  | .error e => .error e
  | .ok (.map length, rest) =>
    entriesFrom (string (depth - 1)) (value (depth - 1)) length [] rest
  | .ok (head, rest) => .error (refuse depth .map rest head)

/-- Reads a field into a draft. -/
def readField (depth : Nat) (field : Field) (d : Draft) (bytes : Bytes) : Read Draft :=
  match field with
  | .command => (string depth bytes).map fun (s, rest) => ({ d with command := some s }, rest)
  | .args => (readArgs depth bytes).map fun (xs, rest) => ({ d with args := some xs }, rest)
  | .kwargs => (readKwargs depth bytes).map fun (es, rest) => ({ d with kwargs := some es }, rest)

/-- Reads `count` fields by name. -/
def namedFields (depth : Nat) : Nat → Draft → Bytes → Read Draft
  | 0, d, bytes => .ok (d, bytes)
  | count + 1, d, bytes =>
    match fieldKey depth bytes with
    | .error e => .error e
    | .ok (some field, rest) =>
      if d.has field then .error (.mismatch (.repeatedField field))
      else
        match readField depth field d rest with
        | .error e => .error e
        | .ok (d, rest) => namedFields depth count d rest
    | .ok (none, rest) =>
      match skip depth rest with
      | .error e => .error e
      | .ok rest => namedFields depth count d rest

/-- Reads fields by position, as many as `count` allows, and says how many are left over. -/
def positionalFields (depth : Nat) : List Field → Nat → Draft → Bytes → Except Fault (Draft × Nat)
  | [], count, d, _ => .ok (d, count)
  | _ :: _, 0, d, _ => .ok (d, 0)
  | field :: fields, count + 1, d, bytes =>
    match readField depth field d bytes with
    | .error e => .error e
    | .ok (d, rest) => positionalFields depth fields count d rest

/-! ## Messages -/

/-- Reads the message that a payload starts with. -/
def readMessage (payload : Bytes) : Except Fault Message :=
  match Head.read payload with
  | .error e => .error e
  | .ok (.map count, rest) =>
    match namedFields (maxDepth - 1) count .empty rest with
    | .error e => .error e
    | .ok (d, _) =>
      match d.message? with
      | some m => .ok m
      | none => .error (.mismatch (.missingField .command))
  | .ok (.array count, rest) =>
    match positionalFields (maxDepth - 1) [.command, .args, .kwargs] count .empty rest with
    | .error e => .error e
    | .ok (d, left) =>
      match d.message? with
      | none => .error (.mismatch (.tooShort 0))
      -- Elements behind the third are counted, not read.
      | some m => if left = 0 then .ok m else .error (.unreadElements (count - left))
  | .ok (.binary length, rest) =>
    match readData length rest with
    | .error e => .error e
    | .ok ([], _) => .error (.mismatch (.tooShort 0))
    | .ok (b :: _, _) => .error (refused (.int b.toNat) .string)
  | .ok (head, rest) => .error (refuse maxDepth .message rest head)

end MsgPack
end Courier
