import Courier.Json.Numeral
import Courier.Json.Text

/-!
# Reader — values in a document

- `value` reads an untyped value; arrays and objects may be nested to a bounded depth.
- `Skim.run` passes over a value that nobody wants; it keeps its own stack and knows no bound.
- `elements` and `members` read the insides of an array and of an object with any reader for their parts.

`depth` counts the levels that may still be opened, plus one.  `fuel` is the length of the document and
bounds every loop over its bytes.
-/

namespace Courier
namespace Json

/-! ## Words -/

/-- Reads the remaining letters of a word. -/
def word : Bytes → Cursor → Except Fault Cursor
  | [], c => .ok c
  | expected :: letters, c =>
    match c.peek with
    | none => .error (c.fault .eofValue)
    | some b =>
      if b = expected then word letters c.advance else .error (c.advance.fault .expectedWord)

/-- The letters of `null` after the first. -/
def nullTail : Bytes := Bytes.ascii "ull"

/-- The letters of `true` after the first. -/
def trueTail : Bytes := Bytes.ascii "rue"

/-- The letters of `false` after the first. -/
def falseTail : Bytes := Bytes.ascii "alse"

/-! ## Insides of arrays and objects -/

/-- Moves to the next element of an array, or stops at its closing bracket. -/
def nextElement (first : Bool) (c : Cursor) : Except Fault (Option Cursor) :=
  let c := c.skipBlank
  match c.peek with
  | none => .error (c.faultNext .eofList)
  | some b =>
    if b = 93 then .ok none
    else if first then .ok (some c)
    else if b = 44 then
      let c := c.advance.skipBlank
      match c.peek with
      -- Behind a comma a value is owed, so this is not the end of a list.
      | none => .error (c.faultNext .eofValue)
      | some b => if b = 93 then .error (c.faultNext .trailingComma) else .ok (some c)
    else .error (c.faultNext .expectedListCommaOrEnd)

/-- Moves to the next key of an object, or stops at its closing brace. -/
def nextKey (first : Bool) (c : Cursor) : Except Fault (Option Cursor) :=
  let c := c.skipBlank
  match c.peek with
  | none => .error (c.faultNext .eofObject)
  | some b =>
    if b = 125 then .ok none
    else if first then
      if b = 34 then .ok (some c) else .error (c.faultNext .keyMustBeString)
    else if b = 44 then
      let c := c.advance.skipBlank
      match c.peek with
      | none => .error (c.faultNext .eofValue)
      | some b =>
        if b = 34 then .ok (some c)
        else if b = 125 then .error (c.faultNext .trailingComma)
        else .error (c.faultNext .keyMustBeString)
    else .error (c.faultNext .expectedObjectCommaOrEnd)

/-- Reads the colon after a key. -/
def colon (c : Cursor) : Except Fault Cursor :=
  let c := c.skipBlank
  match c.peek with
  | none => .error (c.faultNext .eofObject)
  | some b => if b = 58 then .ok c.advance else .error (c.faultNext .expectedColon)

/-- Reads elements up to the closing bracket, which stays unread; `done` holds them, last first. -/
def elementsFrom {α : Type} (item : Cursor → Read α) : Nat → Bool → List α → Cursor → Read (List α)
  | 0, _, _, c => .error (c.fault .eofList)
  | fuel + 1, first, done, c =>
    match nextElement first c with
    | .error e => .error e
    | .ok none => .ok (done.reverse, c)
    | .ok (some c) =>
      match item c with
      | .error e => .error e
      | .ok (x, c) => elementsFrom item fuel false (x :: done) c

/-- Reads entries up to the closing brace, which stays unread; a repeated key takes its last value. -/
def membersFrom (fuel : Nat) (item : Cursor → Read Value) :
    Nat → Bool → Entries → Cursor → Read Entries
  | 0, _, _, c => .error (c.fault .eofObject)
  | steps + 1, first, done, c =>
    match nextKey first c with
    | .error e => .error e
    | .ok none => .ok (done, c)
    | .ok (some c) =>
      match Text.read fuel c.advance with
      | .error e => .error e
      | .ok (key, c) =>
        match colon c with
        | .error e => .error e
        | .ok c =>
          match item c with
          | .error e => .error e
          | .ok (v, c) => membersFrom fuel item steps false (Entries.insert key v done) c

/-- Reads the closing bracket of an array. -/
def closeArray (c : Cursor) : Except Fault Cursor :=
  let c := c.skipBlank
  match c.peek with
  | none => .error (c.faultNext .eofList)
  | some b =>
    if b = 93 then .ok c.advance
    else if b = 44 then
      let c := c.advance.skipBlank
      if c.peek == some 93 then .error (c.faultNext .trailingComma)
      else .error (c.faultNext .trailingCharacters)
    else .error (c.faultNext .trailingCharacters)

/-- Reads the closing brace of an object. -/
def closeObject (c : Cursor) : Except Fault Cursor :=
  let c := c.skipBlank
  match c.peek with
  | none => .error (c.faultNext .eofObject)
  | some b =>
    if b = 125 then .ok c.advance
    else if b = 44 then .error (c.faultNext .trailingComma)
    else .error (c.faultNext .trailingCharacters)

/-- Reads an array whose opening bracket has been read. -/
def elements {α : Type} (fuel : Nat) (item : Cursor → Read α) (c : Cursor) : Read (List α) :=
  match elementsFrom item fuel true [] c with
  | .error e => .error e
  | .ok (xs, c) => (closeArray c).map (xs, ·)

/-- Reads an object whose opening brace has been read. -/
def members (fuel : Nat) (item : Cursor → Read Value) (c : Cursor) : Read Entries :=
  match membersFrom fuel item fuel true [] c with
  | .error e => .error e
  | .ok (entries, c) => (closeObject c).map (entries, ·)

/-! ## Values -/

/-- Reads a value. -/
def value (fuel : Nat) : Nat → Cursor → Read Value
  | 0, c => .error (c.faultNext .nestedTooDeep)
  | depth + 1, c =>
    let c := c.skipBlank
    match c.peek with
    | none => .error (c.faultNext .eofValue)
    | some b =>
      if b = 110 then (word nullTail c.advance).map (Value.null, ·)
      else if b = 116 then (word trueTail c.advance).map (Value.bool true, ·)
      else if b = 102 then (word falseTail c.advance).map (Value.bool false, ·)
      else if b = 45 then (Numeral.read true c.advance).map fun (n, c) => (n.toValue, c)
      else if Bytes.isDigit b then (Numeral.read false c).map fun (n, c) => (n.toValue, c)
      else if b = 34 then (Text.read fuel c.advance).map fun (s, c) => (Value.str s, c)
      else if b = 91 then
        -- The last level may hold atoms only.
        if depth = 0 then .error (c.faultNext .nestedTooDeep)
        else (elements fuel (value fuel depth) c.advance).map fun (xs, c) => (Value.arr xs, c)
      else if b = 123 then
        if depth = 0 then .error (c.faultNext .nestedTooDeep)
        else (members fuel (value fuel depth) c.advance).map fun (es, c) => (Value.obj es, c)
      else .error (c.faultNext .expectedValue)

/-! ## Passing over a value -/

namespace Skim

/-- An open array or object. -/
inductive Bracket where
  | array
  | object
deriving DecidableEq, Repr

/-- Reads a key and its colon. -/
def key (fuel : Nat) (c : Cursor) : Except Fault Cursor :=
  let c := c.skipBlank
  match c.peek with
  | none => .error (c.faultNext .eofObject)
  | some b =>
    if b = 34 then
      match Text.skip fuel c.advance with
      | .error e => .error e
      | .ok c => colon c
    else .error (c.faultNext .keyMustBeString)

/-- What a bracket asks for before its next value. -/
def enter (fuel : Nat) : Bracket → Cursor → Except Fault Cursor
  | .array, c => .ok c
  | .object, c => key fuel c

/-- Reads an atom, or the opening of an array or object. -/
def atom (fuel : Nat) (c : Cursor) : Except Fault (Option Bracket × Cursor) :=
  let c := c.skipBlank
  match c.peek with
  | none => .error (c.faultNext .eofValue)
  | some b =>
    if b = 110 then (word nullTail c.advance).map (none, ·)
    else if b = 116 then (word trueTail c.advance).map (none, ·)
    else if b = 102 then (word falseTail c.advance).map (none, ·)
    else if b = 45 then (Numeral.skip c.advance).map (none, ·)
    -- The first digit stays unread: `Numeral.skip` judges leading zeros itself.
    else if Bytes.isDigit b then (Numeral.skip c).map (none, ·)
    else if b = 34 then (Text.skip fuel c.advance).map (none, ·)
    else if b = 91 then .ok (some .array, c.advance)
    else if b = 123 then .ok (some .object, c.advance)
    else .error (c.faultNext .expectedValue)

/-- Closes brackets after a complete value (`separated`) or right after an opening: goes on to the next
value of the innermost open bracket, or ends with the outermost one closed. -/
def close (separated : Bool) (c : Cursor) :
    List Bracket → Except Fault (Option (Bracket × List Bracket) × Cursor)
  | [] => .ok (none, c)
  | bracket :: outer =>
    let c := c.skipBlank
    match c.peek with
    | none => .error (c.faultNext (if bracket = .array then .eofList else .eofObject))
    | some b =>
      -- A comma right after an opening separates nothing; the reader of what is owed there refuses it.
      if b = 44 && separated then .ok (some (bracket, outer), c.advance)
      else if (b = 93 && bracket = .array) || (b = 125 && bracket = .object) then
        close true c.advance outer
      else if separated then
        .error (c.faultNext
          (if bracket = .array then .expectedListCommaOrEnd else .expectedObjectCommaOrEnd))
      else .ok (some (bracket, outer), c)

/-- Passes over values until every bracket of the stack is closed. -/
def run (fuel : Nat) : Nat → List Bracket → Cursor → Except Fault Cursor
  | 0, _, c => .error (c.fault .eofValue)
  | steps + 1, stack, c =>
    match atom fuel c with
    | .error e => .error e
    | .ok (opened, c) =>
      -- An opening asks for its first value or its own end, an atom for a comma or an end.
      let (separated, stack) :=
        match opened with
        | some bracket => (false, bracket :: stack)
        | none => (true, stack)
      match close separated c stack with
      | .error e => .error e
      | .ok (none, c) => .ok c
      | .ok (some (bracket, outer), c) =>
        match enter fuel bracket c with
        | .error e => .error e
        | .ok c => run fuel steps (bracket :: outer) c

end Skim

/-- Passes over one value of any depth. -/
def skip (fuel : Nat) (c : Cursor) : Except Fault Cursor :=
  Skim.run fuel fuel [] c

end Json
end Courier
