import Courier.Number.Double

/-!
# Value — untyped arguments

A message argument is a `Value`: null, a truth value, a 64-bit integer, a finite double, a text, an array or
an object.  Objects are kept as `Entries` in ascending order of their keys, each key once, so that equality
and printing do not depend on how an object was built.
-/

namespace Courier

/-! ## Integers -/

/-- An integer of the wire: between `-2 ^ 63` and `2 ^ 64 - 1`. -/
structure WireInt where
  val : Int
  lower : -2 ^ 63 ≤ val
  upper : val < 2 ^ 64
deriving DecidableEq

namespace WireInt

/-- The wire integer with the given value, if it is in range. -/
def ofInt? (n : Int) : Option WireInt :=
  if h : -2 ^ 63 ≤ n ∧ n < 2 ^ 64 then some ⟨n, h.1, h.2⟩ else none

/-- The wire integer of an unsigned word. -/
def ofUnsigned (n : UInt64) : WireInt :=
  ⟨n.toNat, by have := n.toNat_lt; omega, by have := n.toNat_lt; omega⟩

/-- The wire integer of a signed word. -/
def ofSigned (n : Int64) : WireInt :=
  ⟨n.toInt, by have := n.le_toInt; omega, by have := n.toInt_lt; omega⟩

end WireInt

/-! ## Values -/

/-- An untyped argument. -/
inductive Value where
  | null
  | bool (b : Bool)
  | int (n : WireInt)
  | float (x : Double)
  | str (s : String)
  | arr (elements : List Value)
  | obj (members : List (String × Value))
deriving Inhabited

/-- Named values in ascending order of their keys. -/
abbrev Entries := List (String × Value)

namespace Entries

/-- Stores a value under a key, replacing the one stored before. -/
def insert (key : String) (value : Value) : Entries → Entries
  | [] => [(key, value)]
  | (k, v) :: rest =>
    if key < k then (key, value) :: (k, v) :: rest
    else if k < key then (k, v) :: insert key value rest
    else (key, value) :: rest

/-- The entries of a list of pairs; of a repeated key the last one counts. -/
def ofList (pairs : List (String × Value)) : Entries :=
  pairs.foldl (fun entries (k, v) => insert k v entries) []

/-- The value stored under a key. -/
def find? (key : String) : Entries → Option Value
  | [] => none
  | (k, v) :: rest => if k = key then some v else find? key rest

/-- The entries without a key. -/
def erase (key : String) : Entries → Entries
  | [] => []
  | (k, v) :: rest => if k = key then rest else (k, v) :: erase key rest

end Entries

/-! ## Equality

Two values are the same if they have the same shape and equal leaves; doubles are compared as numbers, so
the two zeros are the same, and an integer is never the same as a double. -/

mutual

/-- Whether two values are the same. -/
def Value.same : Value → Value → Bool
  | .null, .null => true
  | .bool a, .bool b => a == b
  | .int a, .int b => a == b
  | .float a, .float b => a.same b
  | .str a, .str b => a == b
  | .arr a, .arr b => Value.sameElements a b
  | .obj a, .obj b => Value.sameEntries a b
  | _, _ => false

/-- Whether two lists hold the same values in the same order. -/
def Value.sameElements : List Value → List Value → Bool
  | [], [] => true
  | a :: as, b :: bs => Value.same a b && Value.sameElements as bs
  | _, _ => false

/-- Whether two entry lists hold the same values under the same keys. -/
def Value.sameEntries : List (String × Value) → List (String × Value) → Bool
  | [], [] => true
  | a :: as, b :: bs => Value.sameEntry a b && Value.sameEntries as bs
  | _, _ => false

/-- Whether two entries have the same key and the same value. -/
def Value.sameEntry : String × Value → String × Value → Bool
  | (k, a), (l, b) => k == l && Value.same a b

end

end Courier
