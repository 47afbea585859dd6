import Courier.Text.Quoted
import Courier.Message

/-!
# Mismatch — a well-formed value of the wrong kind

Both codecs read a message from a self-describing value and refuse one of the wrong kind with the same
words.  `Found` is what was there and `Wanted` what should have been; how a null and a double are put into
words is left to the codec.
-/

namespace Courier

/-- What a reader came across. -/
inductive Found where
  | bool (b : Bool)
  | int (n : Int)
  | float (text : String)
  | str (s : String)
  | bytes
  | null (word : String)
  | extension
  | sequence
  | map

/-- The wording of what was found. -/
def Found.describe : Found → String
  | .bool b => s!"boolean `{b}`"
  | .int n => s!"integer `{n}`"
  | .float text => s!"floating point `{text}`"
  | .str s => s!"string {Quoted.quote s}"
  | .bytes => "byte array"
  | .null word => word
  | .extension => "newtype struct"
  | .sequence => "sequence"
  | .map => "map"

/-- What a reader asked for. -/
inductive Wanted where
  | message
  | string
  | sequence
  | map
  | stringKey
  | field
  | value
deriving DecidableEq, Repr

/-- The wording of what was asked for. -/
def Wanted.describe : Wanted → String
  | .message => "struct Message"
  | .string => "a string"
  | .sequence => "a sequence"
  | .map => "a map"
  | .stringKey => "a string key"
  | .field => "field identifier"
  | .value => "any valid JSON value"

/-- Why a well-formed value is not a message. -/
inductive Mismatch where
  /-- A value of another kind. -/
  | kind (found : Found) (wanted : Wanted)
  /-- A value of the right kind that cannot be used. -/
  | unusable (found : Found) (wanted : Wanted)
  /-- A positional form that is too short. -/
  | tooShort (length : Nat)
  | repeatedField (field : Field)
  | missingField (field : Field)

/-- The wording of a mismatch. -/
def Mismatch.message : Mismatch → String
  | .kind found wanted => s!"invalid type: {found.describe}, expected {wanted.describe}"
  | .unusable found wanted => s!"invalid value: {found.describe}, expected {wanted.describe}"
  | .tooShort length =>
    s!"invalid length {length}, expected struct Message with 3 elements"
  | .repeatedField field => s!"duplicate field `{field.name}`"
  | .missingField field => s!"missing field `{field.name}`"

end Courier
