import Courier.Json.Numeral
import Courier.Json.Text

/-!
# Writer — values and messages as text

The written form has no white space.  Objects are written in the order of their entries; the entries of
`kwargs` are written in whatever order they are given.
-/

namespace Courier
namespace Json

/-- The parts with commas between them. -/
def separated (parts : List Bytes) : Bytes :=
  [44].intercalate parts

/-- The written form of an integer. -/
def writeInt (n : WireInt) : Bytes :=
  match n.val with
  | .ofNat k => Bytes.numeral k
  | .negSucc k => 45 :: Bytes.numeral (k + 1)

mutual

/-- The written form of a value. -/
def write : Value → Bytes
  | .null => Bytes.ascii "null"
  | .bool true => Bytes.ascii "true"
  | .bool false => Bytes.ascii "false"
  | .int n => writeInt n
  | .float x => x.text numberLayout
  | .str s => Text.write s
  | .arr xs => 91 :: separated (writeElements [] xs) ++ [93]
  | .obj es => 123 :: separated (writeEntries [] es) ++ [125]

/-- The written forms of elements, after those in `done`, which come last first. -/
def writeElements (done : List Bytes) : List Value → List Bytes
  | [] => done.reverse
  | x :: xs => writeElements (write x :: done) xs

/-- The written forms of entries, after those in `done`, which come last first. -/
def writeEntries (done : List Bytes) : List (String × Value) → List Bytes
  | [] => done.reverse
  | e :: es => writeEntries (writeEntry e :: done) es

/-- The written form of an entry. -/
def writeEntry : String × Value → Bytes
  | (key, v) => Text.write key ++ 58 :: write v

end

/-- The written form of a field and its value. -/
def writeField (field : Field) (text : Bytes) : Bytes :=
  Text.write field.name ++ 58 :: text

/-- The written form of a message, with its named arguments in the given order. -/
def writeMessage (command : String) (args : List Value) (kwargs : List (String × Value)) : Bytes :=
  123 :: separated
    [ writeField .command (Text.write command),
      writeField .args (write (.arr args)),
      writeField .kwargs (write (.obj kwargs)) ] ++ [125]

end Json
end Courier
