import Courier.MsgPack.Head

/-!
# Writer — packing values and messages

Every number and length takes the fewest bytes.  A message is packed as a map of its three fields; the
entries of `kwargs` are packed in whatever order they are given.
-/

namespace Courier
namespace MsgPack

/-- A packed text. -/
def writeString (s : String) : Bytes :=
  let data := Utf8.encode s
  Head.writeText data.length ++ data

mutual

/-- A packed value. -/
def write : Value → Bytes
  | .null => [0xC0]
  | .bool false => [0xC2]
  | .bool true => [0xC3]
  | .int n => Head.writeInt n
  | .float x => Head.marked 0xCB 8 x.bits.toNat
  | .str s => writeString s
  | .arr xs => Head.writeArray xs.length ++ (writeElements [] xs).flatten
  | .obj es => Head.writeMap es.length ++ (writeEntries [] es).flatten

/-- Packed elements, after those in `done`, which come last first. -/
def writeElements (done : List Bytes) : List Value → List Bytes
  | [] => done.reverse
  | x :: xs => writeElements (write x :: done) xs

/-- Packed entries, after those in `done`, which come last first. -/
def writeEntries (done : List Bytes) : List (String × Value) → List Bytes
  | [] => done.reverse
  | e :: es => writeEntries (writeEntry e :: done) es

/-- A packed entry. -/
def writeEntry : String × Value → Bytes
  | (key, v) => writeString key ++ write v

end

/-- A packed message, with its named arguments in the given order. -/
def writeMessage (command : String) (args : List Value) (kwargs : List (String × Value)) : Bytes :=
  Head.writeMap 3
    ++ writeString Field.command.name ++ writeString command
    ++ writeString Field.args.name ++ write (.arr args)
    ++ writeString Field.kwargs.name ++ write (.obj kwargs)

end MsgPack
end Courier
