import Courier.Error
import Courier.Json.Document

/-!
# Receiver — messages out of a stream of lines

Each message is a document on a line of its own.  A `LineReceiver` takes the bytes of a stream one by one;
what it does depends on the unfinished line alone, so the cutting of the stream into reads does not matter.
A line may be one byte longer than the maximum, which leaves room for its newline.
-/

namespace Courier

/-- The reading end of a stream of lines. -/
structure LineReceiver where
  /-- The longest line, its newline not counted. -/
  maximum : UInt64
  /-- Bytes that have been read from the stream but belong to no line yet. -/
  buffered : Bytes
  /-- The unfinished line, last byte first. -/
  line : Bytes
  /-- The length of the unfinished line. -/
  count : Nat

namespace LineReceiver

/-- The longest line that is accepted unless another maximum is set. -/
def defaultMaximum : UInt64 := 1024 * 1024

/-- The receiver of a fresh stream. -/
def start (maximum : UInt64) : LineReceiver := ⟨maximum, [], [], 0⟩

/-- The number of bytes after which a line is given up, in the arithmetic of 64-bit words. -/
def limit (r : LineReceiver) : Nat := (r.maximum + 1).toNat

/-- Whether a byte is ASCII white space. -/
def isBlank (b : UInt8) : Bool :=
  b = 32 || b = 9 || b = 10 || b = 12 || b = 13

/-- The content of a finished line, given last byte first: one carriage return before the newline is cut. -/
def content : Bytes → Bytes
  | [] => []
  | b :: line => if b = 13 then line.reverse else (b :: line).reverse

/-- The receiver between two lines. -/
def between (r : LineReceiver) (buffered : Bytes) : LineReceiver :=
  { r with buffered, line := [], count := 0 }

/-- What a line that has used up its limit comes to. -/
def overrun (r : LineReceiver) (count : Nat) : Error :=
  if count = 0 then .connectionClosed else .protocol (.lineTooLong r.maximum.toNat)

/-- What a line that the stream ends in comes to. -/
def cutOff (count : Nat) : Error :=
  if count = 0 then .connectionClosed else .protocol .endedInLine

/-- Takes bytes onto the unfinished line up to the first result; none when more bytes are needed.  Blank
lines are passed over. -/
def scan (r : LineReceiver) (line : Bytes) (count : Nat) :
    Bytes → Option (Except Error Message) × LineReceiver
  | [] =>
    if r.limit ≤ count then (some (.error (r.overrun count)), r.between [])
    else (none, { r with buffered := [], line, count })
  | b :: rest =>
    if r.limit ≤ count then (some (.error (r.overrun count)), r.between (b :: rest))
    else if b = 10 then
      let text := content line
      -- A blank line is no message; the limit is counted afresh behind its newline.
      if text.all isBlank then scan r [] 0 rest
      else (some ((Json.readMessage text).mapError .json), r.between rest)
    else scan r (b :: line) (count + 1) rest

/-- Goes on with the buffered bytes. -/
def poll (r : LineReceiver) : Option (Except Error Message) × LineReceiver :=
  r.scan r.line r.count r.buffered

/-- Adds bytes of the stream. -/
def feed (r : LineReceiver) (data : Bytes) : LineReceiver :=
  { r with buffered := r.buffered ++ data }

/-- The stream has nothing more to read. -/
def atEnd (r : LineReceiver) : Error × LineReceiver :=
  (cutOff r.count, r.between r.buffered)

/-- Reading the stream failed: what was read of the line is lost. -/
def abandon (r : LineReceiver) : LineReceiver :=
  r.between r.buffered

end LineReceiver
end Courier
