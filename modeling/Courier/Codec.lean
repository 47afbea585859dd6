import Courier.Frame.Receiver
import Courier.Json.Writer
import Courier.Line.Receiver
import Courier.MsgPack.Writer

/-!
# Codec — the two wire formats

- `Codec.encode` turns a message into the bytes of one frame,
- `Receiver` is the reading end of a stream in either format,
- `Receiver.receive` reads a scripted stream up to the next result,
- `Marshaler` is what connections ask of a format; anything that provides it can stand in for the two.
-/

namespace Courier

/-- A wire format with its size limit. -/
inductive Codec where
  /-- One document per line. -/
  | lines (maximum : UInt64)
  /-- One packed message per length-prefixed frame. -/
  | frames (maximum : Nat)

namespace Codec

/-- The bytes that carry a message, with its named arguments in the given order. -/
def encodeParts (command : String) (args : List Value) (kwargs : List (String × Value)) :
    Codec → Except Error Bytes
  | .lines _ => .ok (Json.writeMessage command args kwargs ++ [10])
  | .frames _ => buildFrame (MsgPack.writeMessage command args kwargs)

/-- The bytes that carry a message, with its named arguments in ascending order. -/
def encode (c : Codec) (m : Message) : Except Error Bytes :=
  c.encodeParts m.command m.args m.kwargs

end Codec

/-! ## Receivers -/

/-- The reading end of a stream. -/
inductive Receiver where
  | lines (r : LineReceiver)
  | frames (r : FrameReceiver)

namespace Receiver

/-- The receiver of a fresh stream. -/
def start : Codec → Receiver
  | .lines maximum => .lines (.start maximum)
  | .frames maximum => .frames (.start maximum)

/-- Goes on with the bytes at hand; none when more bytes are needed. -/
def poll : Receiver → Option (Except Error Message) × Receiver
  | .lines r => r.poll.map id .lines
  | .frames r => r.poll.map id .frames

/-- Adds bytes of the stream. -/
def feed : Receiver → Bytes → Receiver
  | .lines r, data => .lines (r.feed data)
  | .frames r, data => .frames (r.feed data)

/-- The stream has nothing more to read. -/
def atEnd : Receiver → Error × Receiver
  | .lines r => r.atEnd.map id .lines
  | .frames r => r.atEnd.map id .frames

/-- Reading the stream failed.  A line is read on after an interruption; any other failure is reported. -/
def fail (e : IoError) : Receiver → Option Error × Receiver
  | .lines r =>
    -- The line so far is kept: an interrupted read has taken nothing out of the stream.
    if e.kind = .interrupted then (none, .lines r) else (some (.io e), .lines r.abandon)
  | .frames r => (some (.io e), .frames r)

end Receiver

/-! ## Scripted streams -/

/-- What one attempt to read a stream yields. -/
inductive ReadEvent where
  | data (bytes : Bytes)
  | notReady
  | ended
  | failed (e : IoError)

namespace Receiver

/-- Lets a receiver that needs bytes see what a read yields; none when it goes on. -/
def absorb (r : Receiver) : ReadEvent → Option Error × Receiver
  -- A read of no byte is how a stream reports its end.
  | .data [] => r.atEnd.map some id
  | .data (b :: bytes) => (none, r.feed (b :: bytes))
  | .notReady => (none, r)
  | .ended => r.atEnd.map some id
  | .failed e => r.fail e

/-- Reads up to the next result.  A stream that has yielded everything has ended. -/
def receive (r : Receiver) : List ReadEvent → Except Error Message × Receiver × List ReadEvent
  | [] =>
    match r.poll with
    | (some result, r) => (result, r, [])
    | (none, r) =>
      let (e, r) := r.atEnd
      (.error e, r, [])
  | event :: events =>
    match r.poll with
    | (some result, r) => (result, r, event :: events)
    | (none, r) =>
      match r.absorb event with
      | (some e, r) => (.error e, r, events)
      | (none, r) => receive r events

end Receiver

/-! ## Formats in general -/

/-- What a connection asks of a wire format.  No law is asked of it: what holds of every marshaler holds whatever
its receivers make of a stream and its frames carry. -/
class Marshaler (μ : Type) where
  /-- The reading end of a stream. -/
  Receiver : Type
  /-- The receiver of a fresh stream. -/
  start : μ → Receiver
  /-- Goes on with what is at hand; none when the stream has to be read. -/
  poll : Receiver → Option (Except Error Message) × Receiver
  /-- Lets a receiver that waits for the stream see what a read yields; none when it goes on. -/
  absorb : Receiver → ReadEvent → Option Error × Receiver
  /-- The bytes that carry a message, with its named arguments in the given order. -/
  encodeParts : μ → String → List Value → List (String × Value) → Except Error Bytes

instance : Marshaler Codec where
  Receiver := Receiver
  start := Receiver.start
  poll := Receiver.poll
  absorb := Receiver.absorb
  encodeParts c command args kwargs := c.encodeParts command args kwargs

namespace Marshaler

@[simp] theorem poll_codec (r : Courier.Receiver) : @poll Codec _ r = r.poll := rfl

@[simp] theorem absorb_codec (r : Courier.Receiver) (e : ReadEvent) : @absorb Codec _ r e = r.absorb e := rfl

end Marshaler

end Courier
