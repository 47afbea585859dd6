import Courier.Error

/-!
# Buffer — frames out of a byte stream

A frame is a payload behind its length in four big-endian bytes.  A `FrameBuffer` collects the bytes of a
stream as they come and yields complete payloads.  Once a header has been read it is gone from the bytes, so
the buffer also remembers the length of the payload it waits for.
-/

namespace Courier

/-- The size of a length header. -/
def headerSize : Nat := 4

/-- Puts a payload behind its length. -/
def buildFrame (payload : Bytes) : Except Error Bytes :=
  if payload.length < 2 ^ 32 then .ok (Bytes.bigEndian headerSize payload.length ++ payload)
  else .error (.protocol (.payloadUnframable payload.length))

/-- The bytes of a stream that are not yet part of a delivered payload. -/
structure FrameBuffer where
  bytes : Bytes
  /-- The length of the payload whose header has been read. -/
  awaited : Option Nat
  maximum : Nat

namespace FrameBuffer

/-- The largest payload that is accepted unless another maximum is set. -/
def defaultMaximum : Nat := 16 * 1024 * 1024

/-- A buffer without bytes. -/
def empty (maximum : Nat) : FrameBuffer := ⟨[], none, maximum⟩

/-- Adds bytes of the stream. -/
def extend (b : FrameBuffer) (data : Bytes) : FrameBuffer :=
  { b with bytes := b.bytes ++ data }

/-- Forgets everything but the maximum. -/
def clear (b : FrameBuffer) : FrameBuffer := empty b.maximum

/-- The number of bytes held. -/
def length (b : FrameBuffer) : Nat := b.bytes.length

/-- Whether no byte is held. -/
def isEmpty (b : FrameBuffer) : Bool := b.bytes.isEmpty

/-- Whether a stream that ends here ends inside a frame. -/
def isMidFrame (b : FrameBuffer) : Bool :=
  !b.bytes.isEmpty || b.awaited.isSome

/-- Takes the awaited payload out of the buffer once all of it is there. -/
def takePayload (b : FrameBuffer) (size : Nat) : Option Bytes × FrameBuffer :=
  if b.bytes.length < size then (none, { b with awaited := some size })
  else (some (b.bytes.take size), { b with bytes := b.bytes.drop size, awaited := none })

/-- Takes the next payload out of the buffer; none when more bytes are needed.  A header above the maximum
stays where it is. -/
def extract (b : FrameBuffer) : Except Error (Option Bytes × FrameBuffer) :=
  match b.awaited with
  | some size => .ok (b.takePayload size)
  | none =>
    if b.bytes.length < headerSize then .ok (none, b)
    else
      let size := Bytes.toNat (b.bytes.take headerSize)
      -- Judged while the header is still in the buffer, so every later call fails in the same way.
      if b.maximum < size then .error (.protocol (.payloadTooLarge size b.maximum))
      else .ok (takePayload { b with bytes := b.bytes.drop headerSize } size)

/-- Takes payloads until more bytes are needed or a header is above the maximum, in which case the payloads
taken before it are lost.  `done` holds the payloads so far, last first. -/
def extractAll : Nat → List Bytes → FrameBuffer → Except Error (List Bytes) × FrameBuffer
  | 0, done, b => (.ok done.reverse, b)
  | fuel + 1, done, b =>
    match b.extract with
    | .error e => (.error e, b)
    | .ok (none, b) => (.ok done.reverse, b)
    | .ok (some payload, b) => extractAll fuel (payload :: done) b

/-- Adds bytes of the stream and takes all complete payloads. -/
def push (b : FrameBuffer) (data : Bytes) : Except Error (List Bytes) × FrameBuffer :=
  let b := b.extend data
  -- Each turn but the first takes a header out, and the last one finds nothing more.
  extractAll (b.bytes.length + 2) [] b

end FrameBuffer
end Courier
