import Courier.Frame.Buffer
import Courier.MsgPack.Reader

/-!
# Receiver — messages out of a stream of frames

Each payload holds one packed message.  A payload is consumed whether it can be unpacked or not; a header
above the maximum is not.
-/

namespace Courier

/-- The reading end of a stream of frames. -/
structure FrameReceiver where
  buffer : FrameBuffer

namespace FrameReceiver

/-- The receiver of a fresh stream. -/
def start (maximum : Nat) : FrameReceiver := ⟨.empty maximum⟩

/-- Goes on with the buffered bytes; none when more bytes are needed. -/
def poll (r : FrameReceiver) : Option (Except Error Message) × FrameReceiver :=
  match r.buffer.extract with
  | .error e => (some (.error e), r)
  | .ok (none, buffer) => (none, ⟨buffer⟩)
  | .ok (some payload, buffer) =>
    (some ((MsgPack.readMessage payload).mapError .pack), ⟨buffer⟩)

/-- Adds bytes of the stream. -/
def feed (r : FrameReceiver) (data : Bytes) : FrameReceiver :=
  ⟨r.buffer.extend data⟩

/-- The stream has nothing more to read. -/
def atEnd (r : FrameReceiver) : Error × FrameReceiver :=
  (if r.buffer.isMidFrame then .protocol .endedInFrame else .connectionClosed, r)

end FrameReceiver
end Courier
