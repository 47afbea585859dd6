import Courier.Json.Cursor
import Courier.MsgPack.Head

/-!
# Error — what can go wrong

One type for every operation of the library, with its wording, its underlying cause and the test that tells
a clean close of the peer from a failure.
-/

namespace Courier

/-! ## Input and output -/

/-- The kinds of failures of sockets and streams. -/
inductive IoKind where
  | unexpectedEof
  | connectionReset
  | connectionAborted
  | connectionRefused
  | notConnected
  | brokenPipe
  | interrupted
  | invalidData
  | invalidInput
  | timedOut
  | writeZero
  | permissionDenied
  | addressInUse
  | addressNotAvailable
  | notFound
  | other
deriving DecidableEq, Repr

/-- The wording of a failure of which only the kind is known. -/
def IoKind.message : IoKind → String
  | .unexpectedEof => "unexpected end of file"
  | .connectionReset => "connection reset"
  | .connectionAborted => "connection aborted"
  | .connectionRefused => "connection refused"
  | .notConnected => "not connected"
  | .brokenPipe => "broken pipe"
  | .interrupted => "operation interrupted"
  | .invalidData => "invalid data"
  | .invalidInput => "invalid input parameter"
  | .timedOut => "timed out"
  | .writeZero => "write zero"
  | .permissionDenied => "permission denied"
  | .addressInUse => "address in use"
  | .addressNotAvailable => "address not available"
  | .notFound => "entity not found"
  | .other => "other error"

/-- A failure of a socket or a stream. -/
structure IoError where
  kind : IoKind
  message : String
deriving DecidableEq, Repr

namespace IoError

/-- The failure of which only the kind is known. -/
def ofKind (kind : IoKind) : IoError := ⟨kind, kind.message⟩

/-- The peer reset the connection. -/
def resetByPeer : IoError := ⟨.connectionReset, "Connection reset by peer (os error 104)"⟩

/-- The connection can no longer be written. -/
def pipeBroken : IoError := ⟨.brokenPipe, "Broken pipe (os error 32)"⟩

/-- The process has no room for another connection. -/
def tooManyFiles : IoError := ⟨.other, "Too many open files (os error 24)"⟩

/-- Another listener owns the address. -/
def addressTaken : IoError := ⟨.addressInUse, "Address already in use (os error 98)"⟩

/-- The address belongs to no interface of this host. -/
def addressForeign : IoError :=
  ⟨.addressNotAvailable, "Cannot assign requested address (os error 99)"⟩

/-- Nobody listens at the address. -/
def refused : IoError := ⟨.connectionRefused, "Connection refused (os error 111)"⟩

/-- A sink took no byte of a write that was not empty. -/
def tookNothing : IoError := ⟨.writeZero, "write_vectored returned 0"⟩

end IoError

/-! ## Errors -/

/-- How a stream or a message breaks the framing. -/
inductive ProtocolFault where
  /-- A frame declares a payload above the maximum. -/
  | payloadTooLarge (size maximum : Nat)
  /-- A payload does not fit a frame. -/
  | payloadUnframable (size : Nat)
  /-- A line is longer than the maximum. -/
  | lineTooLong (maximum : Nat)
  | endedInFrame
  | endedInLine
  | other (text : String)
deriving DecidableEq, Repr

/-- The wording of a framing fault. -/
def ProtocolFault.message : ProtocolFault → String
  | .payloadTooLarge size maximum => s!"Payload size {size} exceeds maximum {maximum}"
  | .payloadUnframable size => s!"Payload size {size} overflows u32"
  | .lineTooLong maximum => s!"Line exceeds maximum of {maximum} bytes"
  | .endedInFrame => "Stream ended in the middle of a frame"
  | .endedInLine => "Stream ended in the middle of a line"
  | .other text => text

/-- What can go wrong. -/
inductive Error where
  | io (e : IoError)
  | json (f : Json.Fault)
  | pack (f : MsgPack.Fault)
  | protocol (f : ProtocolFault)
  /-- The peer closed the stream on a message boundary. -/
  | connectionClosed
  | resolve (host : String) (e : IoError)
  | bind (address : String) (e : IoError)
  | alreadyListening
  | notListening
  | attendantNotNew
  | attendantStopped
  | attendantAlreadyStopped
  | argument (name : String)

namespace Error

/-- The wording of an error. -/
def message : Error → String
  | .io e => s!"I/O error: {e.message}"
  | .json f => s!"JSON error: {f.message}"
  | .pack f => s!"MsgPack decode error: {f.message}"
  | .protocol f => s!"Protocol error: {f.message}"
  | .connectionClosed => "Connection closed"
  | .resolve host e => s!"Cannot resolve {host}: {e.message}"
  | .bind address e => s!"Cannot bind {address}: {e.message}"
  | .alreadyListening => "Server already listening"
  | .notListening => "Server not listening"
  | .attendantNotNew => "Attendant cannot start: it is either running or stopped"
  | .attendantStopped => "Attendant cannot send: it is stopped"
  | .attendantAlreadyStopped => "Attendant cannot stop: it is already stopped"
  | .argument name => s!"Argument error: {name}"

/-- The wording of the failure behind an error, if another part reported it. -/
def source? : Error → Option String
  | .io e => some e.message
  | .json f => some f.message
  | .pack f => some f.message
  | .resolve _ e => some e.message
  | .bind _ e => some e.message
  | _ => none

/-- Whether an error means that the peer closed the stream cleanly. -/
def isGraceful : Error → Bool
  | .connectionClosed => true
  | .io e => e.kind == .unexpectedEof
  | _ => false

end Error
end Courier
