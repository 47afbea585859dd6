import Courier.Net.Address

/-!
# Network — what a host lets its programs do

Binding a listener and establishing a connection can each be refused by the host.  `Network` says by which
rules.
-/

namespace Courier

namespace IoError

/-- Low ports are reserved. -/
def portReserved : IoError := ⟨.permissionDenied, "Permission denied (os error 13)"⟩

/-- No way leads to the address. -/
def unreachable : IoError := ⟨.other, "Network is unreachable (os error 101)"⟩

end IoError

/-- The rules of a host. -/
structure Network where
  /-- Whether a listener can be bound to an address that no interface has. -/
  bindsForeign : Bool
  /-- The lowest port that is not reserved. -/
  lowestPort : Nat := 1024
  /-- Whether connections can be established, also within the host. -/
  connects : Bool

namespace Network

/-- A host that reaches itself. -/
def loopback : Network where
  bindsForeign := false
  connects := true

/-- A host on which listeners can be bound but no connection can be established. -/
def isolated : Network where
  bindsForeign := true
  connects := false

/-- The first port given to a listener that leaves the choice to the host. -/
def firstFreePort : Nat := 32768

/-- A port above all that are in use. -/
def freePort (used : List Address) : Nat :=
  used.foldl (fun port a => max port (a.port + 1)) firstFreePort

/-- Binds a listener while the listeners of `used` are bound.  Port zero leaves the choice of the port to the
host. -/
def bind (n : Network) (used : List Address) (a : Address) : Except IoError Address :=
  -- In the order in which the host judges: the address, its port, who else has it.
  if !n.bindsForeign && !a.host.isOwn then .error .addressForeign
  else if a.port = 0 then .ok { a with port := freePort used }
  else if a.port < n.lowestPort then .error .portReserved
  else if a ∈ used then .error .addressTaken
  else .ok a

/-- Resolves a host and binds a listener to it. -/
def listen (n : Network) (used : List Address) (host : String) : Except Error Address :=
  match Address.resolve host with
  | .error e => .error (.resolve host e)
  | .ok a => (n.bind used a).mapError (.bind a.text)

/-- Establishes a connection with whoever listens at a host.  Within the host that is one of `used`. -/
def dial (n : Network) (used : List Address) (host : String) : Except Error Address :=
  match Address.resolve host with
  | .error e => .error (.io e)
  | .ok a =>
    if !n.connects then .error (.io .unreachable)
    else if a ∈ used then .ok a
    else .error (.io .refused)

end Network
end Courier
