/-!
# Config — capacities and throttles

Settings below their floor are raised to it; nothing is ever rejected.
-/

namespace Courier

/-- The settings of a server or of a dialed attendant. -/
structure Config where
  /-- Capacity of the message and throttled channels. -/
  messages : Nat := 256
  /-- Capacity of every channel of start and stop notifications. -/
  lifecycle : Nat := 16
  /-- Capacity of the queue of outgoing frames. -/
  writer : Nat := 256
  /-- Least spacing between admitted messages in nanoseconds; zero admits every message. -/
  throttle : Nat := 0
deriving DecidableEq, Repr

namespace Config

/-- The least capacity of the message and throttled channels. -/
def minMessages : Nat := 16

/-- The least capacity of the other channels. -/
def minCapacity : Nat := 1

/-- The settings with every capacity raised to its floor. -/
def normalized (c : Config) : Config :=
  { c with
    messages := max c.messages minMessages
    lifecycle := max c.lifecycle minCapacity
    writer := max c.writer minCapacity }

end Config

/-- The longest throttle an attendant can hold, in nanoseconds. -/
def maxThrottle : Nat := 2 ^ 64 - 1

/-- The throttle an attendant holds when it is given `nanos`. -/
def holdThrottle (nanos : Nat) : Nat :=
  min nanos maxThrottle

end Courier
