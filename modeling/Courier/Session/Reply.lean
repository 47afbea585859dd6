import Courier.Dispatcher.State
import Courier.Event

/-!
# Reply — what a session shows of a step
-/

namespace Courier

/-- What a step of a session comes to. -/
inductive Reply where
  | nothing
  | outcome (result : Except Error Unit)
  | flag (b : Bool)
  | flags (bs : List Bool)
  | nanos (n : Nat)
  | value (v : Option Value)
  | status (s : Status)
  | text (s : String)
  | address (result : Except Error Address)
  /-- Whether a connection has been established. -/
  | connection (established : Bool)
  /-- What a peer has read, and whether its stream has ended. -/
  | received (data : Bytes) (ended : Bool)
  | events (es : List Event)
  | callbacks (cs : List Callback)
  | outcomes (results : List (Except Error Unit))
  /-- Outcomes by the names of attendants. -/
  | outcomesOf (results : List (String × Except Error Unit))
  | statusesOf (statuses : List (String × Status))
  | names (ns : List String)
  /-- A clone of an attendant, which is equal to it and has its identity, with its status. -/
  | clone (s : Status)

namespace Reply

/-- Puts named things in the order of their names. -/
def sortByName {α : Type} (entries : List (String × α)) : List (String × α) :=
  entries.mergeSort fun a b => a.1 ≤ b.1

end Reply
end Courier
