/-!
# Channel — bounded queues between tasks

A channel remembers everything ever put into it and how much of that has been taken out; what is queued is the
difference.  A value is put in only while there is room, so a producer that finds none has to wait; which of
several waiting producers comes first is decided where their moves are scheduled.  Once the receiving end is
gone, values that are put in are lost.
-/

namespace Courier

/-- A bounded queue. -/
structure Channel (α : Type) where
  capacity : Nat
  /-- Everything ever put in, oldest first. -/
  sent : List α := []
  /-- How many of them have been taken out. -/
  taken : Nat := 0
  /-- Whether the receiving end is gone. -/
  closed : Bool := false
deriving Inhabited

namespace Channel

variable {α : Type}

/-- What has been put in and not taken out. -/
def queue (c : Channel α) : List α :=
  c.sent.drop c.taken

/-- Whether a producer has to wait. -/
def isFull (c : Channel α) : Bool :=
  c.taken + c.capacity ≤ c.sent.length

/-- Whether nothing is queued. -/
def isEmpty (c : Channel α) : Bool :=
  c.sent.length ≤ c.taken

/-- Puts a value in. -/
def put (c : Channel α) (a : α) : Channel α :=
  { c with sent := c.sent ++ [a] }

/-- Puts a value in if there is room; none when the producer has to wait. -/
def offer? (c : Channel α) (a : α) : Option (Channel α) :=
  -- Without a receiver nobody waits, however full the queue is.
  if c.closed then some c
  else if c.isFull then none
  else some (c.put a)

/-- Takes the oldest queued value out. -/
def take? (c : Channel α) : Option (α × Channel α) :=
  match c.queue with
  | [] => none
  | a :: _ => some (a, { c with taken := c.taken + 1 })

/-- Takes up to `limit` queued values out; all of them without a limit. -/
def takeUpTo (c : Channel α) (limit : Option Nat) : List α × Channel α :=
  let values := match limit with
    | some n => c.queue.take n
    | none => c.queue
  (values, { c with taken := c.taken + values.length })

/-- Gives the receiving end up. -/
def close (c : Channel α) : Channel α :=
  { c with closed := true }

/-! ## What the operations do to the queue -/

@[simp] theorem sent_put (c : Channel α) (a : α) : (c.put a).sent = c.sent ++ [a] := rfl

theorem queue_put (c : Channel α) (a : α) (h : c.taken ≤ c.sent.length) :
    (c.put a).queue = c.queue ++ [a] := by
  simp [queue, put, List.drop_append_of_le_length h]

theorem take?_eq_none_iff (c : Channel α) : c.take? = none ↔ c.queue = [] := by
  unfold take?
  cases c.queue <;> simp

end Channel
end Courier
