/-!
# Throttle — least spacing between admitted messages

Under a throttle `T > 0` a message is admitted once at least `T` has passed since the last admitted one.  The
first message is always admitted.  A message that arrives under a zero throttle is admitted as well, and the
last admission is forgotten.
-/

namespace Courier

/-- What becomes of a message. -/
inductive Admission where
  | admitted
  /-- It came too early, `lapse` after the last admitted one. -/
  | refused (lapse : Nat)
deriving DecidableEq, Repr

/-- The admission control of one stream of messages. -/
structure Gate where
  /-- When the last message was admitted, unless that has been forgotten. -/
  last : Option Nat := none
deriving DecidableEq, Repr

namespace Gate

/-- Judges a message that arrives at `now`. -/
def check (g : Gate) (throttle now : Nat) : Admission × Gate :=
  if throttle = 0 then (.admitted, { last := none })
  else
    match g.last with
    | none => (.admitted, { last := some now })
    | some last =>
      -- A clock that went back makes no lapse at all.
      let lapse := now - last
      -- A refusal leaves the last admission in place: spacing is counted from admitted messages only.
      if throttle ≤ lapse then (.admitted, { last := some now }) else (.refused lapse, g)

/-- Judges messages one after the other, each with its throttle and its instant. -/
def checkAll (g : Gate) : List (Nat × Nat) → List Admission
  | [] => []
  | (throttle, now) :: arrivals =>
    let (admission, g) := g.check throttle now
    admission :: checkAll g arrivals

end Gate
end Courier
