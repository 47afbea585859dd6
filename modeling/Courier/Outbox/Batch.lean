import Courier.Error

/-!
# Batch — frames written together

Frames that are queued at the same time go out in one write.  A sink may take any part of what it is offered;
the next write then offers what is left, without empty slices.
-/

namespace Courier

/-- What a sink does with a write. -/
inductive Outcome where
  /-- It takes the first `n` bytes. -/
  | took (n : Nat)
  | failed (e : IoError)
deriving DecidableEq, Repr

/-- Frames on their way to a sink. -/
structure Batch where
  frames : List Bytes
  /-- How many of their bytes the sink has taken. -/
  written : Nat := 0

namespace Batch

/-- The most frames that go out in one write. -/
def maximum : Nat := 64

/-- The frames as non-empty slices, without the first `skip` bytes. -/
def slices : List Bytes → Nat → List Bytes
  | [], _ => []
  | f :: fs, skip =>
    -- Also taken by an empty frame, which leaves no slice.
    if f.length ≤ skip then slices fs (skip - f.length) else f.drop skip :: slices fs 0

/-- The number of bytes of the frames. -/
def size (b : Batch) : Nat :=
  (b.frames.map List.length).sum

/-- What the next write offers. -/
def offered (b : Batch) : List Bytes :=
  slices b.frames b.written

/-- Whether nothing is left to write. -/
def isWritten (b : Batch) : Bool :=
  b.size ≤ b.written

/-- Whether a sink can do this with the next write: it takes no more than it is offered. -/
def admits (b : Batch) : Outcome → Bool
  | .took n => n ≤ b.size - b.written
  | .failed _ => true

/-- The batch after a write.  A sink that takes nothing of a write is broken. -/
def accept (b : Batch) : Outcome → Except IoError Batch
  | .took 0 => .error .tookNothing
  | .took (n + 1) => .ok { b with written := b.written + (n + 1) }
  | .failed e => .error e

end Batch
end Courier
