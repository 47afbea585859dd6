/-!
# Schedule — one fixed order of moves

A system of tasks can go on in many orders.  A schedule fixes one of them: of the tasks that can go on, the
one that has not moved for the longest time runs until it has to wait.  Tasks that wait for the same thing
are therefore served in the order in which they began to wait.
-/

namespace Courier

variable {σ μ τ : Type}

/-- The most moves that a session makes before it is looked at again. -/
def patience : Nat := 1000000

/-- Lets a move happen if it is possible. -/
def attempt (step : σ → μ → Option σ) (s : σ) (m : μ) : σ :=
  (step s m).getD s

/-- Lets the first possible of the proposed moves happen until none is possible, for at most `fuel` moves. -/
def settle (step : σ → μ → Option σ) (proposals : σ → List μ) : Nat → σ → σ
  | 0, s => s
  | fuel + 1, s =>
    match (proposals s).findSome? (step s) with
    | some s => settle step proposals fuel s
    | none => s

/-- Whether one of the moves of a task is possible. -/
def canMove (step : σ → μ → Option σ) (proposals : τ → σ → List μ) (s : σ) (t : τ) : Bool :=
  ((proposals t s).findSome? (step s)).isSome

/-- The order of turns with the tasks that are new in it at its end. -/
def admitNew [BEq τ] (order tasks : List τ) : List τ :=
  order ++ tasks.filter fun t => !order.contains t

/-- Lets tasks take turns until none can go on, for at most `fuel` turns.  `order` lists the tasks, the one
that has not moved for the longest time first. -/
def takeTurns [BEq τ] (step : σ → μ → Option σ) (tasks : σ → List τ)
    (proposals : τ → σ → List μ) : Nat → List τ → σ → List τ × σ
  | 0, order, s => (order, s)
  | fuel + 1, order, s =>
    let order := admitNew order (tasks s)
    match order.find? (canMove step proposals s) with
    | none => (order, s)
    | some t =>
      takeTurns step tasks proposals fuel (order.erase t ++ [t]) (settle step (proposals t) patience s)

end Courier
