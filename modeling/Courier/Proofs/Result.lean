/-!
# Result — what has not failed

A reader returns what it has found together with what is left, or a fault.  From a success one gets back to the
steps that came to it.

- `Result.of_map` and `Result.of_mapRest` — something has been made of what was found,
- `Result.of_guard` — a refusal has not come to pass,
- `Result.mapError_eq_ok` — faults have been given another form.
-/

namespace Courier
namespace Result

variable {α β γ ε ε' : Type} {c : γ}

/-- What a reader has made of what it has found. -/
theorem of_map {r : Except ε (α × γ)} {f : α → β} {y : β} (h : (r.map fun (x, c) => (f x, c)) = .ok (y, c)) :
    ∃ x, r = .ok (x, c) ∧ f x = y := by
  cases r with
  | error e => cases h
  | ok found =>
      obtain ⟨x, c'⟩ := found
      obtain ⟨rfl, rfl⟩ := Prod.mk.inj (Except.ok.inj h)
      exact ⟨x, rfl, rfl⟩

/-- What was found before the last step. -/
theorem of_mapRest {r : Except ε γ} {x y : α} (h : r.map (x, ·) = .ok (y, c)) : r = .ok c ∧ x = y := by
  cases r with
  | error e => cases h
  | ok c' =>
      obtain ⟨rfl, rfl⟩ := Prod.mk.inj (Except.ok.inj h)
      exact ⟨rfl, rfl⟩

/-- What a reader finds that refuses some cases. -/
theorem of_guard {p : Prop} [Decidable p] {e : ε} {r : Except ε α} {x : α} (h : (if p then .error e else r) = .ok x) :
    ¬ p ∧ r = .ok x := by
  split at h
  · cases h
  · next hp => exact ⟨hp, h⟩

theorem mapError_eq_ok {r : Except ε α} {f : ε → ε'} {x : α} : r.mapError f = .ok x ↔ r = .ok x := by
  cases r with
  | error e =>
      constructor
      · intro h
        cases h
      · intro h
        cases h
  | ok y =>
      constructor
      · intro h
        exact congrArg Except.ok (Except.ok.inj h)
      · intro h
        exact congrArg Except.ok (Except.ok.inj h)

end Result
end Courier
