import Courier.Channel

/-!
# Channel — what tasks do to a queue they share

Facts about single operations, the relation between two states of a channel when only tasks other than the one under
consideration have used it in between, and channels that one task alone puts values into.
-/

namespace Courier
namespace Channel

variable {α : Type} {c d e : Channel α} {a x : α} {mine : α → Prop}

/-! ## Putting a value in -/

theorem offer?_eq_some_iff :
    c.offer? a = some d ↔
      (c.closed = true ∧ d = c) ∨ (c.closed = false ∧ c.isFull = false ∧ d = c.put a) := by
  unfold offer?
  cases hc : c.closed <;> cases hf : c.isFull <;> simp [eq_comm]

theorem offer?_eq_none_iff :
    c.offer? a = none ↔ c.closed = false ∧ c.isFull = true := by
  unfold offer?
  cases hc : c.closed <;> cases hf : c.isFull <;> simp

@[simp] theorem closed_put : (c.put a).closed = c.closed := rfl

@[simp] theorem capacity_put : (c.put a).capacity = c.capacity := rfl

@[simp] theorem taken_put : (c.put a).taken = c.taken := rfl

theorem closed_of_offer? (h : c.offer? a = some d) : d.closed = c.closed := by
  rcases offer?_eq_some_iff.1 h with ⟨_, rfl⟩ | ⟨_, _, rfl⟩
  · rfl
  · rfl

theorem sent_of_offer? (h : c.offer? a = some d) (hc : c.closed = false) :
    d.sent = c.sent ++ [a] := by
  rcases offer?_eq_some_iff.1 h with ⟨hc', _⟩ | ⟨_, _, rfl⟩
  · simp [hc] at hc'
  · rfl

/-- Putting a value in takes none out. -/
theorem prefix_of_offer? (h : c.offer? a = some d) : c.sent <+: d.sent := by
  rcases offer?_eq_some_iff.1 h with ⟨_, rfl⟩ | ⟨_, _, rfl⟩
  · exact List.prefix_rfl
  · exact List.prefix_append ..

/-! ## Taking a value out -/

theorem take?_eq_some_iff :
    c.take? = some (a, d) ↔ c.queue.head? = some a ∧ d = { c with taken := c.taken + 1 } := by
  unfold take?
  cases c.queue <;> simp [eq_comm]

theorem sent_of_take? (h : c.take? = some (a, d)) : d.sent = c.sent := by
  obtain ⟨_, rfl⟩ := take?_eq_some_iff.1 h
  rfl

theorem closed_of_take? (h : c.take? = some (a, d)) : d.closed = c.closed := by
  obtain ⟨_, rfl⟩ := take?_eq_some_iff.1 h
  rfl

/-! ## What is queued -/

theorem take?_cons (h : c.take? = some (a, d)) : c.queue = a :: d.queue := by
  obtain ⟨hhead, rfl⟩ := take?_eq_some_iff.1 h
  obtain ⟨rest, hrest⟩ : ∃ rest, c.queue = a :: rest := by
    cases hq : c.queue with
    | nil => simp [hq] at hhead
    | cons y ys =>
        simp only [hq, List.head?_cons, Option.some.injEq] at hhead
        exact ⟨ys, by rw [hhead]⟩
  have htail : c.sent.drop (c.taken + 1) = rest := by
    have hdrop : c.sent.drop (c.taken + 1) = (c.sent.drop c.taken).drop 1 := by
      rw [List.drop_drop]
    have hqueue : c.sent.drop c.taken = a :: rest := hrest
    rw [hdrop, hqueue, List.drop_one, List.tail_cons]
  exact hrest.trans (congrArg (a :: ·) htail.symm)

theorem taken_of_take? (h : c.take? = some (a, d)) : d.taken ≤ d.sent.length := by
  have hcons := take?_cons h
  obtain ⟨-, rfl⟩ := take?_eq_some_iff.1 h
  refine Classical.byContradiction fun hlt => ?_
  have hnil : c.queue = [] := List.drop_eq_nil_of_le (by simp only at hlt; omega)
  simp [hnil] at hcons

theorem taken_of_offer? (h : c.offer? a = some d) (hc : c.taken ≤ c.sent.length) :
    d.taken ≤ d.sent.length := by
  rcases offer?_eq_some_iff.1 h with ⟨-, rfl⟩ | ⟨-, -, rfl⟩
  · exact hc
  · simp only [taken_put, sent_put, List.length_append, List.length_singleton]
    omega

/-- What is queued stays queued when another value is put in. -/
theorem queue_of_offer? (h : c.offer? a = some d) (hc : c.taken ≤ c.sent.length) :
    d.queue = c.queue ∧ c.closed = true ∨ d.queue = c.queue ++ [a] ∧ c.closed = false := by
  rcases offer?_eq_some_iff.1 h with ⟨hclosed, rfl⟩ | ⟨hclosed, -, rfl⟩
  · exact .inl ⟨rfl, hclosed⟩
  · exact .inr ⟨queue_put c a hc, hclosed⟩

/-- What is left when a value has been taken out was there before. -/
theorem mem_queue_of_take? (h : c.take? = some (a, d)) (hx : x ∈ d.queue) : x ∈ c.queue := by
  rw [take?_cons h]
  exact List.mem_cons_of_mem _ hx

theorem mem_queue_of_offer? (h : c.offer? a = some d) (hc : c.taken ≤ c.sent.length)
    (hx : x ∈ c.queue) : x ∈ d.queue := by
  rcases queue_of_offer? h hc with ⟨hq, -⟩ | ⟨hq, -⟩
  · rwa [hq]
  · rw [hq]
    exact List.mem_append_left _ hx

/-- Nothing else comes into a queue than the value that is put in. -/
theorem eq_or_mem_of_offer? (h : c.offer? a = some d) (hc : c.taken ≤ c.sent.length)
    (hx : x ∈ d.queue) : x = a ∨ x ∈ c.queue := by
  rcases queue_of_offer? h hc with ⟨hq, -⟩ | ⟨hq, -⟩
  · exact .inr (hq ▸ hx)
  · rw [hq, List.mem_append, List.mem_singleton] at hx
    exact hx.symm

/-! ## What has been taken out -/

/-- What has been taken out, oldest first. -/
def passed (c : Channel α) : List α :=
  c.sent.take c.taken

@[simp] theorem passed_append_queue (c : Channel α) : c.passed ++ c.queue = c.sent :=
  List.take_append_drop ..

theorem mem_sent_of_mem_passed (h : x ∈ c.passed) : x ∈ c.sent :=
  List.mem_of_mem_take h

theorem passed_of_take? (h : c.take? = some (a, d)) : d.passed = c.passed ++ [a] := by
  have hqueue : c.queue = a :: d.queue := take?_cons h
  have hsent : d.passed ++ d.queue = c.passed ++ c.queue := by
    rw [passed_append_queue, passed_append_queue, sent_of_take? h]
  rw [hqueue, List.append_cons] at hsent
  exact List.append_cancel_right hsent

/-- Putting a value in takes nothing out. -/
theorem passed_of_offer? (h : c.offer? a = some d) (hc : c.taken ≤ c.sent.length) : d.passed = c.passed := by
  rcases offer?_eq_some_iff.1 h with ⟨-, rfl⟩ | ⟨-, -, rfl⟩
  · rfl
  · exact List.take_append_of_le_length hc

theorem mem_sent_of_take? (h : c.take? = some (a, d)) : a ∈ c.sent := by
  rw [← passed_append_queue c, take?_cons h]
  exact List.mem_append_right _ (List.mem_cons_self ..)

/-- Nothing else is put in than the value that is offered. -/
theorem mem_sent_of_offer? (h : c.offer? a = some d) (hx : x ∈ d.sent) : x ∈ c.sent ∨ x = a := by
  rcases offer?_eq_some_iff.1 h with ⟨-, rfl⟩ | ⟨-, -, rfl⟩
  · exact .inl hx
  · simpa using hx

/-- A value has been put in, if anything has changed. -/
def Fed (c d : Channel α) : Prop :=
  d = c ∨ ∃ a, c.offer? a = some d

namespace Fed

theorem passed (h : Fed c d) (hc : c.taken ≤ c.sent.length) : d.passed = c.passed := by
  rcases h with rfl | ⟨a, ho⟩
  · rfl
  · exact passed_of_offer? ho hc

theorem taken (h : Fed c d) (hc : c.taken ≤ c.sent.length) : d.taken ≤ d.sent.length := by
  rcases h with rfl | ⟨a, ho⟩
  · exact hc
  · exact taken_of_offer? ho hc

theorem mem_sent (h : Fed c d) {x : α} (hx : x ∈ c.sent) : x ∈ d.sent := by
  rcases h with rfl | ⟨a, ho⟩
  · exact hx
  · rcases offer?_eq_some_iff.1 ho with ⟨-, rfl⟩ | ⟨-, -, rfl⟩
    · exact hx
    · exact List.mem_append_left _ hx

theorem closed (h : Fed c d) : d.closed = c.closed := by
  rcases h with rfl | ⟨a, ho⟩
  · rfl
  · exact closed_of_offer? ho

end Fed

/-- Once nothing is queued, everything has been taken out. -/
theorem passed_of_take?_none (h : c.take? = none) : c.passed = c.sent := by
  have hqueue : c.queue = [] := (take?_eq_none_iff c).1 h
  rw [← passed_append_queue c, hqueue, List.append_nil]

theorem passed_front (c : Channel α) : c.passed <+: c.sent :=
  List.take_prefix ..

/-! ## Use by others -/

/-- Between the two states no value that is `mine` was put in, and a receiving end that was gone stayed
away. -/
structure Foreign (mine : α → Prop) (c d : Channel α) : Prop where
  sent : ∃ others, d.sent = c.sent ++ others ∧ ∀ x ∈ others, ¬ mine x
  closed : c.closed = true → d.closed = true

namespace Foreign

theorem refl (mine : α → Prop) (c : Channel α) : Foreign mine c c :=
  ⟨⟨[], by simp⟩, id⟩

/-- A consumer changes only what has been taken and whether it is still there. -/
theorem of_consumer (hs : d.sent = c.sent) (hc : c.closed = true → d.closed = true) :
    Foreign mine c d :=
  ⟨⟨[], by simp [hs]⟩, hc⟩

theorem of_take? (h : c.take? = some (a, d)) : Foreign mine c d :=
  of_consumer (sent_of_take? h) fun hc => by rw [closed_of_take? h, hc]

theorem of_close : Foreign mine c c.close :=
  of_consumer rfl fun _ => rfl

theorem of_offer? (h : c.offer? a = some d) (ha : ¬ mine a) : Foreign mine c d := by
  refine ⟨?_, fun hc => by rw [closed_of_offer? h, hc]⟩
  rcases offer?_eq_some_iff.1 h with ⟨_, rfl⟩ | ⟨_, _, rfl⟩
  · exact ⟨[], by simp⟩
  · exact ⟨[a], by simp [ha]⟩

/-- What is `mine` on a channel is not changed by others. -/
theorem filter_sent (h : Foreign mine c d) [DecidablePred mine] :
    d.sent.filter (fun x => decide (mine x)) = c.sent.filter (fun x => decide (mine x)) := by
  obtain ⟨others, hd, hm⟩ := h.sent
  have hnone : others.filter (fun x => decide (mine x)) = [] := by
    simpa [List.filter_eq_nil_iff] using hm
  rw [hd, List.filter_append, hnone, List.append_nil]

end Foreign

/-! ## Channels of one producer -/

/-- All values on the channel are the producer's, and somebody receives them. -/
structure Exclusive (mine : α → Prop) (c : Channel α) : Prop where
  own : ∀ x ∈ c.sent, mine x
  bounded : c.taken ≤ c.sent.length
  heard : c.closed = false

namespace Exclusive

theorem create (mine : α → Prop) (capacity : Nat) : Exclusive mine { capacity } :=
  ⟨by simp, Nat.le_refl _, rfl⟩

theorem offer (h : c.Exclusive mine) (ho : c.offer? x = some d) (hx : mine x) : d.Exclusive mine where
  own := fun _ hy => (mem_sent_of_offer? ho hy).elim (h.own _) fun heq => heq ▸ hx
  bounded := taken_of_offer? ho h.bounded
  heard := (closed_of_offer? ho).trans h.heard

theorem take (h : c.Exclusive mine) (ht : c.take? = some (x, d)) : d.Exclusive mine where
  own := sent_of_take? ht ▸ h.own
  bounded := taken_of_take? ht
  heard := (closed_of_take? ht).trans h.heard

theorem filter_sent [DecidablePred mine] (h : c.Exclusive mine) : c.sent.filter (fun x => decide (mine x)) = c.sent :=
  List.filter_eq_self.2 fun x hx => decide_eq_true (h.own x hx)

end Exclusive
end Channel
end Courier
