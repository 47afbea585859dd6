import Courier.Proofs.Attendant.Outcome

/-!
# Order — messages are published as they are received

Without a throttle every message is admitted.  What has been published is then the front of what has been
received, and lacks only the message in hand as long as the consumer is there and the token has not fired.
-/

namespace Courier

variable {μ : Type} [Marshaler μ]

/-- Not a change of the throttle, except to none. -/
def Attendant.Move.isUnthrottled : Attendant.Move → Bool
  | .setThrottle nanos => nanos == 0
  | .setThrottleSigned nanos => nanos == 0
  | _ => true

/-- The message that has been received and not published. -/
def Reader.inHand? : Reader μ → Option Message
  | .judging _ m => some m
  | .publishing _ m _ => some m
  | _ => none

/-- The messages of an attendant that its consumer has been or will be given, oldest first. -/
def Ports.admitted (id : AttendantId) (p : Ports) : List Message :=
  (p.deliveries id).map (·.message)

namespace Attendant

variable {id : AttendantId} {now : Nat} {a b : Attendant μ} {p q : Ports} {m : Move}

/-- Every message is admitted, and what has been published is in the order in which it was received. -/
structure Orderly (id : AttendantId) (a : Attendant μ) (p : Ports) : Prop where
  throttle : a.throttle = 0
  refusal : ∀ r m refused, a.reader ≠ .publishing r m (some refused)
  published : ∃ done, a.received = done ++ a.reader.inHand?.toList ∧ p.admitted id <+: done ∧
    (p.messages.closed = false → a.fired = false → p.admitted id = done)

namespace Orderly

theorem create (codec : μ) (writer : Nat) (hp : p.deliveries id = []) :
    Orderly id (create codec 0 writer) p := by
  have hadmitted : p.admitted id = [] := by
    rw [Ports.admitted, hp]
    rfl
  refine ⟨rfl, by simp [Attendant.create], [], rfl, ?_, fun _ _ => hadmitted⟩
  exact hadmitted ▸ List.prefix_rfl

/-- The message in hand, if any, is still the same. -/
theorem keep (h : Orderly id a p) (ht : b.throttle = a.throttle) (hf : a.fired = true → b.fired = true)
    (hr : ∀ r m refused, b.reader ≠ .publishing r m (some refused))
    (hi : b.reader.inHand? = a.reader.inHand?) (hm : b.received = a.received) : Orderly id b p := by
  obtain ⟨done, hdone, hfront, hall⟩ := h.published
  refine ⟨ht.trans h.throttle, hr, done, by rw [hi, hm]; exact hdone, hfront, fun hc hb => hall hc ?_⟩
  cases ha : a.fired with
  | false => rfl
  | true => simp [hf ha] at hb

/-- Nothing that matters here has changed. -/
theorem of_eq (h : Orderly id a p) (ht : b.throttle = a.throttle) (hr : b.reader = a.reader)
    (hm : b.received = a.received) (hf : a.fired = true → b.fired = true) : Orderly id b p :=
  h.keep ht hf (by rw [hr]; exact h.refusal) (by rw [hr]) hm

/-- Other channels than that of the messages have been used. -/
theorem of_messages (h : Orderly id a p) (hq : q.messages = p.messages) : Orderly id a q := by
  have hadmitted : q.admitted id = p.admitted id := by
    unfold Ports.admitted Ports.deliveries
    rw [hq]
  obtain ⟨done, hdone, hfront, hall⟩ := h.published
  exact ⟨h.throttle, h.refusal, done, hdone, by rw [hadmitted]; exact hfront, by
    rw [hadmitted, hq]
    exact hall⟩

theorem admitted_put {msg : Message} :
    ({ p with messages := p.messages.put ⟨id, msg⟩ } : Ports).admitted id = p.admitted id ++ [msg] := by
  simp [Ports.admitted, Ports.deliveries, List.filter_append]

/-- The message in hand is published, unless there is nobody to publish it to. -/
theorem deliver {r : Marshaler.Receiver μ} {msg : Message} {messages : Channel Delivery} (h : Orderly id a p)
    (hr : a.reader = .publishing r msg none) (hf : a.fired = false)
    (ho : p.messages.offer? ⟨id, msg⟩ = some messages) :
    Orderly id { a with reader := .receiving r } { p with messages } := by
  obtain ⟨done, hdone, hfront, hall⟩ := h.published
  rw [hr] at hdone
  have hdone' : a.received = done ++ [msg] ++ (Reader.receiving r).inHand?.toList := by
    simpa [Reader.inHand?] using hdone
  refine ⟨h.throttle, by simp, done ++ [msg], hdone', ?_⟩
  rcases Channel.offer?_eq_some_iff.1 ho with ⟨hclosed, rfl⟩ | ⟨hopen, -, rfl⟩
  · refine ⟨hfront.trans (List.prefix_append ..), fun hc _ => ?_⟩
    have hc' : p.messages.closed = false := hc
    simp [hclosed] at hc'
  · rw [admitted_put, hall hopen hf]
    exact ⟨List.prefix_rfl, fun _ _ => rfl⟩

/-- Once the token has fired, the message in hand may be lost. -/
theorem quit (h : Orderly id a p) (hf : a.fired = true) :
    Orderly id { a with reader := .left .requested } p := by
  obtain ⟨done, hdone, hfront, -⟩ := h.published
  refine ⟨h.throttle, by simp, a.received, by simp [Reader.inHand?], ?_, fun _ hf' => ?_⟩
  · rw [hdone]
    exact hfront.trans (List.prefix_append ..)
  · simp [hf] at hf'

end Orderly

/-- Each access keeps the messages in order, as long as there is no throttle. -/
theorem orderly_of_access (h : Access id now a p m b q) (hm : m.isUnthrottled = true) (hs : a.Staged)
    (ho : Orderly id a p) : Orderly id b q := by
  cases h with
  | setThrottle nanos =>
      obtain rfl : nanos = 0 := by simpa [Move.isUnthrottled] using hm
      exact ho.of_eq ho.throttle.symm rfl rfl fun h => h
  | setThrottleSigned nanos =>
      obtain rfl : nanos = 0 := by simpa [Move.isUnthrottled] using hm
      exact ho.of_eq ho.throttle.symm rfl rfl fun h => h
  | hand i r hc =>
      have hr : a.reader = .absent := hs.absent_of_handing hc
      exact ho.keep rfl (fun h => h) (by simp) (by rw [hr]; rfl) rfl
  | announce i r _ _ _ =>
      have hb : Orderly id { a with calls := a.calls.set i (.handing r) } p :=
        ho.of_eq rfl rfl rfl fun h => h
      exact hb.of_messages rfl
  | report ending _ hr _ =>
      have hb : Orderly id { a with reader := .finished } p :=
        ho.keep rfl (fun h => h) (by simp) (by rw [hr]; rfl) rfl
      exact hb.of_messages rfl
  | fire _ _ _ => exact ho.of_eq rfl rfl rfl fun _ => rfl
  | readError _ _ _ _ _ hr _ _ => exact ho.keep rfl (fun h => h) (by simp) (by rw [hr]; rfl) rfl
  | readOn _ _ _ _ hr _ _ => exact ho.keep rfl (fun h => h) (by simp) (by rw [hr]; rfl) rfl
  | pollError _ _ _ hr _ => exact ho.keep rfl (fun h => h) (by simp) (by rw [hr]; rfl) rfl
  | pollMessage r r' msg hr _ =>
      obtain ⟨done, hdone, hfront, hall⟩ := ho.published
      rw [hr] at hdone
      refine ⟨ho.throttle, by simp, done, ?_, hfront, hall⟩
      simpa [Reader.inHand?] using hdone
  | classify _ hr => exact ho.keep rfl (fun h => h) (by simp) (by rw [hr]; rfl) rfl
  | judge r msg hr =>
      refine ho.keep rfl (fun h => h) ?_ (by rw [hr]; rfl) rfl
      simp [ho.throttle, Gate.check, Admission.refusal?]
  | deliver _ _ _ hr hf ho' => exact ho.deliver hr hf ho'
  | defer r msg instant lapse _ hr _ _ => exact absurd hr (ho.refusal r msg (instant, lapse))
  | settleWon _ hr _ => exact ho.keep rfl (fun h => h) (by simp) (by rw [hr]; rfl) rfl
  | settleLost _ hr _ => exact ho.keep rfl (fun h => h) (by simp) (by rw [hr]; rfl) rfl
  | fireReader _ hr => exact ho.keep rfl (fun _ => rfl) (by simp) (by rw [hr]; rfl) rfl
  | release _ hr => exact ho.keep rfl (fun h => h) (by simp) (by rw [hr]; rfl) rfl
  | quit _ hf => exact ho.quit hf
  | _ => exact ho.of_eq rfl rfl rfl fun h => h

theorem orderly_of_foreign (hf : p.Foreign id q) (ho : Orderly id a p) : Orderly id a q := by
  have hadmitted : q.admitted id = p.admitted id := by
    rw [Ports.admitted, hf.deliveries_eq]
    rfl
  obtain ⟨done, hdone, hfront, hall⟩ := ho.published
  refine ⟨ho.throttle, ho.refusal, done, hdone, by rw [hadmitted]; exact hfront, fun hc ha => ?_⟩
  rw [hadmitted]
  refine hall ?_ ha
  cases hclosed : p.messages.closed with
  | false => rfl
  | true =>
      rw [hf.messages.closed hclosed] at hc
      exact hc

theorem orderly_of_course {ms : List Move} (codec : μ) (writer : Nat) (hp : p.deliveries id = [])
    (h : Course id (create codec 0 writer) p ms b q) (hms : ∀ m ∈ ms, m.isUnthrottled = true) :
    Orderly id b q := by
  have hboth : b.Staged ∧ Orderly id b q :=
    Course.preserves_along (f := fun g _ => g) (A := fun m => m.isUnthrottled = true)
      (I := fun (_ : Unit) a p => a.Staged ∧ Orderly id a p)
      (fun hm hacc hi => ⟨staged_of_access hacc hi.1, orderly_of_access hacc hm hi.1 hi.2⟩)
      (fun hf hi => ⟨hi.1, orderly_of_foreign hf hi.2⟩) (g := ()) h hms
      ⟨staged_create codec 0 writer, .create codec writer hp⟩
  exact hboth.2

end Attendant
end Courier
