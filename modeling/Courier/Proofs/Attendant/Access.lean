import Courier.Attendant.Step

/-!
# Access — what one move of an attendant can do

`Attendant.step` is a function of the label.  `Attendant.Access` lists its outcomes one by one, each with the
condition under which it comes about, so that an invariant is checked against the outcomes and never against
the function.

- `Attendant.Access` — the outcomes,
- `Attendant.access_of_step` — every move has one of them.
-/

namespace Courier

variable {μ : Type} [Marshaler μ]

/-! ## Operations on their way -/

namespace Call

/-- A start that has claimed the attendant. -/
def launches : Call μ → Bool
  | .claimed => true
  | .announcing _ => true
  | .handing _ => true
  | .started (.ok _) => true
  | _ => false

/-- A start whose report is out. -/
def hasReported : Call μ → Bool
  | .handing _ => true
  | .started (.ok _) => true
  | _ => false

/-- A stop that has made the status final. -/
def halts : Call μ → Bool
  | .firing _ => true
  | .dropping => true
  | .stopped (.ok _) => true
  | _ => false

end Call

namespace Reader

/-- Whether the read loop waits where it minds the token. -/
def mindsToken : Reader μ → Bool
  | .receiving _ => true
  | .publishing _ _ _ => true
  | _ => false

end Reader

namespace Admission

/-- What is published with a message that is judged at `now`. -/
def refusal? (now : Nat) : Admission → Option (Nat × Nat)
  | .admitted => none
  | .refused lapse => some (now, lapse)

end Admission

namespace Attendant

/-! ## Accesses -/

/-- One access of a task of an attendant to what it shares with others. -/
inductive Access (id : AttendantId) (now : Nat) (a : Attendant μ) (p : Ports) :
    Move → Attendant μ → Ports → Prop where
  | claim (hs : a.status = .new) :
      Access id now a p .start ({ a with status := .running }.record .claimed) p
  | refuseStart (hs : a.status ≠ .new) :
      Access id now a p .start (a.record (.started (.error .attendantNotNew))) p
  | halt (hs : a.status ≠ .stopped) :
      Access id now a p .stop
        ({ a with status := .stopped }.record (.firing (a.status == Status.new))) p
  | refuseStop (hs : a.status = .stopped) :
      Access id now a p .stop (a.record (.stopped (.error .attendantAlreadyStopped))) p
  | refuseSend (command : String) (args : List Value) (kwargs : List (String × Value)) (e : Error) :
      Access id now a p (.send command args kwargs) (a.record (.sent (.error e))) p
  | encode (command : String) (args : List Value) (kwargs : List (String × Value)) (frame : Bytes)
      (hf : Marshaler.encodeParts a.codec command args kwargs = .ok frame) :
      Access id now a p (.send command args kwargs) (a.record (.queueing frame)) p
  | setThrottle (nanos : Nat) :
      Access id now a p (.setThrottle nanos) (a.setThrottle nanos) p
  | setThrottleSigned (nanos : Int) :
      Access id now a p (.setThrottleSigned nanos) (a.setThrottleSigned nanos) p
  | takeReceiver (i : Nat) (r : Marshaler.Receiver μ) (hc : a.calls[i]? = some .claimed)
      (hr : a.pending = some r) :
      Access id now a p (.advance i)
        { a with pending := none, calls := a.calls.set i (.announcing r) } p
  | missReceiver (i : Nat) (hc : a.calls[i]? = some .claimed) (hr : a.pending = none) :
      Access id now a p (.advance i)
        { a with calls := a.calls.set i (.started (.error .attendantNotNew)) } p
  | announce (i : Nat) (r : Marshaler.Receiver μ) (lifecycle : Channel Notice)
      (hc : a.calls[i]? = some (.announcing r))
      (ho : p.lifecycle.offer? (.started id) = some lifecycle) :
      Access id now a p (.advance i)
        { a with calls := a.calls.set i (.handing r) } { p with lifecycle }
  | hand (i : Nat) (r : Marshaler.Receiver μ) (hc : a.calls[i]? = some (.handing r)) :
      Access id now a p (.advance i)
        { a with reader := .receiving r, calls := a.calls.set i (.started (.ok ())) } p
  | fire (i : Nat) (wasNew : Bool) (hc : a.calls[i]? = some (.firing wasNew)) :
      Access id now a p (.advance i)
        { a with
          fired := true
          calls := a.calls.set i (if wasNew then .dropping else .stopped (.ok ())) } p
  | dropReceiver (i : Nat) (hc : a.calls[i]? = some .dropping) :
      Access id now a p (.advance i)
        { a with pending := none, calls := a.calls.set i (.stopped (.ok ())) } p
  | missQueue (i : Nat) (frame : Bytes) (hc : a.calls[i]? = some (.queueing frame))
      (hq : a.outbox.queue.closed = true) :
      Access id now a p (.advance i)
        { a with calls := a.calls.set i (.sent (.error .connectionClosed)) } p
  | queue (i : Nat) (frame : Bytes) (queue : Channel Bytes)
      (hc : a.calls[i]? = some (.queueing frame)) (hq : a.outbox.queue.closed = false)
      (ho : a.outbox.queue.offer? frame = some queue) :
      Access id now a p (.advance i)
        { a with
          outbox := { a.outbox with queue }
          calls := a.calls.set i (.sent (.ok ())) } p
  | readError (e : ReadEvent) (r r' r'' : Marshaler.Receiver μ) (f : Error) (hr : a.reader = .receiving r)
      (hp : Marshaler.poll r = (none, r')) (he : Marshaler.absorb r' e = (some f, r'')) :
      Access id now a p (.read e) { a with reader := .failed f } p
  | readOn (e : ReadEvent) (r r' r'' : Marshaler.Receiver μ) (hr : a.reader = .receiving r)
      (hp : Marshaler.poll r = (none, r')) (he : Marshaler.absorb r' e = (none, r'')) :
      Access id now a p (.read e) { a with reader := .receiving r'' } p
  | pollError (r r' : Marshaler.Receiver μ) (f : Error) (hr : a.reader = .receiving r)
      (hp : Marshaler.poll r = (some (.error f), r')) :
      Access id now a p .proceed { a with reader := .failed f } p
  | pollMessage (r r' : Marshaler.Receiver μ) (m : Message) (hr : a.reader = .receiving r)
      (hp : Marshaler.poll r = (some (.ok m), r')) :
      Access id now a p .proceed
        { a with reader := .judging r' m, received := a.received ++ [m] } p
  | classify (f : Error) (hr : a.reader = .failed f) :
      Access id now a p .proceed { a with reader := .left (classify a.fired f) } p
  | judge (r : Marshaler.Receiver μ) (m : Message) (hr : a.reader = .judging r m) :
      Access id now a p .proceed
        { a with
          gate := (a.gate.check a.throttle now).2
          reader := .publishing r m ((a.gate.check a.throttle now).1.refusal? now) } p
  | deliver (r : Marshaler.Receiver μ) (m : Message) (messages : Channel Delivery)
      (hr : a.reader = .publishing r m none) (hf : a.fired = false)
      (ho : p.messages.offer? ⟨id, m⟩ = some messages) :
      Access id now a p .proceed { a with reader := .receiving r } { p with messages }
  | defer (r : Marshaler.Receiver μ) (m : Message) (instant lapse : Nat) (throttled : Channel Deferral)
      (hr : a.reader = .publishing r m (some (instant, lapse))) (hf : a.fired = false)
      (ho : p.throttled.offer? ⟨id, m, instant, lapse⟩ = some throttled) :
      Access id now a p .proceed { a with reader := .receiving r } { p with throttled }
  | settleWon (ending : Ending) (hr : a.reader = .left ending) (hs : a.status = .running) :
      Access id now a p .proceed { a with status := .stopped, reader := .firing ending } p
  | settleLost (ending : Ending) (hr : a.reader = .left ending) (hs : a.status ≠ .running) :
      Access id now a p .proceed { a with reader := .firing .requested } p
  | fireReader (ending : Ending) (hr : a.reader = .firing ending) :
      Access id now a p .proceed { a with fired := true, reader := .releasing ending } p
  | release (ending : Ending) (hr : a.reader = .releasing ending) :
      Access id now a p .proceed { a with reader := .announcing ending } p
  | report (ending : Ending) (lifecycle : Channel Notice) (hr : a.reader = .announcing ending)
      (ho : p.lifecycle.offer? (.stopped id ending) = some lifecycle) :
      Access id now a p .proceed { a with reader := .finished } { p with lifecycle }
  | quit (hr : a.reader.mindsToken = true) (hf : a.fired = true) :
      Access id now a p .quit { a with reader := .left .requested } p
  | write (m : Outbox.Move) (outbox : Outbox) (ho : a.outbox.step a.fired true m = some outbox) :
      Access id now a p (.writer m) { a with outbox } p

variable {id : AttendantId} {now : Nat} {a b : Attendant μ} {p q : Ports} {m : Move}

theorem access_of_beginStart : Access id now a p .start a.beginStart p := by
  unfold beginStart
  split
  · next hs => exact .claim hs
  · next hs => exact .refuseStart hs

theorem access_of_beginStop : Access id now a p .stop a.beginStop p := by
  unfold beginStop
  split
  · next hs => exact .refuseStop hs
  · next hs => exact .halt hs

theorem access_of_beginSend (command : String) (args : List Value) (kwargs : List (String × Value)) :
    Access id now a p (.send command args kwargs) (a.beginSend command args kwargs) p := by
  unfold beginSend
  split
  · exact .refuseSend _ _ _ _
  · split
    · exact .refuseSend _ _ _ _
    · next frame hf => exact .encode _ _ _ frame hf

theorem access_of_advance {i : Nat} {c c' : Call μ} (hc : a.calls[i]? = some c)
    (h : a.advance id p c = some (b, q, c')) :
    Access id now a p (.advance i) { b with calls := b.calls.set i c' } q := by
  cases c with
  | claimed =>
      cases hr : a.pending with
      | none =>
          simp only [advance, hr, Option.some.injEq, Prod.mk.injEq] at h
          obtain ⟨rfl, rfl, rfl⟩ := h
          exact .missReceiver i hc hr
      | some r =>
          simp only [advance, hr, Option.some.injEq, Prod.mk.injEq] at h
          obtain ⟨rfl, rfl, rfl⟩ := h
          exact .takeReceiver i r hc hr
  | announcing r =>
      simp only [advance, Option.map_eq_some_iff, Prod.mk.injEq] at h
      obtain ⟨lifecycle, ho, rfl, rfl, rfl⟩ := h
      exact .announce i r lifecycle hc ho
  | handing r =>
      simp only [advance, Option.some.injEq, Prod.mk.injEq] at h
      obtain ⟨rfl, rfl, rfl⟩ := h
      exact .hand i r hc
  | firing wasNew =>
      simp only [advance, Option.some.injEq, Prod.mk.injEq] at h
      obtain ⟨rfl, rfl, rfl⟩ := h
      exact .fire i wasNew hc
  | dropping =>
      simp only [advance, Option.some.injEq, Prod.mk.injEq] at h
      obtain ⟨rfl, rfl, rfl⟩ := h
      exact .dropReceiver i hc
  | queueing frame =>
      cases hq : a.outbox.queue.closed with
      | true =>
          simp only [advance, hq, if_true, Option.some.injEq, Prod.mk.injEq] at h
          obtain ⟨rfl, rfl, rfl⟩ := h
          exact .missQueue i frame hc hq
      | false =>
          simp only [advance, hq, Bool.false_eq_true, if_false, Option.map_eq_some_iff,
            Prod.mk.injEq] at h
          obtain ⟨queue, ho, rfl, rfl, rfl⟩ := h
          exact .queue i frame queue hc hq ho
  | started result => simp [advance] at h
  | stopped result => simp [advance] at h
  | sent result => simp [advance] at h

theorem access_of_read {e : ReadEvent} (h : a.read e = some b) :
    Access id now a p (.read e) b p := by
  unfold read at h
  split at h
  · next r hr =>
    split at h
    · simp at h
    · next r' hp =>
      split at h
      · next f r'' he =>
        obtain rfl := Option.some.inj h
        exact .readError e r r' r'' f hr hp he
      · next r'' he =>
        obtain rfl := Option.some.inj h
        exact .readOn e r r' r'' hr hp he
  · simp at h

theorem access_of_publishing {r : Marshaler.Receiver μ} {message : Message} {refusal : Option (Nat × Nat)}
    (hr : a.reader = .publishing r message refusal) (h : a.proceed id now p = some (b, q)) :
    Access id now a p .proceed b q := by
  by_cases hf : a.fired = true
  · simp [proceed, hr, hf] at h
  · have hf' : a.fired = false := by simpa using hf
    cases refusal with
    | none =>
        simp only [proceed, hr, if_neg hf, Option.map_eq_some_iff, Prod.mk.injEq] at h
        obtain ⟨messages, ho, rfl, rfl⟩ := h
        exact .deliver r message messages hr hf' ho
    | some refused =>
        obtain ⟨instant, lapse⟩ := refused
        simp only [proceed, hr, if_neg hf, Option.map_eq_some_iff, Prod.mk.injEq] at h
        obtain ⟨throttled, ho, rfl, rfl⟩ := h
        exact .defer r message instant lapse throttled hr hf' ho

theorem access_of_proceed (h : a.proceed id now p = some (b, q)) :
    Access id now a p .proceed b q := by
  -- the reader goes by its own state, and looks at the status and the channels where it is about to use them
  cases hr : a.reader with
  | absent => simp [proceed, hr] at h
  | finished => simp [proceed, hr] at h
  | receiving r =>
      rcases hp : Marshaler.poll r with ⟨_ | result, r'⟩
      · simp [proceed, hr, hp] at h
      · cases result with
        | error f =>
            simp only [proceed, hr, hp, Option.some.injEq, Prod.mk.injEq] at h
            obtain ⟨rfl, rfl⟩ := h
            exact .pollError r r' f hr hp
        | ok message =>
            simp only [proceed, hr, hp, Option.some.injEq, Prod.mk.injEq] at h
            obtain ⟨rfl, rfl⟩ := h
            exact .pollMessage r r' message hr hp
  | failed f =>
      simp only [proceed, hr, Option.some.injEq, Prod.mk.injEq] at h
      obtain ⟨rfl, rfl⟩ := h
      exact .classify f hr
  | judging r message =>
      simp only [proceed, hr, Option.some.injEq, Prod.mk.injEq] at h
      obtain ⟨rfl, rfl⟩ := h
      exact .judge r message hr
  | publishing r message refusal => exact access_of_publishing hr h
  | left ending =>
      by_cases hs : a.status = .running
      · simp only [proceed, hr, hs, settle, if_true, Option.some.injEq, Prod.mk.injEq] at h
        obtain ⟨rfl, rfl⟩ := h
        exact .settleWon ending hr hs
      · have hl : a.proceed id now p = some ({ a with reader := .firing .requested }, p) := by
          cases hst : a.status with
          | running => exact absurd hst hs
          | new => simp [proceed, hr, hst, settle]
          | stopped => simp [proceed, hr, hst, settle]
        rw [hl] at h
        simp only [Option.some.injEq, Prod.mk.injEq] at h
        obtain ⟨rfl, rfl⟩ := h
        exact .settleLost ending hr hs
  | firing ending =>
      simp only [proceed, hr, Option.some.injEq, Prod.mk.injEq] at h
      obtain ⟨rfl, rfl⟩ := h
      exact .fireReader ending hr
  | releasing ending =>
      simp only [proceed, hr, Option.some.injEq, Prod.mk.injEq] at h
      obtain ⟨rfl, rfl⟩ := h
      exact .release ending hr
  | announcing ending =>
      simp only [proceed, hr, Option.map_eq_some_iff, Prod.mk.injEq] at h
      obtain ⟨lifecycle, ho, rfl, rfl⟩ := h
      exact .report ending lifecycle hr ho

theorem access_of_quit (h : a.quit = some b) : Access id now a p .quit b p := by
  unfold quit at h
  split at h
  · next hf =>
    split at h
    · next hr =>
      obtain rfl := Option.some.inj h
      exact .quit (by simp [hr, Reader.mindsToken]) hf
    · next hr =>
      obtain rfl := Option.some.inj h
      exact .quit (by simp [hr, Reader.mindsToken]) hf
    · simp at h
  · simp at h

/-- Every move of an attendant is one of the listed accesses. -/
theorem access_of_step (h : a.step id now p m = some (b, q)) : Access id now a p m b q := by
  cases m with
  | start =>
      simp only [step, Option.some.injEq, Prod.mk.injEq] at h
      obtain ⟨rfl, rfl⟩ := h
      exact access_of_beginStart
  | stop =>
      simp only [step, Option.some.injEq, Prod.mk.injEq] at h
      obtain ⟨rfl, rfl⟩ := h
      exact access_of_beginStop
  | send command args kwargs =>
      simp only [step, Option.some.injEq, Prod.mk.injEq] at h
      obtain ⟨rfl, rfl⟩ := h
      exact access_of_beginSend command args kwargs
  | setThrottle nanos =>
      simp only [step, Option.some.injEq, Prod.mk.injEq] at h
      obtain ⟨rfl, rfl⟩ := h
      exact .setThrottle nanos
  | setThrottleSigned nanos =>
      simp only [step, Option.some.injEq, Prod.mk.injEq] at h
      obtain ⟨rfl, rfl⟩ := h
      exact .setThrottleSigned nanos
  | advance i =>
      cases hc : a.calls[i]? with
      | none => simp [step, hc] at h
      | some c =>
          simp only [step, hc, Option.map_eq_some_iff, Prod.mk.injEq] at h
          obtain ⟨⟨b', q', c'⟩, hadv, rfl, rfl⟩ := h
          exact access_of_advance hc hadv
  | read e =>
      simp only [step, Option.map_eq_some_iff, Prod.mk.injEq] at h
      obtain ⟨b', hb, rfl, rfl⟩ := h
      exact access_of_read hb
  | proceed => exact access_of_proceed h
  | quit =>
      simp only [step, Option.map_eq_some_iff, Prod.mk.injEq] at h
      obtain ⟨b', hb, rfl, rfl⟩ := h
      exact access_of_quit hb
  | writer m =>
      simp only [step, Option.map_eq_some_iff, Prod.mk.injEq] at h
      obtain ⟨outbox, ho, rfl, rfl⟩ := h
      exact .write m outbox ho

end Attendant
end Courier
