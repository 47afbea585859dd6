import Courier.Proofs.Attendant.Loop
import Courier.Proofs.Attendant.Order

/-!
# Publication — no message is lost on the way to the consumer

The read loop hands each message over before it receives the next one, to one of two channels that it shares with other
attendants.  Only a stop makes it give up a message that waits for room, and then it receives no more.

- `Attendant.Settled` — all messages that have been received have been published, but for the last,
- `Attendant.settled_of_access`, `Attendant.settled_of_course` — this is so at any moment of any course,
- `Attendant.hasStarted_of_course` — whoever has published has reported its start before,
- `Attendant.publishing_of_access` — what becomes of a message that waits for room,
- `Attendant.publishes_of_course` — all this together, while somebody receives.
-/

namespace Courier

variable {μ : Type} [Marshaler μ]

namespace Shuffle

variable {α : Type} {xs ys zs : List α}

/-- Each channel has its messages in the order of all. -/
theorem sublist (h : Shuffle xs ys zs) : xs.Sublist zs ∧ ys.Sublist zs := by
  induction h with
  | nil => exact ⟨.slnil, .slnil⟩
  | left _ x ih => exact ⟨ih.1.append (.refl [x]), ih.2.trans (List.sublist_append_left ..)⟩
  | right _ y ih => exact ⟨ih.1.trans (List.sublist_append_left ..), ih.2.append (.refl [y])⟩

end Shuffle

namespace Reader

/-- Whether the read loop has been left. -/
def hasLeft : Reader μ → Bool
  | .left _ | .firing _ | .releasing _ | .announcing _ | .finished => true
  | _ => false

end Reader

namespace Stage

variable {s : Status} {ls hs : List (Call μ)} {pending : Option (Marshaler.Receiver μ)} {rd : Reader μ}

/-- While the read loop goes on, nothing but a stop has fired the token. -/
theorem halted_of_fired (h : Stage s ls hs pending true rd) (hr : rd.isLooping = true) :
    hs = [.stopped (.ok ())] := by
  cases h with
  | haltedLoop _ hh =>
      cases hh
      rfl
  | closed hf _ | haltedClosed hf _ _ => cases rd <;> simp_all [Reader.isLooping, Reader.hasFired]
  | _ => simp [Reader.isLooping] at hr

/-- A read loop has been begun by a start that has come out well. -/
theorem launches_of_begun {fired : Bool} (h : Stage s ls hs pending fired rd) (hr : rd ≠ .absent) :
    ls = [.started (.ok ())] := by
  cases h with
  | fresh _ | launching _ | withdrawing _ | dropping _ | withdrawn | haltedLaunch _ _ => exact absurd rfl hr
  | _ => rfl

end Stage

namespace Attendant

variable {id : AttendantId} {now : Nat} {a b : Attendant μ} {p q : Ports} {m : Move} {i : Nat} {c d : Call μ}

/-- A stop has fired the token, and the read loop has been left. -/
structure Abandoned (a : Attendant μ) : Prop where
  stopped : a.halts = [.stopped (.ok ())]
  fired : a.fired = true
  left : a.reader.hasLeft = true

/-- All messages that have been received have been published, but for the one in hand or the one that has been given up
because of a stop. -/
def Settled (id : AttendantId) (a : Attendant μ) (p : Ports) : Prop :=
  ∃ done rest, a.received = done ++ rest ∧ p.Published id done ∧
    (rest = a.reader.inHand?.toList ∨ (∃ m, rest = [m]) ∧ a.Abandoned)

theorem settled_create (codec : μ) (throttle writer : Nat) (hd : p.deliveries id = [])
    (ht : p.deferrals id = []) : Settled id (create codec throttle writer) p := by
  refine ⟨[], [], rfl, fun _ _ => ?_, .inl rfl⟩
  rw [hd, ht]
  exact .nil

/-! ## Stops that have come out -/

/-- A stop that has come out well stays the only one. -/
theorem halts_of_access (h : Access id now a p m b q) (hs : a.Staged) (hh : a.halts = [.stopped (.ok ())]) :
    b.halts = [.stopped (.ok ())] := by
  cases stops_of_access h with
  | kept hb => exact hb.trans hh
  | begun _ hn =>
      -- the status is final already
      exact absurd (Stage.stopped_of_halts hs (by simp [hh])) hn
  | @advanced c hc hr =>
      obtain rfl : c = .stopped (.ok ()) := by simpa [hh] using hc
      simp [Call.result?] at hr

/-- A read loop that has been left stays so. -/
theorem hasLeft_of_access (h : Access id now a p m b q) (hs : a.Staged) (hl : a.reader.hasLeft = true) :
    b.reader.hasLeft = true := by
  cases h with
  | hand _ _ hc => simp [hs.absent_of_handing hc, Reader.hasLeft] at hl
  | readError _ _ _ _ _ hr _ _ | readOn _ _ _ _ hr _ _ | pollError _ _ _ hr _ | pollMessage _ _ _ hr _
  | classify _ hr | judge _ _ hr | deliver _ _ _ hr _ _ | defer _ _ _ _ _ hr _ _ => simp [hr, Reader.hasLeft] at hl
  | settleWon _ _ _ | settleLost _ _ _ | fireReader _ _ | release _ _ | report _ _ _ _ | quit _ _ => rfl
  | _ => exact hl

/-- The token stays fired. -/
theorem fired_of_access (h : Access id now a p m b q) (hf : a.fired = true) : b.fired = true := by
  cases h with
  | fire _ _ _ | fireReader _ _ => rfl
  | _ => exact hf

theorem abandoned_of_access (h : Access id now a p m b q) (hs : a.Staged) (ha : a.Abandoned) : b.Abandoned :=
  ⟨halts_of_access h hs ha.stopped, fired_of_access h ha.fired, hasLeft_of_access h hs ha.left⟩

/-! ## Messages that have been received -/

namespace Settled

/-- The message in hand, if any, is the same, and whoever has left has done so because of the same stop. -/
theorem keep (h : Settled id a p) (hm : b.received = a.received) (hi : b.reader.inHand? = a.reader.inHand?)
    (ha : a.Abandoned → b.Abandoned) : Settled id b p := by
  obtain ⟨done, rest, hreceived, hpub, hrest⟩ := h
  refine ⟨done, rest, hm.trans hreceived, hpub, ?_⟩
  rcases hrest with rfl | ⟨hone, habandoned⟩
  · exact .inl (by rw [hi])
  · exact .inr ⟨hone, ha habandoned⟩

/-- Only the channel of reports on the life of attendants has been used. -/
theorem of_lifecycle {lifecycle : Channel Notice} (h : Settled id a p) : Settled id a { p with lifecycle } := h

/-- As long as the loop has not been left, all but the message in hand have been published. -/
theorem of_looping (h : Settled id a p) (hl : a.reader.hasLeft = false) :
    ∃ done, a.received = done ++ a.reader.inHand?.toList ∧ p.Published id done := by
  obtain ⟨done, rest, hreceived, hpub, rfl | ⟨-, habandoned⟩⟩ := h
  · exact ⟨done, hreceived, hpub⟩
  · simp [habandoned.left] at hl

end Settled

/-- Each access leaves at most one message unpublished. -/
theorem settled_of_access (h : Access id now a p m b q) (hs : a.Staged) (hp : Settled id a p) :
    Settled id b q := by
  have hkept : a.Abandoned → b.Abandoned := abandoned_of_access h hs
  cases h with
  | hand _ _ hc => exact hp.keep rfl (by rw [hs.absent_of_handing hc]; rfl) hkept
  | announce _ _ _ _ _ =>
      refine Settled.of_lifecycle ?_
      exact hp.keep rfl rfl hkept
  | report _ _ hr _ =>
      refine Settled.of_lifecycle ?_
      exact hp.keep rfl (by rw [hr]; rfl) hkept
  | readError _ _ _ _ _ hr _ _ | readOn _ _ _ _ hr _ _ | pollError _ _ _ hr _ | classify _ hr | judge _ _ hr
  | settleWon _ hr _ | settleLost _ hr _ | fireReader _ hr | release _ hr =>
      exact hp.keep rfl (by rw [hr]; rfl) hkept
  | pollMessage r r' msg hr _ =>
      obtain ⟨done, hreceived, hpub⟩ := hp.of_looping (by rw [hr]; rfl)
      refine ⟨done, [msg], ?_, hpub, .inl rfl⟩
      rw [hr] at hreceived
      simpa [Reader.inHand?] using hreceived
  | deliver r msg messages hr _ ho =>
      obtain ⟨done, hreceived, hpub⟩ := hp.of_looping (by rw [hr]; rfl)
      rw [hr] at hreceived
      exact ⟨done ++ [msg], [], by simpa [Reader.inHand?] using hreceived, Ports.published_deliver hpub ho, .inl rfl⟩
  | defer r msg instant lapse throttled hr _ ho =>
      obtain ⟨done, hreceived, hpub⟩ := hp.of_looping (by rw [hr]; rfl)
      rw [hr] at hreceived
      exact ⟨done ++ [msg], [], by simpa [Reader.inHand?] using hreceived, Ports.published_defer hpub ho, .inl rfl⟩
  | quit hr hf =>
      have hl : a.reader.hasLeft = false := by
        cases ha : a.reader <;> simp_all [Reader.mindsToken, Reader.hasLeft]
      obtain ⟨done, hreceived, hpub⟩ := hp.of_looping hl
      have hstage : Stage a.status a.launches a.halts a.pending true a.reader := hf ▸ hs
      refine ⟨done, _, hreceived, hpub, ?_⟩
      -- whatever is in hand is given up
      cases hi : a.reader.inHand? with
      | none => exact .inl rfl
      | some msg =>
          exact .inr ⟨⟨msg, rfl⟩, hstage.halted_of_fired (Reader.isLooping_of_mindsToken hr), hf, rfl⟩
  | _ => exact hp.keep rfl rfl hkept

theorem settled_of_foreign (hf : p.Foreign id q) (h : Settled id a p) : Settled id a q := by
  obtain ⟨done, rest, hreceived, hpub, hrest⟩ := h
  exact ⟨done, rest, hreceived, Ports.published_of_foreign hf hpub, hrest⟩

theorem settled_of_course {ms : List Move} {codec : μ} {throttle writer : Nat}
    (hd : p.deliveries id = []) (ht : p.deferrals id = [])
    (h : Course id (create codec throttle writer) p ms b q) : b.Staged ∧ Settled id b q :=
  Course.preserves (I := fun a p => a.Staged ∧ Settled id a p)
    (fun hacc hi => ⟨staged_of_access hacc hi.1, settled_of_access hacc hi.1 hi.2⟩)
    (fun hf hi => ⟨hi.1, settled_of_foreign hf hi.2⟩) h
    ⟨staged_create codec throttle writer, settled_create codec throttle writer hd ht⟩

/-! ## Before the first message -/

/-- Nothing has been published before the read loop begins. -/
def Reticent (id : AttendantId) (a : Attendant μ) (p : Ports) : Prop :=
  a.reader = .absent → p.deliveries id = [] ∧ p.deferrals id = []

theorem reticent_of_access (h : Access id now a p m b q) (hr : Reticent id a p) : Reticent id b q := by
  cases h with
  -- the read loop goes on behind its beginning
  | hand _ _ _ | readError _ _ _ _ _ _ _ _ | readOn _ _ _ _ _ _ _ | pollError _ _ _ _ _ | pollMessage _ _ _ _ _
  | classify _ _ | judge _ _ _ | deliver _ _ _ _ _ _ | defer _ _ _ _ _ _ _ _ | settleWon _ _ _ | settleLost _ _ _
  | fireReader _ _ | release _ _ | report _ _ _ _ | quit _ _ => exact fun habsent => by simp at habsent
  | _ => exact hr

theorem reticent_of_foreign (hf : p.Foreign id q) (hr : Reticent id a p) : Reticent id a q := by
  intro habsent
  rw [hf.deliveries_eq, hf.deferrals_eq]
  exact hr habsent

/-- Whoever has published has reported its start before. -/
theorem Reticent.hasStarted (hr : Reticent id a p) (hs : a.Staged) (hp : p.deliveries id ≠ [] ∨ p.deferrals id ≠ []) :
    a.hasStarted = true := by
  have hbegun : a.reader ≠ .absent := by
    intro habsent
    obtain ⟨hd, ht⟩ := hr habsent
    exact hp.elim (absurd hd) (absurd ht)
  unfold Attendant.hasStarted
  rw [Stage.launches_of_begun hs hbegun]
  rfl

theorem hasStarted_of_course {ms : List Move} {codec : μ} {throttle writer : Nat} (hd : p.deliveries id = [])
    (ht : p.deferrals id = []) (h : Course id (create codec throttle writer) p ms b q)
    (hq : q.deliveries id ≠ [] ∨ q.deferrals id ≠ []) : b.hasStarted = true := by
  have hstaged : b.Staged := staged_of_course h (staged_create codec throttle writer)
  have hreticent : Reticent id b q :=
    Course.preserves (I := Reticent id) reticent_of_access reticent_of_foreign h fun _ => ⟨hd, ht⟩
  exact hreticent.hasStarted hstaged hq

/-! ## A message that waits for room -/

/-- The messages of an attendant on both channels, as they are when one more has been handed over. -/
inductive HandedOver (id : AttendantId) (msg : Message) (p q : Ports) : Option (Nat × Nat) → Prop where
  | delivered (hroom : p.messages.isFull = false) (hd : q.deliveries id = p.deliveries id ++ [⟨id, msg⟩])
      (ht : q.deferrals id = p.deferrals id) : HandedOver id msg p q none
  | deferred {instant lapse : Nat} (hroom : p.throttled.isFull = false) (hd : q.deliveries id = p.deliveries id)
      (ht : q.deferrals id = p.deferrals id ++ [⟨id, msg, instant, lapse⟩]) :
      HandedOver id msg p q (some (instant, lapse))

/-- A message waits for room until there is some, and is given up only if a stop has fired the token. -/
theorem publishing_of_access {r : Marshaler.Receiver μ} {msg : Message} {refusal : Option (Nat × Nat)}
    (h : Access id now a p m b q) (hs : a.Staged) (hr : a.reader = .publishing r msg refusal)
    (hm : p.messages.closed = false) (ht : p.throttled.closed = false) :
    (b.reader = .publishing r msg refusal ∧ q.deliveries id = p.deliveries id ∧ q.deferrals id = p.deferrals id) ∨
    (b.reader = .receiving r ∧ HandedOver id msg p q refusal) ∨
    (b.reader = .left .requested ∧ a.fired = true ∧ a.halts = [.stopped (.ok ())]) := by
  cases h with
  | deliver r' msg' messages hr' _ ho =>
      obtain ⟨rfl, rfl, rfl⟩ : r' = r ∧ msg' = msg ∧ none = refusal := by simpa using hr'.symm.trans hr
      -- somebody receives, so that the message has gone to where there was room
      rcases Channel.offer?_eq_some_iff.1 ho with ⟨hclosed, -⟩ | ⟨-, hroom, rfl⟩
      · simp [hm] at hclosed
      · refine .inr (.inl ⟨rfl, .delivered hroom ?_ rfl⟩)
        simp [Ports.deliveries, List.filter_append]
  | defer r' msg' instant lapse throttled hr' _ ho =>
      obtain ⟨rfl, rfl, rfl⟩ : r' = r ∧ msg' = msg ∧ some (instant, lapse) = refusal := by
        simpa using hr'.symm.trans hr
      rcases Channel.offer?_eq_some_iff.1 ho with ⟨hclosed, -⟩ | ⟨-, hroom, rfl⟩
      · simp [ht] at hclosed
      · refine .inr (.inl ⟨rfl, .deferred hroom rfl ?_⟩)
        simp [Ports.deferrals, List.filter_append]
  | hand _ _ hc => simp [hs.absent_of_handing hc] at hr
  | quit hr' hf =>
      have hstage : Stage a.status a.launches a.halts a.pending true a.reader := hf ▸ hs
      exact .inr (.inr ⟨rfl, hf, hstage.halted_of_fired (Reader.isLooping_of_mindsToken hr')⟩)
  | readError _ _ _ _ _ hr' _ _ | readOn _ _ _ _ hr' _ _ | pollError _ _ _ hr' _ | pollMessage _ _ _ hr' _
  | classify _ hr' | judge _ _ hr' | settleWon _ hr' _ | settleLost _ hr' _ | fireReader _ hr' | release _ hr'
  | report _ _ hr' _ => simp [hr'] at hr
  | _ => exact .inl ⟨hr, rfl, rfl⟩

/-- No message of an attendant is lost, and each is on one channel. -/
structure Publishes (id : AttendantId) (a : Attendant μ) (p : Ports) : Prop where
  /-- All messages that have been received have been published, but for the one in hand or the one that has been given
  up because of a stop. -/
  settled : ∃ done rest, a.received = done ++ rest ∧
    Shuffle ((p.deliveries id).map (·.message)) ((p.deferrals id).map (·.message)) done ∧
    (rest = a.reader.inHand?.toList ∨ (∃ m, rest = [m]) ∧ a.Abandoned)
  /-- Each channel has them in the order in which they were received. -/
  ordered : ((p.deliveries id).map (·.message)).Sublist a.received ∧
    ((p.deferrals id).map (·.message)).Sublist a.received
  /-- A message that waits for room goes on to wait, is handed over where there is room, or is given up because of a
  stop. -/
  waiting : ∀ now m r msg refusal b q, a.reader = .publishing r msg refusal → a.step id now p m = some (b, q) →
    (b.reader = .publishing r msg refusal ∧ q.deliveries id = p.deliveries id ∧ q.deferrals id = p.deferrals id) ∨
    (b.reader = .receiving r ∧ HandedOver id msg p q refusal) ∨
    (b.reader = .left .requested ∧ a.fired = true ∧ a.halts = [.stopped (.ok ())])

theorem publishes_of_course {ms : List Move} {codec : μ} {throttle writer : Nat}
    (hd : p.deliveries id = []) (ht : p.deferrals id = [])
    (h : Course id (create codec throttle writer) p ms b q) (hm : q.messages.closed = false)
    (ht' : q.throttled.closed = false) : Publishes id b q := by
  obtain ⟨hs, done, rest, hreceived, hpub, hrest⟩ := settled_of_course hd ht h
  have hshuffle := hpub hm ht'
  have hfront : done.Sublist b.received := hreceived ▸ List.sublist_append_left ..
  refine ⟨⟨done, rest, hreceived, hshuffle, hrest⟩, ?_, ?_⟩
  · exact ⟨hshuffle.sublist.1.trans hfront, hshuffle.sublist.2.trans hfront⟩
  · exact fun _ _ _ _ _ _ _ hr hstep => publishing_of_access (access_of_step hstep) hs hr hm ht'

end Attendant
end Courier
