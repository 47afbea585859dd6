import Courier.Proofs.Attendant.Inbound
import Courier.Proofs.Pair

/-!
# Delivery — from one attendant to the other

What a receiver publishes of the messages that the sender at the other end of its stream has queued.

1. `received_front` — a receiver has made out nothing but messages of the stream, in order,
2. `received_of_starved` — once it needs more bytes and there are none, it has made out all of them,
3. `Pair.delivery_of_reaches` puts encoder, queue, batches, partial writes, cut reads and read loop together.
-/

namespace Courier

/-! ## Receivers of accepted units -/

section

variable {c : Codec} {bytes S : Bytes} {rd : Reader Codec} {received published ms : List Message}
  {verdict : Option Error} {r r' : Receiver}

theorem tracks_front (h : Receiver.Tracks c bytes r received) (hS : bytes <+: S)
    (hc : c.Carries S ms) : received <+: ms := by
  obtain ⟨-, x, rfl, hx⟩ := h
  obtain ⟨rest, rfl⟩ := hS
  obtain ⟨more, rfl, -⟩ := hx.split hc (List.append_assoc ..)
  exact List.prefix_append ..

/-- Reading does not fail in front of more accepted units. -/
theorem not_ends {e : Error} (h : Receiver.Ends c bytes false received e) (hS : bytes <+: S)
    (hc : c.Carries S ms) : False := by
  obtain ⟨rest, rfl⟩ := hS
  rcases h with h | ⟨hended, -⟩
  · obtain ⟨-, hclean⟩ := (h rest).unique (.clean hc) rfl
    simp at hclean
  · simp at hended

/-- What a read loop has received of a stream of accepted units is the front of what the stream carries, and the
loop has not failed. -/
theorem received_front
    (h : Phase (Receiver.Tracks c) (Receiver.Ends c) ⟨bytes, false⟩ rd received published verdict)
    (hS : bytes <+: S) (hc : c.Carries S ms) : received <+: ms ∧ verdict = none := by
  cases h with
  | absent => exact ⟨⟨ms, rfl⟩, rfl⟩
  | receiving ht => exact ⟨tracks_front ht hS hc, rfl⟩
  | judging ht => exact ⟨tracks_front ht hS hc, rfl⟩
  | publishing _ ht => exact ⟨tracks_front ht hS hc, rfl⟩
  | failed he => exact (not_ends he hS hc).elim
  | leaving he _ => exact (not_ends he hS hc).elim
  | finished he => exact (not_ends he hS hc).elim

/-- A receiver that needs more bytes after a whole stream of accepted units has made out all of them. -/
theorem received_of_starved (h : Receiver.Tracks c S r received) (hp : r.poll = (none, r'))
    (hc : c.Carries S ms) : received = ms := by
  obtain ⟨⟨-, x, rfl, hx⟩, hs⟩ := h.starved hp
  obtain ⟨more, rfl, hmore⟩ := hx.split hc rfl
  rcases hs with ⟨hnil, -⟩ | hfault
  · rw [hmore.eq_nil hnil, List.append_nil]
  · exact (hmore.not_fault hfault).elim

/-- With a line limit of zero nothing is received. -/
theorem received_of_stunned {g : Intake}
    (h : Phase Receiver.Stunned (fun _ _ ms e => ms = [] ∧ e = .connectionClosed) g rd received
      published verdict) : received = [] := by
  cases h with
  | absent => rfl
  | receiving ht => exact ht.1
  | judging ht => exact ht.1
  | publishing _ ht => exact ht.1
  | failed he => exact he.1
  | leaving he _ => exact he.1
  | finished he => exact he.1

end

/-- A read loop that has not failed has not been left. -/
theorem looping_of_phase {tracks : Bytes → Receiver → List Message → Prop}
    {ends : Bytes → Bool → List Message → Error → Prop} {g : Intake} {rd : Reader Codec}
    {received published : List Message} (h : Phase tracks ends g rd received published none) :
    rd = .absent ∨ rd.isLooping = true := by
  cases h with
  | absent => exact .inl rfl
  | receiving _ => exact .inr rfl
  | judging _ => exact .inr rfl
  | publishing _ _ => exact .inr rfl

theorem Stage.unstopped {s : Status} {ls : List (Call Codec)} {pending : Option Receiver} {fired : Bool}
    {rd : Reader Codec} (h : Stage s ls [] pending fired rd) (hr : rd = .absent ∨ rd.isLooping = true) :
    s ≠ .stopped ∧ fired = false := by
  cases h with
  | fresh _ => exact ⟨by decide, rfl⟩
  | launching _ => exact ⟨by decide, rfl⟩
  | reading _ => exact ⟨by decide, rfl⟩
  | leaving _ => exact ⟨by decide, rfl⟩
  | closing _ => simp [Reader.isLooping] at hr
  | closed hf _ => cases rd <;> simp_all [Reader.isLooping, Reader.hasFired]

theorem Stage.unfired {s : Status} {ls hs : List (Call Codec)} {pending : Option Receiver} {fired : Bool}
    {rd : Reader Codec} (h : Stage s ls hs pending fired rd) (hs' : s ≠ .stopped) : fired = false := by
  cases h with
  | fresh _ => rfl
  | launching _ => rfl
  | reading _ => rfl
  | leaving _ => rfl
  | _ => exact absurd rfl hs'

namespace Attendant

variable {id : AttendantId} {a : Attendant Codec} {p : Ports}

theorem Orderly.admitted_front (h : Orderly id a p) : p.admitted id <+: a.received := by
  obtain ⟨done, hdone, hfront, -⟩ := h.published
  rw [hdone]
  exact hfront.trans (List.prefix_append ..)

theorem Orderly.admitted_eq (h : Orderly id a p) (hi : a.reader.inHand? = none) (hf : a.fired = false)
    (hc : p.messages.closed = false) : p.admitted id = a.received := by
  obtain ⟨done, hdone, -, hall⟩ := h.published
  rw [hdone, hi, hall hc hf]
  simp

/-- A read loop that is under way, can do nothing by itself and has room waits for its stream. -/
theorem receiving_of_quiet {c : Codec} {g : Intake} {published : List Message} {now : Nat}
    (h : Phase (Receiver.Tracks c) (Receiver.Ends c) g a.reader a.received published none)
    (ho : Orderly id a p) (hf : a.fired = false) (ha : a.reader ≠ .absent)
    (hroom : p.messages.isFull = false) (hq : a.proceed id now p = none) :
    ∃ r r', a.reader = .receiving r ∧ r.poll = (none, r') ∧ Receiver.Tracks c g.bytes r a.received := by
  generalize hr : a.reader = rd at h
  generalize hreceived : a.received = received at h
  cases h with
  | absent => exact absurd hr ha
  | @receiving bytes r _ ht =>
      rcases hp : r.poll with ⟨_ | result, r'⟩
      · exact ⟨r, r', rfl, hp, ht⟩
      · cases result with
        | error e => simp [proceed, hr, hp] at hq
        | ok msg => simp [proceed, hr, hp] at hq
  | judging _ => simp [proceed, hr] at hq
  | @publishing _ r _ msg refusal _ =>
      cases refusal with
      | some refused => exact absurd hr (ho.refusal r msg refused)
      | none =>
          obtain ⟨messages, hoffer⟩ := offer_of_room (⟨id, msg⟩ : Delivery) hroom
          simp [proceed, hr, hf, hoffer] at hq

end Attendant

/-! ## Both ends -/

namespace Pair

variable {codec : Codec} {c c' : Config} {ms : List Move} {s t : Pair}

/-- The writing task, the stream and the read loop can do nothing, although the sink would take any write. -/
structure Quiet (s : Pair) : Prop where
  writer : ∀ w : Outbox.Move, w.isSmooth = true → s.step (.sender (.attendant (.writer w))) = none
  stream : ∀ count, s.step (.carry count) = none
  loop : s.step (.receiver (.attendant .proceed)) = none

/-- The messages of the ledger are those of the stream, of which the receiver has read a part. -/
theorem carries_of_sound {a : Attendant Codec} {p : Ports} (h : Sound codec a p s) :
    codec.Carries s.sender.attendant.outbox.queue.sent.flatten s.posted ∧
      s.sender.attendant.outbox.delivered.take s.carried <+:
        s.sender.attendant.outbox.queue.sent.flatten := by
  have hfront : s.sender.attendant.outbox.delivered.take s.carried <+:
      s.sender.attendant.outbox.delivered := ⟨_, List.take_append_drop ..⟩
  exact ⟨h.backs.posted, hfront.trans h.backs.outbox.delivered_front⟩

/-- In a quiet pair a receiver that waits for its stream has read all that the sink has taken. -/
theorem unread_of_quiet {r r' : Receiver} (hr : s.receiver.attendant.reader = .receiving r)
    (hp : r.poll = (none, r')) (hq : s.step (.carry 1) = none) : s.unread = [] := by
  cases hu : s.unread with
  | nil => rfl
  | cons b rest =>
      unfold step at hq
      simp [hu, Solo.step, Attendant.step, Attendant.read, hr, hp, Receiver.absorb] at hq

theorem delivered_of_quiet {a : Attendant Codec} {p : Ports} (h : Sound codec a p s) (hl : s.Lively)
    (hf : s.sender.attendant.fired = false) (hq : s.Quiet) :
    s.sender.attendant.outbox.delivered = s.sender.attendant.outbox.queue.sent.flatten := by
  refine Outbox.delivered_of_quiet h.backs.outbox (hl hf) fun w hw => ?_
  have hstep := hq.writer w hw
  simpa [step, Solo.step, Attendant.step, hf] using hstep

/-- What the receiver has published of the messages that have been queued, without a stop or a throttle on the
receiver, as long as the messages can be read: at any moment the front of them, in queue order.

Once a pair is quiet whose sink has never failed, whose sender has not stopped and whose receiver has started,
and whose consumer has taken enough, it is all of them.  The exception is a line limit that does not fit a 64-bit
word: then nothing is ever published. -/
theorem delivery_of_reaches (codec : Codec) (c c' : Config) (hc' : c'.throttle = 0)
    (h : Reaches (create codec c c') ms t) (hms : ∀ m ∈ ms, m.Allowed codec) :
    t.published <+: t.posted ∧
    (codec.overflows = false →
      t.receiver.attendant.status ≠ .stopped ∧
      ((∀ m ∈ ms, m.IsSmooth) → t.Quiet → t.sender.attendant.status ≠ .stopped →
        (∃ call ∈ t.receiver.attendant.calls, call.startedWell = true) →
        t.receiver.ports.messages.closed = false → t.receiver.ports.messages.isFull = false →
        t.published = t.posted)) ∧
    (codec.overflows = true → t.published = []) := by
  have hsound := sound_of_reaches h hms
  obtain ⟨hcarries, hfront⟩ := carries_of_sound hsound
  obtain ⟨ns, hcourse, hintake, hns⟩ := hsound.receiver
  have hplain : ∀ n ∈ ns, n.isPlain = true := fun n hn => (hns n hn).1
  have horderly : Attendant.Orderly Solo.id t.receiver.attendant t.receiver.ports := by
    have hcreate : (create codec c c').receiver.attendant =
        Attendant.create codec 0 c'.normalized.writer := by
      rw [← hc']
      rfl
    have hcourse' := hcourse
    rw [hcreate] at hcourse'
    exact Attendant.orderly_of_course codec c'.normalized.writer rfl hcourse' fun n hn => (hns n hn).2
  cases hover : codec.overflows with
  | true =>
      obtain ⟨-, published, verdict, hloop⟩ :=
        loop_of_course (Receiver.account_of_overflows hover) rfl rfl rfl hcourse hplain
      have hnil : t.published = [] := by
        have hadmitted := horderly.admitted_front
        rw [received_of_stunned hloop.phase] at hadmitted
        exact List.prefix_nil.1 hadmitted
      exact ⟨⟨t.posted, by rw [hnil]; rfl⟩, by simp, fun _ => hnil⟩
  | false =>
      obtain ⟨hhalts, published, verdict, hloop⟩ :=
        loop_of_course (Receiver.account hover) rfl rfl rfl hcourse hplain
      have hphase := hloop.phase
      rw [hintake] at hphase
      obtain ⟨hreceived, rfl⟩ := received_front hphase hfront hcarries
      have hstaged := Attendant.staged_of_course hcourse (Attendant.staged_create _ _ _)
      have hstage : Stage t.receiver.attendant.status t.receiver.attendant.launches []
          t.receiver.attendant.pending t.receiver.attendant.fired t.receiver.attendant.reader :=
        hhalts ▸ hstaged
      obtain ⟨hstatus, hunfired⟩ := hstage.unstopped (looping_of_phase hphase)
      refine ⟨horderly.admitted_front.trans hreceived, fun _ => ⟨hstatus, ?_⟩, by simp⟩
      intro hsmooth hquiet hsender hstarted hopen hroom
      obtain ⟨-, hlaunched⟩ := hstaged.of_startedWell hhalts hstarted
      have hloop' : t.receiver.attendant.proceed Solo.id t.receiver.now t.receiver.ports = none := by
        simpa [step, yields, Solo.step, Attendant.step] using hquiet.loop
      obtain ⟨r, r', hr, hp, htracks⟩ := Attendant.receiving_of_quiet hphase horderly hunfired
        hlaunched.not_absent hroom hloop'
      have hunread := unread_of_quiet hr hp (hquiet.stream 1)
      have hall := delivered_of_quiet hsound (lively_of_reaches h hsmooth)
        (hsound.staged.unfired hsender) hquiet
      have hread : t.sender.attendant.outbox.delivered.take t.carried =
          t.sender.attendant.outbox.queue.sent.flatten := by
        rw [← hall]
        exact List.take_of_length_le (List.drop_eq_nil_iff.1 hunread)
      rw [hread] at htracks
      calc t.published = t.receiver.attendant.received :=
            horderly.admitted_eq (by rw [hr]; rfl) hunfired hopen
        _ = t.posted := received_of_starved htracks hp hcarries

/-! ### Two runs -/

/-- Whether the sender's writing task waits for a frame and there is none. -/
def isIdle (s : Pair) : Bool :=
  match s.sender.attendant.outbox.phase with
  | .waiting => s.sender.attendant.outbox.queue.isEmpty && !s.sender.attendant.fired
  | _ => false

/-- Whether the receiver has started, and its consumer is there and has taken enough. -/
def isOpen (s : Pair) : Bool :=
  s.receiver.attendant.calls.any Call.startedWell && !s.receiver.ports.messages.closed &&
    !s.receiver.ports.messages.isFull

/-- Whether the receiver has read the stream and needs more of it. -/
def isDrained (s : Pair) : Bool :=
  match s.receiver.attendant.reader with
  | .receiving r => s.unread.isEmpty && r.poll.1.isNone
  | _ => false

theorem writer_of_isIdle (h : s.isIdle = true) (w : Outbox.Move) :
    s.step (.sender (.attendant (.writer w))) = none := by
  unfold isIdle at h
  cases hp : s.sender.attendant.outbox.phase <;> simp only [hp] at h <;> try contradiction
  simp only [Bool.and_eq_true, Bool.not_eq_true'] at h
  have htake : s.sender.attendant.outbox.queue.take? = none := by
    rw [Channel.take?_eq_none_iff]
    exact List.drop_eq_nil_of_le (by simpa [Channel.isEmpty] using h.1)
  cases w <;> simp [step, Solo.step, Attendant.step, Outbox.step, hp, htake, h.2]

theorem quiet_of_isDrained (h : s.isIdle = true) (hd : s.isDrained = true) : s.Quiet := by
  unfold isDrained at hd
  cases hr : s.receiver.attendant.reader <;> simp only [hr] at hd <;> try contradiction
  simp only [Bool.and_eq_true, List.isEmpty_iff, Option.isNone_iff_eq_none] at hd
  refine ⟨fun w _ => writer_of_isIdle h w, fun count => ?_, ?_⟩
  · simp [step, hd.1]
  · simp only [step, yields, Solo.step, Attendant.step, Attendant.proceed, hr, Marshaler.poll_codec]
    rename_i r
    rcases hp : r.poll with ⟨_ | result, r'⟩
    · rfl
    · simp [hp] at hd

theorem quiet_of_finished (h : s.isIdle = true) (hr : s.receiver.attendant.reader = .finished) :
    s.Quiet := by
  refine ⟨fun w _ => writer_of_isIdle h w, fun count => ?_, ?_⟩
  · cases hu : s.unread.take count with
    | nil => simp [step, hu]
    | cons b data => simp [step, hu, Solo.step, Attendant.step, Attendant.read, hr]
  · simp [step, yields, Solo.step, Attendant.step, Attendant.proceed, hr]

/-- Two messages in one batch, written in two parts and read in three. -/
def twoMessages : List Move :=
  [.receiver (.attendant .start), .receiver (.attendant (.advance 0)),
    .receiver (.attendant (.advance 0)), .receiver (.attendant (.advance 0)),
    .sender (.attendant (.send "A" [] [])), .sender (.attendant (.send "B" [.null] [])),
    .sender (.attendant (.advance 0)), .sender (.attendant (.advance 1)),
    .sender (.attendant (.writer .take)), .sender (.attendant (.writer .gather)),
    .sender (.attendant (.writer .seal)), .sender (.attendant (.writer (.write (.took 45)))),
    .carry 30, .carry 30, .sender (.attendant (.writer (.write (.took 35)))),
    .sender (.attendant (.writer (.flush none))), .receiver (.attendant .proceed),
    .receiver (.attendant .proceed), .receiver (.attendant .proceed), .carry 80,
    .receiver (.attendant .proceed), .receiver (.attendant .proceed), .receiver (.attendant .proceed)]

theorem delivery_of_two_messages :
    ∃ t, (create (.lines 80) {} {}).after twoMessages = some t ∧
      t.posted.map (·.command) = ["A", "B"] ∧ t.published = t.posted := by
  have hA : (Codec.lines 80).Accepts "A" [] [] := ⟨by simp, by simp, by decide⟩
  have hB : (Codec.lines 80).Accepts "B" [.null] [] := ⟨by simpa using .null _, by simp, by decide⟩
  obtain ⟨t, h, hcheck⟩ := (Option.any_eq_true (fun t : Pair =>
    t.posted.map (·.command) == ["A", "B"] && t.isIdle && t.isDrained && t.isOpen &&
      t.sender.attendant.status != .stopped) ((create (.lines 80) {} {}).after twoMessages)).1
    (by decide +kernel)
  simp only [isOpen, Bool.and_eq_true, beq_iff_eq, bne_iff_ne, Bool.not_eq_true', List.any_eq_true]
    at hcheck
  obtain ⟨⟨⟨⟨hposted, hidle⟩, hdrained⟩, ⟨hstarted, hopen⟩, hroom⟩, hstatus⟩ := hcheck
  refine ⟨t, h, hposted, ?_⟩
  have hdelivery := delivery_of_reaches (.lines 80) {} {} rfl (reaches_of_after h)
    (by simp [twoMessages, Move.Allowed, hA, hB, Attendant.Move.isUnthrottled])
  exact (hdelivery.2.1 rfl).2 (by simp [twoMessages, Move.IsSmooth, Outbox.Move.isSmooth])
    (quiet_of_isDrained hidle hdrained) hstatus hstarted hopen hroom

/-- A message that is written as a whole while the receiver leaves its loop. -/
def oneMessage : List Move :=
  [.receiver (.attendant .start), .receiver (.attendant (.advance 0)),
    .receiver (.attendant (.advance 0)), .receiver (.attendant (.advance 0)),
    .sender (.attendant (.send "A" [] [])), .sender (.attendant (.advance 0)),
    .sender (.attendant (.writer .take)), .sender (.attendant (.writer .seal)),
    .sender (.attendant (.writer (.write (.took 38)))), .sender (.attendant (.writer (.flush none))),
    .receiver (.attendant .proceed), .receiver (.attendant .proceed),
    .receiver (.attendant .proceed), .receiver (.attendant .proceed),
    .receiver (.attendant .proceed), .receiver (.attendant .proceed)]

/-- With the largest maximum a message that the sink has taken is never published, although nobody has stopped
anything. -/
theorem undelivered_message :
    ∃ t, (create (.lines 18446744073709551615) {} {}).after oneMessage = some t ∧
      (∀ m ∈ oneMessage, m.Allowed (.lines 18446744073709551615) ∧ m.IsSmooth) ∧ t.Quiet ∧
      t.sender.attendant.status ≠ .stopped ∧ t.isOpen = true ∧
      t.posted.map (·.command) = ["A"] ∧ t.published = [] := by
  have hA : (Codec.lines 18446744073709551615).Accepts "A" [] [] := ⟨by simp, by simp, by decide⟩
  obtain ⟨t, h, hcheck⟩ := (Option.any_eq_true (fun t : Pair =>
    t.posted.map (·.command) == ["A"] && t.isIdle && t.isOpen && t.sender.attendant.status != .stopped &&
      t.published.isEmpty && t.receiver.attendant.reader.isFinished)
      ((create (.lines 18446744073709551615) {} {}).after oneMessage)).1
    (by decide +kernel)
  simp only [Bool.and_eq_true, beq_iff_eq, bne_iff_ne, List.isEmpty_iff] at hcheck
  obtain ⟨⟨⟨⟨⟨hposted, hidle⟩, hopen⟩, hstatus⟩, hpublished⟩, hreader⟩ := hcheck
  refine ⟨t, h, ?_, quiet_of_finished hidle ?_, hstatus, hopen, hposted, hpublished⟩
  · simp [oneMessage, Move.Allowed, Move.IsSmooth, Outbox.Move.isSmooth, hA,
      Attendant.Move.isUnthrottled]
  · cases hr : t.receiver.attendant.reader with
    | finished => rfl
    | _ => simp [hr, Reader.isFinished] at hreader

end Pair
end Courier
