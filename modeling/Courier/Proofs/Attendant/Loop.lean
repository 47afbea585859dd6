import Courier.Proofs.Attendant.Outcome
import Courier.Proofs.Receiver

/-!
# Loop — what the read loop has made of the stream so far

The read loop of an attendant that nobody stops, for receivers of which an account is given.

1. `Intake` collects what the stream has yielded in a run,
2. `Shuffle` says that messages went one by one to either of two channels,
3. `Loop` relates intake, read loop and published messages, and `loop_of_access` keeps it,
4. `Attendant.loop_of_course` holds of a fresh attendant after any run without a stop.
-/

namespace Courier

/-! ## What the stream has yielded -/

/-- The bytes that have been read, and whether the end has been met. -/
structure Intake where
  bytes : Bytes := []
  ended : Bool := false

namespace Intake

/-- The intake after a move. -/
def take (g : Intake) : Attendant.Move → Intake
  | .read (.data []) => { g with ended := true }
  | .read (.data (b :: bytes)) => { g with bytes := g.bytes ++ b :: bytes }
  | .read .ended => { g with ended := true }
  | _ => g

/-- The intake of a run. -/
def ofMoves (ms : List Attendant.Move) : Intake :=
  ms.foldl take {}

end Intake

/-- Neither a stop nor a failure of the stream. -/
def Attendant.Move.isPlain : Attendant.Move → Bool
  | .stop => false
  | .read (.failed _) => false
  | _ => true

/-! ## Messages on two channels -/

/-- The third list is a shuffle of the first two. -/
inductive Shuffle {α : Type} : List α → List α → List α → Prop where
  | nil : Shuffle [] [] []
  | left {xs ys zs : List α} (h : Shuffle xs ys zs) (x : α) : Shuffle (xs ++ [x]) ys (zs ++ [x])
  | right {xs ys zs : List α} (h : Shuffle xs ys zs) (y : α) : Shuffle xs (ys ++ [y]) (zs ++ [y])

namespace Shuffle

variable {α : Type} {xs ys zs : List α}

theorem eq_nil (h : Shuffle xs ys zs) (hz : zs = []) : xs = [] ∧ ys = [] := by
  cases h with
  | nil => exact ⟨rfl, rfl⟩
  | left _ _ => simp at hz
  | right _ _ => simp at hz

end Shuffle

namespace Ports

/-- The messages of an attendant have been published, some as too early, unless their receiving ends are
gone. -/
def Published (id : AttendantId) (p : Ports) (ms : List Message) : Prop :=
  p.messages.closed = false → p.throttled.closed = false →
    Shuffle ((p.deliveries id).map (·.message)) ((p.deferrals id).map (·.message)) ms

variable {id : AttendantId} {p q : Ports} {ms : List Message} {m : Message}

theorem published_deliver {c : Channel Delivery} (h : p.Published id ms)
    (ho : p.messages.offer? ⟨id, m⟩ = some c) :
    ({ p with messages := c } : Ports).Published id (ms ++ [m]) := by
  intro hm ht
  have hclosed : c.closed = p.messages.closed := Channel.closed_of_offer? ho
  have hopen : p.messages.closed = false := hclosed.symm.trans hm
  have hsent : c.sent = p.messages.sent ++ [⟨id, m⟩] := Channel.sent_of_offer? ho hopen
  have hd : ({ p with messages := c } : Ports).deliveries id = p.deliveries id ++ [⟨id, m⟩] := by
    simp [deliveries, hsent, List.filter_append]
  rw [hd, List.map_append]
  exact (h hopen ht).left m

theorem published_defer {c : Channel Deferral} {instant lapse : Nat} (h : p.Published id ms)
    (ho : p.throttled.offer? ⟨id, m, instant, lapse⟩ = some c) :
    ({ p with throttled := c } : Ports).Published id (ms ++ [m]) := by
  intro hm ht
  have hclosed : c.closed = p.throttled.closed := Channel.closed_of_offer? ho
  have hopen : p.throttled.closed = false := hclosed.symm.trans ht
  have hsent : c.sent = p.throttled.sent ++ [⟨id, m, instant, lapse⟩] :=
    Channel.sent_of_offer? ho hopen
  have hd : ({ p with throttled := c } : Ports).deferrals id =
      p.deferrals id ++ [⟨id, m, instant, lapse⟩] := by
    simp [deferrals, hsent, List.filter_append]
  rw [hd, List.map_append]
  exact (h hm hopen).right m

theorem published_of_foreign (hf : p.Foreign id q) (h : p.Published id ms) : q.Published id ms := by
  intro hm ht
  rw [hf.deliveries_eq, hf.deferrals_eq]
  refine h ?_ ?_
  · cases hc : p.messages.closed with
    | false => rfl
    | true => rw [hf.messages.closed hc] at hm; exact hm
  · cases hc : p.throttled.closed with
    | false => rfl
    | true => rw [hf.throttled.closed hc] at ht; exact ht

end Ports

/-! ## What an attendant is like that nobody has stopped -/

namespace Stage

variable {s : Status} {ls : List (Call Codec)} {pending : Option Receiver} {fired : Bool} {rd : Reader Codec}
  {e : Ending}

theorem not_fired (h : Stage s ls [] pending fired rd) (hr : rd.isLooping = true) :
    fired = false := by
  cases h with
  | closed hf _ => cases rd <;> simp_all [Reader.isLooping, Reader.hasFired]
  | _ => rfl

theorem running_of_left (h : Stage s ls [] pending fired (.left e)) : s = .running := by
  cases h with
  | closed hf _ => simp [Reader.hasFired] at hf
  | _ => rfl

theorem not_absent (h : Stage s [.started (.ok ())] [] pending fired rd) : rd ≠ .absent := by
  rintro rfl
  cases h with
  | launching hc => cases hc
  | reading hr => simp [Reader.isLooping] at hr
  | closed hf _ => simp [Reader.hasFired] at hf

end Stage

namespace Call

/-- The receiver that a start carries. -/
def receiver? : Call Codec → Option Receiver
  | .announcing r => some r
  | .handing r => some r
  | _ => none

end Call

namespace Attendant

variable {id : AttendantId} {now : Nat} {a b : Attendant Codec} {p q : Ports} {m : Move} {c d : Call Codec}
  {i : Nat} {codec : Codec}

/-- The receiver is fresh as long as the read loop does not have it. -/
def Waits (codec : Codec) (a : Attendant Codec) : Prop :=
  ∀ r, (a.pending = some r ∨ ∃ c ∈ a.calls, c.receiver? = some r) → r = Marshaler.start codec

theorem waits_create (codec : Codec) (throttle writer : Nat) :
    (create codec throttle writer).Waits codec := by
  intro r hr
  simpa [create, eq_comm] using hr

theorem Waits.record (h : a.Waits codec) (hc : c.receiver? = none) : (a.record c).Waits codec := by
  intro r hr
  rcases hr with hr | ⟨d, hd, hdr⟩
  · exact h r (.inl hr)
  · rcases List.mem_append.1 hd with hd | hd
    · exact h r (.inr ⟨d, hd, hdr⟩)
    · obtain rfl : d = c := by simpa using hd
      simp [hc] at hdr

theorem Waits.set (h : a.Waits codec) (hb : b.calls = a.calls.set i d)
    (hp : ∀ r, b.pending = some r → a.pending = some r)
    (hd : ∀ r, d.receiver? = some r → r = Marshaler.start codec) : b.Waits codec := by
  intro r hr
  rcases hr with hr | ⟨d', hd', hdr⟩
  · exact h r (.inl (hp r hr))
  · rw [hb] at hd'
    rcases List.mem_or_eq_of_mem_set hd' with hd' | rfl
    · exact h r (.inr ⟨d', hd', hdr⟩)
    · exact hd r hdr

theorem waits_of_access (h : Access id now a p m b q) (hw : a.Waits codec) : b.Waits codec := by
  cases h with
  | claim _ => exact Waits.record (a := { a with status := .running }) hw rfl
  | refuseStart _ => exact hw.record rfl
  | halt _ => exact Waits.record (a := { a with status := .stopped }) hw rfl
  | refuseStop _ => exact hw.record rfl
  | refuseSend _ _ _ _ => exact hw.record rfl
  | encode _ _ _ _ _ => exact hw.record rfl
  | takeReceiver i r hc hr =>
      refine hw.set (d := .announcing r) rfl (by simp) fun r' hr' => ?_
      obtain rfl : r = r' := by simpa [Call.receiver?] using hr'
      exact hw r (.inl hr)
  | missReceiver i _ _ => exact hw.set rfl (fun _ h => h) (by simp [Call.receiver?])
  | announce i r _ hc _ =>
      refine hw.set (d := .handing r) rfl (fun _ h => h) fun r' hr' => ?_
      obtain rfl : r = r' := by simpa [Call.receiver?] using hr'
      exact hw r (.inr ⟨.announcing r, List.mem_of_getElem? hc, rfl⟩)
  | hand i r _ => exact hw.set rfl (fun _ h => h) (by simp [Call.receiver?])
  | fire i wasNew _ =>
      exact hw.set rfl (fun _ h => h) (by cases wasNew <;> simp [Call.receiver?])
  | dropReceiver i _ => exact hw.set rfl (by simp) (by simp [Call.receiver?])
  | missQueue i _ _ _ => exact hw.set rfl (fun _ h => h) (by simp [Call.receiver?])
  | queue i _ _ _ _ _ => exact hw.set rfl (fun _ h => h) (by simp [Call.receiver?])
  | _ => exact hw

/-- Without a stop among the moves no stop makes the status final. -/
theorem unhalted_of_access (h : Access id now a p m b q) (hm : m ≠ .stop) (hh : a.halts = []) :
    b.halts = [] := by
  cases stops_of_access h with
  | kept hb => exact hb.trans hh
  | begun hstop _ => exact absurd hstop hm
  | advanced hc _ => simp [hh] at hc

end Attendant

/-! ## The loop -/

section Loop

variable (tracks : Bytes → Receiver → List Message → Prop)
  (ends : Bytes → Bool → List Message → Error → Prop)

/-- The read loop after an intake, with all messages received, those already published, and the error that
reading has ended with. -/
inductive Phase : Intake → Reader Codec → List Message → List Message → Option Error → Prop where
  | absent : Phase {} .absent [] [] none
  | receiving {bytes : Bytes} {r : Receiver} {ms : List Message} (ht : tracks bytes r ms) :
      Phase ⟨bytes, false⟩ (.receiving r) ms ms none
  | judging {bytes : Bytes} {r : Receiver} {ms : List Message} {m : Message}
      (ht : tracks bytes r (ms ++ [m])) :
      Phase ⟨bytes, false⟩ (.judging r m) (ms ++ [m]) ms none
  | publishing {bytes : Bytes} {r : Receiver} {ms : List Message} {m : Message}
      (refusal : Option (Nat × Nat)) (ht : tracks bytes r (ms ++ [m])) :
      Phase ⟨bytes, false⟩ (.publishing r m refusal) (ms ++ [m]) ms none
  | failed {g : Intake} {ms : List Message} {e : Error} (he : ends g.bytes g.ended ms e) :
      Phase g (.failed e) ms ms (some e)
  | leaving {g : Intake} {rd : Reader Codec} {ms : List Message} {e : Error}
      (he : ends g.bytes g.ended ms e) (hr : rd.ending? = some (.ofError e)) :
      Phase g rd ms ms (some e)
  | finished {g : Intake} {ms : List Message} {e : Error} (he : ends g.bytes g.ended ms e) :
      Phase g .finished ms ms (some e)

/-- The read loop, and what it has reported. -/
structure Loop (id : AttendantId) (g : Intake) (a : Attendant Codec) (p : Ports) (published : List Message)
    (verdict : Option Error) : Prop where
  phase : Phase tracks ends g a.reader a.received published verdict
  published : p.Published id published
  reported : ∀ e, .stopped id e ∈ p.notices id →
    a.reader = .finished ∧ verdict.map Ending.ofError = some e

variable {tracks ends} {codec : Codec} {id : AttendantId} {now : Nat} {g : Intake}
  {a b : Attendant Codec} {p q : Ports} {m : Attendant.Move} {published : List Message}
  {verdict : Option Error}

namespace Phase

variable {rd : Reader Codec} {r : Receiver} {ms : List Message} {msg : Message}

/-- The read loop has taken nothing in before it begins. -/
theorem of_absent (h : Phase tracks ends g .absent ms published verdict) : g = {} ∧ ms = [] ∧ published = [] := by
  cases h with
  | absent => exact ⟨rfl, rfl, rfl⟩
  | leaving _ he => simp [Reader.ending?] at he

/-- While it receives, all messages have been published. -/
theorem of_receiving (h : Phase tracks ends g (.receiving r) ms published verdict) :
    ∃ bytes, g = ⟨bytes, false⟩ ∧ published = ms ∧ tracks bytes r ms := by
  cases h with
  | receiving ht => exact ⟨_, rfl, rfl, ht⟩
  | leaving _ he => simp [Reader.ending?] at he

theorem of_judging (h : Phase tracks ends g (.judging r msg) ms published verdict) :
    ∃ bytes, g = ⟨bytes, false⟩ ∧ ms = published ++ [msg] ∧ tracks bytes r ms := by
  cases h with
  | judging ht => exact ⟨_, rfl, rfl, ht⟩
  | leaving _ he => simp [Reader.ending?] at he

theorem of_publishing {refusal : Option (Nat × Nat)}
    (h : Phase tracks ends g (.publishing r msg refusal) ms published verdict) :
    ∃ bytes, g = ⟨bytes, false⟩ ∧ ms = published ++ [msg] ∧ tracks bytes r ms := by
  cases h with
  | publishing _ ht => exact ⟨_, rfl, rfl, ht⟩
  | leaving _ he => simp [Reader.ending?] at he

theorem of_failed {e : Error} (h : Phase tracks ends g (.failed e) ms published verdict) :
    published = ms ∧ ends g.bytes g.ended ms e := by
  cases h with
  | failed he => exact ⟨rfl, he⟩
  | leaving _ he => simp [Reader.ending?] at he

/-- Behind the ending stands the error that reading has ended with. -/
theorem of_ending {ending : Ending} (h : Phase tracks ends g rd ms published verdict)
    (hr : rd.ending? = some ending) :
    ∃ e, verdict = some e ∧ published = ms ∧ ends g.bytes g.ended ms e ∧ Ending.ofError e = ending := by
  cases h with
  | leaving he hr' => exact ⟨_, rfl, rfl, he, Option.some.inj (hr'.symm.trans hr)⟩
  | _ => simp [Reader.ending?] at hr

/-- The ending is taken one step further. -/
theorem end_of_ending {rd' : Reader Codec} {ending : Ending} (h : Phase tracks ends g rd ms published verdict)
    (hr : rd.ending? = some ending) (hr' : rd'.ending? = some ending) :
    Phase tracks ends g rd' ms published verdict := by
  obtain ⟨e, rfl, rfl, he, rfl⟩ := h.of_ending hr
  exact .leaving he hr'

end Phase

/-! ### What a read yields -/

section Absorb

variable {bytes : Bytes} {r r' r'' : Receiver} {ms : List Message} {ev : ReadEvent}

/-- A read that the receiver fails of has met the end of the stream, with no bytes or by being told so. -/
theorem ends_of_absorb {f : Error} (account : Receiver.Account codec tracks ends)
    (hm : (Attendant.Move.read ev).isPlain = true) (ht : tracks bytes r ms) (hp : r.poll = (none, r'))
    (he : r'.absorb ev = (some f, r'')) :
    Intake.take ⟨bytes, false⟩ (.read ev) = ⟨bytes, true⟩ ∧ ends bytes true ms f := by
  have hend := account.ended ht hp
  cases ev with
  | data data =>
      cases data with
      | nil =>
          obtain ⟨rfl, -⟩ : r'.atEnd.1 = f ∧ _ := by simpa [Receiver.absorb, Prod.map] using he
          exact ⟨rfl, hend⟩
      | cons b data => simp [Receiver.absorb] at he
  | notReady => simp [Receiver.absorb] at he
  | ended =>
      obtain ⟨rfl, -⟩ : r'.atEnd.1 = f ∧ _ := by simpa [Receiver.absorb, Prod.map] using he
      exact ⟨rfl, hend⟩
  | failed _ => simp [Attendant.Move.isPlain] at hm

/-- Any other read adds to the bytes, or nothing if there is nothing to read yet. -/
theorem tracks_of_absorb (account : Receiver.Account codec tracks ends)
    (hm : (Attendant.Move.read ev).isPlain = true) (ht : tracks bytes r ms) (hp : r.poll = (none, r'))
    (he : r'.absorb ev = (none, r'')) :
    ∃ bytes', Intake.take ⟨bytes, false⟩ (.read ev) = ⟨bytes', false⟩ ∧ tracks bytes' r'' ms := by
  have ht' := account.waiting ht hp
  cases ev with
  | data data =>
      cases data with
      | nil => simp [Receiver.absorb, Prod.map] at he
      | cons b data =>
          obtain rfl : r'.feed (b :: data) = r'' := by simpa [Receiver.absorb] using he
          exact ⟨_, rfl, account.fed (b :: data) ht'⟩
  | notReady =>
      obtain rfl : r' = r'' := by simpa [Receiver.absorb] using he
      exact ⟨_, rfl, ht'⟩
  | ended => simp [Receiver.absorb, Prod.map] at he
  | failed _ => simp [Attendant.Move.isPlain] at hm

end Absorb

/-! ### Accesses -/

/-- Nothing that matters to the read loop has changed. -/
theorem Loop.of_eq (h : Loop tracks ends id g a p published verdict) (hr : b.reader = a.reader)
    (hm : b.received = a.received) : Loop tracks ends id g b p published verdict :=
  ⟨by rw [hr, hm]; exact h.phase, h.published, by rw [hr]; exact h.reported⟩

/-- The read loop has moved on and is not finished. -/
theorem Loop.advance {g' : Intake} {verdict' : Option Error}
    (h : Loop tracks ends id g a p published verdict) (hr : a.reader ≠ .finished)
    (hphase : Phase tracks ends g' b.reader b.received published verdict') :
    Loop tracks ends id g' b p published verdict' :=
  ⟨hphase, h.published, fun e he => absurd (h.reported e he).1 hr⟩

/-- Each access of an attendant that nobody stops keeps the read loop in line with the stream. -/
theorem loop_of_access (account : Receiver.Account codec tracks ends)
    (h : Attendant.Access id now a p m b q) (hm : m.isPlain = true) (hs : a.Staged)
    (hh : a.halts = []) (hw : a.Waits codec) (hl : Loop tracks ends id g a p published verdict) :
    ∃ published verdict, Loop tracks ends id (g.take m) b q published verdict := by
  have hs' : Stage a.status a.launches [] a.pending a.fired a.reader := hh ▸ hs
  have hphase := hl.phase
  cases h with
  | claim _ => exact ⟨_, _, hl.of_eq rfl rfl⟩
  | refuseStart _ => exact ⟨_, _, hl.of_eq rfl rfl⟩
  | halt _ => simp [Attendant.Move.isPlain] at hm
  | refuseStop _ => simp [Attendant.Move.isPlain] at hm
  | refuseSend _ _ _ _ => exact ⟨_, _, hl.of_eq rfl rfl⟩
  | encode _ _ _ _ _ => exact ⟨_, _, hl.of_eq rfl rfl⟩
  | setThrottle _ => exact ⟨_, _, hl.of_eq rfl rfl⟩
  | setThrottleSigned _ => exact ⟨_, _, hl.of_eq rfl rfl⟩
  | takeReceiver _ _ _ _ => exact ⟨_, _, hl.of_eq rfl rfl⟩
  | missReceiver _ _ _ => exact ⟨_, _, hl.of_eq rfl rfl⟩
  | announce i r lifecycle hc ho =>
      refine ⟨_, verdict, hphase, hl.published, fun e he => hl.reported e ?_⟩
      rcases Ports.mem_notices_offer ho he with he | he
      · exact he
      · cases he
  | hand i r hc =>
      -- the reader begins with the receiver that the attendant was made with, which has taken nothing in
      have hr : a.reader = .absent := hs.absent_of_handing hc
      obtain rfl : r = Marshaler.start codec := hw r (.inr ⟨_, List.mem_of_getElem? hc, rfl⟩)
      rw [hr] at hphase
      obtain ⟨rfl, hreceived, rfl⟩ := hphase.of_absent
      refine ⟨[], none, hl.advance (by simp [hr]) ?_⟩
      rw [hreceived]
      exact .receiving account.start
  | fire _ _ _ => exact ⟨_, _, hl.of_eq rfl rfl⟩
  | dropReceiver _ _ => exact ⟨_, _, hl.of_eq rfl rfl⟩
  | missQueue _ _ _ _ => exact ⟨_, _, hl.of_eq rfl rfl⟩
  | queue _ _ _ _ _ _ => exact ⟨_, _, hl.of_eq rfl rfl⟩
  | readError ev r r' r'' f hr hp he =>
      rw [hr] at hphase
      obtain ⟨bytes, rfl, rfl, ht⟩ := hphase.of_receiving
      obtain ⟨htake, hends⟩ := ends_of_absorb account hm ht hp he
      refine ⟨_, some f, hl.advance (by simp [hr]) ?_⟩
      rw [htake]
      exact .failed hends
  | readOn ev r r' r'' hr hp he =>
      rw [hr] at hphase
      obtain ⟨bytes, rfl, rfl, ht⟩ := hphase.of_receiving
      obtain ⟨bytes', htake, ht'⟩ := tracks_of_absorb account hm ht hp he
      refine ⟨_, none, hl.advance (by simp [hr]) ?_⟩
      rw [htake]
      exact .receiving ht'
  | pollError r r' f hr hp =>
      rw [hr] at hphase
      obtain ⟨bytes, rfl, rfl, ht⟩ := hphase.of_receiving
      exact ⟨_, some f, hl.advance (by simp [hr]) (.failed (account.refused ht hp))⟩
  | pollMessage r r' msg hr hp =>
      rw [hr] at hphase
      obtain ⟨bytes, rfl, rfl, ht⟩ := hphase.of_receiving
      exact ⟨_, none, hl.advance (by simp [hr]) (.judging (account.decoded ht hp))⟩
  | classify f hr =>
      have hf : a.fired = false := hs'.not_fired (by rw [hr]; rfl)
      rw [hr] at hphase
      obtain ⟨rfl, he⟩ := hphase.of_failed
      refine ⟨_, some f, hl.advance (by simp [hr]) (.leaving he ?_)⟩
      simp [Reader.ending?, Attendant.classify, hf]
  | judge r msg hr =>
      rw [hr] at hphase
      obtain ⟨bytes, rfl, hreceived, ht⟩ := hphase.of_judging
      refine ⟨_, none, hl.advance (by simp [hr]) ?_⟩
      rw [hreceived] at ht ⊢
      exact .publishing _ ht
  | deliver r msg messages hr hf ho =>
      rw [hr] at hphase
      obtain ⟨bytes, rfl, hreceived, ht⟩ := hphase.of_publishing
      rw [hreceived] at ht
      refine ⟨published ++ [msg], none, ?_, Ports.published_deliver hl.published ho, fun e he => ?_⟩
      · rw [hreceived]
        exact .receiving ht
      · exact absurd (hl.reported e he).1 (by simp [hr])
  | defer r msg instant lapse throttled hr hf ho =>
      rw [hr] at hphase
      obtain ⟨bytes, rfl, hreceived, ht⟩ := hphase.of_publishing
      rw [hreceived] at ht
      refine ⟨published ++ [msg], none, ?_, Ports.published_defer hl.published ho, fun e he => ?_⟩
      · rw [hreceived]
        exact .receiving ht
      · exact absurd (hl.reported e he).1 (by simp [hr])
  -- the ending is settled, and nothing it rests on changes any more
  | settleWon ending hr _ | fireReader ending hr | release ending hr =>
      rw [hr] at hphase
      exact ⟨_, _, hl.advance (by simp [hr]) (hphase.end_of_ending rfl rfl)⟩
  | settleLost ending hr hrun =>
      -- nobody has stopped the attendant, so that it is still running
      rw [hr] at hs'
      exact absurd hs'.running_of_left hrun
  | report ending lifecycle hr ho =>
      rw [hr] at hphase
      obtain ⟨f, rfl, rfl, he, rfl⟩ := hphase.of_ending rfl
      refine ⟨_, some f, .finished he, hl.published, fun e hmem => ?_⟩
      rcases Ports.mem_notices_offer ho hmem with hmem | hmem
      · exact absurd (hl.reported e hmem).1 (by simp [hr])
      · obtain rfl : e = .ofError f := by simpa using hmem
        exact ⟨rfl, rfl⟩
  | quit hr hf =>
      -- nobody has fired the token, which the reader does only after it has left
      have hf' : a.fired = false := hs'.not_fired (Reader.isLooping_of_mindsToken hr)
      simp [hf] at hf'
  | write _ _ _ => exact ⟨_, _, hl.of_eq rfl rfl⟩

theorem loop_of_foreign (hf : p.Foreign id q) (h : Loop tracks ends id g a p published verdict) :
    Loop tracks ends id g a q published verdict :=
  ⟨h.phase, Ports.published_of_foreign hf h.published, by rw [hf.notices_eq]; exact h.reported⟩

/-- A run without a stop and without a failure of the stream keeps the read loop of a fresh attendant in line
with the stream. -/
theorem loop_of_course (account : Receiver.Account codec tracks ends) {throttle writer : Nat}
    {ms : List Attendant.Move} (hn : p.notices id = []) (hd : p.deliveries id = [])
    (ht : p.deferrals id = []) (h : Course id (.create codec throttle writer) p ms b q)
    (hms : ∀ m ∈ ms, m.isPlain = true) :
    b.halts = [] ∧ ∃ published verdict,
      Loop tracks ends id (Intake.ofMoves ms) b q published verdict := by
  have hboth : b.Staged ∧ b.halts = [] ∧ b.Waits codec ∧ ∃ published verdict,
      Loop tracks ends id (Intake.ofMoves ms) b q published verdict := by
    refine Course.preserves_along (f := Intake.take) (A := fun m => m.isPlain = true)
      (I := fun g a p => a.Staged ∧ a.halts = [] ∧ a.Waits codec ∧ ∃ published verdict,
        Loop tracks ends id g a p published verdict) ?_ ?_ h hms ?_
    · rintro g now m a b p q hm hacc ⟨hs, hh, hw, published, verdict, hl⟩
      have hstop : m ≠ .stop := by
        rintro rfl
        simp [Attendant.Move.isPlain] at hm
      exact ⟨Attendant.staged_of_access hacc hs, Attendant.unhalted_of_access hacc hstop hh,
        Attendant.waits_of_access hacc hw, loop_of_access account hacc hm hs hh hw hl⟩
    · rintro g a p q hf ⟨hs, hh, hw, published, verdict, hl⟩
      exact ⟨hs, hh, hw, published, verdict, loop_of_foreign hf hl⟩
    · refine ⟨Attendant.staged_create _ _ _, rfl, Attendant.waits_create _ _ _, [], none, .absent, ?_, ?_⟩
      · intro _ _
        rw [hd, ht]
        exact .nil
      · rw [hn]
        simp
  exact ⟨hboth.2.1, hboth.2.2.2⟩

end Loop
end Courier
