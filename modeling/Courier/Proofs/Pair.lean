import Courier.Attendant.Solo
import Courier.Proofs.Attendant.Loop
import Courier.Proofs.Attendant.Order
import Courier.Proofs.Encoding
import Courier.Proofs.Outbox
import Courier.Proofs.Revision

/-!
# Pair — two attendants with a byte stream between them

What the sink of one attendant takes is what the other reads, in order and in pieces of any size.

1. `Ledger` keeps the messages that a sending attendant has queued, `Ledger.Backs` relates them to its frames,
2. `Pair` puts a sender and a receiver together,
3. `Pair.Sound` is what every move keeps.
-/

namespace Courier

/-! ## What has been queued -/

/-- The messages of a sending attendant. -/
structure Ledger where
  /-- For each operation ever begun the message that it sends, if it sends one. -/
  letters : List (Option Message) := []
  /-- The messages whose frames have been queued, in queue order. -/
  posted : List Message := []

namespace Ledger

/-- The ledger after a move of the attendant. -/
def after (l : Ledger) (a : Attendant Codec) : Attendant.Move → Ledger
  | .start | .stop => { l with letters := l.letters ++ [none] }
  | .send command args kwargs =>
    { l with letters := l.letters ++ [some ⟨command, args, Entries.ofList kwargs⟩] }
  | .advance i =>
    match a.calls[i]? with
    | some (.queueing _) =>
      if a.outbox.queue.closed then l
      else { l with posted := l.posted ++ l.letters[i]?.join.toList }
    | _ => l
  | _ => l

/-- The queued frames carry the messages of the ledger. -/
structure Backs (c : Codec) (l : Ledger) (a : Attendant Codec) : Prop where
  codec : a.codec = c
  length : l.letters.length = a.calls.length
  queueing : ∀ (i : Nat) (frame : Bytes), a.calls[i]? = some (.queueing frame) →
    ∃ m, l.letters[i]? = some (some m) ∧ c.Unit frame (some m)
  posted : c.Carries a.outbox.queue.sent.flatten l.posted
  outbox : a.outbox.Sound

variable {c : Codec} {l : Ledger} {a b : Attendant Codec} {p q : Ports} {id : AttendantId} {now : Nat}
  {m : Attendant.Move}

namespace Backs

theorem create (c : Codec) (throttle writer : Nat) : Backs c {} (.create c throttle writer) where
  codec := rfl
  length := rfl
  queueing := by simp [Attendant.create]
  posted := .nil
  outbox := .start writer

/-- An operation begins. -/
theorem record {call : Call Codec} {letter : Option Message} (h : Backs c l a)
    (hcall : ∀ frame, call = .queueing frame → ∃ m, letter = some m ∧ c.Unit frame (some m)) :
    Backs c { l with letters := l.letters ++ [letter] } (a.record call) := by
  refine ⟨h.codec, ?_, fun i frame hi => ?_, h.posted, h.outbox⟩
  · show (l.letters ++ [letter]).length = (a.calls ++ [call]).length
    simp [h.length]
  · show ∃ m, (l.letters ++ [letter])[i]? = some (some m) ∧ _
    have hi' : (a.calls ++ [call])[i]? = some (.queueing frame) := hi
    rcases of_getElem?_concat hi' with hi' | ⟨rfl, heq⟩
    · obtain ⟨m, hm, hu⟩ := h.queueing i frame hi'
      obtain ⟨hlt, -⟩ := List.getElem?_eq_some_iff.1 hm
      exact ⟨m, by rw [List.getElem?_append_left hlt, hm], hu⟩
    · obtain ⟨m, rfl, hu⟩ := hcall frame heq.symm
      refine ⟨m, ?_, hu⟩
      rw [← h.length]
      exact List.getElem?_concat_length

/-- An operation goes on, to anything but a frame that waits. -/
theorem set {i : Nat} {d : Call Codec} (h : Backs c l a) (hd : ∀ frame, d ≠ .queueing frame)
    (hcodec : b.codec = a.codec) (hcalls : b.calls = a.calls.set i d) (houtbox : b.outbox = a.outbox) :
    Backs c l b := by
  refine ⟨hcodec.trans h.codec, by rw [hcalls, List.length_set, h.length], fun j frame hj => ?_,
    by rw [houtbox]; exact h.posted, by rw [houtbox]; exact h.outbox⟩
  rcases of_getElem?_set (hcalls ▸ hj) with ⟨-, hj⟩ | ⟨-, heq⟩
  · exact h.queueing j frame hj
  · exact absurd heq.symm (hd frame)

/-- Nothing of an attendant has changed that the ledger is about. -/
theorem of_eq (h : Backs c l a) (hcodec : b.codec = a.codec) (hcalls : b.calls = a.calls)
    (houtbox : b.outbox = a.outbox) : Backs c l b :=
  ⟨hcodec.trans h.codec, by rw [hcalls]; exact h.length, by rw [hcalls]; exact h.queueing,
    by rw [houtbox]; exact h.posted, by rw [houtbox]; exact h.outbox⟩

/-- A frame is queued, and its message is posted. -/
theorem queue {i : Nat} {frame : Bytes} {queue : Channel Bytes} (h : Backs c l a)
    (hc : a.calls[i]? = some (.queueing frame)) (hq : a.outbox.queue.closed = false)
    (ho : a.outbox.queue.offer? frame = some queue) :
    Backs c { l with posted := l.posted ++ l.letters[i]?.join.toList }
      { a with outbox := { a.outbox with queue }, calls := a.calls.set i (.sent (.ok ())) } := by
  obtain ⟨m, hm, hu⟩ := h.queueing i frame hc
  have hset : Backs c l { a with calls := a.calls.set i (.sent (.ok ())) } :=
    h.set (by simp) rfl rfl rfl
  refine ⟨h.codec, hset.length, hset.queueing, ?_, h.outbox.offer hq ho⟩
  have hsent : queue.sent = a.outbox.queue.sent ++ [frame] := Channel.sent_of_offer? ho hq
  show c.Carries queue.sent.flatten _
  rw [hsent, List.flatten_append, hm]
  simpa using h.posted.append (.of_unit hu)

end Backs

/-- Each access of the sender keeps the ledger in line, as long as only messages are sent that can be read. -/
theorem backs_of_access (h : Attendant.Access id now a p m b q)
    (hm : ∀ command args kwargs, m = .send command args kwargs → c.Accepts command args kwargs)
    (hb : Backs c l a) : Backs c (l.after a m) b := by
  have hadvance : ∀ {i : Nat} {call : Call Codec}, a.calls[i]? = some call →
      (∀ frame, call ≠ .queueing frame) → l.after a (.advance i) = l := by
    intro i call hi hcall
    simp only [after, hi]
    cases call with
    | queueing frame => exact absurd rfl (hcall frame)
    | _ => rfl
  cases h with
  | claim _ => exact Backs.record (a := { a with status := .running }) (hb.of_eq rfl rfl rfl) (by simp)
  | refuseStart _ => exact hb.record (by simp)
  | halt _ => exact Backs.record (a := { a with status := .stopped }) (hb.of_eq rfl rfl rfl) (by simp)
  | refuseStop _ => exact hb.record (by simp)
  | refuseSend _ _ _ _ => exact hb.record (by simp)
  | encode command args kwargs frame hf =>
      refine hb.record fun frame' hframe => ⟨_, rfl, ?_⟩
      obtain rfl : frame = frame' := by simpa using hframe
      rw [hb.codec] at hf
      exact Codec.unit_of_accepts (hm command args kwargs rfl) hf
  | takeReceiver _ _ hc _ | missReceiver _ hc _ | announce _ _ _ hc _ | hand _ _ hc | dropReceiver _ hc =>
      rw [hadvance hc (by simp)]
      exact hb.set (by simp) rfl rfl rfl
  | fire i wasNew hc =>
      rw [hadvance hc (by simp)]
      exact hb.set (by cases wasNew <;> simp) rfl rfl rfl
  | missQueue i frame hc hq =>
      -- a frame that finds the queue closed is not sent, and its message is not posted
      have hafter : l.after a (.advance i) = l := by
        simp only [after, hc, if_pos hq]
      rw [hafter]
      exact hb.set (by simp) rfl rfl rfl
  | queue i frame queue hc hq ho =>
      have hafter : l.after a (.advance i) =
          { l with posted := l.posted ++ l.letters[i]?.join.toList } := by
        simp only [after, hc, hq, Bool.false_eq_true, if_false]
      rw [hafter]
      exact hb.queue hc hq ho
  | write m outbox ho =>
      have hturn := Outbox.turn_of_step ho
      refine ⟨hb.codec, hb.length, hb.queueing, ?_, Outbox.sound_of_turn hturn hb.outbox⟩
      rw [Outbox.sent_of_turn hturn]
      exact hb.posted
  | _ => exact hb.of_eq rfl rfl rfl

end Ledger

/-! ## Sender and receiver -/

/-- A sender, and a receiver that reads what the sender's sink has taken. -/
structure Pair where
  sender : Solo Codec
  receiver : Solo Codec
  /-- How many of the bytes that the sink has taken the receiver has read. -/
  carried : Nat := 0
  ledger : Ledger := {}

namespace Pair

/-- What happens next. -/
inductive Move where
  | sender (m : Solo.Move)
  | receiver (m : Solo.Move)
  /-- The receiver reads so many bytes at the most. -/
  | carry (count : Nat)

/-- A fresh pair of one codec. -/
def create (codec : Codec) (c c' : Config) : Pair where
  sender := .create codec c
  receiver := .create codec c'

/-- What the sink has taken and the receiver has not read. -/
def unread (s : Pair) : Bytes :=
  s.sender.attendant.outbox.delivered.drop s.carried

/-- Whether the stream yields something in a move. -/
def yields : Solo.Move → Bool
  | .attendant (.read .notReady) => false
  | .attendant (.read _) => true
  | _ => false

/-- The pair after a move; none when the move is not possible.  The receiver reads nothing but what comes from
the sender, and at least one byte of it. -/
def step (s : Pair) : Move → Option Pair
  | .sender m =>
    (s.sender.step m).map fun sender =>
      let ledger := match m.own? with
        | some n => s.ledger.after s.sender.attendant n
        | none => s.ledger
      { s with sender, ledger }
  | .receiver m =>
    if yields m then none else (s.receiver.step m).map fun receiver => { s with receiver }
  | .carry count =>
    match s.unread.take count with
    | [] => none
    | b :: data =>
      (s.receiver.step (.attendant (.read (.data (b :: data))))).map fun receiver =>
        { s with receiver, carried := s.carried + (b :: data).length }

/-- What can be reached from a state by moves. -/
inductive Reaches (s : Pair) : List Move → Pair → Prop where
  | refl : Reaches s [] s
  | step {ms : List Move} {t u : Pair} {m : Move} :
      Reaches s ms t → t.step m = some u → Reaches s (ms ++ [m]) u

/-- The pair after given moves; none when one of them is not possible. -/
def after (s : Pair) : List Move → Option Pair
  | [] => some s
  | m :: ms => (s.step m).bind fun t => after t ms

theorem reaches_append {s t u : Pair} {ms ns : List Move} (h : Reaches s ms t)
    (hu : t.after ns = some u) : Reaches s (ms ++ ns) u := by
  induction ns generalizing t ms with
  | nil =>
      obtain rfl : t = u := by simpa [after] using hu
      simpa using h
  | cons n ns ih =>
      obtain ⟨v, hstep, hrest⟩ := Option.bind_eq_some_iff.1 hu
      simpa using ih (h.step hstep) hrest

theorem reaches_of_after {s t : Pair} {ms : List Move} (h : s.after ms = some t) : Reaches s ms t :=
  reaches_append .refl h

/-- The messages that the receiver has published, oldest first. -/
def published (s : Pair) : List Message :=
  s.receiver.ports.admitted Solo.id

/-- The messages that the sender has queued, in queue order. -/
def posted (s : Pair) : List Message :=
  s.ledger.posted

/-! ### Moves under consideration -/

/-- Messages that are sent can be read, and the receiver is neither stopped nor throttled. -/
def Move.Allowed (codec : Codec) : Move → Prop
  | .sender (.attendant (.send command args kwargs)) => codec.Accepts command args kwargs
  | .receiver (.attendant .stop) => False
  | .receiver (.attendant n) => n.isUnthrottled = true
  | _ => True

/-- The sender's sink does not fail. -/
def Move.IsSmooth : Move → Prop
  | .sender (.attendant (.writer m)) => m.isSmooth = true
  | _ => True

/-! ### What every move keeps -/

/-- The ledger is in line with the sender, and the receiver has run on its own with what it has read. -/
structure Sound (codec : Codec) (a : Attendant Codec) (p : Ports) (s : Pair) : Prop where
  backs : s.ledger.Backs codec s.sender.attendant
  staged : s.sender.attendant.Staged
  carried : s.carried ≤ s.sender.attendant.outbox.delivered.length
  receiver : ∃ ns, Course Solo.id a p ns s.receiver.attendant s.receiver.ports ∧
    Intake.ofMoves ns = ⟨s.sender.attendant.outbox.delivered.take s.carried, false⟩ ∧
    ∀ n ∈ ns, n.isPlain = true ∧ n.isUnthrottled = true

variable {codec : Codec} {a : Attendant Codec} {p : Ports} {s t : Pair} {m : Move}

theorem delivered_of_access {id : AttendantId} {now : Nat} {a b : Attendant Codec} {p q : Ports}
    {m : Attendant.Move} (h : Attendant.Access id now a p m b q) :
    a.outbox.delivered <+: b.outbox.delivered := by
  cases h with
  | write m outbox ho => exact Outbox.delivered_of_turn (Outbox.turn_of_step ho)
  | _ => exact List.prefix_rfl

theorem take_of_front {xs ys : Bytes} {n : Nat} (h : xs <+: ys) (hn : n ≤ xs.length) :
    ys.take n = xs.take n := by
  obtain ⟨more, rfl⟩ := h
  exact List.take_append_of_le_length hn

/-- The sender moves; the receiver has read from the front of the stream, which stays the same. -/
theorem Sound.sender {m : Solo.Move} {sender : Solo Codec} (h : Sound codec a p s)
    (hstep : s.sender.step m = some sender) (hm : (Move.sender m).Allowed codec) :
    Sound codec a p { s with
      sender
      ledger := match m.own? with
        | some n => s.ledger.after s.sender.attendant n
        | none => s.ledger } := by
  rcases Solo.step_cases hstep with ⟨n, rfl, hn⟩ | ⟨hown, hsame, -⟩
  · have hacc := Attendant.access_of_step hn
    have hfront := delivered_of_access hacc
    obtain ⟨ns, hcourse, hintake, hns⟩ := h.receiver
    refine ⟨Ledger.backs_of_access hacc ?_ h.backs, Attendant.staged_of_access hacc h.staged,
      Nat.le_trans h.carried hfront.length_le, ns, hcourse, ?_, hns⟩
    · rintro command args kwargs rfl
      exact hm
    · rw [hintake]
      show _ = (⟨sender.attendant.outbox.delivered.take s.carried, false⟩ : Intake)
      rw [take_of_front hfront h.carried]
  · simp only [hown]
    exact ⟨by rw [hsame]; exact h.backs, by rw [hsame]; exact h.staged, by rw [hsame]; exact h.carried, by
      rw [hsame]
      exact h.receiver⟩

/-- What the receiver does without its stream leaves the intake as it is. -/
theorem take_of_not_yields {n : Attendant.Move} (h : yields (.attendant n) = false)
    (hm : (Move.receiver (.attendant n)).Allowed codec) (g : Intake) :
    g.take n = g ∧ n.isPlain = true ∧ n.isUnthrottled = true := by
  cases n with
  | stop => exact hm.elim
  | read e =>
      cases e with
      | notReady => exact ⟨rfl, rfl, rfl⟩
      | data _ => simp [yields] at h
      | ended => simp [yields] at h
      | failed _ => simp [yields] at h
  | _ => exact ⟨rfl, rfl, hm⟩

theorem ofMoves_append (ns : List Attendant.Move) (n : Attendant.Move) :
    Intake.ofMoves (ns ++ [n]) = (Intake.ofMoves ns).take n := by
  simp [Intake.ofMoves]

theorem Sound.receive {m : Solo.Move} {receiver : Solo Codec} (h : Sound codec a p s)
    (hstep : s.receiver.step m = some receiver) (hy : yields m = false)
    (hm : (Move.receiver m).Allowed codec) : Sound codec a p { s with receiver } := by
  obtain ⟨ns, hcourse, hintake, hns⟩ := h.receiver
  rcases Solo.step_cases hstep with ⟨n, rfl, hn⟩ | ⟨-, hsame, hforeign⟩
  · obtain ⟨htake, hplain, hunthrottled⟩ := take_of_not_yields hy hm (Intake.ofMoves ns)
    refine ⟨h.backs, h.staged, h.carried, ns ++ [n], hcourse.trans (.single hn), ?_, fun n' hn' => ?_⟩
    · rw [ofMoves_append, htake]
      exact hintake
    · rcases List.mem_append.1 hn' with hn' | hn'
      · exact hns n' hn'
      · obtain rfl : n' = n := by simpa using hn'
        exact ⟨hplain, hunthrottled⟩
  · refine ⟨h.backs, h.staged, h.carried, ns, ?_, hintake, hns⟩
    have hothers : Course Solo.id s.receiver.attendant s.receiver.ports [] s.receiver.attendant
        receiver.ports := .others hforeign (.refl _ _)
    rw [hsame]
    simpa using hcourse.trans hothers

/-- The next bytes of the stream follow those that have been read. -/
theorem take_carried {b : UInt8} {data : Bytes} {count : Nat} (h : s.unread.take count = b :: data) :
    s.sender.attendant.outbox.delivered.take s.carried ++ b :: data =
        s.sender.attendant.outbox.delivered.take (s.carried + (b :: data).length) ∧
      s.carried + (b :: data).length ≤ s.sender.attendant.outbox.delivered.length := by
  have hlength : (b :: data).length ≤ s.unread.length := by
    rw [← h, List.length_take]
    exact Nat.min_le_right ..
  have htake : s.unread.take (b :: data).length = b :: data := by
    rw [← h, List.length_take, List.take_eq_take_iff]
    omega
  unfold unread at hlength htake
  rw [List.take_add, htake]
  rw [List.length_drop, List.length_cons] at hlength
  refine ⟨rfl, ?_⟩
  rw [List.length_cons]
  omega

theorem Sound.carry {b : UInt8} {data : Bytes} {count : Nat} {receiver : Solo Codec} (h : Sound codec a p s)
    (hdata : s.unread.take count = b :: data)
    (hstep : s.receiver.step (.attendant (.read (.data (b :: data)))) = some receiver) :
    Sound codec a p { s with receiver, carried := s.carried + (b :: data).length } := by
  obtain ⟨ns, hcourse, hintake, hns⟩ := h.receiver
  obtain ⟨hbytes, hcarried⟩ := take_carried hdata
  have hn : s.receiver.attendant.step Solo.id s.receiver.now s.receiver.ports
      (.read (.data (b :: data))) = some (receiver.attendant, receiver.ports) := by
    rcases Solo.step_cases hstep with ⟨n, hn, hstep⟩ | ⟨hown, -, -⟩
    · obtain rfl : Attendant.Move.read (.data (b :: data)) = n := by simpa using hn
      exact hstep
    · simp [Solo.Move.own?] at hown
  refine ⟨h.backs, h.staged, hcarried, ns ++ [.read (.data (b :: data))], hcourse.trans (.single hn),
    ?_, fun n' hn' => ?_⟩
  · rw [ofMoves_append, hintake, ← hbytes]
    rfl
  · rcases List.mem_append.1 hn' with hn' | hn'
    · exact hns n' hn'
    · obtain rfl : n' = .read (.data (b :: data)) := by simpa using hn'
      exact ⟨rfl, rfl⟩

/-- What a move of a pair is. -/
inductive Turn (s : Pair) : Move → Pair → Prop where
  | sender (m : Solo.Move) (sender : Solo Codec) (hs : s.sender.step m = some sender) :
      Turn s (.sender m) { s with
        sender
        ledger := match m.own? with
          | some n => s.ledger.after s.sender.attendant n
          | none => s.ledger }
  | receiver (m : Solo.Move) (receiver : Solo Codec) (hy : yields m = false)
      (hr : s.receiver.step m = some receiver) : Turn s (.receiver m) { s with receiver }
  | carry (count : Nat) (b : UInt8) (data : Bytes) (receiver : Solo Codec)
      (hd : s.unread.take count = b :: data)
      (hr : s.receiver.step (.attendant (.read (.data (b :: data)))) = some receiver) :
      Turn s (.carry count) { s with receiver, carried := s.carried + (b :: data).length }

theorem turn_of_step (h : s.step m = some t) : Turn s m t := by
  cases m with
  | sender m =>
      simp only [step, Option.map_eq_some_iff] at h
      obtain ⟨sender, hs, rfl⟩ := h
      exact .sender m sender hs
  | receiver m =>
      simp only [step, Option.ite_none_left_eq_some, Option.map_eq_some_iff] at h
      obtain ⟨hy, receiver, hr, rfl⟩ := h
      exact .receiver m receiver (by simpa using hy) hr
  | carry count =>
      unfold step at h
      cases hd : s.unread.take count with
      | nil => simp [hd] at h
      | cons b data =>
          simp only [hd, Option.map_eq_some_iff] at h
          obtain ⟨receiver, hr, rfl⟩ := h
          exact .carry count b data receiver hd hr

theorem sound_of_turn (h : Turn s m t) (hm : m.Allowed codec) (hs : Sound codec a p s) :
    Sound codec a p t := by
  cases h with
  | sender m sender hstep => exact hs.sender hstep hm
  | receiver m receiver hy hstep => exact hs.receive hstep hy hm
  | carry count b data receiver hd hstep => exact hs.carry hd hstep

theorem sound_of_reaches {c c' : Config} {ms : List Move} (h : Reaches (create codec c c') ms t)
    (hms : ∀ m ∈ ms, m.Allowed codec) :
    Sound codec (create codec c c').receiver.attendant (create codec c c').receiver.ports t := by
  induction h with
  | refl =>
      refine ⟨.create _ _ _, Attendant.staged_create _ _ _, Nat.le_refl 0, [], .refl _ _, rfl, by simp⟩
  | step _ hstep ih =>
      have hbefore := ih fun m hm => hms m (List.mem_append_left _ hm)
      exact sound_of_turn (turn_of_step hstep) (hms _ (List.mem_append_right _ (List.mem_singleton.2 rfl))) hbefore

/-- The sender's writing task is in its loop as long as the token has not fired. -/
def Lively (s : Pair) : Prop :=
  s.sender.attendant.fired = false → s.sender.attendant.outbox.isWorking = true

theorem lively_of_access {id : AttendantId} {now : Nat} {a b : Attendant Codec} {p q : Ports}
    {m : Attendant.Move} (h : Attendant.Access id now a p m b q)
    (hm : ∀ w, m = .writer w → w.isSmooth = true)
    (ha : a.fired = false → a.outbox.isWorking = true) :
    b.fired = false → b.outbox.isWorking = true := by
  cases h with
  | write w outbox ho =>
      intro hf
      have hf' : a.fired = false := hf
      rw [hf'] at ho
      exact Outbox.working_of_turn (Outbox.turn_of_step ho) (hm w rfl) (ha hf')
  | fire _ _ _ => simp
  | fireReader _ _ => simp
  | _ => exact ha

theorem lively_of_reaches {c c' : Config} {ms : List Move} (h : Reaches (create codec c c') ms t)
    (hms : ∀ m ∈ ms, m.IsSmooth) : t.Lively := by
  induction h with
  | refl => exact fun _ => rfl
  | @step ms t u m _ hstep ih =>
      have hbefore := ih fun m hm => hms m (List.mem_append_left _ hm)
      have hm := hms m (List.mem_append_right _ (List.mem_singleton.2 rfl))
      cases turn_of_step hstep with
      | sender m sender hs =>
          rcases Solo.step_cases hs with ⟨n, rfl, hn⟩ | ⟨-, hsame, -⟩
          · refine lively_of_access (Attendant.access_of_step hn) ?_ hbefore
            rintro w rfl
            exact hm
          · unfold Lively
            rw [hsame]
            exact hbefore
      | receiver _ _ _ _ => exact hbefore
      | carry _ _ _ _ _ _ => exact hbefore

end Pair
end Courier
