import Courier.Outbox.Traffic
import Courier.Proofs.Outbox.Ending
import Courier.Proofs.Revision

/-!
# Traffic — frames of many senders on their way to one sink

Any number of senders queue frames in front of the writing task.  A run is a list of moves in any order; cancelling,
dropping the first handle and failures of the sink are moves like others.

1. `Traffic.Turn` lists what a move can do, and `Traffic.turn_of_step` shows that it does nothing else,
2. `Traffic.ledger` holds the frames that a run queues with their senders, and `Traffic.Filed` compares it with the
   queue and with what the senders have been given,
3. `Traffic.Settled` says how the writing task comes to its end,
4. `Traffic.integrity_of_reaches` puts them together.
-/

namespace Courier

/-- Whether a frame is left that has not been queued. -/
def Sender.isBusy (s : Sender) : Bool :=
  s.queued < s.frames.length

/-- Whoever has come out has queued all its frames or has been told that the connection is closed. -/
def Sender.Answered (s : Sender) : Prop :=
  ∀ result, s.result = some result →
    (result = .ok () ∧ s.isBusy = false) ∨ result = .error .connectionClosed

namespace Traffic

variable {t u : Traffic} {m : Move} {ms ns : List Move} {i : Nat} {s : Sender}

/-! ## Turns -/

/-- What happens in one move. -/
inductive Turn (t : Traffic) : Move → Traffic → Prop where
  | writer {m : Outbox.Move} {outbox : Outbox} (h : Outbox.Turn t.fired t.isHeld t.outbox m outbox)
      (hb : t.outbox.isEnded = false) : Turn t (.writer m) { t with outbox }
  /-- A sender has queued all its frames. -/
  | complete (i : Nat) (s : Sender) (hs : t.senders[i]? = some s) (hr : s.result = none)
      (hq : s.isBusy = false) :
      Turn t (.sender i) { t with senders := t.senders.set i { s with result := some (.ok ()) } }
  /-- A sender finds that nobody takes frames any more. -/
  | refuse (i : Nat) (s : Sender) (hs : t.senders[i]? = some s) (hr : s.result = none)
      (hq : s.isBusy = true) (hc : t.outbox.queue.closed = true) :
      Turn t (.sender i)
        { t with senders := t.senders.set i { s with result := some (.error .connectionClosed) } }
  | queue (i : Nat) (s : Sender) (f : Bytes) (queue : Channel Bytes) (hs : t.senders[i]? = some s)
      (hr : s.result = none) (hf : s.frames[s.queued]? = some f) (hc : t.outbox.queue.closed = false)
      (ho : t.outbox.queue.offer? f = some queue) :
      Turn t (.sender i)
        { t with
          outbox := { t.outbox with queue }
          senders := t.senders.set i { s with queued := s.queued + 1 } }
  | send (frames : List Bytes) (hk : t.kept = true) :
      Turn t (.send frames) { t with senders := t.senders ++ [{ frames }] }
  | cancel : Turn t .cancel { t with fired := true }
  | release (hk : t.kept = true) : Turn t .release { t with kept := false }

theorem turn_of_sender (h : t.step (.sender i) = some u) : Turn t (.sender i) u := by
  cases hs : t.senders[i]? with
  | none => simp [step, hs] at h
  | some s =>
      obtain ⟨frames, queued, result⟩ := s
      simp only [step, hs, Option.map_eq_some_iff] at h
      obtain ⟨⟨s', queue⟩, hstep, rfl⟩ := h
      cases result with
      | some result => simp [Sender.step] at hstep
      | none =>
          -- a sender is done, or has a frame in hand that the queue takes or turns away
          cases hrest : frames.drop queued with
          | nil =>
              simp only [Sender.step, hrest, Option.some.injEq, Prod.mk.injEq] at hstep
              obtain ⟨rfl, rfl⟩ := hstep
              refine .complete i ⟨frames, queued, none⟩ hs rfl ?_
              simpa [Sender.isBusy] using hrest
          | cons f rest =>
              have hf : frames[queued]? = some f := by
                rw [← List.head?_drop, hrest]
                rfl
              cases hc : t.outbox.queue.closed with
              | true =>
                  simp only [Sender.step, hrest, hc, if_true, Option.some.injEq, Prod.mk.injEq] at hstep
                  obtain ⟨rfl, rfl⟩ := hstep
                  refine .refuse i ⟨frames, queued, none⟩ hs rfl ?_ hc
                  simpa [Sender.isBusy] using (List.getElem?_eq_some_iff.1 hf).1
              | false =>
                  simp only [Sender.step, hrest, hc, Bool.false_eq_true, if_false,
                    Option.map_eq_some_iff, Prod.mk.injEq] at hstep
                  obtain ⟨queue', ho, rfl, rfl⟩ := hstep
                  exact .queue i ⟨frames, queued, none⟩ f queue' hs rfl hf hc ho

/-- Every move is one of the listed turns. -/
theorem turn_of_step (h : t.step m = some u) : Turn t m u := by
  cases m with
  | writer m =>
      simp only [step, Option.map_eq_some_iff] at h
      obtain ⟨outbox, hstep, rfl⟩ := h
      refine .writer (Outbox.turn_of_step hstep) ?_
      cases hb : t.outbox.isEnded with
      | false => rfl
      | true => simp [Outbox.step_of_isEnded hb] at hstep
  | sender i => exact turn_of_sender h
  | send frames =>
      simp only [step, Option.ite_none_right_eq_some, Option.some.injEq] at h
      obtain ⟨hk, rfl⟩ := h
      exact .send frames hk
  | cancel =>
      obtain rfl := Option.some.inj h
      exact .cancel
  | release =>
      simp only [step, Option.ite_none_right_eq_some, Option.some.injEq] at h
      obtain ⟨hk, rfl⟩ := h
      exact .release hk

/-! ## Who holds the handle -/

/-- A sender under way holds a handle. -/
theorem isHeld_of_sender (hs : t.senders[i]? = some s) (hr : s.result = none) : t.isHeld = true := by
  unfold isHeld
  rw [Bool.or_eq_true, List.any_eq_true]
  exact .inr ⟨s, List.mem_of_getElem? hs, by rw [hr]; rfl⟩

/-- A handle that is gone does not come back. -/
theorem unheld_of_turn (h : Turn t m u) (ht : t.isHeld = false) : u.isHeld = false := by
  have hno : ∀ {i : Nat} {s : Sender}, t.senders[i]? = some s → s.result = none → False := by
    intro i s hs hr
    have hheld := isHeld_of_sender hs hr
    simp [ht] at hheld
  have hkept : t.kept = false := by
    simp only [isHeld, Bool.or_eq_false_iff] at ht
    exact ht.1
  cases h with
  | writer _ _ => exact ht
  | complete i s hs hr _ => exact (hno hs hr).elim
  | refuse i s hs hr _ _ => exact (hno hs hr).elim
  | queue i s f queue hs hr _ _ _ => exact (hno hs hr).elim
  | send frames hk => simp [hkept] at hk
  | cancel => exact ht
  | release hk => simp [hkept] at hk

/-! ## The ledger -/

/-- The frames that a move to `u` queues, with their sender. -/
def entries (t u : Traffic) : Move → List (Nat × Bytes)
  | .sender i => (u.outbox.queue.sent.drop t.outbox.queue.sent.length).map (i, ·)
  | _ => []

/-- The frames that a run queues, each with its sender, in the order of the queue. -/
def ledger (t : Traffic) : List Move → List (Nat × Bytes)
  | [] => []
  | m :: ms =>
    match t.step m with
    | none => []
    | some u => t.entries u m ++ u.ledger ms

/-- The frames of a ledger that are one sender's. -/
def framesOf (i : Nat) (l : List (Nat × Bytes)) : List Bytes :=
  (l.filter (·.1 == i)).map Prod.snd

theorem framesOf_append (i : Nat) (l l' : List (Nat × Bytes)) :
    framesOf i (l ++ l') = framesOf i l ++ framesOf i l' := by
  simp [framesOf]

theorem framesOf_single (i j : Nat) (f : Bytes) : framesOf i [(j, f)] = if j = i then [f] else [] := by
  by_cases hij : j = i <;> simp [framesOf, hij]

/-- The queue and the senders are as the ledger has it. -/
structure Filed (l : List (Nat × Bytes)) (t : Traffic) : Prop where
  sent : l.map Prod.snd = t.outbox.queue.sent
  own : ∀ (i : Nat) (s : Sender), t.senders[i]? = some s → framesOf i l = s.frames.take s.queued
  known : ∀ entry ∈ l, entry.1 < t.senders.length
  answered : ∀ (i : Nat) (s : Sender), t.senders[i]? = some s → s.Answered

namespace Filed

variable {l l' : List (Nat × Bytes)} {s' : Sender}

theorem start (capacity : Nat) : Filed [] (start capacity) := by
  refine ⟨rfl, ?_, by simp, ?_⟩ <;> simp [Traffic.start]

/-- Only the queue's other end, the token or the first handle has changed. -/
theorem of_eq (h : Filed l t) (hq : u.outbox.queue.sent = t.outbox.queue.sent)
    (hs : u.senders = t.senders) : Filed l u := by
  refine ⟨by rw [hq]; exact h.sent, ?_, ?_, ?_⟩ <;> rw [hs]
  · exact h.own
  · exact h.known
  · exact h.answered

/-- A sender goes on, and what is new in the ledger is its own. -/
theorem set (h : Filed l t) (hs : t.senders[i]? = some s) (hu : u.senders = t.senders.set i s')
    (hsent : (l ++ l').map Prod.snd = u.outbox.queue.sent) (hmine : ∀ entry ∈ l', entry.1 = i)
    (hown : framesOf i (l ++ l') = s'.frames.take s'.queued) (ha : s'.Answered) : Filed (l ++ l') u := by
  have hlt : i < t.senders.length := (List.getElem?_eq_some_iff.1 hs).1
  have hothers : ∀ j, i ≠ j → framesOf j l' = [] := by
    intro j hij
    refine List.map_eq_nil_iff.2 (List.filter_eq_nil_iff.2 fun entry hmem => ?_)
    simpa [hmine entry hmem] using hij
  have hget : ∀ {j : Nat} {x : Sender}, u.senders[j]? = some x →
      (i ≠ j ∧ t.senders[j]? = some x) ∨ (i = j ∧ x = s') := fun hj => of_getElem?_set (hu ▸ hj)
  refine ⟨hsent, fun j x hj => ?_, fun entry hmem => ?_, fun j x hj => ?_⟩
  · rcases hget hj with ⟨hij, hj⟩ | ⟨rfl, rfl⟩
    · rw [framesOf_append, hothers j hij, List.append_nil]
      exact h.own j x hj
    · exact hown
  · rw [hu, List.length_set]
    rcases List.mem_append.1 hmem with hmem | hmem
    · exact h.known entry hmem
    · rw [hmine entry hmem]
      exact hlt
  · rcases hget hj with ⟨-, hj⟩ | ⟨rfl, rfl⟩
    · exact h.answered j x hj
    · exact ha

/-- A sender comes to an end, which leaves the ledger as it is. -/
theorem answer {result : Except Error Unit} (h : Filed l t) (hs : t.senders[i]? = some s)
    (ha : Sender.Answered { s with result := some result }) :
    Filed l { t with senders := t.senders.set i { s with result := some result } } := by
  have hset : Filed (l ++ []) { t with senders := t.senders.set i { s with result := some result } } :=
    h.set hs rfl (by simpa using h.sent) (by simp) (by simpa using h.own i s hs) ha
  simpa using hset

/-- A new sender has queued nothing. -/
theorem send (h : Filed l t) (frames : List Bytes) :
    Filed l { t with senders := t.senders ++ [{ frames }] } := by
  have hnew : ∀ {j : Nat} {x : Sender}, (t.senders ++ [({ frames } : Sender)])[j]? = some x →
      t.senders[j]? = some x ∨ (j = t.senders.length ∧ x = { frames }) := of_getElem?_concat
  refine ⟨h.sent, fun j x hj => ?_, fun entry hmem => ?_, fun j x hj => ?_⟩
  · rcases hnew hj with hj | ⟨rfl, rfl⟩
    · exact h.own j x hj
    · refine List.map_eq_nil_iff.2 (List.filter_eq_nil_iff.2 fun entry hmem => ?_)
      simpa using Nat.ne_of_lt (h.known entry hmem)
  · rw [List.length_append]
    exact Nat.lt_add_right _ (h.known entry hmem)
  · rcases hnew hj with hj | ⟨rfl, rfl⟩
    · exact h.answered j x hj
    · simp [Sender.Answered]

end Filed

/-- Each move keeps queue and senders in line with the ledger. -/
theorem filed_of_turn {l : List (Nat × Bytes)} (h : Turn t m u) (hl : Filed l t) :
    Filed (l ++ t.entries u m) u := by
  cases h with
  | @writer w outbox h _ =>
      simpa [entries] using hl.of_eq (u := { t with outbox }) (Outbox.sent_of_turn h) rfl
  | complete i s hs hr hq =>
      have hanswered : Sender.Answered { s with result := some (.ok ()) } := by
        intro result hresult
        exact .inl ⟨(Option.some.inj hresult).symm, hq⟩
      simpa [entries] using hl.answer hs hanswered
  | refuse i s hs hr hq hc =>
      have hanswered : Sender.Answered { s with result := some (.error .connectionClosed) } := by
        intro result hresult
        exact .inr (Option.some.inj hresult).symm
      simpa [entries] using hl.answer hs hanswered
  | queue i s f queue hs hr hf hc ho =>
      -- the queue grows by the sender's next frame, and so does the ledger
      have hsent : queue.sent = t.outbox.queue.sent ++ [f] := Channel.sent_of_offer? ho hc
      have hentries : t.entries
          { t with
            outbox := { t.outbox with queue }
            senders := t.senders.set i { s with queued := s.queued + 1 } } (.sender i) = [(i, f)] := by
        simp [entries, hsent]
      rw [hentries]
      refine hl.set hs rfl ?_ (by simp) ?_ ?_
      · simp [hl.sent, hsent]
      · rw [framesOf_append, hl.own i s hs, framesOf_single, if_pos rfl, List.take_add_one, hf]
        rfl
      · intro result hresult
        have hnone : s.result = some result := hresult
        simp [hr] at hnone
  | send frames _ => simpa [entries] using hl.send frames
  | cancel => simpa [entries] using hl.of_eq (u := { t with fired := true }) rfl rfl
  | release _ => simpa [entries] using hl.of_eq (u := { t with kept := false }) rfl rfl

theorem filed_of_reaches {l : List (Nat × Bytes)} (h : Reaches t ms u) (hl : Filed l t) :
    Filed (l ++ t.ledger ms) u := by
  induction h generalizing l with
  | refl t =>
      rw [ledger, List.append_nil]
      exact hl
  | @step t v u m ms hstep _ ih =>
    have hledger : t.ledger (m :: ms) = t.entries v m ++ v.ledger ms := by
      simp only [ledger, hstep]
    rw [hledger, ← List.append_assoc]
    exact ih (filed_of_turn (turn_of_step hstep) hl)

/-! ## The end of the writing task -/

/-- How the writing task comes to its end, with the moves so far. -/
structure Settled (ms : List Move) (t : Traffic) : Prop where
  sound : t.outbox.Sound
  tidy : t.outbox.Tidy
  closed : t.outbox.isEnded = true → t.outbox.queue.closed = true
  failed : ∀ e, t.outbox.phase = .ended (some e) ↔ ∃ m, Move.writer m ∈ ms ∧ m.failure? = some e
  /-- Without the token, the task leaves its loop because nobody holds a handle any more. -/
  closing : t.fired = false → t.outbox.phase = .closing → t.isHeld = false ∧ t.outbox.queue.isEmpty = true
  concluded : t.fired = false → t.outbox.phase = .ended none → t.isHeld = false ∧ t.outbox.Concluded

namespace Settled

theorem start (capacity : Nat) : Settled [] (start capacity) where
  sound := .start capacity
  tidy := .start capacity
  closed := by simp [Traffic.start, Outbox.start, Outbox.isEnded]
  failed := by simp [Traffic.start, Outbox.start]
  closing _ h := by simp [Traffic.start, Outbox.start] at h
  concluded _ h := by simp [Traffic.start, Outbox.start] at h

/-- Failures of the sink are moves of the writing task. -/
theorem failed_concat (h : Settled ms t) (hm : ∀ w, m ≠ .writer w) (e : IoError) :
    t.outbox.phase = .ended (some e) ↔ ∃ w, Move.writer w ∈ ms ++ [m] ∧ w.failure? = some e := by
  have hmem : ∀ w, Move.writer w ∈ ms ++ [m] ↔ Move.writer w ∈ ms := by
    intro w
    rw [List.mem_append, List.mem_singleton, or_iff_left fun heq => hm w heq.symm]
  simp only [hmem]
  exact h.failed e

/-- The writing task has done nothing, and the queue is as it was. -/
theorem keep (h : Settled ms t) (hturn : Turn t m u) (hu : u.outbox = t.outbox)
    (hm : ∀ w, m ≠ .writer w) (hf : u.fired = false → t.fired = false) : Settled (ms ++ [m]) u where
  sound := hu ▸ h.sound
  tidy := hu ▸ h.tidy
  closed := hu ▸ h.closed
  failed := hu ▸ h.failed_concat hm
  closing hfired hp := by
    rw [hu] at hp ⊢
    obtain ⟨hheld, hempty⟩ := h.closing (hf hfired) hp
    exact ⟨unheld_of_turn hturn hheld, hempty⟩
  concluded hfired hp := by
    rw [hu] at hp ⊢
    obtain ⟨hheld, hconcluded⟩ := h.concluded (hf hfired) hp
    exact ⟨unheld_of_turn hturn hheld, hconcluded⟩

/-- A frame is queued, so that somebody holds a handle. -/
theorem queue {f : Bytes} {queue : Channel Bytes} {senders : List Sender} (h : Settled ms t)
    (hheld : t.isHeld = true) (hc : t.outbox.queue.closed = false)
    (ho : t.outbox.queue.offer? f = some queue) :
    Settled (ms ++ [.sender i]) { t with outbox := { t.outbox with queue }, senders } where
  sound := h.sound.offer hc ho
  tidy := h.tidy.offer h.sound hc ho
  closed hended := by
    have hclosed : t.outbox.queue.closed = true := h.closed hended
    simp [hc] at hclosed
  failed := h.failed_concat (by simp)
  closing hfired hp := by
    -- the task has not left its loop, as the sender still holds a handle
    have hheld' := (h.closing hfired hp).1
    simp [hheld] at hheld'
  concluded hfired hp := by
    have hheld' := (h.concluded hfired hp).1
    simp [hheld] at hheld'

/-- The writing task goes on. -/
theorem writer {w : Outbox.Move} {outbox : Outbox} (h : Settled ms t)
    (hturn : Outbox.Turn t.fired t.isHeld t.outbox w outbox) (hb : t.outbox.isEnded = false) :
    Settled (ms ++ [.writer w]) { t with outbox } where
  sound := Outbox.sound_of_turn hturn h.sound
  tidy := Outbox.tidy_of_turn hturn h.sound hb h.tidy
  closed := Outbox.closed_of_turn hturn
  failed e := by
    rw [Outbox.failed_iff_of_turn hturn]
    constructor
    · intro hw
      exact ⟨w, by simp, hw⟩
    · rintro ⟨w', hmem, hw'⟩
      rw [List.mem_append, List.mem_singleton] at hmem
      rcases hmem with hmem | heq
      · -- a task that has failed before makes no move
        have hended := Outbox.isEnded_of_ended ((h.failed e).2 ⟨w', hmem, hw'⟩)
        simp [hb] at hended
      · obtain rfl := Move.writer.inj heq
        exact hw'
  closing hfired hp := by
    have hfired' : t.fired = false := hfired
    rw [hfired'] at hturn
    exact Outbox.closing_of_turn hturn hp
  concluded hfired hp := by
    have hfired' : t.fired = false := hfired
    have hempty := h.closing hfired'
    rw [hfired'] at hturn
    obtain ⟨hclosing, hconcluded⟩ :=
      Outbox.concluded_of_turn hturn h.sound h.tidy (fun hclosing => (hempty hclosing).2) hp
    exact ⟨(hempty hclosing).1, hconcluded⟩

end Settled

/-- Each move keeps the way to the end. -/
theorem settled_of_turn (h : Turn t m u) (hs : Settled ms t) : Settled (ms ++ [m]) u := by
  cases h with
  | writer h hb => exact hs.writer h hb
  | complete i s hi hr hq => exact hs.keep (.complete i s hi hr hq) rfl (by simp) id
  | refuse i s hi hr hq hc => exact hs.keep (.refuse i s hi hr hq hc) rfl (by simp) id
  | queue i s f queue hi hr _ hc ho => exact hs.queue (isHeld_of_sender hi hr) hc ho
  | send frames hk => exact hs.keep (.send frames hk) rfl (by simp) id
  | cancel => exact hs.keep .cancel rfl (by simp) (by simp)
  | release hk => exact hs.keep (.release hk) rfl (by simp) id

theorem settled_of_reaches (h : Reaches t ms u) (hs : Settled ns t) : Settled (ns ++ ms) u := by
  induction h generalizing ns with
  | refl t =>
      rw [List.append_nil]
      exact hs
  | @step t v u m ms hstep _ ih =>
      have hnext := ih (settled_of_turn (turn_of_step hstep) hs)
      rwa [List.append_assoc, List.singleton_append] at hnext

/-- Once the task has ended, neither it nor its queue changes. -/
theorem outbox_of_turn (h : Turn t m u) (hs : Settled ms t) (he : t.outbox.isEnded = true) :
    u.outbox = t.outbox := by
  cases h with
  | writer _ hb => simp [he] at hb
  | queue i s f queue _ _ _ hc _ =>
      -- the queue has been given up with the task
      simp [hs.closed he] at hc
  | _ => rfl

theorem outbox_of_reaches (h : Reaches t ms u) (hs : Settled ns t) (he : t.outbox.isEnded = true) :
    u.outbox = t.outbox := by
  induction h generalizing ns with
  | refl t => rfl
  | @step t v u m ms hstep _ ih =>
      have hturn := turn_of_step hstep
      have hsame := outbox_of_turn hturn hs he
      exact (ih (settled_of_turn hturn hs) (hsame ▸ he)).trans hsame

/-- No sender has queued a frame between the two states, nor has one that came in between. -/
structure Stalled (t u : Traffic) : Prop where
  length : t.senders.length ≤ u.senders.length
  before : ∀ (i : Nat) (s : Sender), u.senders[i]? = some s → i < t.senders.length →
    ∃ s₀, t.senders[i]? = some s₀ ∧ s.frames = s₀.frames ∧ s.queued = s₀.queued
  after : ∀ (i : Nat) (s : Sender), u.senders[i]? = some s → t.senders.length ≤ i → s.queued = 0

namespace Stalled

variable {v : Traffic}

theorem refl (t : Traffic) : Stalled t t where
  length := Nat.le_refl _
  before i s hs _ := ⟨s, hs, rfl, rfl⟩
  after i s hs hle := by
    have hlt := (List.getElem?_eq_some_iff.1 hs).1
    omega

theorem trans (h : Stalled t u) (h' : Stalled u v) : Stalled t v where
  length := Nat.le_trans h.length h'.length
  before i s hs hlt := by
    obtain ⟨s₁, hs₁, hframes, hqueued⟩ := h'.before i s hs (Nat.lt_of_lt_of_le hlt h.length)
    obtain ⟨s₀, hs₀, hframes₀, hqueued₀⟩ := h.before i s₁ hs₁ hlt
    exact ⟨s₀, hs₀, hframes.trans hframes₀, hqueued.trans hqueued₀⟩
  after i s hs hle := by
    by_cases hlt : i < u.senders.length
    · obtain ⟨s₁, hs₁, -, hqueued⟩ := h'.before i s hs hlt
      exact hqueued.trans (h.after i s₁ hs₁ hle)
    · exact h'.after i s hs (Nat.le_of_not_lt hlt)

theorem of_revises (h : Revises (fun s : Sender => s.queued = 0)
    (fun _ s₀ s => s.frames = s₀.frames ∧ s.queued = s₀.queued) t.senders u.senders) : Stalled t u where
  length := h.length_le
  before i s hs hlt := by
    obtain ⟨s', hs', hsame⟩ := h.get_to (List.getElem?_eq_getElem hlt)
    obtain rfl : s' = s := Option.some.inj (hs'.symm.trans hs)
    refine ⟨t.senders[i], List.getElem?_eq_getElem hlt, ?_⟩
    rcases hsame with rfl | hsame
    · exact ⟨rfl, rfl⟩
    · exact hsame
  after i s hs hle := by
    rcases h.get_from hs with hnew | ⟨s₀, hs₀, -⟩
    · exact hnew
    · have hlt := (List.getElem?_eq_some_iff.1 hs₀).1
      omega

end Stalled

/-- Once the task has ended, nothing is queued any more. -/
theorem stalled_of_turn (h : Turn t m u) (hc : t.outbox.queue.closed = true) : Stalled t u := by
  cases h with
  | writer _ _ => exact .of_revises (.same rfl)
  | complete i s hs _ _ =>
      exact .of_revises (.changed (y := { s with result := some (.ok ()) }) hs ⟨rfl, rfl⟩ rfl)
  | refuse i s hs _ _ _ =>
      exact .of_revises
        (.changed (y := { s with result := some (.error .connectionClosed) }) hs ⟨rfl, rfl⟩ rfl)
  | queue i s f queue _ _ _ hopen _ => simp [hc] at hopen
  | send frames _ => exact .of_revises (.added rfl rfl)
  | cancel => exact .of_revises (.same rfl)
  | release _ => exact .of_revises (.same rfl)

theorem stalled_of_reaches (h : Reaches t ms u) (hs : Settled ns t) (he : t.outbox.isEnded = true) :
    Stalled t u := by
  induction h generalizing ns with
  | refl t => exact .refl t
  | @step t v u m ms hstep _ ih =>
      have hturn := turn_of_step hstep
      have hsame := outbox_of_turn hturn hs he
      exact (stalled_of_turn hturn (hs.closed he)).trans (ih (settled_of_turn hturn hs) (hsame ▸ he))

/-- A sender with a frame left is turned away as soon as it goes on. -/
theorem step_of_closed (hs : t.senders[i]? = some s) (hr : s.result = none) (hb : s.isBusy = true)
    (hc : t.outbox.queue.closed = true) :
    ∃ u, t.step (.sender i) = some u ∧
      u.senders[i]? = some { s with result := some (.error .connectionClosed) } := by
  have hlt : i < t.senders.length := (List.getElem?_eq_some_iff.1 hs).1
  cases hrest : s.frames.drop s.queued with
  | nil =>
      have hle : s.frames.length ≤ s.queued := List.drop_eq_nil_iff.1 hrest
      simp only [Sender.isBusy, decide_eq_true_eq] at hb
      omega
  | cons f rest =>
      refine ⟨{ t with senders := t.senders.set i { s with result := some (.error .connectionClosed) } }, ?_, ?_⟩
      · simp [step, hs, Sender.step, hr, hrest, hc]
      · exact List.getElem?_set_self hlt

/-! ## Integrity -/

/-- Whatever senders, token, handles and sink do, and in whatever order:

- what the sink has taken is at any moment the front of the frames that have been queued, put together in queue order,
  and the frames of each sender are queued in the order in which it was given them,
- if the task ends without the token and without a failure of the sink, then because nobody holds a handle any more,
  and the sink has taken everything, has been flushed behind the last batch, and has been shut down once and last,
- the task ends with an error exactly if a write failed, a write that offered something took nothing, or a flush failed,
- once it has ended, neither it nor its queue changes any more, nobody queues anything, and whoever has a frame left has
  been turned away or will be as soon as it goes on. -/
theorem integrity_of_reaches (capacity : Nat) (h : Reaches (start capacity) ms t) :
    (t.outbox.delivered <+: t.outbox.queue.sent.flatten ∧
      ((start capacity).ledger ms).map Prod.snd = t.outbox.queue.sent ∧
      ∀ i s, t.senders[i]? = some s →
        framesOf i ((start capacity).ledger ms) = s.frames.take s.queued) ∧
    (t.outbox.phase = .ended none → t.fired = false → t.isHeld = false ∧ t.outbox.Concluded) ∧
    ((∀ e, t.outbox.phase = .ended (some e) ↔ ∃ m, Move.writer m ∈ ms ∧ m.failure? = some e) ∧
      ∀ offered outcome, .write offered outcome ∈ t.outbox.calls → offered.flatten ≠ []) ∧
    (t.outbox.isEnded = true → ∀ ns u, Reaches t ns u → u.outbox = t.outbox ∧ Stalled t u ∧
      ∀ i s, u.senders[i]? = some s → s.isBusy = true →
        s.result = some (.error .connectionClosed) ∨
        s.result = none ∧ ∃ v, u.step (.sender i) = some v ∧
          v.senders[i]? = some { s with result := some (.error .connectionClosed) }) := by
  have hsettled : Settled ([] ++ ms) t := settled_of_reaches h (.start capacity)
  have hfiled : Filed ([] ++ (start capacity).ledger ms) t := filed_of_reaches h (.start capacity)
  refine ⟨⟨hsettled.sound.delivered_front, hfiled.sent, hfiled.own⟩,
    fun hp hf => hsettled.concluded hf hp, ⟨hsettled.failed, hsettled.tidy.offers⟩, ?_⟩
  intro hended ns u hu
  -- Nothing moves the task or its queue any more, so whoever still has a frame meets a closed queue.
  have houtbox : u.outbox = t.outbox := outbox_of_reaches hu hsettled hended
  refine ⟨houtbox, stalled_of_reaches hu hsettled hended, fun i s hs hbusy => ?_⟩
  cases hr : s.result with
  | some result =>
      have hanswered := (filed_of_reaches hu hfiled).answered i s hs result hr
      rcases hanswered with ⟨-, hidle⟩ | rfl
      · simp [hbusy] at hidle
      · exact .inl rfl
  | none =>
      have hclosed : u.outbox.queue.closed = true := by
        rw [houtbox]
        exact hsettled.closed hended
      exact .inr ⟨rfl, step_of_closed hs hr hbusy hclosed⟩

/-- The traffic after given moves. -/
def after (t : Traffic) : List Move → Option Traffic
  | [] => some t
  | m :: ms => (t.step m).bind fun u => u.after ms

theorem reaches_of_after (h : t.after ms = some u) : Reaches t ms u := by
  induction ms generalizing t with
  | nil =>
      obtain rfl := Option.some.inj h
      exact .refl t
  | cons m ms ih =>
      simp only [after, Option.bind_eq_some_iff] at h
      obtain ⟨v, hstep, hrest⟩ := h
      exact .step hstep (ih hrest)

/-- Two senders share a queue with room for one frame; the sink takes their first frames in two parts. -/
def twoSenders : List Move :=
  [.send [[1, 2], []], .send [[3]], .sender 0, .writer .take, .sender 1, .writer .gather, .writer .seal,
    .writer (.write (.took 1)), .sender 1, .sender 0, .writer (.write (.took 2)), .release, .sender 0,
    .writer (.flush none), .writer .take, .writer .seal, .writer (.flush none), .writer .leave,
    .writer .shutdown]

/-- The handle is dropped while frames are queued, and all of them go out. -/
theorem integrity_of_two_senders :
    ∃ t, (start 1).after twoSenders = some t ∧ t.outbox.phase = .ended none ∧ t.fired = false ∧
      t.outbox.delivered = [1, 2, 3] ∧ t.outbox.Concluded ∧
      framesOf 0 ((start 1).ledger twoSenders) = [[1, 2], []] := by
  obtain ⟨t, h, hp, hf, hd, hs⟩ : ∃ t, (start 1).after twoSenders = some t ∧
      t.outbox.phase = .ended none ∧ t.fired = false ∧ t.outbox.delivered = [1, 2, 3] ∧
      t.senders[0]? = some { frames := [[1, 2], []], queued := 2, result := some (.ok ()) } :=
    ⟨_, rfl, rfl, rfl, rfl, rfl⟩
  have hintegrity := integrity_of_reaches 1 (reaches_of_after h)
  exact ⟨t, h, hp, hf, hd, (hintegrity.2.1 hp hf).2, hintegrity.1.2.2 0 _ hs⟩

end Traffic
end Courier
