import Courier.Proofs.Attendant.Lead
import Courier.Proofs.Outbox

/-!
# Quiet — attendants that can do nothing on their own

A task that can go no further waits for a peer, a caller or room in a channel.  Once the status of an attendant is
final, none of its tasks waits with an end of the connection in its hands.

- `Attendant.Quiet` — no task can go on by itself,
- `Attendant.reader_of_quiet` — nor does the read loop wait to report the end, if there is room,
- `Attendant.released_of_launched` — a started attendant that has stopped and is quiet has released its connection.
-/

namespace Courier

variable {μ : Type} [Marshaler μ]

/-! ## The writing task -/

namespace Outbox

/-- Whether a move is the task's own.  What a write or a flush comes to is up to the sink. -/
def Move.isOwn : Move → Bool
  | .write _ => false
  | .flush _ => false
  | _ => true

/-- The moves of the task itself. -/
def ownMoves : List Move :=
  [.take, .gather, .seal, .leave, .abandon, .shutdown]

theorem mem_ownMoves_iff {m : Move} : m ∈ ownMoves ↔ m.isOwn = true := by
  cases m <;> simp [Move.isOwn, ownMoves]

/-- Once the token has fired, the task waits for nobody. -/
theorem isEnded_of_quiet (held : Bool) {b : Outbox}
    (hq : ∀ m, m.isOwn = true → b.step true held m = none) : b.isEnded = true := by
  cases hp : b.phase with
  | waiting =>
      have hleave := hq .leave rfl
      simp [step, hp] at hleave
  | gathering frames => exact absurd (hq .seal rfl) (seal_of_gathering hp (hq .gather rfl))
  | writing batch | flushing =>
      have habandon := hq .abandon rfl
      simp [step, hp] at habandon
  | closing =>
      have hshutdown := hq .shutdown rfl
      simp [step, hp] at hshutdown
  | ended failure =>
      unfold isEnded
      rw [hp]

end Outbox

namespace Attendant

/-- Whether a move is one of the attendant's own tasks or of an operation under way. -/
def Move.isOwn : Move → Bool
  | .advance _ => true
  | .proceed => true
  | .quit => true
  | .writer m => m.isOwn
  | _ => false

/-- No task of the attendant can go on by itself. -/
def Quiet (id : AttendantId) (now : Nat) (a : Attendant μ) (p : Ports) : Prop :=
  ∀ m, m.isOwn = true → a.step id now p m = none

/-- The moves of an attendant's own tasks and of the operations that have been begun. -/
def ownMoves (a : Attendant μ) : List Move :=
  (List.range a.calls.length).map .advance ++ [.proceed, .quit] ++ Outbox.ownMoves.map .writer

variable {id : AttendantId} {now : Nat} {a : Attendant μ} {p : Ports} {c : Call μ} {i : Nat}

theorem isOwn_of_mem_ownMoves {m : Move} (h : m ∈ a.ownMoves) : m.isOwn = true := by
  simp only [ownMoves, List.mem_append, List.mem_map, List.mem_cons, List.not_mem_nil, or_false] at h
  rcases h with (⟨i, -, rfl⟩ | rfl | rfl) | ⟨w, hw, rfl⟩
  · rfl
  · rfl
  · rfl
  · exact Outbox.mem_ownMoves_iff.1 hw

/-- An operation that has not been begun cannot go on. -/
theorem quiet_of_ownMoves (h : ∀ m ∈ a.ownMoves, a.step id now p m = none) : Quiet id now a p := by
  intro m hm
  cases m with
  | advance i =>
      by_cases hi : i < a.calls.length
      · exact h _ (by simp [ownMoves, hi])
      · have hnone : a.calls[i]? = none := List.getElem?_eq_none (Nat.le_of_not_lt hi)
        simp [step, hnone]
  | proceed => exact h _ (by simp [ownMoves])
  | quit => exact h _ (by simp [ownMoves])
  | writer m => exact h _ (by simp [ownMoves, Outbox.mem_ownMoves_iff.2 hm])
  | _ => simp [Move.isOwn] at hm

namespace Quiet

theorem advance_eq_none (h : Quiet id now a p) (hc : a.calls[i]? = some c) : a.advance id p c = none := by
  have hstep := h (.advance i) rfl
  simpa only [step, hc, Option.map_eq_none_iff] using hstep

theorem proceed_eq_none (h : Quiet id now a p) : a.proceed id now p = none :=
  h .proceed rfl

theorem quit_eq_none (h : Quiet id now a p) : a.quit = none := by
  have hstep := h .quit rfl
  simpa only [step, Option.map_eq_none_iff] using hstep

/-- The read loop does not stay in its loop once the token has fired. -/
theorem not_looping (h : Quiet id now a p) (hf : a.fired = true) : a.reader.isLooping = false := by
  have hproceed := h.proceed_eq_none
  have hquit := h.quit_eq_none
  cases hr : a.reader with
  | receiving r => simp [quit, hf, hr] at hquit
  | failed e => simp [proceed, hr] at hproceed
  | judging r m => simp [proceed, hr] at hproceed
  | publishing r m refusal => simp [quit, hf, hr] at hquit
  | _ => rfl

/-- A stop that has made the status final has come out. -/
theorem fired_of_halting {fired : Bool} (h : Quiet id now a p) (hc : a.calls[i]? = some c)
    (hh : Halting c fired) : fired = true := by
  cases hh with
  | firing =>
      have hadvance := h.advance_eq_none hc
      simp [advance] at hadvance
  | stopped => rfl

/-- A read loop that has fired the token keeps the receiver no longer than it needs to. -/
theorem released_reader (h : Quiet id now a p) (hf : a.reader.hasFired = true) :
    a.reader.holdsReceiver = false := by
  have hproceed := h.proceed_eq_none
  cases hr : a.reader with
  | releasing e => simp [proceed, hr] at hproceed
  | announcing e => rfl
  | finished => rfl
  | _ => simp [hr, Reader.hasFired] at hf

end Quiet

/-- After the start and a stop, a quiet attendant has fired its token, and its read loop knows of it. -/
theorem settled_of_quiet (hs : a.Staged) (hl : a.launches = [.started (.ok ())]) (hst : a.status = .stopped)
    (hq : Quiet id now a p) : a.fired = true ∧ a.pending = none ∧ a.reader.hasFired = true := by
  have hproceed := hq.proceed_eq_none
  have hstage : Stage .stopped [.started (.ok ())] a.halts a.pending a.fired a.reader := by
    rw [← hst, ← hl]
    exact hs
  have hhalt : ∀ {c fired}, a.halts = [c] → Halting c fired → fired = true := by
    intro c fired hc hh
    have hmem : c ∈ a.halts := hc ▸ List.mem_singleton.2 rfl
    obtain ⟨i, hi⟩ := List.mem_iff_getElem?.1 (List.mem_filter.1 hmem).1
    exact hq.fired_of_halting hi hh
  have hloop : a.fired = true → a.reader.isLooping = false := hq.not_looping
  generalize hhs : a.halts = hs', hpd : a.pending = pending, hfd : a.fired = fired,
    hrd : a.reader = rd at *
  cases hstage with
  | closing _ => simp [proceed, hrd] at hproceed
  | closed hr _ => exact ⟨rfl, rfl, hr⟩
  | haltedLaunch hc _ => cases hc
  | haltedLoop hr hh =>
      have hfired := hhalt rfl hh
      simp [hloop hfired] at hr
  | haltedLeft e _ => simp [proceed, hrd, hst] at hproceed
  | haltedFiring _ => simp [proceed, hrd] at hproceed
  | haltedClosed hr _ _ => exact ⟨rfl, rfl, hr⟩

/-- Whoever waits with the receiver has claimed the attendant. -/
theorem launches_of_holdsReceiver (h : c.holdsReceiver = true) : c.launches = true := by
  cases c <;> simp_all [Call.holdsReceiver, Call.launches]

/-- A start that has come out has passed the receiver on. -/
theorem unheld_of_launched (hl : a.launches = [.started (.ok ())]) : a.calls.any Call.holdsReceiver = false := by
  refine List.any_eq_false.2 fun d hd hholds => ?_
  have hmem : d ∈ a.launches := List.mem_filter.2 ⟨hd, launches_of_holdsReceiver hholds⟩
  rw [hl] at hmem
  obtain rfl := List.mem_singleton.1 hmem
  simp [Call.holdsReceiver] at hholds

/-- A read loop that can report the end of its attendant does not wait. -/
theorem reader_of_quiet (hs : a.Staged) (hl : a.launches = [.started (.ok ())]) (hst : a.status = .stopped)
    (hroom : p.lifecycle.isFull = false) (hq : Quiet id now a p) : a.reader = .finished := by
  obtain ⟨-, -, hknown⟩ := settled_of_quiet hs hl hst hq
  have hproceed := hq.proceed_eq_none
  cases hr : a.reader with
  | releasing e => simp [proceed, hr] at hproceed
  | announcing e =>
      simp only [proceed, hr, Option.map_eq_none_iff] at hproceed
      obtain ⟨-, hfull⟩ := Channel.offer?_eq_none_iff.1 hproceed
      simp [hroom] at hfull
  | finished => rfl
  | _ => simp [hr, Reader.hasFired] at hknown

/-- A started attendant that has stopped and is quiet has released both halves of its connection. -/
theorem released_of_launched (hs : a.Staged) (hl : a.launches = [.started (.ok ())]) (hst : a.status = .stopped)
    (hq : Quiet id now a p) : a.readReleased = true ∧ a.writeReleased = true := by
  obtain ⟨hfired, hpending, hknown⟩ := settled_of_quiet hs hl hst hq
  have hreader := hq.released_reader hknown
  refine ⟨?_, ?_⟩
  · simp [readReleased, hpending, unheld_of_launched hl, hreader]
  · refine Outbox.isEnded_of_quiet true fun m hm => ?_
    have hstep := hq (.writer m) hm
    simpa only [step, hfired, Option.map_eq_none_iff] using hstep

theorem released_of_quiet (hs : a.Staged) (hl : a.Led (.started (.ok ()))) (hst : a.status = .stopped)
    (hq : Quiet id now a p) : a.readReleased = true ∧ a.writeReleased = true :=
  released_of_launched hs (hl.launches_eq hs) hst hq

end Attendant
end Courier
