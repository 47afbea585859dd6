import Courier.Proofs.Attendant.Release

/-!
# Cells — status, token and waiting receiver

The status, the token and the receiver that waits for a start are three cells.  A start changes the first and then
takes the third; a stop changes the first, fires the token and, of an attendant that was new, drops the third; the
read loop changes the first and fires the token.  Other tasks may come between any two of these accesses.

1. `Call.isMidway` — the operations that have changed the status and not yet the waiting receiver,
2. `Attendant.Staged.pending_iff` — whom the waiting receiver waits for,
3. `Attendant.rank_of_course` — the status goes forward only,
4. `Attendant.refused_of_access` — an operation that fails is one access, and changes nothing,
5. `Attendant.cells_of_course` puts them together.
-/

namespace Courier

variable {μ : Type} [Marshaler μ]

namespace Status

/-- How far a status has come. -/
def rank : Status → Nat
  | .new => 0
  | .running => 1
  | .stopped => 2

theorem rank_le_stopped (s : Status) : s.rank ≤ Status.stopped.rank := by
  cases s <;> decide

theorem eq_stopped_of_rank_le {s : Status} (h : Status.stopped.rank ≤ s.rank) : s = .stopped := by
  cases s with
  | new | running => exact absurd h (by decide)
  | stopped => rfl

end Status

namespace Call

/-- Whether an operation has changed the status and has still to see to the waiting receiver. -/
def isMidway : Call μ → Bool
  | .claimed => true
  | .firing true => true
  | .dropping => true
  | _ => false

/-- Whether an operation is a start or a stop that has failed. -/
def isRefused : Call μ → Bool
  | .started (.error _) => true
  | .stopped (.error _) => true
  | _ => false

theorem launches_or_halts_of_isMidway {c : Call μ} (h : c.isMidway = true) : c.launches = true ∨ c.halts = true := by
  cases c with
  | claimed => exact .inl rfl
  | firing wasNew => exact .inr rfl
  | dropping => exact .inr rfl
  | announcing r | handing r | started result | stopped result | queueing frame | sent result => simp [isMidway] at h

end Call

/-! ## The token and the waiting receiver -/

namespace Stage

variable {s : Status} {ls hs : List (Call μ)} {pending : Option (Marshaler.Receiver μ)} {fired : Bool} {rd : Reader μ}

theorem stopped_of_fired (h : Stage s ls hs pending true rd) : s = .stopped := by
  cases h with
  | closed _ _ | dropping _ | withdrawn => rfl
  | haltedLaunch _ _ | haltedLoop _ _ | haltedLeft _ _ | haltedFiring _ | haltedClosed _ _ _ => rfl

/-- A receiver waits for a start to come, or for an operation that has come to see to it. -/
theorem pending_iff (h : Stage s ls hs pending fired rd) :
    pending.isSome = true ↔ s = .new ∨ ∃ c ∈ ls ++ hs, c.isMidway = true := by
  cases h with
  | fresh r => simp
  | launching hc =>
      cases hc with
      | claimed r => simp [Call.isMidway]
      | announcing r | handing r => simp [Call.isMidway]
  | reading _ | leaving _ | closing _ | closed _ _ => simp [Call.isMidway]
  | withdrawing r => simp [Call.isMidway]
  | dropping r => simp [Call.isMidway]
  | withdrawn => simp [Call.isMidway]
  | haltedLaunch hc hh => cases hc <;> cases hh <;> simp [Call.isMidway]
  | haltedLoop _ hh | haltedLeft _ hh | haltedFiring hh | haltedClosed _ _ hh => cases hh <;> simp [Call.isMidway]

end Stage

namespace Attendant

variable {id : AttendantId} {now : Nat} {a b : Attendant μ} {p q : Ports} {m : Move} {ms : List Move} {c : Call μ}
  {i : Nat}

theorem Staged.pending_iff (hs : a.Staged) :
    a.pending.isSome = true ↔ a.status = .new ∨ ∃ c ∈ a.calls, c.isMidway = true := by
  have hmidway : (∃ c ∈ a.launches ++ a.halts, c.isMidway = true) ↔ ∃ c ∈ a.calls, c.isMidway = true := by
    constructor
    · rintro ⟨c, hc, hm⟩
      rcases List.mem_append.1 hc with hc | hc
      · exact ⟨c, (List.mem_filter.1 hc).1, hm⟩
      · exact ⟨c, (List.mem_filter.1 hc).1, hm⟩
    · rintro ⟨c, hc, hm⟩
      refine ⟨c, List.mem_append.2 ?_, hm⟩
      rcases Call.launches_or_halts_of_isMidway hm with h | h
      · exact .inl (List.mem_filter.2 ⟨hc, h⟩)
      · exact .inr (List.mem_filter.2 ⟨hc, h⟩)
  rw [← hmidway]
  exact Stage.pending_iff hs

/-- A start that has claimed the attendant finds the receiver, whatever came after the claim. -/
theorem Staged.pending_of_claimed (hs : a.Staged) (hc : a.calls[i]? = some .claimed) : ∃ r, a.pending = some r :=
  Option.isSome_iff_exists.1 (hs.pending_iff.2 (.inr ⟨.claimed, List.mem_of_getElem? hc, rfl⟩))

/-! ## Forward only -/

theorem rank_of_access (h : Access id now a p m b q) : a.status.rank ≤ b.status.rank := by
  cases h with
  | claim hs => simp only [status_record, hs, Status.rank, Nat.zero_le]
  | halt _ => exact Status.rank_le_stopped _
  | settleWon _ _ _ => exact Status.rank_le_stopped _
  | _ => exact Nat.le_refl _

theorem rank_of_course (h : Course id a p ms b q) : a.status.rank ≤ b.status.rank :=
  Course.preserves (I := fun b _ => a.status.rank ≤ b.status.rank)
    (fun haccess hle => Nat.le_trans hle (rank_of_access haccess)) (fun _ hle => hle) h (Nat.le_refl _)

/-- A start that has claimed the attendant goes on as one. -/
theorem launch_of_access (h : Access id now a p m b q) (hs : a.Staged) :
    Revises (fun _ => True) (fun _ c d => c.launches = true → d.launches = true) a.calls b.calls := by
  cases h with
  | claim _ | refuseStart _ | halt _ | refuseStop _ | refuseSend _ _ _ _ | encode _ _ _ _ _ => exact .added trivial rfl
  | takeReceiver i r hc _ => exact .changed hc (fun _ => rfl) rfl
  -- the only access by which a start could fail after its claim
  | missReceiver _ hc hr => exact absurd hr (hs.not_missing hc)
  | announce i r _ hc _ => exact .changed hc (fun _ => rfl) rfl
  | hand i r hc => exact .changed hc (fun _ => rfl) rfl
  | fire i wasNew hc => exact .changed hc (by simp [Call.launches]) rfl
  | dropReceiver i hc => exact .changed hc (by simp [Call.launches]) rfl
  | missQueue i frame hc _ => exact .changed hc (by simp [Call.launches]) rfl
  | queue i frame _ hc _ _ => exact .changed hc (by simp [Call.launches]) rfl
  | _ => exact .same rfl

theorem launch_of_course (h : Course id a p ms b q) (hs : a.Staged) (hc : a.calls[i]? = some c)
    (hl : c.launches = true) : ∃ d, b.calls[i]? = some d ∧ d.launches = true := by
  refine (Course.preserves (I := fun b _ => b.Staged ∧ ∃ d, b.calls[i]? = some d ∧ d.launches = true) ?_
    (fun _ hi => hi) h ⟨hs, c, hc, hl⟩).2
  rintro now m a b p q haccess ⟨hs, d, hd, hdl⟩
  obtain ⟨e, he, hnext⟩ := (launch_of_access haccess hs).get_to hd
  refine ⟨staged_of_access haccess hs, e, he, ?_⟩
  rcases hnext with rfl | hnext
  · exact hdl
  · exact hnext hdl

/-! ## Operations that fail -/

/-- A start or a stop that has failed where it had not failed before has begun and come out in one access, which has
changed nothing else. -/
theorem refused_of_access (h : Access id now a p m b q) (hs : a.Staged) (hr : c.isRefused = true)
    (hb : b.calls[i]? = some c) (ha : a.calls[i]? ≠ some c) : i = a.calls.length ∧ b = a.record c ∧ q = p := by
  -- the operation that an access begins or lets go on, against the one that has failed
  have hadded : ∀ {d : Call μ}, (a.calls ++ [d])[i]? = some c → i = a.calls.length ∧ c = d :=
    fun h => (of_getElem?_concat h).resolve_left ha
  have hchanged : ∀ {j : Nat} {d : Call μ}, (a.calls.set j d)[i]? = some c → c = d :=
    fun h => ((of_getElem?_set h).resolve_left fun hsame => ha hsame.2).2
  cases h with
  | refuseStart _ =>
      obtain ⟨hi, rfl⟩ := hadded hb
      exact ⟨hi, rfl, rfl⟩
  | refuseStop _ =>
      obtain ⟨hi, rfl⟩ := hadded hb
      exact ⟨hi, rfl, rfl⟩
  | claim _ | halt _ | refuseSend _ _ _ _ | encode _ _ _ _ _ =>
      obtain ⟨-, rfl⟩ := hadded hb
      simp [Call.isRefused] at hr
  | missReceiver _ hc hr => exact absurd hr (hs.not_missing hc)
  | takeReceiver _ _ _ _ | announce _ _ _ _ _ | hand _ _ _ | dropReceiver _ _ | missQueue _ _ _ _ | queue _ _ _ _ _ _ =>
      obtain rfl := hchanged hb
      simp [Call.isRefused] at hr
  | fire j wasNew _ =>
      obtain rfl := hchanged hb
      cases wasNew <;> simp [Call.isRefused] at hr
  | _ => exact absurd hb ha

/-! ## Every interleaving -/

/-- Whatever starts, stops and the end of the read loop come in whatever order:

- the token has fired only when the attendant has stopped,
- unless a start or a stop is midway, the receiver waits exactly while the attendant is new,
- a start that has claimed the attendant takes the receiver next, and never fails,
- a start or a stop that fails leaves the attendant as it was, but for being recorded,
- the status goes forward only. -/
theorem cells_of_course (codec : μ) (throttle writer : Nat)
    (h : Course id (create codec throttle writer) p ms a q) :
    (a.fired = true → a.status = .stopped) ∧
    ((∀ c ∈ a.calls, c.isMidway = false) → (a.pending.isSome = true ↔ a.status = .new)) ∧
    (∀ i, a.calls[i]? = some .claimed →
      (∃ r, a.pending = some r ∧ ∀ now, a.step id now q (.advance i) =
        some ({ a with pending := none, calls := a.calls.set i (.announcing r) }, q)) ∧
      ∀ ns b r, Course id a q ns b r → ∃ d, b.calls[i]? = some d ∧ d.launches = true) ∧
    (∀ now m b r i c, a.step id now q m = some (b, r) → c.isRefused = true → b.calls[i]? = some c →
      a.calls[i]? ≠ some c → i = a.calls.length ∧ b = a.record c ∧ r = q) ∧
    (∀ ns b r, Course id a q ns b r → a.status.rank ≤ b.status.rank) := by
  have hs : a.Staged := staged_of_course h (staged_create codec throttle writer)
  refine ⟨?_, ?_, ?_, ?_, fun ns b r hlater => rank_of_course hlater⟩
  · intro hfired
    have hs' : Stage a.status a.launches a.halts a.pending true a.reader := hfired ▸ hs
    exact hs'.stopped_of_fired
  · intro hbetween
    rw [hs.pending_iff]
    -- what else it could wait for is an operation that is midway
    refine or_iff_left ?_
    rintro ⟨c, hc, hmidway⟩
    simp [hbetween c hc] at hmidway
  · intro i hc
    obtain ⟨r, hr⟩ := hs.pending_of_claimed hc
    refine ⟨⟨r, hr, fun now => ?_⟩, fun ns b r hlater => launch_of_course hlater hs hc rfl⟩
    simp [step, advance, hc, hr]
  · intro now m b r i c hstep hr hb ha
    exact refused_of_access (access_of_step hstep) hs hr hb ha

/-- A second start fails, and a stop overtakes the first, which has claimed the attendant and not come to the
receiver. -/
def overtakenStart : List Move :=
  [.start, .start, .stop, .advance 2, .stop]

theorem cells_of_overtakenStart :
    ∃ a q, after 0 0 (create (Codec.lines 80) 0 1) narrowPorts overtakenStart = some (a, q) ∧
      a.fired = true ∧ a.status = .stopped ∧ (∃ r, a.pending = some r) ∧
      (∀ b r, a.step 0 0 q .start = some (b, r) → b = a.record (.started (.error .attendantNotNew))) ∧
      ∀ ns b r, Course 0 a q ns b r → b.status = .stopped := by
  obtain ⟨⟨a, q⟩, h, hrun⟩ := (Option.any_eq_true (fun s : Attendant Codec × Ports =>
    s.1.fired && decide (s.1.calls.length = 4) && s.1.calls[0]?.any fun c => c.launches && c.isMidway)
    (after 0 0 (create (Codec.lines 80) 0 1) narrowPorts overtakenStart)).1 (by decide +kernel)
  simp only [Bool.and_eq_true, decide_eq_true_eq, Option.any_eq_true] at hrun
  obtain ⟨⟨hfired, hlength⟩, c, hfirst, hlaunches, hmidway⟩ := hrun
  have hclaimed : a.calls[0]? = some .claimed := by
    cases c with
    | claimed => exact hfirst
    | _ => simp [Call.launches, Call.isMidway] at hlaunches hmidway
  obtain ⟨hstopped, -, hclaim, hrefused, hforward⟩ := cells_of_course (Codec.lines 80) 0 1 (Course.of_after h)
  have hs : a.status = .stopped := hstopped hfired
  obtain ⟨⟨r, hr, -⟩, -⟩ := hclaim 0 hclaimed
  refine ⟨a, q, h, hfired, hs, ⟨r, hr⟩, fun b r hstep => ?_, fun ns b r hlater => ?_⟩
  · have hb : b = a.record (.started (.error .attendantNotNew)) := by
      simp only [step, beginStart, hs, Option.some.injEq, Prod.mk.injEq] at hstep
      exact hstep.1.symm
    exact (hrefused 0 .start b r 4 _ hstep rfl (by rw [hb, ← hlength, getElem?_record]) (by simp [hlength])).2.1
  · exact Status.eq_stopped_of_rank_le (hs ▸ hforward ns b r hlater)

end Attendant
end Courier
