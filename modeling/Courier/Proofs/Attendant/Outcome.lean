import Courier.Proofs.Attendant.Stage

/-!
# Outcome — what an attendant tells of its life

Callers that stop an attendant race with its own read loop, and each of them may come while a start still
waits for room.  Whatever the order, an attendant has one outcome.

1. `Told` relates the reports on the channel to what has happened so far, and `Attendant.told_of_access`
   keeps it,
2. `Attendant.error_behind_ending` traces an ending that was not requested back to the error of the receiver,
3. `Attendant.quiet_of_withdrawn` covers attendants that are stopped before any start,
4. `Attendant.outcome_of_course` puts them together.
-/

namespace Courier

variable {μ : Type} [Marshaler μ]

/-! ## Operations that came out well -/

namespace Call

/-- A start that came out well. -/
def startedWell : Call μ → Bool
  | .started (.ok _) => true
  | _ => false

/-- A stop that came out well. -/
def stoppedWell : Call μ → Bool
  | .stopped (.ok _) => true
  | _ => false

variable {c : Call μ}

theorem launches_of_startedWell (h : c.startedWell = true) : c.launches = true := by
  cases c with
  | started result => cases result <;> simp_all [startedWell, launches]
  | _ => simp [startedWell] at h

theorem halts_of_stoppedWell (h : c.stoppedWell = true) : c.halts = true := by
  cases c with
  | stopped result => cases result <;> simp_all [stoppedWell, halts]
  | _ => simp [stoppedWell] at h

/-- A stop that has made the status final comes out well, if it has come out. -/
theorem stoppedWell_of_halts (h : c.halts = true) (hr : c.result?.isSome = true) :
    c.stoppedWell = true := by
  cases c with
  | stopped result => cases result <;> simp_all [stoppedWell, halts]
  | firing _ => simp [result?] at hr
  | dropping => simp [result?] at hr
  | _ => simp [halts] at h

theorem countP_startedWell_le (cs : List (Call μ)) :
    cs.countP startedWell ≤ (cs.filter launches).length := by
  rw [← List.countP_eq_length_filter]
  exact List.countP_mono_left fun _ _ => launches_of_startedWell

theorem countP_stoppedWell_le (cs : List (Call μ)) :
    cs.countP stoppedWell ≤ (cs.filter halts).length := by
  rw [← List.countP_eq_length_filter]
  exact List.countP_mono_left fun _ _ => halts_of_stoppedWell

end Call

namespace Reader

/-- Whether the end of the read loop has been reported. -/
def isFinished : Reader μ → Bool
  | .finished => true
  | _ => false

/-- The ending that the read loop has come to so far. -/
def ending? : Reader μ → Option Ending
  | .left e => some e
  | .firing e => some e
  | .releasing e => some e
  | .announcing e => some e
  | _ => none

end Reader

/-! ## What the stage says about the outcome -/

namespace Stage

variable {s : Status} {ls hs : List (Call μ)} {pending : Option (Marshaler.Receiver μ)} {fired : Bool}
  {rd : Reader μ} {e : Ending} {r : Marshaler.Receiver μ}

theorem stopped_of_finished (h : Stage s ls hs pending fired .finished) : s = .stopped := by
  cases h with
  | reading hr => simp [Reader.isLooping] at hr
  | closed _ _ => rfl
  | haltedLoop hr _ => simp [Reader.isLooping] at hr
  | haltedClosed _ _ _ => rfl

/-- The ending that is about to be reported is a requested one if a stop has made the status final. -/
theorem announced (h : Stage s ls hs pending fired (.announcing e)) :
    ls = [.started (.ok ())] ∧ (e = .requested ↔ hs ≠ []) := by
  cases h with
  | reading hr => simp [Reader.isLooping] at hr
  | closed _ he => exact ⟨rfl, by simpa using he e rfl⟩
  | haltedLoop hr _ => simp [Reader.isLooping] at hr
  | haltedClosed _ he _ => exact ⟨rfl, by simpa using he e rfl⟩

end Stage

/-! ## Reports -/

/-- The reports on an attendant beside whether its start has been reported, whether a stop has made its
status final, and whether its end has been reported.  Reports are lost once nobody receives them. -/
inductive Told (id : AttendantId) (lost : Bool) : List Notice → Bool → Bool → Bool → Prop where
  | silent {started halted finished : Bool} (h : lost = true ∨ started = false) :
      Told id lost [] started halted finished
  | started {halted finished : Bool} (h : lost = true ∨ finished = false) :
      Told id lost [.started id] true halted finished
  | ended {halted : Bool} {e : Ending} (he : e = .requested ↔ halted = true) :
      Told id lost [.started id, .stopped id e] true halted true

namespace Told

variable {id : AttendantId} {lost lost' started halted halted' finished : Bool} {ns : List Notice}

theorem mono (h : Told id lost ns started halted finished) (hl : lost = true → lost' = true) :
    Told id lost' ns started halted finished := by
  cases h with
  | silent h => exact .silent (h.imp_left hl)
  | started h => exact .started (h.imp_left hl)
  | ended he => exact .ended he

/-- A stop that makes the status final comes before the end is reported. -/
theorem halt (h : Told id lost ns started halted false) (halted' : Bool) :
    Told id lost ns started halted' false := by
  cases h with
  | silent h => exact .silent h
  | started h => exact .started h

/-- The start is reported, unless nobody receives it. -/
theorem announce (h : Told id lost ns false halted false) :
    Told id lost (if lost then ns else ns ++ [.started id]) true halted false := by
  cases h with
  | silent _ =>
      cases lost with
      | true => exact .silent (.inl rfl)
      | false => exact .started (.inr rfl)

/-- The end is reported, unless nobody receives it. -/
theorem report {e : Ending} (h : Told id lost ns true halted false)
    (he : e = .requested ↔ halted = true) :
    Told id lost (if lost then ns else ns ++ [.stopped id e]) true halted true := by
  cases h with
  | silent h =>
      obtain rfl : lost = true := by simpa using h
      exact .silent (.inl rfl)
  | started _ =>
      cases lost with
      | true => exact .started (.inl rfl)
      | false => exact .ended he

theorem sublist (h : Told id lost ns started halted finished) :
    ∃ e, ns.Sublist [.started id, .stopped id e] := by
  cases h with
  | silent _ => exact ⟨.requested, List.nil_sublist _⟩
  | started _ => exact ⟨.requested, List.sublist_append_left [_] [_]⟩
  | @ended _ e _ => exact ⟨e, List.Sublist.refl _⟩

/-- The end is not reported before the read loop is over. -/
theorem not_mem_stopped {e : Ending} (h : Told id lost ns started halted false) :
    .stopped id e ∉ ns := by
  cases h with
  | silent _ => simp
  | started _ => simp

theorem finished_of_mem {e : Ending} (h : Told id lost ns started halted finished) (hm : .stopped id e ∈ ns) :
    finished = true := by
  cases finished with
  | true => rfl
  | false => exact absurd hm h.not_mem_stopped

theorem started_of_mem (h : Told id lost ns started halted finished) (hm : .started id ∈ ns) : started = true := by
  cases h with
  | silent _ => simp at hm
  | started _ | ended _ => rfl

/-- As long as somebody receives the reports, the start is among them. -/
theorem mem_started (h : Told id false ns true halted finished) : .started id ∈ ns := by
  cases h with
  | silent h => simp at h
  | started _ | ended _ => exact List.mem_cons_self ..

/-- If somebody receives the reports and the end is not among them, the read loop is not over. -/
theorem unfinished (h : Told id false [.started id] started halted finished) : finished = false := by
  cases h with
  | started h => exact h.resolve_left (by simp)

/-- As long as somebody receives the reports, the end of a read loop is among them. -/
theorem mem_stopped (h : Told id false ns true halted true) :
    ∃ e, .stopped id e ∈ ns ∧ (e = .requested ↔ halted = true) := by
  cases h with
  | silent h => simp at h
  | started h => simp at h
  | @ended _ e he => exact ⟨e, by simp, he⟩

theorem requested_iff {e : Ending} (h : Told id lost ns started halted finished)
    (hm : .stopped id e ∈ ns) : e = .requested ↔ halted = true := by
  cases h with
  | silent _ => simp at hm
  | started _ => simp at hm
  | @ended _ f he =>
      obtain rfl : e = f := by simpa using hm
      exact he

end Told

namespace Ports

variable {id : AttendantId} {p : Ports} {n : Notice} {c : Channel Notice}

/-- A report arrives unless nobody receives it. -/
theorem notices_offer (id : AttendantId) (h : p.lifecycle.offer? n = some c) (hn : n.attendant = id) :
    ({ p with lifecycle := c } : Ports).notices id =
      if p.lifecycle.closed then p.notices id else p.notices id ++ [n] := by
  rcases Channel.offer?_eq_some_iff.1 h with ⟨hc, rfl⟩ | ⟨hc, _, rfl⟩
  · rw [if_pos hc]
  · rw [if_neg (by simp [hc])]
    simp [notices, List.filter_append, hn]

theorem mem_notices_offer {m : Notice} (h : p.lifecycle.offer? n = some c)
    (hm : m ∈ ({ p with lifecycle := c } : Ports).notices id) : m ∈ p.notices id ∨ m = n := by
  rcases Channel.offer?_eq_some_iff.1 h with ⟨_, rfl⟩ | ⟨_, _, rfl⟩
  · exact .inl hm
  · simp only [notices, Channel.sent_put, List.filter_append, List.mem_append] at hm
    exact hm.imp_right fun h => by simpa using (List.mem_filter.1 h).1

end Ports

namespace Attendant

variable {id : AttendantId} {now : Nat} {a b : Attendant μ} {p q : Ports} {m : Move} {c d : Call μ}
  {i : Nat}

/-- Whether the start has been reported. -/
def hasStarted (a : Attendant μ) : Bool :=
  a.launches.any Call.hasReported

/-- Whether a stop has made the status final. -/
def isHalted (a : Attendant μ) : Bool :=
  !a.halts.isEmpty

/-- The reports of an attendant agree with what has happened to it. -/
def Reported (id : AttendantId) (a : Attendant μ) (p : Ports) : Prop :=
  Told id p.lifecycle.closed (p.notices id) a.hasStarted a.isHalted a.reader.isFinished

/-- Nothing that the reports depend on has changed. -/
theorem Reported.of_eq (h : a.Reported id p) (hs : b.hasStarted = a.hasStarted)
    (hh : b.isHalted = a.isHalted) (hf : b.reader.isFinished = a.reader.isFinished) :
    b.Reported id p := by
  unfold Reported
  rw [hs, hh, hf]
  exact h

theorem hasStarted_record (h : c.hasReported = false) :
    (a.record c).hasStarted = a.hasStarted := by
  unfold hasStarted
  rw [launches_record, List.any_append]
  cases hc : c.launches <;> simp [hc, h]

theorem isHalted_record (h : c.halts = false) : (a.record c).isHalted = a.isHalted := by
  unfold isHalted
  rw [halts_record, List.filter_cons_of_neg (by simp [h]), List.filter_nil, List.append_nil]

theorem Reported.record (h : a.Reported id p) (hc : c.hasReported = false) (hh : c.halts = false) :
    (a.record c).Reported id p :=
  h.of_eq (hasStarted_record hc) (isHalted_record hh) rfl

/-- An operation that is neither a claiming start nor a claiming stop does not matter to the reports. -/
theorem Reported.of_set (h : a.Reported id p) (hc : a.calls[i]? = some c)
    (hl : c.launches = false) (hl' : d.launches = false) (hh : c.halts = false)
    (hh' : d.halts = false) (hcalls : b.calls = a.calls.set i d) (hr : b.reader = a.reader) :
    b.Reported id p := by
  refine h.of_eq ?_ ?_ (by rw [hr])
  · unfold hasStarted launches
    rw [hcalls, filter_set_of_not hc hl hl']
  · unfold isHalted halts
    rw [hcalls, filter_set_of_not hc hh hh']

/-- The operations have not changed. -/
theorem Reported.of_reader (h : a.Reported id p) (hcalls : b.calls = a.calls)
    (hr : b.reader.isFinished = a.reader.isFinished) : b.Reported id p := by
  refine h.of_eq ?_ ?_ hr
  · unfold hasStarted launches
    rw [hcalls]
  · unfold isHalted halts
    rw [hcalls]

/-- A start under way goes on. -/
theorem hasStarted_of_set (hs : a.Staged) (hc : a.calls[i]? = some c) (hl : c.launches = true)
    (hcalls : b.calls = a.calls.set i d) :
    a.hasStarted = c.hasReported ∧ b.hasStarted = ([d].filter Call.launches).any Call.hasReported := by
  obtain ⟨h, h'⟩ := hs.launch_unique hc hl d
  unfold hasStarted
  rw [h]
  unfold launches
  rw [hcalls, h']
  exact ⟨by simp, rfl⟩

theorem isHalted_of_set (hc : a.calls[i]? = some c) (hh : c.halts = false) (hh' : d.halts = false)
    (hcalls : b.calls = a.calls.set i d) : b.isHalted = a.isHalted := by
  unfold isHalted halts
  rw [hcalls, filter_set_of_not hc hh hh']

/-- A stop under way goes on. -/
theorem Reported.of_halt (h : a.Reported id p) (hs : a.Staged) (hc : a.calls[i]? = some c)
    (hh : c.halts = true) (hh' : d.halts = true) (hl : c.launches = false) (hl' : d.launches = false)
    (hcalls : b.calls = a.calls.set i d) (hr : b.reader = a.reader) : b.Reported id p := by
  obtain ⟨k, k'⟩ := hs.halt_unique hc hh d
  refine h.of_eq ?_ ?_ (by rw [hr])
  · unfold hasStarted launches
    rw [hcalls, filter_set_of_not hc hl hl']
  · unfold isHalted
    rw [k]
    unfold halts
    rw [hcalls, k', List.filter_cons_of_pos hh']
    rfl

/-- Each access keeps the reports in line with what has happened. -/
theorem told_of_access (h : Access id now a p m b q) (hs : a.Staged) (hp : a.Reported id p) :
    b.Reported id q := by
  cases h with
  | claim hn =>
      refine hp.of_eq ?_ ?_ rfl
      · exact hasStarted_record (a := { a with status := .running }) rfl
      · exact isHalted_record (a := { a with status := .running }) rfl
  | refuseStart _ => exact hp.record rfl rfl
  | halt hn =>
      -- The end has not been reported, or the status would be final already.
      have hf : a.reader.isFinished = false := by
        cases hr : a.reader with
        | finished =>
            have hs' : Stage a.status a.launches a.halts a.pending a.fired .finished := hr ▸ hs
            exact absurd hs'.stopped_of_finished hn
        | _ => rfl
      have hp' : Told id p.lifecycle.closed (p.notices id) a.hasStarted a.isHalted false := hf ▸ hp
      have hstarted := hasStarted_record (a := { a with status := .stopped })
        (c := .firing (a.status == Status.new)) rfl
      unfold Reported
      rw [hstarted, reader_record]
      exact hf ▸ hp'.halt _
  | refuseStop _ => exact hp.record rfl rfl
  | refuseSend _ _ _ _ => exact hp.record rfl rfl
  | encode _ _ _ _ _ => exact hp.record rfl rfl
  | setThrottle _ => exact hp
  | setThrottleSigned _ => exact hp
  | takeReceiver i r hc hr =>
      obtain ⟨h, h'⟩ := hasStarted_of_set (d := .announcing r) hs hc rfl
        (b := { a with pending := none, calls := a.calls.set i (.announcing r) }) rfl
      exact hp.of_eq (h'.trans h.symm) (isHalted_of_set hc rfl rfl rfl) rfl
  | missReceiver _ hc hr => exact absurd hr (hs.not_missing hc)
  | announce i r lifecycle hc ho =>
      obtain ⟨h, h'⟩ := hasStarted_of_set (d := .handing r) hs hc rfl
        (b := { a with calls := a.calls.set i (.handing r) }) rfl
      have hr : a.reader = .absent := hs.absent_of_announcing hc
      have hp' : Told id p.lifecycle.closed (p.notices id) false a.isHalted false := by
        have hp' := hp
        unfold Reported at hp'
        rwa [h, hr] at hp'
      have hclosed : lifecycle.closed = p.lifecycle.closed := Channel.closed_of_offer? ho
      have hhalted : ({ a with calls := a.calls.set i (.handing r) } : Attendant μ).isHalted =
          a.isHalted := isHalted_of_set hc rfl rfl rfl
      unfold Reported
      rw [h', hhalted, Ports.notices_offer id ho rfl, hr]
      show Told id lifecycle.closed _ true a.isHalted false
      rw [hclosed]
      exact hp'.announce
  | hand i r hc =>
      obtain ⟨h, h'⟩ := hasStarted_of_set (d := .started (.ok ())) hs hc rfl
        (b := { a with reader := .receiving r, calls := a.calls.set i (.started (.ok ())) }) rfl
      have hr : a.reader = .absent := hs.absent_of_handing hc
      refine hp.of_eq (h'.trans h.symm) (isHalted_of_set hc rfl rfl rfl) ?_
      rw [hr]
      rfl
  | fire i wasNew hc =>
      exact hp.of_halt hs hc rfl (by cases wasNew <;> rfl) rfl (by cases wasNew <;> rfl) rfl rfl
  | dropReceiver i hc => exact hp.of_halt hs hc rfl rfl rfl rfl rfl rfl
  | missQueue i frame hc _ => exact hp.of_set hc rfl rfl rfl rfl rfl rfl
  | queue i frame queue hc _ _ => exact hp.of_set hc rfl rfl rfl rfl rfl rfl
  | readError _ _ _ _ _ hr _ _ => exact hp.of_reader rfl (by rw [hr]; rfl)
  | readOn _ _ _ _ hr _ _ => exact hp.of_reader rfl (by rw [hr]; rfl)
  | pollError _ _ _ hr _ => exact hp.of_reader rfl (by rw [hr]; rfl)
  | pollMessage _ _ _ hr _ => exact hp.of_reader rfl (by rw [hr]; rfl)
  | classify _ hr => exact hp.of_reader rfl (by rw [hr]; rfl)
  | judge _ _ hr => exact hp.of_reader rfl (by rw [hr]; rfl)
  | deliver _ _ _ hr _ _ => exact hp.of_reader (b := { a with reader := _ }) rfl (by rw [hr]; rfl)
  | defer _ _ _ _ _ hr _ _ => exact hp.of_reader (b := { a with reader := _ }) rfl (by rw [hr]; rfl)
  | settleWon _ hr _ => exact hp.of_reader rfl (by rw [hr]; rfl)
  | settleLost _ hr _ => exact hp.of_reader rfl (by rw [hr]; rfl)
  | fireReader _ hr => exact hp.of_reader rfl (by rw [hr]; rfl)
  | release _ hr => exact hp.of_reader rfl (by rw [hr]; rfl)
  | report e lifecycle hr ho =>
      have hs' : Stage a.status a.launches a.halts a.pending a.fired (.announcing e) := hr ▸ hs
      -- the start has been reported, and the ending says whether there was a stop
      obtain ⟨hl, he⟩ := hs'.announced
      have hstarted : a.hasStarted = true := by
        unfold hasStarted
        rw [hl]
        rfl
      have hp' : Told id p.lifecycle.closed (p.notices id) true a.isHalted false := by
        have hp' := hp
        unfold Reported at hp'
        rwa [hstarted, hr] at hp'
      have hclosed : lifecycle.closed = p.lifecycle.closed := Channel.closed_of_offer? ho
      show Told id lifecycle.closed (({ p with lifecycle } : Ports).notices id) a.hasStarted
        a.isHalted true
      rw [hstarted, hclosed, Ports.notices_offer id ho rfl]
      exact hp'.report (he.trans (by simp [isHalted]))
  | quit hr _ =>
      refine hp.of_reader rfl ?_
      cases ha : a.reader <;> simp_all [Reader.mindsToken, Reader.isFinished]
  | write _ _ _ => exact hp.of_reader rfl rfl

theorem reported_of_foreign (hf : p.Foreign id q) (h : a.Reported id p) : a.Reported id q := by
  unfold Reported
  rw [hf.notices_eq]
  exact Told.mono h hf.lifecycle.closed

theorem reported_of_course {ms : List Move} (h : Course id a p ms b q) (hs : a.Staged)
    (hp : a.Reported id p) : b.Reported id q := by
  have hboth : b.Staged ∧ b.Reported id q :=
    Course.preserves (I := fun a p => a.Staged ∧ a.Reported id p)
      (fun h hi => ⟨staged_of_access h hi.1, told_of_access h hi.1 hi.2⟩)
      (fun hf hi => ⟨hi.1, reported_of_foreign hf hi.2⟩) h ⟨hs, hp⟩
  exact hboth.2

/-- There are at most two reports on an attendant, first the start and then the end. -/
theorem notices_of_reported (h : a.Reported id p) :
    p.notices id = [] ∨ p.notices id = [.started id] ∨ ∃ e, p.notices id = [.started id, .stopped id e] := by
  unfold Reported at h
  generalize p.notices id = ns, a.hasStarted = started, a.isHalted = halted, a.reader.isFinished = finished at h
  cases h with
  | silent _ => exact .inl rfl
  | started _ => exact .inr (.inl rfl)
  | ended _ => exact .inr (.inr ⟨_, rfl⟩)

/-- A start that has come out well is the only one that has claimed the attendant. -/
theorem Staged.launches_of_startedWell (hs : a.Staged) (hc : ∃ c ∈ a.calls, c.startedWell = true) :
    a.launches = [.started (.ok ())] := by
  obtain ⟨c, hc, hw⟩ := hc
  obtain rfl : c = .started (.ok ()) := by
    cases c with
    | started result => cases result <;> simp_all [Call.startedWell]
    | _ => simp [Call.startedWell] at hw
  obtain ⟨i, hi⟩ := List.mem_iff_getElem?.1 hc
  exact (hs.launch_unique hi rfl .claimed).1

/-- A read loop that is over has reported its end, unless nobody receives it. -/
theorem Reported.mem_stopped (h : a.Reported id p) (hl : a.launches = [.started (.ok ())])
    (hr : a.reader = .finished) (ho : p.lifecycle.closed = false) :
    ∃ e, .stopped id e ∈ p.notices id ∧ (e = .requested ↔ a.isHalted = true) := by
  have hstarted : a.hasStarted = true := by
    unfold hasStarted
    rw [hl]
    rfl
  unfold Reported at h
  rw [ho, hstarted, hr] at h
  exact h.mem_stopped

/-! ## Where an ending comes from -/

/-- Receiving may fail with the error. -/
def ReceivesError (a : Attendant μ) (f : Error) : Prop :=
  ∃ r, a.reader = .receiving r ∧
    ((Marshaler.poll r).1 = some (.error f) ∨
      (Marshaler.poll r).1 = none ∧ ∃ e, (Marshaler.absorb (Marshaler.poll r).2 e).1 = some f)

/-- The read loop has come to the ending, or is bound to, or has reported it. -/
def Bears (id : AttendantId) (a : Attendant μ) (p : Ports) (e : Ending) : Prop :=
  (∃ f, a.reader = .failed f ∧ e = .ofError f) ∨ a.reader.ending? = some e ∨
    .stopped id e ∈ p.notices id

/-- The read loop has not come to any ending yet. -/
theorem reported_of_bears {e : Ending} (h : a.Bears id p e) (hf : ∀ f, a.reader ≠ .failed f)
    (he : a.reader.ending? = none) : .stopped id e ∈ p.notices id := by
  rcases h with ⟨f, hr, _⟩ | hr | hm
  · exact absurd hr (hf f)
  · simp [he] at hr
  · exact hm

/-- Where the reader has an ending now, it was there before, or it was reported before. -/
theorem bears_of_ending {e : Ending} (h : b.Bears id p e) (hf : ∀ f, b.reader ≠ .failed f)
    (he : b.reader.ending? = some e → a.reader.ending? = some e) : a.Bears id p e := by
  rcases h with ⟨f, hr, _⟩ | hr | hm
  · exact absurd hr (hf f)
  · exact .inr (.inl (he hr))
  · exact .inr (.inr hm)

/-- An ending that was not requested was there before, or receiving has failed. -/
theorem bears_of_access {e : Ending} (h : Access id now a p m b q) (hb : b.Bears id q e)
    (he : e ≠ .requested) : a.Bears id p e ∨ ∃ f, a.ReceivesError f ∧ e = .ofError f := by
  cases h with
  | claim _ => exact .inl hb
  | refuseStart _ => exact .inl hb
  | halt _ => exact .inl hb
  | refuseStop _ => exact .inl hb
  | refuseSend _ _ _ _ => exact .inl hb
  | encode _ _ _ _ _ => exact .inl hb
  | setThrottle _ => exact .inl hb
  | setThrottleSigned _ => exact .inl hb
  | takeReceiver _ _ _ _ => exact .inl hb
  | missReceiver _ _ _ => exact .inl hb
  | announce i r lifecycle _ ho =>
      refine .inl (hb.imp_right (Or.imp_right fun hm => ?_))
      rcases Ports.mem_notices_offer ho hm with hm | hm
      · exact hm
      · cases hm
  | hand i r _ =>
      exact .inl (.inr (.inr (reported_of_bears hb (by simp) rfl)))
  | fire _ _ _ => exact .inl hb
  | dropReceiver _ _ => exact .inl hb
  | missQueue _ _ _ _ => exact .inl hb
  | queue _ _ _ _ _ _ => exact .inl hb
  | readError ev r r' r'' f hr hp hab =>
      rcases hb with ⟨g, hg, rfl⟩ | hg | hm
      · obtain rfl : f = g := by simpa using hg
        exact .inr ⟨f, ⟨r, hr, .inr ⟨by rw [hp], ev, by rw [hp, hab]⟩⟩, rfl⟩
      · simp [Reader.ending?] at hg
      · exact .inl (.inr (.inr hm))
  | readOn _ _ _ _ _ _ _ => exact .inl (.inr (.inr (reported_of_bears hb (by simp) rfl)))
  | pollError r r' f hr hp =>
      rcases hb with ⟨g, hg, rfl⟩ | hg | hm
      · obtain rfl : f = g := by simpa using hg
        exact .inr ⟨f, ⟨r, hr, .inl (by rw [hp])⟩, rfl⟩
      · simp [Reader.ending?] at hg
      · exact .inl (.inr (.inr hm))
  | pollMessage _ _ _ _ _ => exact .inl (.inr (.inr (reported_of_bears hb (by simp) rfl)))
  | classify f hr =>
      rcases hb with ⟨g, hg, -⟩ | hg | hm
      · simp at hg
      · obtain rfl : classify a.fired f = e := by simpa [Reader.ending?] using hg
        refine .inl (.inl ⟨f, hr, ?_⟩)
        cases hf : a.fired with
        | true => simp [hf, classify] at he
        | false => simp [classify]
      · exact .inl (.inr (.inr hm))
  | judge _ _ _ => exact .inl (.inr (.inr (reported_of_bears hb (by simp) rfl)))
  | deliver _ _ _ _ _ _ => exact .inl (.inr (.inr (reported_of_bears hb (by simp) rfl)))
  | defer _ _ _ _ _ _ _ _ => exact .inl (.inr (.inr (reported_of_bears hb (by simp) rfl)))
  | settleWon f hr _ | fireReader f hr | release f hr =>
      exact .inl (bears_of_ending hb (by simp) fun hg => by rw [hr]; exact hg)
  | settleLost f _ _ =>
      -- a reader that finds the attendant stopped reports that this was requested
      exact .inl (bears_of_ending hb (by simp) fun hg => absurd (by simpa [Reader.ending?] using hg.symm) he)
  | report f lifecycle hr ho =>
      have hm := reported_of_bears hb (by simp) rfl
      rcases Ports.mem_notices_offer ho hm with hm | hm
      · exact .inl (.inr (.inr hm))
      · obtain rfl : e = f := by simpa using hm
        exact .inl (.inr (.inl (by rw [hr]; rfl)))
  | quit _ _ =>
      exact .inl (bears_of_ending hb (by simp) fun hg => absurd (by simpa [Reader.ending?] using hg.symm) he)
  | write _ _ _ => exact .inl hb

/-- Behind an ending that was not requested stands an error of the receiver, met on the way. -/
theorem error_behind_ending {ms : List Move} {e : Ending} (h : Course id a p ms b q)
    (hb : b.Bears id q e) (he : e ≠ .requested) :
    a.Bears id p e ∨ ∃ u r ms₁ ms₂ f, Course id a p ms₁ u r ∧ Course id u r ms₂ b q ∧
      u.ReceivesError f ∧ e = .ofError f := by
  induction h with
  | refl => exact .inl hb
  | @move a b c p q r now m ms hstep htail ih =>
    rcases ih hb with hq | ⟨u, s, ms₁, ms₂, f, h₁, h₂, hu, hf⟩
    · rcases bears_of_access (access_of_step hstep) hq he with hp | ⟨f, hu, hf⟩
      · exact .inl hp
      · exact .inr ⟨a, p, [], m :: ms, f, .refl a p, .move hstep htail, hu, hf⟩
    · exact .inr ⟨u, s, m :: ms₁, ms₂, f, .move hstep h₁, h₂, hu, hf⟩
  | @others a c p q r ms hforeign htail ih =>
    rcases ih hb with hq | ⟨u, s, ms₁, ms₂, f, h₁, h₂, hu, hf⟩
    · refine .inl (hq.imp_right (Or.imp_right fun hm => ?_))
      rwa [hforeign.notices_eq] at hm
    · exact .inr ⟨u, s, ms₁, ms₂, f, .others hforeign h₁, h₂, hu, hf⟩

/-! ## Stopped before any start -/

/-- No start has claimed the attendant, and none will. -/
def Withdrawn (a : Attendant μ) : Prop :=
  a.status = .stopped ∧ a.launches = []

theorem Withdrawn.not_launches (hw : a.Withdrawn) (hc : a.calls[i]? = some c) : c.launches = false :=
  not_of_filter_eq_nil hw.2 hc

theorem Withdrawn.set (hw : a.Withdrawn) (hc : a.calls[i]? = some c) (hd : d.launches = false)
    (hb : b.calls = a.calls.set i d) (hs : b.status = a.status) : b.Withdrawn := by
  refine ⟨hs.trans hw.1, ?_⟩
  unfold launches
  rw [hb, filter_set_of_not hc (hw.not_launches hc) hd]
  exact hw.2

theorem Withdrawn.record (hw : a.Withdrawn) (hc : c.launches = false) : (a.record c).Withdrawn := by
  refine ⟨hw.1, ?_⟩
  rw [launches_record, hw.2, List.filter_cons_of_neg (by simp [hc])]
  rfl

theorem withdrawn_of_access (h : Access id now a p m b q) (hw : a.Withdrawn) : b.Withdrawn := by
  cases h with
  | claim hn => exact absurd (hn.symm.trans hw.1) (by simp)
  | refuseStart _ => exact hw.record rfl
  | halt hn => exact absurd hw.1 hn
  | refuseStop _ => exact hw.record rfl
  | refuseSend _ _ _ _ => exact hw.record rfl
  | encode _ _ _ _ _ => exact hw.record rfl
  | takeReceiver i r hc _ => exact absurd (hw.not_launches hc) (by simp [Call.launches])
  | missReceiver i hc _ => exact hw.set hc rfl rfl rfl
  | announce i r _ hc _ => exact absurd (hw.not_launches hc) (by simp [Call.launches])
  | hand i r hc => exact absurd (hw.not_launches hc) (by simp [Call.launches])
  | fire i wasNew hc => exact hw.set hc (by cases wasNew <;> rfl) rfl rfl
  | dropReceiver i hc => exact hw.set hc rfl rfl rfl
  | missQueue i frame hc _ => exact hw.set hc rfl rfl rfl
  | queue i frame _ hc _ _ => exact hw.set hc rfl rfl rfl
  | settleWon _ _ hs => exact absurd (hs.symm.trans hw.1) (by simp)
  | _ => exact hw

theorem withdrawn_of_course {ms : List Move} (h : Course id a p ms b q) (hw : a.Withdrawn) :
    b.Withdrawn :=
  Course.preserves (I := fun a _ => a.Withdrawn) withdrawn_of_access (fun _ hw => hw) h hw

/-- A stop that finds the attendant new withdraws it. -/
theorem withdrawn_of_beginStop (hs : a.Staged) (hn : a.status = .new) : a.beginStop.Withdrawn := by
  have hs' : Stage .new a.launches a.halts a.pending a.fired a.reader := hn ▸ hs
  unfold beginStop
  rw [hn]
  refine ⟨rfl, ?_⟩
  rw [launches_record]
  exact congrArg (· ++ []) hs'.of_new

/-- An attendant that is withdrawn reports nothing. -/
theorem quiet_of_withdrawn (hw : a.Withdrawn) (hp : a.Reported id p) : p.notices id = [] := by
  have hstarted : a.hasStarted = false := by
    unfold hasStarted
    rw [hw.2]
    rfl
  unfold Reported at hp
  rw [hstarted] at hp
  generalize p.notices id = ns at hp
  cases hp with
  | silent _ => rfl

theorem beginStart_of_withdrawn (hw : a.Withdrawn) :
    a.beginStart = a.record (.started (.error .attendantNotNew)) := by
  unfold beginStart
  rw [hw.1]

/-! ## The outcome -/

theorem reported_create (id : AttendantId) (codec : μ) (throttle writer : Nat) (hp : p.notices id = []) :
    (create codec throttle writer).Reported id p := by
  unfold Reported
  rw [hp]
  exact .silent (.inr rfl)

/-- A stop under way never has to wait. -/
theorem halting_goes_on (hc : a.calls[i]? = some c) (hh : c.halts = true) (hr : c.result? = none) :
    ∃ b, a.step id now p (.advance i) = some (b, p) := by
  cases c with
  | firing wasNew =>
      refine ⟨{ a with
        fired := true
        calls := a.calls.set i (if wasNew then .dropping else .stopped (.ok ())) }, ?_⟩
      simp only [step, hc, advance, Option.map_some]
  | dropping =>
      refine ⟨{ a with pending := none, calls := a.calls.set i (.stopped (.ok ())) }, ?_⟩
      simp only [step, hc, advance, Option.map_some]
  | stopped result => simp [Call.result?] at hr
  | _ => simp [Call.halts] at hh

/-- Whatever callers, stream and consumer do, and in whatever order, a fresh attendant has one outcome.

At most one start and at most one stop come out well.  The start is reported at most once, and so is the end,
after the start.  The end is a requested one exactly if a stop came out well, or is bound to, as it never has to
wait; any other end goes back to an error of the receiver, and it says that the peer closed the connection if
that error is a graceful one, and otherwise carries it.  If a stop finds the attendant new, nothing is ever
reported, and every start from then on is refused. -/
theorem outcome_of_course (codec : μ) (throttle writer : Nat) {ms : List Move}
    (hp : p.notices id = []) (h : Course id (create codec throttle writer) p ms b q) :
    b.calls.countP Call.startedWell ≤ 1 ∧ b.calls.countP Call.stoppedWell ≤ 1 ∧
    (∃ e, (q.notices id).Sublist [.started id, .stopped id e]) ∧
    (∀ e, .stopped id e ∈ q.notices id →
      ((∃ c ∈ b.calls, c.stoppedWell = true) → e = .requested) ∧
      (e = .requested → ∃ i c, b.calls[i]? = some c ∧ c.halts = true ∧
        (c.result?.isSome = true → c.stoppedWell = true) ∧
        (c.result? = none → ∃ b', b.step id now q (.advance i) = some (b', q))) ∧
      (e ≠ .requested → ∃ u r ms₁ ms₂ f,
        Course id (create codec throttle writer) p ms₁ u r ∧ Course id u r ms₂ b q ∧
        u.ReceivesError f ∧ e = if f.isGraceful then .closedByPeer else .failed f) ∧
      (e.error?.isSome = true ↔ ∃ f, e = .failed f)) ∧
    (∀ u r ms₁ ms₂, Course id (create codec throttle writer) p ms₁ u r → u.status = .new →
      Course id u.beginStop r ms₂ b q →
      q.notices id = [] ∧ b.beginStart = b.record (.started (.error .attendantNotNew))) := by
  have hcreate : (create codec throttle writer).Staged := staged_create codec throttle writer
  have hreported := reported_create id codec throttle writer hp
  have hstaged : b.Staged := staged_of_course h hcreate
  have htold : b.Reported id q := reported_of_course h hcreate hreported
  refine ⟨?_, ?_, htold.sublist, ?_, ?_⟩
  · calc b.calls.countP Call.startedWell ≤ b.launches.length := Call.countP_startedWell_le _
      _ ≤ 1 := hstaged.launches_length_le
  · calc b.calls.countP Call.stoppedWell ≤ b.halts.length := Call.countP_stoppedWell_le _
      _ ≤ 1 := hstaged.halts_length_le
  · intro e hm
    have hiff : e = .requested ↔ b.isHalted = true := htold.requested_iff hm
    refine ⟨?_, ?_, ?_, ?_⟩
    · rintro ⟨c, hc, hw⟩
      have hmem : c ∈ b.halts := List.mem_filter.2 ⟨hc, Call.halts_of_stoppedWell hw⟩
      refine hiff.2 ?_
      unfold isHalted
      cases hb : b.halts with
      | nil => simp [hb] at hmem
      | cons _ _ => rfl
    · intro he
      have hhalted : b.halts ≠ [] := by simpa [isHalted] using hiff.1 he
      obtain ⟨c, hc⟩ := List.exists_mem_of_ne_nil _ hhalted
      obtain ⟨hmem, hh⟩ := List.mem_filter.1 hc
      obtain ⟨i, hi⟩ := List.mem_iff_getElem?.1 hmem
      exact ⟨i, c, hi, hh, Call.stoppedWell_of_halts hh, halting_goes_on hi hh⟩
    · intro he
      rcases error_behind_ending h (.inr (.inr hm)) he with hb | hb
      · have hm' : .stopped id e ∈ p.notices id := reported_of_bears hb (by simp [create]) rfl
        rw [hp] at hm'
        simp at hm'
      · exact hb
    · cases e <;> simp [Ending.error?]
  · intro u r ms₁ ms₂ h₁ hn h₂
    have hu : u.Staged := staged_of_course h₁ hcreate
    have hw : b.Withdrawn := withdrawn_of_course h₂ (withdrawn_of_beginStop hu hn)
    exact ⟨quiet_of_withdrawn hw htold, beginStart_of_withdrawn hw⟩

/-- A stop that comes while the read loop already holds a clean end of the stream. -/
theorem outcome_of_overtaken_ending :
    ∃ b q, after 0 0 (create (Codec.lines 80) 0 8) (.ofCapacities 2 2)
        [.start, .advance 0, .advance 0, .advance 0, .read .ended, .proceed, .stop, .proceed,
          .advance 1, .proceed, .proceed, .proceed] = some (b, q) ∧
      q.notices 0 = [.started 0, .stopped 0 .requested] ∧
      b.calls.countP Call.stoppedWell ≤ 1 := by
  obtain ⟨b, q, h, hn⟩ : ∃ b q, after 0 0 (create (Codec.lines 80) 0 8) (.ofCapacities 2 2)
      [.start, .advance 0, .advance 0, .advance 0, .read .ended, .proceed, .stop, .proceed,
        .advance 1, .proceed, .proceed, .proceed] = some (b, q) ∧
      q.notices 0 = [.started 0, .stopped 0 .requested] := ⟨_, _, rfl, rfl⟩
  exact ⟨b, q, h, hn, (@outcome_of_course Codec _ 0 0 _ _ _ (Codec.lines 80) 0 8 _ rfl (Course.of_after h)).2.1⟩

end Attendant
end Courier
