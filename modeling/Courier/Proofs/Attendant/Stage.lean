import Courier.Proofs.Attendant.Course

/-!
# Stage — how far an attendant has come

Status, token, waiting receiver, read loop, and the starts and stops that have claimed the attendant are
separate cells, changed by different tasks.  `Stage` lists the combinations that come about.

1. `Stage` relates the cells; each kind of access is one lemma on it,
2. `Attendant.Staged` says that the cells of an attendant are related so,
3. `Attendant.Staged.set_launch` and `Attendant.Staged.set_halt` let the one start or the one stop go on,
4. `Attendant.stops_of_access` says what an access does to the stops that have claimed the attendant,
5. `Attendant.staged_of_access` and `Attendant.staged_of_course` keep the relation.
-/

namespace Courier

variable {μ : Type} [Marshaler μ]

/-! ## The cells -/

namespace Reader

/-- Whether the read loop has not been left. -/
def isLooping : Reader μ → Bool
  | .receiving _ => true
  | .failed _ => true
  | .judging _ _ => true
  | .publishing _ _ _ => true
  | _ => false

/-- Whether the read loop has fired the token. -/
def hasFired : Reader μ → Bool
  | .releasing _ => true
  | .announcing _ => true
  | .finished => true
  | _ => false

/-- The ending, once it is settled and until it is reported. -/
def settled? : Reader μ → Option Ending
  | .firing e => some e
  | .releasing e => some e
  | .announcing e => some e
  | _ => none

theorem isLooping_of_mindsToken {rd : Reader μ} (h : rd.mindsToken = true) : rd.isLooping = true := by
  cases rd <;> simp_all [mindsToken, isLooping]

end Reader

/-- A start that has claimed the attendant and has not come out, with the receiver that still waits. -/
inductive Launching : Call μ → Option (Marshaler.Receiver μ) → Prop where
  | claimed (r : Marshaler.Receiver μ) : Launching .claimed (some r)
  | announcing (r : Marshaler.Receiver μ) : Launching (.announcing r) none
  | handing (r : Marshaler.Receiver μ) : Launching (.handing r) none

/-- A stop of a running attendant, with the token. -/
inductive Halting : Call μ → Bool → Prop where
  | firing : Halting (.firing false) false
  | stopped : Halting (.stopped (.ok ())) true

/-- Status, claiming starts, claiming stops, waiting receiver, token and read loop of an attendant. -/
inductive Stage : Status → List (Call μ) → List (Call μ) → Option (Marshaler.Receiver μ) → Bool → Reader μ → Prop where
  | fresh (r : Marshaler.Receiver μ) : Stage .new [] [] (some r) false .absent
  | launching {c : Call μ} {pending : Option (Marshaler.Receiver μ)} (hc : Launching c pending) :
      Stage .running [c] [] pending false .absent
  | reading {rd : Reader μ} (hr : rd.isLooping = true) :
      Stage .running [.started (.ok ())] [] none false rd
  | leaving {e : Ending} (he : e ≠ .requested) :
      Stage .running [.started (.ok ())] [] none false (.left e)
  | closing {e : Ending} (he : e ≠ .requested) :
      Stage .stopped [.started (.ok ())] [] none false (.firing e)
  | closed {rd : Reader μ} (hr : rd.hasFired = true) (he : ∀ e, rd.settled? = some e → e ≠ .requested) :
      Stage .stopped [.started (.ok ())] [] none true rd
  /-- Stopped before any start. -/
  | withdrawing (r : Marshaler.Receiver μ) : Stage .stopped [] [.firing true] (some r) false .absent
  | dropping (r : Marshaler.Receiver μ) : Stage .stopped [] [.dropping] (some r) true .absent
  | withdrawn : Stage .stopped [] [.stopped (.ok ())] none true .absent
  /-- Stopped while a start is under way. -/
  | haltedLaunch {c h : Call μ} {pending : Option (Marshaler.Receiver μ)} {fired : Bool}
      (hc : Launching c pending) (hh : Halting h fired) :
      Stage .stopped [c] [h] pending fired .absent
  /-- Stopped while the read loop goes on. -/
  | haltedLoop {h : Call μ} {fired : Bool} {rd : Reader μ} (hr : rd.isLooping = true)
      (hh : Halting h fired) :
      Stage .stopped [.started (.ok ())] [h] none fired rd
  | haltedLeft {h : Call μ} {fired : Bool} (e : Ending) (hh : Halting h fired) :
      Stage .stopped [.started (.ok ())] [h] none fired (.left e)
  | haltedFiring {h : Call μ} {fired : Bool} (hh : Halting h fired) :
      Stage .stopped [.started (.ok ())] [h] none fired (.firing .requested)
  | haltedClosed {h : Call μ} {fired : Bool} {rd : Reader μ} (hr : rd.hasFired = true)
      (he : ∀ e, rd.settled? = some e → e = .requested) (hh : Halting h fired) :
      Stage .stopped [.started (.ok ())] [h] none true rd

namespace Stage

variable {s : Status} {ls hs : List (Call μ)} {pending : Option (Marshaler.Receiver μ)} {fired : Bool}
  {rd rd' : Reader μ} {e : Ending} {r : Marshaler.Receiver μ}

theorem launches_length_le (h : Stage s ls hs pending fired rd) : ls.length ≤ 1 := by
  cases h <;> simp

theorem halts_length_le (h : Stage s ls hs pending fired rd) : hs.length ≤ 1 := by
  cases h <;> simp

/-- No start has claimed a new attendant. -/
theorem of_new (h : Stage .new ls hs pending fired rd) : ls = [] := by
  cases h with
  | fresh r => rfl

/-! ## Starts -/

theorem claim (h : Stage .new ls hs pending fired rd) :
    Stage .running (ls ++ [.claimed]) hs pending fired rd := by
  cases h with
  | fresh r => exact .launching (.claimed r)

theorem take (h : Stage s [.claimed] hs (some r) fired rd) :
    Stage s [.announcing r] hs none fired rd := by
  cases h with
  | launching _ => exact .launching (.announcing r)
  | haltedLaunch _ hh => exact .haltedLaunch (.announcing r) hh

theorem not_missing (h : Stage s [.claimed] hs none fired rd) : False := by
  cases h with
  | launching hc => cases hc
  | haltedLaunch hc _ => cases hc

theorem absent_of_announcing (h : Stage s [.announcing r] hs pending fired rd) : rd = .absent := by
  cases h with
  | launching _ => rfl
  | haltedLaunch _ _ => rfl

theorem absent_of_handing (h : Stage s [.handing r] hs pending fired rd) : rd = .absent := by
  cases h with
  | launching _ => rfl
  | haltedLaunch _ _ => rfl

theorem announce (h : Stage s [.announcing r] hs pending fired rd) :
    Stage s [.handing r] hs pending fired rd := by
  cases h with
  | launching hc =>
      cases hc
      exact .launching (.handing r)
  | haltedLaunch hc hh =>
      cases hc
      exact .haltedLaunch (.handing r) hh

theorem hand (h : Stage s [.handing r] hs pending fired rd) :
    Stage s [.started (.ok ())] hs pending fired (.receiving r) := by
  cases h with
  | launching hc =>
      cases hc
      exact .reading rfl
  | haltedLaunch hc hh =>
      cases hc
      exact .haltedLoop rfl hh

/-! ## Stops -/

theorem halt (h : Stage s ls hs pending fired rd) (hs' : s ≠ .stopped) :
    Stage .stopped ls (hs ++ [.firing (s == Status.new)]) pending fired rd := by
  cases h with
  | fresh r => exact .withdrawing r
  | launching hc => exact .haltedLaunch hc .firing
  | reading hr => exact .haltedLoop hr .firing
  | leaving _ => exact .haltedLeft _ .firing
  | closing _ => exact absurd rfl hs'
  | closed _ _ => exact absurd rfl hs'
  | withdrawing _ => exact absurd rfl hs'
  | dropping _ => exact absurd rfl hs'
  | withdrawn => exact absurd rfl hs'
  | haltedLaunch _ _ => exact absurd rfl hs'
  | haltedLoop _ _ => exact absurd rfl hs'
  | haltedLeft _ _ => exact absurd rfl hs'
  | haltedFiring _ => exact absurd rfl hs'
  | haltedClosed _ _ _ => exact absurd rfl hs'

/-- A stop that has claimed the attendant has made the status final. -/
theorem stopped_of_halts (h : Stage s ls hs pending fired rd) (hh : hs ≠ []) : s = .stopped := by
  cases h with
  | fresh _ | launching _ | reading _ | leaving _ => exact absurd rfl hh
  | _ => rfl

theorem fire {wasNew : Bool} (h : Stage s ls [.firing wasNew] pending fired rd) :
    Stage s ls [if wasNew then .dropping else .stopped (.ok ())] pending true rd := by
  cases h with
  | withdrawing r => exact .dropping r
  | haltedLaunch hc hh =>
      cases hh
      exact .haltedLaunch hc .stopped
  | haltedLoop hr hh =>
      cases hh
      exact .haltedLoop hr .stopped
  | haltedLeft e hh =>
      cases hh
      exact .haltedLeft e .stopped
  | haltedFiring hh =>
      cases hh
      exact .haltedFiring .stopped
  | haltedClosed hr he hh =>
      cases hh
      exact .haltedClosed hr he .stopped

theorem drop (h : Stage s ls [.dropping] pending fired rd) :
    Stage s ls [.stopped (.ok ())] none fired rd := by
  cases h with
  | dropping _ => exact .withdrawn
  | haltedLaunch _ hh => cases hh
  | haltedLoop _ hh => cases hh
  | haltedLeft _ hh => cases hh
  | haltedFiring hh => cases hh
  | haltedClosed _ _ hh => cases hh

/-! ## The read loop -/

theorem loop (h : Stage s ls hs pending fired rd) (hr : rd.isLooping = true)
    (hr' : rd'.isLooping = true) : Stage s ls hs pending fired rd' := by
  cases h with
  | reading _ => exact .reading hr'
  | haltedLoop _ hh => exact .haltedLoop hr' hh
  | fresh _ => simp [Reader.isLooping] at hr
  | launching _ => simp [Reader.isLooping] at hr
  | leaving _ => simp [Reader.isLooping] at hr
  | closing _ => simp [Reader.isLooping] at hr
  | closed hf _ => cases rd <;> simp_all [Reader.isLooping, Reader.hasFired]
  | withdrawing _ => simp [Reader.isLooping] at hr
  | dropping _ => simp [Reader.isLooping] at hr
  | withdrawn => simp [Reader.isLooping] at hr
  | haltedLaunch _ _ => simp [Reader.isLooping] at hr
  | haltedLeft _ _ => simp [Reader.isLooping] at hr
  | haltedFiring _ => simp [Reader.isLooping] at hr
  | haltedClosed hf _ _ => cases rd <;> simp_all [Reader.isLooping, Reader.hasFired]

/-- The loop is left: on its own account only while the token has not fired. -/
theorem leave (h : Stage s ls hs pending fired rd) (hr : rd.isLooping = true)
    (he : fired = false → e ≠ .requested) : Stage s ls hs pending fired (.left e) := by
  have h' : Stage s ls hs pending fired (.failed .connectionClosed) := h.loop hr rfl
  cases h' with
  | reading _ => exact .leaving (he rfl)
  | closed hf _ => simp [Reader.hasFired] at hf
  | haltedLoop _ hh => exact .haltedLeft e hh
  | haltedClosed hf _ _ => simp [Reader.hasFired] at hf

theorem settleWon (h : Stage .running ls hs pending fired (.left e)) :
    Stage .stopped ls hs pending fired (.firing e) := by
  cases h with
  | reading hr => simp [Reader.isLooping] at hr
  | leaving he => exact .closing he

theorem settleLost (h : Stage s ls hs pending fired (.left e)) (hs' : s ≠ .running) :
    Stage s ls hs pending fired (.firing .requested) := by
  cases h with
  | reading _ => exact absurd rfl hs'
  | leaving _ => exact absurd rfl hs'
  | closed hf _ => simp [Reader.hasFired] at hf
  | haltedLoop hr _ => simp [Reader.isLooping] at hr
  | haltedLeft _ hh => exact .haltedFiring hh
  | haltedClosed hf _ _ => simp [Reader.hasFired] at hf

theorem fireReader (h : Stage s ls hs pending fired (.firing e)) :
    Stage s ls hs pending true (.releasing e) := by
  cases h with
  | reading hr => simp [Reader.isLooping] at hr
  | closing he => exact .closed rfl (by simpa [Reader.settled?] using he)
  | closed hf _ => simp [Reader.hasFired] at hf
  | haltedLoop hr _ => simp [Reader.isLooping] at hr
  | haltedFiring hh => exact .haltedClosed rfl (by simp [Reader.settled?]) hh
  | haltedClosed hf _ _ => simp [Reader.hasFired] at hf

/-- Once the loop has fired the token, nothing decides the ending any more. -/
theorem close (h : Stage s ls hs pending fired rd) (hf : rd.hasFired = true)
    (hf' : rd'.hasFired = true) (he : ∀ e, rd'.settled? = some e → rd.settled? = some e) :
    Stage s ls hs pending fired rd' := by
  cases h with
  | closed _ hn => exact .closed hf' fun e h => hn e (he e h)
  | haltedClosed _ hn hh => exact .haltedClosed hf' (fun e h => hn e (he e h)) hh
  | reading hr => cases rd <;> simp_all [Reader.isLooping, Reader.hasFired]
  | haltedLoop hr _ => cases rd <;> simp_all [Reader.isLooping, Reader.hasFired]
  | fresh _ => simp [Reader.hasFired] at hf
  | launching _ => simp [Reader.hasFired] at hf
  | leaving _ => simp [Reader.hasFired] at hf
  | closing _ => simp [Reader.hasFired] at hf
  | withdrawing _ => simp [Reader.hasFired] at hf
  | dropping _ => simp [Reader.hasFired] at hf
  | withdrawn => simp [Reader.hasFired] at hf
  | haltedLaunch _ _ => simp [Reader.hasFired] at hf
  | haltedLeft _ _ => simp [Reader.hasFired] at hf
  | haltedFiring _ => simp [Reader.hasFired] at hf

end Stage

/-! ## Changing one operation -/

section Operations

variable {α : Type} {l : List α} {f : α → Bool} {i : Nat} {c d : α}

/-- No operation is one of the chosen ones if there are none. -/
theorem not_of_filter_eq_nil (hl : l.filter f = []) (hc : l[i]? = some c) : f c = false :=
  Bool.eq_false_iff.2 (List.filter_eq_nil_iff.1 hl c (List.mem_of_getElem? hc))

/-- An operation that is none of the chosen ones, before and after. -/
theorem filter_set_of_not (hc : l[i]? = some c) (hf : f c = false) (hd : f d = false) :
    (l.set i d).filter f = l.filter f := by
  obtain ⟨hi, rfl⟩ := List.getElem?_eq_some_iff.1 hc
  have hl : l.take i ++ l[i] :: l.drop (i + 1) = l := by simp
  rw [List.set_eq_take_append_cons_drop, if_pos hi]
  calc (l.take i ++ d :: l.drop (i + 1)).filter f
      = (l.take i ++ l[i] :: l.drop (i + 1)).filter f := by
        simp only [List.filter_append, List.filter_cons, hf, hd, Bool.false_eq_true, if_false]
    _ = l.filter f := by rw [hl]

/-- An operation that is the only one of the chosen ones. -/
theorem filter_set_of_unique (hc : l[i]? = some c) (hf : f c = true)
    (hl : (l.filter f).length ≤ 1) : l.filter f = [c] ∧ (l.set i d).filter f = [d].filter f := by
  obtain ⟨hi, rfl⟩ := List.getElem?_eq_some_iff.1 hc
  have hfilter : l.filter f = (l.take i).filter f ++ l[i] :: (l.drop (i + 1)).filter f := by
    calc l.filter f = (l.take i ++ l[i] :: l.drop (i + 1)).filter f := by simp
      _ = _ := by simp only [List.filter_append, List.filter_cons, hf, if_true]
  rw [hfilter, List.length_append, List.length_cons] at hl
  have hbefore : (l.take i).filter f = [] := List.eq_nil_of_length_eq_zero (by omega)
  have hafter : (l.drop (i + 1)).filter f = [] := List.eq_nil_of_length_eq_zero (by omega)
  refine ⟨by rw [hfilter, hbefore, hafter, List.nil_append], ?_⟩
  rw [List.set_eq_take_append_cons_drop, if_pos hi, List.filter_append, hbefore, List.nil_append,
    List.filter_cons]
  cases hd : f d <;> simp [hd, hafter]

end Operations

/-! ## Attendants -/

namespace Attendant

/-- The starts that have claimed the attendant. -/
def launches (a : Attendant μ) : List (Call μ) :=
  a.calls.filter Call.launches

/-- The stops that have made the status final. -/
def halts (a : Attendant μ) : List (Call μ) :=
  a.calls.filter Call.halts

/-- The cells of an attendant are in one of the combinations of `Stage`. -/
def Staged (a : Attendant μ) : Prop :=
  Stage a.status a.launches a.halts a.pending a.fired a.reader

variable {id : AttendantId} {now : Nat} {a b : Attendant μ} {p q : Ports} {m : Move} {c d : Call μ}
  {i : Nat}

@[simp] theorem status_record : (a.record c).status = a.status := rfl

@[simp] theorem pending_record : (a.record c).pending = a.pending := rfl

@[simp] theorem fired_record : (a.record c).fired = a.fired := rfl

@[simp] theorem reader_record : (a.record c).reader = a.reader := rfl

theorem launches_record : (a.record c).launches = a.launches ++ [c].filter Call.launches :=
  List.filter_append _ _

theorem halts_record : (a.record c).halts = a.halts ++ [c].filter Call.halts :=
  List.filter_append _ _

theorem staged_create (codec : μ) (throttle writer : Nat) :
    (create codec throttle writer).Staged :=
  .fresh (Marshaler.start codec)

/-- An operation that is neither a claiming start nor a claiming stop does not show in the stage. -/
theorem Staged.record (hs : a.Staged) (h : c.launches = false) (k : c.halts = false) :
    (a.record c).Staged := by
  unfold Staged
  rw [launches_record, halts_record, List.filter_cons_of_neg (by simp [h]),
    List.filter_cons_of_neg (by simp [k]), List.filter_nil, List.filter_nil, List.append_nil,
    List.append_nil]
  exact hs

/-- Changing such an operation does not show either. -/
theorem Staged.of_set (hs : a.Staged) (hc : a.calls[i]? = some c) (h : c.launches = false)
    (h' : d.launches = false) (k : c.halts = false) (k' : d.halts = false) :
    Stage a.status ((a.calls.set i d).filter Call.launches) ((a.calls.set i d).filter Call.halts)
      a.pending a.fired a.reader := by
  rw [filter_set_of_not hc h h', filter_set_of_not hc k k']
  exact hs

/-! ### Starts and stops under way -/

theorem Staged.launch_unique (hs : a.Staged) (hc : a.calls[i]? = some c) (h : c.launches = true)
    (d : Call μ) :
    a.launches = [c] ∧ (a.calls.set i d).filter Call.launches = [d].filter Call.launches :=
  filter_set_of_unique hc h hs.launches_length_le

theorem Staged.halt_unique (hs : a.Staged) (hc : a.calls[i]? = some c) (h : c.halts = true)
    (d : Call μ) :
    a.halts = [c] ∧ (a.calls.set i d).filter Call.halts = [d].filter Call.halts :=
  filter_set_of_unique hc h hs.halts_length_le

/-- The stage of a start that has claimed the attendant. -/
theorem Staged.of_launch (hs : a.Staged) (hc : a.calls[i]? = some c) (h : c.launches = true) :
    Stage a.status [c] a.halts a.pending a.fired a.reader := by
  obtain ⟨hl, -⟩ := hs.launch_unique hc h c
  rw [← hl]
  exact hs

/-- The stage of a stop that has made the status final. -/
theorem Staged.of_halt (hs : a.Staged) (hc : a.calls[i]? = some c) (h : c.halts = true) :
    Stage a.status a.launches [c] a.pending a.fired a.reader := by
  obtain ⟨hl, -⟩ := hs.halt_unique hc h c
  rw [← hl]
  exact hs

/-- A start that goes on takes its place among the operations. -/
theorem Staged.set_launch {pending : Option (Marshaler.Receiver μ)} {rd : Reader μ} (hs : a.Staged)
    (hc : a.calls[i]? = some c) (h : c.launches = true) (h' : d.launches = true) (k : c.halts = false)
    (k' : d.halts = false) (hnext : Stage a.status [d] a.halts pending a.fired rd) :
    Stage a.status ((a.calls.set i d).filter Call.launches) ((a.calls.set i d).filter Call.halts)
      pending a.fired rd := by
  obtain ⟨-, hset⟩ := hs.launch_unique hc h d
  rw [hset, List.filter_cons_of_pos h', List.filter_nil, filter_set_of_not hc k k']
  exact hnext

/-- A stop that goes on takes its place among the operations. -/
theorem Staged.set_halt {pending : Option (Marshaler.Receiver μ)} {fired : Bool} (hs : a.Staged)
    (hc : a.calls[i]? = some c) (h : c.halts = true) (h' : d.halts = true) (k : c.launches = false)
    (k' : d.launches = false) (hnext : Stage a.status a.launches [d] pending fired a.reader) :
    Stage a.status ((a.calls.set i d).filter Call.launches) ((a.calls.set i d).filter Call.halts)
      pending fired a.reader := by
  obtain ⟨-, hset⟩ := hs.halt_unique hc h d
  rw [hset, List.filter_cons_of_pos h', List.filter_nil, filter_set_of_not hc k k']
  exact hnext

/-- A start that has claimed the attendant does not miss the receiver. -/
theorem Staged.not_missing (hs : a.Staged) (hc : a.calls[i]? = some .claimed) : a.pending ≠ none := by
  intro hr
  have hstage := hs.of_launch hc rfl
  rw [hr] at hstage
  exact hstage.not_missing

/-- The read loop has not begun before the start that is to begin it has reported. -/
theorem Staged.absent_of_announcing {r : Marshaler.Receiver μ} (hs : a.Staged)
    (hc : a.calls[i]? = some (.announcing r)) :
    a.reader = .absent :=
  (hs.of_launch hc rfl).absent_of_announcing

/-- The read loop has not begun before the start that is to begin it. -/
theorem Staged.absent_of_handing {r : Marshaler.Receiver μ} (hs : a.Staged) (hc : a.calls[i]? = some (.handing r)) :
    a.reader = .absent :=
  (hs.of_launch hc rfl).absent_of_handing

/-! ### Accesses -/

/-- What an access does to the stops that have made the status final. -/
inductive Stops (m : Move) (a b : Attendant μ) : Prop where
  | kept (h : b.halts = a.halts)
  | begun (hm : m = .stop) (hs : a.status ≠ .stopped)
  | advanced {c : Call μ} (hc : c ∈ a.halts) (hr : c.result? = none)

theorem Stops.record {a' : Attendant μ} (h : c.halts = false) (ha : a'.calls = a.calls) :
    Stops m a (a'.record c) := by
  refine .kept ?_
  rw [halts_record, List.filter_cons_of_neg (by simp [h]), List.filter_nil, List.append_nil]
  unfold halts
  rw [ha]

theorem Stops.set (hc : a.calls[i]? = some c) (h : c.halts = false) (h' : d.halts = false)
    (hb : b.calls = a.calls.set i d) : Stops m a b := by
  refine .kept ?_
  unfold halts
  rw [hb, filter_set_of_not hc h h']

theorem stops_of_access (h : Access id now a p m b q) : Stops m a b := by
  cases h with
  | claim _ | refuseStart _ | refuseStop _ | refuseSend _ _ _ _ | encode _ _ _ _ _ => exact .record rfl rfl
  | halt hn => exact .begun rfl hn
  | takeReceiver _ _ hc _ | missReceiver _ hc _ | announce _ _ _ hc _ | hand _ _ hc | missQueue _ _ hc _
  | queue _ _ _ hc _ _ => exact .set hc rfl rfl rfl
  | fire _ _ hc | dropReceiver _ hc => exact .advanced (List.mem_filter.2 ⟨List.mem_of_getElem? hc, rfl⟩) rfl
  | _ => exact .kept rfl

theorem classify_ne_requested {e : Error} : classify false e ≠ .requested := by
  unfold classify Ending.ofError
  cases e.isGraceful <;> simp

/-- Each access leaves the cells in a combination of `Stage`. -/
theorem staged_of_access (h : Access id now a p m b q) (hs : a.Staged) : b.Staged := by
  cases h with
  | claim hn =>
      have hs' : Stage .new a.launches a.halts a.pending a.fired a.reader := hn ▸ hs
      unfold Staged
      rw [launches_record, halts_record, List.filter_cons_of_pos rfl,
        List.filter_cons_of_neg (by simp [Call.halts]), List.filter_nil, List.filter_nil,
        List.append_nil]
      exact hs'.claim
  | refuseStart _ => exact hs.record rfl rfl
  | halt hn =>
      unfold Staged
      rw [launches_record, halts_record, List.filter_cons_of_neg (by simp [Call.launches]),
        List.filter_cons_of_pos rfl, List.filter_nil, List.filter_nil, List.append_nil]
      exact Stage.halt hs hn
  | refuseStop _ => exact hs.record rfl rfl
  | refuseSend _ _ _ _ => exact hs.record rfl rfl
  | encode _ _ _ _ _ => exact hs.record rfl rfl
  | setThrottle _ => exact hs
  | setThrottleSigned _ => exact hs
  | takeReceiver i r hc hr =>
      have hstage := hs.of_launch hc rfl
      rw [hr] at hstage
      exact hs.set_launch hc rfl rfl rfl rfl hstage.take
  | missReceiver i hc hr => exact absurd hr (hs.not_missing hc)
  | announce i r lifecycle hc ho => exact hs.set_launch hc rfl rfl rfl rfl (hs.of_launch hc rfl).announce
  | hand i r hc => exact hs.set_launch hc rfl rfl rfl rfl (hs.of_launch hc rfl).hand
  | fire i wasNew hc =>
      -- whether the receiver is still to be dropped, the stop stays among those that have claimed
      exact hs.set_halt hc rfl (by cases wasNew <;> rfl) rfl (by cases wasNew <;> rfl) (hs.of_halt hc rfl).fire
  | dropReceiver i hc => exact hs.set_halt hc rfl rfl rfl rfl (hs.of_halt hc rfl).drop
  | missQueue i frame hc _ => exact hs.of_set hc rfl rfl rfl rfl
  | queue i frame queue hc _ _ => exact hs.of_set hc rfl rfl rfl rfl
  | readError _ r _ _ f hr _ _ => exact Stage.loop hs (by rw [hr]; rfl) rfl
  | readOn _ r _ _ hr _ _ => exact Stage.loop hs (by rw [hr]; rfl) rfl
  | pollError r _ f hr _ => exact Stage.loop hs (by rw [hr]; rfl) rfl
  | pollMessage r _ m hr _ => exact Stage.loop hs (by rw [hr]; rfl) rfl
  | classify f hr =>
      refine Stage.leave hs (by rw [hr]; rfl) fun hf => ?_
      rw [hf]
      exact classify_ne_requested
  | judge r m hr => exact Stage.loop hs (by rw [hr]; rfl) rfl
  | deliver r m _ hr _ _ => exact Stage.loop hs (by rw [hr]; rfl) rfl
  | defer r m _ _ _ hr _ _ => exact Stage.loop hs (by rw [hr]; rfl) rfl
  | settleWon e hr hrun =>
      have hs' : Stage .running a.launches a.halts a.pending a.fired (.left e) := by
        rw [← hr, ← hrun]
        exact hs
      exact hs'.settleWon
  | settleLost e hr hrun =>
      have hs' : Stage a.status a.launches a.halts a.pending a.fired (.left e) := hr ▸ hs
      exact hs'.settleLost hrun
  | fireReader e hr =>
      have hs' : Stage a.status a.launches a.halts a.pending a.fired (.firing e) := hr ▸ hs
      exact hs'.fireReader
  | release e hr => exact Stage.close hs (by rw [hr]; rfl) rfl (by rw [hr]; exact fun _ h => h)
  | report e _ hr _ => exact Stage.close hs (by rw [hr]; rfl) rfl (by simp [Reader.settled?])
  | quit hr hf =>
      refine Stage.leave hs (Reader.isLooping_of_mindsToken hr) fun h => ?_
      simp [hf] at h
  | write _ _ _ => exact hs

/-- A course leaves the cells in a combination of `Stage`. -/
theorem staged_of_course {ms : List Move} (h : Course id a p ms b q) (hs : a.Staged) : b.Staged :=
  Course.preserves (I := fun a _ => a.Staged) staged_of_access (fun _ hs => hs) h hs

end Attendant
end Courier
