import Courier.Proofs.Attendant.Stage

/-!
# Lead — attendants that are started first of all

The first operation of an attendant of a server is the start by the accept loop.  `Attendant.Shows` says what an
access to such an attendant can change of what the server goes by: how far that start has come, whether the
status is final, and the inbox.

- `Attendant.Led` — the first operation is a start that has claimed the attendant,
- `Attendant.shows_of_access` — an access shows as listed.
-/

namespace Courier

variable {μ : Type} [Marshaler μ]

namespace Call

variable {c : Call μ}

/-- A start that has claimed the attendant and has not reported it is under way. -/
theorem result?_of_launches (hl : c.launches = true) (hr : c.hasReported = false) : c.result? = none := by
  cases c with
  | started result => cases result <;> simp_all [launches, hasReported]
  | _ => first | rfl | simp [launches] at hl

/-- A start that has claimed the attendant comes out well. -/
theorem started_of_launches (hl : c.launches = true) (hr : c.result? ≠ none) : c = .started (.ok ()) := by
  cases c with
  | started result =>
      cases result with
      | ok _ => rfl
      | error e => simp [launches] at hl
  | _ => simp_all [launches, result?]

end Call

namespace Attendant

/-- The first operation is a start that has claimed the attendant. -/
def Led (a : Attendant μ) (c : Call μ) : Prop :=
  a.calls.head? = some c ∧ c.launches = true

/-- What an access changes of what a server goes by. -/
inductive Shows (id : AttendantId) (a : Attendant μ) (p : Ports) (b : Attendant μ) (q : Ports) : Prop where
  | nothing {c : Call μ} (ha : a.Led c) (hb : b.Led c) (hs : b.status = a.status ∨ b.status = .stopped)
      (hq : q.lifecycle = p.lifecycle)
  | claimed {r : Marshaler.Receiver μ} (ha : a.Led .claimed) (hb : b.Led (.announcing r)) (hs : b.status = a.status)
      (hq : q.lifecycle = p.lifecycle)
  | announced {r : Marshaler.Receiver μ} (ha : a.Led (.announcing r)) (hb : b.Led (.handing r))
      (hs : b.status = a.status) (ho : p.lifecycle.offer? (.started id) = some q.lifecycle)
  | started {r : Marshaler.Receiver μ} (ha : a.Led (.handing r)) (hb : b.Led (.started (.ok ())))
      (hs : b.status = a.status) (hq : q.lifecycle = p.lifecycle)
  | reported {c : Call μ} (e : Ending) (ha : a.Led c) (hb : b.Led c) (hs : a.status = .stopped)
      (hs' : b.status = .stopped) (ho : p.lifecycle.offer? (.stopped id e) = some q.lifecycle)

variable {id : AttendantId} {now : Nat} {a b : Attendant μ} {p q : Ports} {m : Move} {c d : Call μ}
  {i : Nat}

theorem Led.record (h : a.Led c) (d : Call μ) : (a.record d).Led c := by
  refine ⟨?_, h.2⟩
  have hcalls : (a.record d).calls = a.calls ++ [d] := rfl
  rw [hcalls, List.head?_append, h.1, Option.some_or]

/-- The start that leads is the only one that has claimed the attendant. -/
theorem Led.launches_eq (h : a.Led c) (hs : a.Staged) : a.launches = [c] := by
  have hat : a.calls[0]? = some c := by
    rw [← List.head?_eq_getElem?, h.1]
  exact (hs.launch_unique hat h.2 c).1

/-- Changing another operation leaves the first one as it is. -/
theorem head?_set (h : a.calls.head? = some c) (hd : a.calls[i]? = some d) (hc : c.launches = true)
    (hl : d.launches = false) (d' : Call μ) : (a.calls.set i d').head? = some c := by
  cases i with
  | zero =>
      rw [← List.head?_eq_getElem?, h] at hd
      obtain rfl := Option.some.inj hd
      simp [hc] at hl
  | succ i =>
      rw [List.head?_eq_getElem?, List.getElem?_set_ne (Nat.succ_ne_zero i), ← List.head?_eq_getElem?, h]

/-- A start that has claimed the attendant is the first operation. -/
theorem Led.at_zero (h : a.Led c) (hs : a.Staged) (hd : a.calls[i]? = some d)
    (hl : d.launches = true) (d' : Call μ) : d = c ∧ (a.calls.set i d').head? = some d' := by
  have hone : a.launches = [c] := h.launches_eq hs
  have hdc : d = c := by
    have hmem : d ∈ a.launches := List.mem_filter.2 ⟨List.mem_iff_getElem?.2 ⟨i, hd⟩, hl⟩
    rw [hone] at hmem
    exact List.mem_singleton.1 hmem
  refine ⟨hdc, ?_⟩
  obtain ⟨hlt, hget⟩ := List.getElem?_eq_some_iff.1 hd
  cases hcalls : a.calls with
  | nil => simp [hcalls] at hlt
  | cons x xs =>
      have hx : x = c := by
        have hhead := h.1
        rw [hcalls] at hhead
        exact Option.some.inj hhead
      cases i with
      | zero => rfl
      | succ i =>
          -- a second start would show among the launches
          have hmem : d ∈ xs.filter Call.launches := by
            rw [hcalls] at hd
            exact List.mem_filter.2 ⟨List.mem_iff_getElem?.2 ⟨i, hd⟩, hl⟩
          have hcons : a.launches = x :: xs.filter Call.launches := by
            rw [launches, hcalls, List.filter_cons_of_pos (hx ▸ h.2)]
          rw [hcons] at hone
          obtain ⟨-, hnil⟩ := List.cons.inj hone
          simp [hnil] at hmem

/-- An attendant that is started first of all is not new any more. -/
theorem Led.status_ne_new (h : a.Led c) (hs : a.Staged) : a.status ≠ .new := by
  intro hn
  have hstage : Stage a.status a.launches a.halts a.pending a.fired a.reader := hs
  have hnone : a.launches = [] := (hn ▸ hstage).of_new
  simpa [hnone] using h.launches_eq hs

/-- An access shows as listed. -/
theorem shows_of_access (h : Access id now a p m b q) (hs : a.Staged) (hl : a.Led c) :
    Shows id a p b q := by
  -- no other operation is a start that has claimed the attendant
  cases h with
  | claim hn => exact absurd hn (hl.status_ne_new hs)
  | refuseStart _ => exact .nothing hl (hl.record _) (.inl rfl) rfl
  | halt _ => exact .nothing hl (hl.record _) (.inr rfl) rfl
  | refuseStop _ => exact .nothing hl (hl.record _) (.inl rfl) rfl
  | refuseSend _ _ _ _ => exact .nothing hl (hl.record _) (.inl rfl) rfl
  | encode _ _ _ _ _ => exact .nothing hl (hl.record _) (.inl rfl) rfl
  | setThrottle _ => exact .nothing hl hl (.inl rfl) rfl
  | setThrottleSigned _ => exact .nothing hl hl (.inl rfl) rfl
  | takeReceiver i r hc _ =>
      obtain ⟨rfl, hhead⟩ := hl.at_zero hs hc rfl (.announcing r)
      exact .claimed hl ⟨hhead, rfl⟩ rfl rfl
  | missReceiver i hc hr => exact absurd hr (hs.not_missing hc)
  | announce i r lifecycle hc ho =>
      obtain ⟨rfl, hhead⟩ := hl.at_zero hs hc rfl (.handing r)
      exact .announced hl ⟨hhead, rfl⟩ rfl ho
  | hand i r hc =>
      obtain ⟨rfl, hhead⟩ := hl.at_zero hs hc rfl (.started (.ok ()))
      exact .started hl ⟨hhead, rfl⟩ rfl rfl
  | fire i wasNew hc => exact .nothing hl ⟨head?_set hl.1 hc hl.2 rfl _, hl.2⟩ (.inl rfl) rfl
  | dropReceiver i hc => exact .nothing hl ⟨head?_set hl.1 hc hl.2 rfl _, hl.2⟩ (.inl rfl) rfl
  | missQueue i frame hc _ => exact .nothing hl ⟨head?_set hl.1 hc hl.2 rfl _, hl.2⟩ (.inl rfl) rfl
  | queue i frame queue hc _ _ => exact .nothing hl ⟨head?_set hl.1 hc hl.2 rfl _, hl.2⟩ (.inl rfl) rfl
  | readError _ _ _ _ _ _ _ _ => exact .nothing hl hl (.inl rfl) rfl
  | readOn _ _ _ _ _ _ _ => exact .nothing hl hl (.inl rfl) rfl
  | pollError _ _ _ _ _ => exact .nothing hl hl (.inl rfl) rfl
  | pollMessage _ _ _ _ _ => exact .nothing hl hl (.inl rfl) rfl
  | classify _ _ => exact .nothing hl hl (.inl rfl) rfl
  | judge _ _ _ => exact .nothing hl hl (.inl rfl) rfl
  | deliver _ _ _ _ _ _ => exact .nothing hl hl (.inl rfl) rfl
  | defer _ _ _ _ _ _ _ _ => exact .nothing hl hl (.inl rfl) rfl
  | settleWon _ _ _ => exact .nothing hl hl (.inr rfl) rfl
  | settleLost _ _ _ => exact .nothing hl hl (.inl rfl) rfl
  | fireReader _ _ => exact .nothing hl hl (.inl rfl) rfl
  | release _ _ => exact .nothing hl hl (.inl rfl) rfl
  | report e lifecycle hr ho =>
      have hstopped : a.status = .stopped := by
        have hstage : Stage a.status a.launches a.halts a.pending a.fired (.announcing e) := hr ▸ hs
        generalize a.status = status, a.launches = ls, a.halts = hs, a.pending = pending,
          a.fired = fired at hstage
        cases hstage with
        | reading hr => simp [Reader.isLooping] at hr
        | _ => rfl
      exact .reported e hl hl hstopped hstopped ho
  | quit _ _ => exact .nothing hl hl (.inl rfl) rfl
  | write _ _ _ => exact .nothing hl hl (.inl rfl) rfl

/-- The attendant of a connection that has just been accepted. -/
theorem led_of_create (codec : μ) (throttle writer : Nat) :
    (create codec throttle writer).beginStart.Led .claimed :=
  ⟨rfl, rfl⟩

theorem staged_beginStart (hs : a.Staged) : a.beginStart.Staged := by
  -- the channels do not matter to the beginning of an operation
  have haccess : Access 0 0 a (.ofCapacities 0 0) .start a.beginStart (.ofCapacities 0 0) :=
    access_of_beginStart
  exact staged_of_access haccess hs

theorem staged_beginStop (hs : a.Staged) : a.beginStop.Staged := by
  have haccess : Access 0 0 a (.ofCapacities 0 0) .stop a.beginStop (.ofCapacities 0 0) :=
    access_of_beginStop
  exact staged_of_access haccess hs

end Attendant
end Courier
