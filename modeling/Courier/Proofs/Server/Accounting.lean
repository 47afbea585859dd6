import Courier.Proofs.Server.Aftermath
import Courier.Proofs.Server.Bulletins
import Courier.Proofs.Server.Stakes

/-!
# Accounting — runs and stops of a server

Whether an operation comes out well is decided at one access: a run when it gives the server the means to end it, a
stop when it takes them.  Until a run has come out nobody can be granted a stop or claim the dispatcher for another
run, so that operations are decided in the order in which they begin, and what the server holds tells what has been
decided last.

- `Server.decisions`, `Server.Decides` — what has been decided, and what a move decides,
- `Server.Prompt`, `Server.decides_of_access` — in which order,
- `House.Resumed`, `House.Staked` — a run has come out well since the last stop that was granted,
- `House.yields_of_granted` — such a stop comes out well,
- `House.forgo_of_binding` — what a run that fails leaves behind,
- `House.accounts_of_reaches` — the accounts of a server,
- `House.accounts_of_two_runs` — those of one that runs twice.
-/

namespace Courier

variable {μ : Type} [Marshaler μ]

/-- What operations of callers that go well are about. -/
inductive Decision where
  /-- A run has come out well. -/
  | ran
  /-- A stop has been granted. -/
  | halted
deriving DecidableEq

namespace Server

/-- What has been decided of an operation.  A stop that is not refused as it begins has been granted. -/
def Call.decision? : Server.Call → Option Decision
  | .ran (.ok _) => some .ran
  | .barring _ | .closing _ | .emptying | .stopping _ | .halted (.ok _) => some .halted
  | _ => none

/-- What has been decided of the operations, in the order in which they have begun. -/
def decisions (s : Server μ) : List Decision :=
  s.calls.filterMap Call.decision?

/-- A run that has not come out. -/
def Call.isPending : Server.Call → Bool
  | .binding _ | .keeping _ => true
  | _ => false

variable {s t u : Server μ} {m : Move} {i j n k : Nat} {c c' : Server.Call} {d : Decision} {run : Run}

/-! ## The order of decisions -/

theorem stake?_of_isPending (h : c.isPending = true) : c.stake?.isSome = true := by
  cases c <;> simp_all [Call.isPending, Call.stake?, Call.run?]

/-- While a run has not come out, no operation that has begun after it is decided. -/
def Prompt (s : Server μ) : Prop :=
  ∀ (i j : Nat) c c', s.calls[i]? = some c → c.isPending = true → i < j → s.calls[j]? = some c' → c'.decision? = none

theorem isPending_of_goes (h : c.Goes s t c') (hc : c'.isPending = true) : c.isPending = true := by
  cases h with
  | bound _ _ _ _ _ => rfl
  | _ => simp [Call.isPending] at hc

/-- An operation that goes on is decided by that only if it is a run. -/
theorem decision?_of_goes (h : c.Goes s t c') :
    c'.decision? = c.decision? ∨ c.isPending = true ∧ c'.decision? = some .ran := by
  cases h with
  | keep _ _ => exact .inr ⟨rfl, rfl⟩
  | _ => exact .inl rfl

theorem prompt_of_access (h : Access s m t) (hs : s.Sole) (hp : s.Prompt) : t.Prompt := by
  intro i j c d hc hpending hij hd
  cases calls_of_access h with
  | same ht => exact hp i j c d (ht ▸ hc) hpending hij (ht ▸ hd)
  | @begun e he ht =>
      rw [ht] at hc hd
      obtain ⟨hlt, -⟩ := List.getElem?_eq_some_iff.1 hd
      have hi : i < s.calls.length := by
        rw [List.length_append, List.length_singleton] at hlt
        omega
      rw [List.getElem?_append_left hi] at hc
      rcases of_getElem?_concat hd with hd | ⟨-, rfl⟩
      · exact hp i j c d hc hpending hij hd
      · -- a stop is granted as it begins if the server holds means, which the pending run has yet to give it
        cases he with
        | stop k hk => simp [hs.closer_eq_none hc (stake?_of_isPending hpending)] at hk
        | _ => rfl
  | @moved l e e' he hgoes ht =>
      have hlt : l < s.calls.length := (List.getElem?_eq_some_iff.1 he).1
      -- whoever is pending now has been so before
      obtain ⟨c₀, hc₀, hpending₀⟩ : ∃ c₀, s.calls[i]? = some c₀ ∧ c₀.isPending = true := by
        by_cases hli : l = i
        · subst hli
          rw [ht, List.getElem?_set_self hlt] at hc
          obtain rfl := Option.some.inj hc
          exact ⟨e, he, isPending_of_goes hgoes hpending⟩
        · rw [ht, List.getElem?_set_ne hli] at hc
          exact ⟨c, hc, hpending⟩
      by_cases hlj : l = j
      · subst hlj
        rw [ht, List.getElem?_set_self hlt] at hd
        obtain rfl := Option.some.inj hd
        rcases decision?_of_goes hgoes with heq | ⟨hpending', -⟩
        · exact heq.trans (hp i l c₀ e hc₀ hpending₀ hij he)
        · -- it would be a second run that is pending
          have hsame := hs.eq_of_stakes hc₀ (stake?_of_isPending hpending₀) he (stake?_of_isPending hpending')
          omega
      · rw [ht, List.getElem?_set_ne hlj] at hd
        exact hp i j c₀ d hc₀ hpending₀ hij hd

theorem decisions_record : (s.record c).decisions = s.decisions ++ c.decision?.toList := by
  cases hc : c.decision? <;> simp [decisions, record, hc]

theorem decisions_setCall {x : Server.Call} (hc : s.calls[n]? = some c) (hcalls : u.calls = s.calls)
    (hsame : x.decision? = c.decision?) : (u.setCall n x).decisions = s.decisions := by
  have hset := filterMap_set_eq (f := Call.decision?) hc hsame
  rw [← hcalls] at hset
  exact hset.trans (by rw [hcalls]; rfl)

/-- What a move decides.  A run that comes out well gives the server the means to end it, and a stop that is granted
takes them. -/
inductive Decides (s t : Server μ) : Prop where
  | nothing (hd : t.decisions = s.decisions) (hcloser : t.closer = s.closer)
  | ran (k : Nat) (hd : t.decisions = s.decisions ++ [.ran]) (hcloser : t.closer = some k)
  | halted (hd : t.decisions = s.decisions ++ [.halted]) (hcloser : t.closer = none)

theorem decides_of_access (h : Access s m t) (hp : s.Prompt) : Decides s t := by
  have hsame : t.calls = s.calls → t.closer = s.closer → Decides s t := fun hcalls hcloser =>
    .nothing (by rw [decisions, hcalls, decisions]) hcloser
  cases h with
  | refuseRun _ | claim _ | refuseStop _ _ _ _ =>
      exact .nothing (decisions_record.trans (List.append_nil _)) rfl
  | beginStop _ _ k _ _ => exact .halted decisions_record rfl
  | keep n k hc =>
      -- nothing that has begun after the run has been decided before it
      exact .ran k (filterMap_set_concat hc rfl rfl fun j c hj hj' => hp n j _ c hc rfl hj hj') rfl
  | bound _ _ _ _ hc _ _ | forgo _ _ _ _ hc _ _ | bar _ _ hc | close _ _ _ hc _ _ | empty _ hc | finishStop _ hc =>
      exact .nothing (decisions_setCall hc rfl rfl) rfl
  | stopNext n a left hc => exact .nothing (decisions_setCall hc calls_stopAttendant rfl) closer_stopAttendant
  | turnAway _ _ _ _ _ _ | clearStart _ _ _ _ _ _ _ => exact hsame calls_stopAttendant closer_stopAttendant
  | enter _ _ _ _ _ _ => exact hsame calls_track closer_track
  | hire _ _ _ _ _ | dismiss _ _ _ _ => exact hsame calls_setRound closer_setRound
  | _ => exact hsame rfl rfl

/-- What is decided is added to what has been. -/
theorem decisions_prefix (h : Access s m t) (hp : s.Prompt) : s.decisions <+: t.decisions := by
  cases decides_of_access h hp with
  | nothing hd _ => exact hd ▸ List.prefix_rfl
  | ran _ hd _ => exact hd ▸ List.prefix_append ..
  | halted hd _ => exact hd ▸ List.prefix_append ..

/-- What has been decided of an operation stays so. -/
theorem decision_of_access (h : Access s m t) (hc : s.calls[n]? = some c) (hd : c.decision? = some d) :
    ∃ c', t.calls[n]? = some c' ∧ c'.decision? = some d := by
  obtain ⟨c', hc', rfl | hgoes⟩ := (calls_of_access h).call_to hc
  · exact ⟨c', hc', hd⟩
  · rcases decision?_of_goes hgoes with heq | ⟨hpending, -⟩
    · exact ⟨c', hc', heq.trans hd⟩
    · cases c <;> simp [Call.isPending, Call.decision?] at hpending hd

end Server

namespace House

open Server (Call)

variable {h i j : House μ} {m : Move} {ms : List Move} {ds : List Decision} {n k : Nat} {c c' : Server.Call}
  {t : Server μ}

/-! ## Whose turn it is -/

/-- A run has come out well since the last stop that was granted. -/
def Resumed (ds : List Decision) : Prop :=
  ∃ front rest, ds = front ++ .ran :: rest ∧ .halted ∉ rest

theorem resumed_concat_ran : Resumed (ds ++ [.ran]) :=
  ⟨ds, [], rfl, by simp⟩

theorem not_resumed_concat_halted : ¬ Resumed (ds ++ [.halted]) := by
  rintro ⟨front, rest, heq, hnone⟩
  -- the last decision of all is the last one after the run
  rcases of_concat_eq_append heq with ⟨-, -, hran⟩ | ⟨_, rfl, -⟩
  · cases hran
  · simp at hnone

/-- What is so of every server and of the operations begun on it.  It holds the means to end a run exactly if one
has come out well since the last stop that was granted. -/
structure Staked (h : House μ) : Prop where
  settled : h.Settled
  prompt : h.server.Prompt
  resumed : Resumed h.server.decisions ↔ ∃ k, h.server.closer = some k

theorem resumed_iff_of_access {s : Server μ} {n : Server.Move} (h : Server.Access s n t) (hp : s.Prompt)
    (hs : Resumed s.decisions ↔ ∃ k, s.closer = some k) : Resumed t.decisions ↔ ∃ k, t.closer = some k := by
  cases Server.decides_of_access h hp with
  | nothing hd hcloser => rwa [hd, hcloser]
  | ran k hd hcloser =>
      rw [hd]
      exact iff_of_true resumed_concat_ran ⟨k, hcloser⟩
  | halted hd hcloser =>
      rw [hd]
      exact iff_of_false not_resumed_concat_halted (by simp [hcloser])

theorem staked_of_step (hstep : h.step m = some i) (hs : h.Staked) : i.Staked := by
  refine ⟨settled_of_step hstep hs.settled, ?_, ?_⟩ <;>
    rcases step_cases hstep with ⟨_, -, hserver⟩ | ⟨o, heq, -⟩
  · exact Server.prompt_of_access (Server.access_of_step hserver) hs.settled.sole hs.prompt
  · rw [heq]
    exact hs.prompt
  · exact resumed_iff_of_access (Server.access_of_step hserver) hs.prompt hs.resumed
  · rw [heq]
    exact hs.resumed

theorem staked_of_reaches (hr : Reaches h ms i) (hs : h.Staked) : i.Staked :=
  hr.preserves staked_of_step hs

theorem staked_of_build {b : Builder μ} {s : Server μ} (hb : b.build = .ok s) : ({ server := s } : House μ).Staked := by
  refine ⟨settled_of_build hb, ?_, ?_⟩
  · obtain ⟨codec, config, rfl⟩ := Server.eq_of_build hb
    simp [Server.Prompt]
  · obtain ⟨codec, config, rfl⟩ := Server.eq_of_build hb
    exact iff_of_false (fun ⟨_, _, heq, _⟩ => by simp [Server.decisions] at heq) (by simp)

/-! ## A stop that is granted -/

/-- Left to go on, operation `n` comes to `c`. -/
def ComesTo (h : House μ) (n : Nat) (c : Server.Call) : Prop :=
  ∃ count i, Reaches h (List.replicate count (.server (.advance n))) i ∧ i.server.calls[n]? = some c

/-- Whatever happens, operation `n` comes to `c` once it is left to go on. -/
def Yields (h : House μ) (n : Nat) (c : Server.Call) : Prop :=
  ∀ ms i, Reaches h ms i → i.ComesTo n c

theorem step_of_server {n : Server.Move} (hs : h.server.step n = some t) :
    h.step (.server n) = some { h with server := t } := by
  simp only [step, hs, Option.map_some]

/-- An operation goes on by itself. -/
theorem step_advance (hc : h.server.calls[n]? = some c) (ha : h.server.advance c = some (t, c')) :
    ∃ i, h.step (.server (.advance n)) = some i ∧ i.server.calls[n]? = some c' := by
  have haccess := Server.access_of_advance hc ha
  have hstep : h.server.step (.advance n) = some (t.setCall n c') := by simp [Server.step, hc, ha, Server.setCall]
  refine ⟨_, step_of_server hstep, ?_⟩
  -- there is still an operation there, which is the one that has been put
  obtain ⟨d, hd, -⟩ := (Server.calls_of_access haccess).call_to hc
  obtain ⟨hlt, -⟩ := List.getElem?_eq_some_iff.1 hd
  exact List.getElem?_set_self (by simpa [Server.setCall] using hlt)

theorem ComesTo.step (hstep : h.step (.server (.advance n)) = some i) (hi : i.ComesTo n c) : h.ComesTo n c := by
  obtain ⟨count, j, hr, hc⟩ := hi
  exact ⟨count + 1, j, .step hstep hr, hc⟩

/-- An operation that goes on by itself comes to what it then comes to. -/
theorem ComesTo.of_advance (hc : h.server.calls[n]? = some c) (ha : h.server.advance c = some (t, c'))
    {d : Server.Call} (hnext : ∀ i, h.step (.server (.advance n)) = some i → i.server.calls[n]? = some c' →
        i.ComesTo n d) :
    h.ComesTo n d := by
  obtain ⟨i, hstep, hi⟩ := step_advance hc ha
  exact .step hstep (hnext i hstep hi)

/-- A stop that has emptied the set stops one attendant after the other. -/
theorem comesTo_of_stopping (left : List AttendantId) (hc : h.server.calls[n]? = some (.stopping left)) :
    h.ComesTo n (.halted (.ok ())) := by
  induction left generalizing h with
  | nil => exact .of_advance hc rfl fun i _ hi => ⟨0, i, .refl i, hi⟩
  | cons a left ih => exact .of_advance hc rfl fun i _ hi => ih hi

theorem comesTo_of_closing (ho : h.Ordered) (hc : h.server.calls[n]? = some (.closing k)) :
    h.ComesTo n (.halted (.ok ())) := by
  obtain ⟨d, hd⟩ := Server.close_of_bound ho.mustered.lawful (ho.engaged.bound k (.inr ⟨n, _, hc, rfl⟩))
  have ha : h.server.advance (.closing k) = some ({ h.server with dispatcher := d }, .emptying) := by
    simp [Server.advance, hd]
  exact .of_advance hc ha fun _ _ hi => .of_advance hi rfl fun _ _ hj => comesTo_of_stopping _ hj

/-- A stop that has been granted never has to wait. -/
theorem comesTo_of_granted (ho : h.Ordered) (hc : h.server.calls[n]? = some c) (hd : c.decision? = some .halted) :
    h.ComesTo n (.halted (.ok ())) := by
  cases c with
  | barring k =>
      exact .of_advance hc rfl fun i hstep hi => comesTo_of_closing (ordered_of_step hstep ho) hi
  | closing k => exact comesTo_of_closing ho hc
  | emptying => exact .of_advance hc rfl fun _ _ hi => comesTo_of_stopping _ hi
  | stopping left => exact comesTo_of_stopping left hc
  | halted result =>
      cases result with
      | ok _ => exact ⟨0, h, .refl h, hc⟩
      | error e => simp [Call.decision?] at hd
  | ran result => cases result <;> simp [Call.decision?] at hd
  | _ => simp [Call.decision?] at hd

theorem granted_of_step (hstep : h.step m = some i)
    (hg : ∃ c, h.server.calls[n]? = some c ∧ c.decision? = some .halted) :
    ∃ c, i.server.calls[n]? = some c ∧ c.decision? = some .halted := by
  obtain ⟨c, hc, hd⟩ := hg
  rcases step_cases hstep with ⟨_, -, hs⟩ | ⟨o, heq, -⟩
  · exact Server.decision_of_access (Server.access_of_step hs) hc hd
  · exact ⟨c, by rw [heq]; exact hc, hd⟩

theorem yields_of_granted (ho : h.Ordered) (hc : h.server.calls[n]? = some c) (hd : c.decision? = some .halted) :
    h.Yields n (.halted (.ok ())) := by
  intro ms i hr
  obtain ⟨c', hc', hd'⟩ := hr.preserves granted_of_step ⟨c, hc, hd⟩
  exact comesTo_of_granted (ordered_of_reaches hr ho) hc' hd'

/-- An operation that has come out comes to nothing else. -/
theorem Yields.eq {r : Except Error Unit} (hy : h.Yields n c') (hc : h.server.calls[n]? = some c)
    (hr : c.result? = some r) : c' = c := by
  obtain ⟨count, i, hi, hc'⟩ := hy [] h (.refl h)
  exact Option.some.inj (hc'.symm.trans (outcome_of_reaches hi hc hr))

/-! ## A run that fails -/

/-- What a stop looks at is as before. -/
structure Unmoved (s t : Server μ) : Prop where
  closer : t.closer = s.closer
  tracked : t.tracked = s.tracked
  closing : t.closing = s.closing

/-- A run that binds may fail, which gives the dispatcher back and touches nothing else that a stop looks at. -/
theorem forgo_of_binding (hs : h.Staked) (hc : h.server.calls[n]? = some (.binding k)) (e : Error) :
    ∃ i, h.step (.server (.bind n (.error e))) = some i ∧ i.server.calls[n]? = some (.ran (.error e)) ∧
      i.server.dispatcher.state = .idle ∧ Unmoved h.server i.server := by
  obtain ⟨run, hr, hphase⟩ := hs.settled.sole.binding n k hc
  obtain ⟨hlt, -⟩ := List.getElem?_eq_some_iff.1 hc
  have hforgo : h.server.dispatcher.step h.server.now (.forgo k) =
      some { h.server.dispatcher.setPhase k run .finished with state := .idle } := by
    simp [Dispatcher.step, Dispatcher.Move.run?, hr, Dispatcher.stepRun, hphase]
  have hstep : h.server.step (.bind n (.error e)) =
      some ({ h.server with
        dispatcher := { h.server.dispatcher.setPhase k run .finished with state := .idle } }.setCall n
          (.ran (.error e))) := by
    simp [Server.step, hc, Server.bind, hforgo, Server.setCall]
  exact ⟨_, step_of_server hstep, List.getElem?_set_self hlt, rfl, rfl, rfl, rfl⟩

/-- A stop of a server that holds no means to end a run is refused, and any other is granted. -/
theorem begun_of_stop (hd : h.server.dropped = false) :
    ∃ i, h.step (.server .stop) = some i ∧
      (h.server.closer = none → i.server = h.server.record (.halted (.error .notListening))) ∧
      ∀ k, h.server.closer = some k → i.server.calls[h.server.calls.length]? = some (.barring k) := by
  have hstep : h.server.step .stop = some h.server.beginStop := by simp [Server.step, hd]
  refine ⟨_, step_of_server hstep, fun hnone => ?_, fun k hk => ?_⟩
  · simp [Server.beginStop, hnone]
  · simp [Server.beginStop, hk, Server.record]

/-- A run of a server whose dispatcher is owned is refused, and any other claims it. -/
theorem begun_of_run (hd : h.server.dropped = false) :
    ∃ i, h.step (.server .run) = some i ∧ Unmoved h.server i.server ∧
      (h.server.dispatcher.state ≠ .idle → i.server = h.server.record (.ran (.error .alreadyListening))) ∧
      (h.server.dispatcher.state = .idle →
        i.server.calls[h.server.calls.length]? = some (.binding h.server.dispatcher.runs.length)) := by
  obtain ⟨i, hstep⟩ : ∃ i, h.step (.server .run) = some i := by simp [step, Server.step, hd]
  have haccess := Server.access_of_step (server_of_step hstep)
  refine ⟨i, hstep, ?_⟩
  generalize i.server = t at haccess
  cases haccess with
  | refuseRun hstate => exact ⟨⟨rfl, rfl, rfl⟩, fun _ => rfl, fun hidle => absurd hidle hstate⟩
  | claim hidle => exact ⟨⟨rfl, rfl, rfl⟩, fun hne => absurd hidle hne, fun _ => List.getElem?_concat_length⟩
  | refuseStop _ _ hm _ | beginStop _ _ _ hm _ | poise _ _ _ _ _ hm _ _ => simp at hm

/-! ## The accounts -/

/-- The accounts of a house that `ms` have led to from `g`. -/
structure Accounts (g : House μ) (ms : List Move) (h : House μ) : Prop where
  /-- Operations are decided in the order in which they have begun. -/
  decided : ∀ m i, h.step m = some i → h.server.decisions <+: i.server.decisions
  /-- A stop comes out well, whatever happens meanwhile, exactly if a run has come out well since the last stop that
  was granted.  Otherwise it is refused and nothing changes. -/
  stop : h.server.dropped = false → ∃ i, h.step (.server .stop) = some i ∧
    (i.Yields h.server.calls.length (.halted (.ok ())) ↔ Resumed h.server.decisions) ∧
    (¬ Resumed h.server.decisions → i.server = h.server.record (.halted (.error .notListening)))
  /-- Where the server holds the means to end a run, the dispatcher listens, and the run loops and has not been asked to
  end. -/
  closer : ∀ k, h.server.closer = some k → (∃ a, h.server.dispatcher.state = .listening a) ∧
    ∃ run, h.server.dispatcher.runs[k]? = some run ∧ run.closed = false ∧ run.phase ≠ .binding ∧ run.phase ≠ .finished
  /-- A run that finds the dispatcher owned is refused and nothing changes.  One that finds it idle binds for as long as
  its binding has not come out, and if it fails the dispatcher is idle again. -/
  run : h.server.dropped = false → ∃ i, h.step (.server .run) = some i ∧ Unmoved h.server i.server ∧
    (h.server.dispatcher.state ≠ .idle → i.server = h.server.record (.ran (.error .alreadyListening))) ∧
    (h.server.dispatcher.state = .idle →
      i.server.calls[h.server.calls.length]? = some (.binding h.server.dispatcher.runs.length) ∧
      ∀ ns j, Reaches i ns j →
        j.server.calls[h.server.calls.length]? = some (.binding h.server.dispatcher.runs.length) →
        j.server.dispatcher.state = .binding ∧
        ∀ e, ∃ u, j.step (.server (.bind h.server.calls.length (.error e))) = some u ∧
          u.server.calls[h.server.calls.length]? = some (.ran (.error e)) ∧
          u.server.dispatcher.state = .idle ∧ Unmoved j.server u.server)
  /-- What the moves have told of runs is what has been put into the channels.  For as long as somebody receives it,
  starts and ends take turns, and a start comes first. -/
  told : (g.trace bulletins ms).filterMap Bulletin.address? = h.server.outlets.started.sent ∧
    (g.trace bulletins ms).count .stopped = h.server.outlets.stopped.sent.length ∧
    (h.Receives → Alternates (g.trace bulletins ms))

theorem accounts_of_reaches {b : Builder μ} {s : Server μ} (hb : b.build = .ok s)
    (hr : Reaches { server := s } ms h) : Accounts { server := s } ms h where
  decided := by
    intro m i hstep
    rcases step_cases hstep with ⟨n, -, hs⟩ | ⟨o, heq, -⟩
    · exact Server.decisions_prefix (Server.access_of_step hs) (staked_of_reaches hr (staked_of_build hb)).prompt
    · rw [heq]
      exact List.prefix_rfl
  stop := by
    intro hd
    have hs := staked_of_reaches hr (staked_of_build hb)
    obtain ⟨i, hstep, hnone, hsome⟩ := begun_of_stop hd
    refine ⟨i, hstep, ?_⟩
    cases hk : h.server.closer with
    | none =>
        -- a stop that finds nobody listening is refused where it begins
        have hrefused : i.server.calls[h.server.calls.length]? = some (.halted (.error .notListening)) := by
          rw [hnone hk]
          exact List.getElem?_concat_length
        refine ⟨iff_of_false (fun hy => ?_) (by simp [hs.resumed, hk]), fun _ => hnone hk⟩
        have hsame := hy.eq hrefused rfl
        simp at hsame
    | some k =>
        have hgranted := yields_of_granted (ordered_of_step hstep hs.settled.accounted.ordered) (hsome k hk) rfl
        have hyes := hs.resumed.2 ⟨k, hk⟩
        exact ⟨iff_of_true hgranted hyes, fun hno => absurd hyes hno⟩
  closer := by
    intro k hk
    have hs := staked_of_reaches hr (staked_of_build hb)
    have ha := hs.settled.accounted
    exact hs.settled.sole.listening ha.ordered.mustered.lawful ha.parted ha.ordered.engaged (.inl hk)
  run := by
    intro hd
    have hs := staked_of_reaches hr (staked_of_build hb)
    obtain ⟨i, hstep, hunmoved, hrefused, hclaimed⟩ := begun_of_run hd
    refine ⟨i, hstep, hunmoved, hrefused, fun hidle => ⟨hclaimed hidle, fun ns j hj hc => ?_⟩⟩
    have hs' := staked_of_reaches hj (staked_of_step hstep hs)
    obtain ⟨run, hrun, hphase⟩ := hs'.settled.sole.binding _ _ hc
    exact ⟨hs'.settled.sole.governed.state_of_binding hrun hphase, forgo_of_binding hs' hc⟩
  told := by
    have htold := told_of_reaches hb hr
    exact ⟨htold.starts, htold.ends, htold.alternates⟩

/-- A run is bound, another is refused, and of two stops the first ends the run.  After that a run fails to bind,
and the next one does not. -/
def twoRuns : List Move :=
  opening ++ [.server .run, .server .stop, .server .stop] ++ List.replicate 4 (.server (.advance 2)) ++ closing ++
    [.server .run, .server (.bind 4 (.error (.bind "127.0.0.1:7000" .addressTaken))),
      .server .run, .server (.bind 5 (.ok default)), .server (.advance 5)]

theorem accounts_of_two_runs :
    ∃ h, twofold.build = .ok fresh.server ∧ Reaches fresh twoRuns h ∧ Accounts fresh twoRuns h ∧
      h.server.decisions = [.ran, .halted, .ran] ∧
      fresh.trace bulletins twoRuns = [.started default, .stopped] := by
  obtain ⟨h, hh, hcheck⟩ := (Option.any_eq_true
    (fun h : House Codec => decide (h.server.decisions = [.ran, .halted, .ran])) (fresh.after twoRuns)).1
        (by decide +kernel)
  have hr := reaches_of_after hh
  exact ⟨h, rfl, hr, accounts_of_reaches (b := twofold) rfl hr, of_decide_eq_true hcheck, by decide +kernel⟩

end House
end Courier
