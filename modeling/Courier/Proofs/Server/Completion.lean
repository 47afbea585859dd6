import Courier.Proofs.Server.House
import Courier.Proofs.Server.Quiet

/-!
# Completion — what has come about once a stop leaves nothing to do

Whatever a stop of a run meets, and whatever the consumer does or leaves undone, the stop itself comes out.  The end
of the run follows unless the run is jammed, and everybody it has accepted has stopped unless somebody was tracked
after the set had been emptied.

- `House.completion_of_stop` — what is so of a quiet server after a stop,
- `House.completion_of_one_client`, `House.jam_of_five_clients`, `House.stray_of_early_stop` — three runs.
-/

namespace Courier

variable {μ : Type} [Marshaler μ]
namespace House

variable {h i j : House μ} {ms ns : List Move} {k l : Nat}

/-- A run is jammed only for as long as the consumer leaves no room for reports on attendants. -/
theorem not_jammed_of_room {s : Server μ} (hstarted : s.outlets.attendantStarted.isFull = false)
    (hstopped : s.outlets.attendantStopped.isFull = false) : ¬ s.Jammed k := by
  rintro ⟨a, x, round, hjam⟩
  exact Server.not_blocked_of_room (fun _ => hstarted) (fun _ => hstopped) hjam.registrar

/-- A quiet server after a stop of run `k`. -/
theorem completed_iff_of_ending (ho : h.Ordered) (he : h.Ending l k) (hq : h.server.Quiet)
    (hstarted : ∀ a, h.server.duties[k]? = some (.announcing a) → h.server.outlets.started.isFull = false)
    (hfailed : ∀ e, h.server.duties[k]? = some (.reporting e) →
      h.server.outlets.acceptFailed.isFull = false) :
    h.server.Completed k ↔ ¬ h.server.Jammed k ∧ h.server.Strayless k := by
  obtain ⟨-, hclosed⟩ := Server.halted_of_quiet hq ho.mustered.lawful he.bound he.halts
  exact Server.completed_iff_of_quiet hq ho.mustered he.bound hclosed he.spared hstarted hfailed

/-- A stop of run `k` comes out, whatever callers, peers and the consumer do meanwhile and afterwards.

Say that there was room for the report of the end of the run, and that the accept loop does not wait for room for
another report.  Once the server is quiet, the end of the run is complete exactly if the run is not jammed and
nobody it has accepted is tracked without having stopped.  If the run was past lowering the flag that refuses
connections, and no further run is begun, nobody is tracked at all. -/
theorem completion_of_stop {b : Builder μ} {s : Server μ} (hb : b.build = .ok s)
    (hr : Reaches { server := s } ms h) (hk : h.server.closer = some k)
    (hstop : h.step (.server .stop) = some i) (hr' : Reaches i ns j) (hq : j.server.Quiet)
    (hroom : h.server.outlets.stopped.isFull = false)
    (hstarted : ∀ a, j.server.duties[k]? = some (.announcing a) → j.server.outlets.started.isFull = false)
    (hfailed : ∀ e, j.server.duties[k]? = some (.reporting e) →
      j.server.outlets.acceptFailed.isFull = false) :
    j.server.calls[h.server.calls.length]? = some (.halted (.ok ())) ∧
    (j.server.Completed k ↔ ¬ j.server.Jammed k ∧ j.server.Strayless k) ∧
    (h.server.agenda.Underway → (∀ m ∈ ns, m ≠ .server .run) →
      j.server.tracked = [] ∧ (j.server.Completed k ↔ ¬ j.server.Jammed k)) := by
  have hordered : h.Ordered := ordered_of_reaches hr (ordered_of_build hb)
  have hordered' : i.Ordered := ordered_of_step hstop hordered
  have hend : j.Ordered := ordered_of_reaches hr' hordered'
  have hending : j.Ending h.server.calls.length k :=
    ending_of_reaches hr' hordered' (ending_of_stop hstop hordered hk hroom)
  have hiff := completed_iff_of_ending hend hending hq hstarted hfailed
  refine ⟨?_, hiff, fun hunderway hns => ?_⟩
  · exact (Server.halted_of_quiet hq hend.mustered.lawful hending.bound hending.halts).1
  · have hraised := raised_of_reaches hr' hns (raised_of_stop hstop hk hunderway)
    have hempty : j.server.tracked = [] :=
      Server.tracked_of_raised hq hend.mustered hend.engaged hraised
    have hstrayless : j.server.Strayless k := by
      intro a x ha
      simp [hempty] at ha
    exact ⟨hempty, by rw [hiff, and_iff_left hstrayless]⟩

/-! ## Three runs -/

/-- The house after given moves. -/
def after (h : House μ) : List Move → Option (House μ)
  | [] => some h
  | m :: ms => (h.step m).bind fun i => i.after ms

theorem reaches_of_after (hms : h.after ms = some i) : Reaches h ms i := by
  induction ms generalizing h with
  | nil =>
      obtain rfl := Option.some.inj hms
      exact .refl h
  | cons m ms ih =>
      simp only [after, Option.bind_eq_some_iff] at hms
      obtain ⟨u, hstep, hrest⟩ := hms
      exact .step hstep (ih hrest)

/-- The accept loop of run `k` goes on inside a callback. -/
def work (k : Nat := 0) : Move :=
  .server (.work k true)

/-- The registrar of round `r` goes on. -/
def register (r : Nat := 0) : Move :=
  .server (.register r)

/-- The stop goes on. -/
def halt : Move :=
  .server (.advance 1)

/-- Operation `l` binds run `k`, and the loop reports it. -/
def opening (k : Nat := 0) (l : Nat := 0) : List Move :=
  [.server .run, .server (.bind l (.ok default)), .server (.advance l), .server (.loop (.begin k)),
    work k, work k, work k, work k, work k]

/-- Client `a` is accepted, and the attendant's start is about to report. -/
def arrival (a : AttendantId) (k : Nat := 0) : List Move :=
  [.server (.loop (.look k)), .server (.loop (.accept k (.ok a))), .server (.loop (.call k)),
    work k, work k, work k, .server (.attendant a (.advance 0))]

/-- The start reports, and the loop goes back to wait for connections. -/
def admission (a : AttendantId) (k : Nat := 0) : List Move :=
  [.server (.attendant a (.advance 0)), .server (.attendant a (.advance 0)), work k, work k]

/-- The registrar takes a report, and the set comes to reflect it. -/
def reflection (r : Nat := 0) : List Move :=
  List.replicate 3 (register r)

/-- The registrar takes a report, the set comes to reflect it, and it is passed on. -/
def relaying (r : Nat := 0) : List Move :=
  reflection r ++ List.replicate 2 (register r)

/-- The tasks of an attendant that a stop has found come to their ends, short of the report. -/
def departure (a : AttendantId) : List Move :=
  [.server (.attendant a (.advance 1)), .server (.attendant a .quit), .server (.attendant a .proceed),
    .server (.attendant a .proceed), .server (.attendant a .proceed),
    .server (.attendant a (.writer .leave)), .server (.attendant a (.writer .shutdown))]

/-- The peer of an attendant leaves, which the read loop comes to know and reports. -/
def leaving (a : AttendantId) : List Move :=
  [.server (.attendant a (.read .ended))] ++ List.replicate 5 (.server (.attendant a .proceed)) ++
    [.server (.attendant a (.writer .leave)), .server (.attendant a (.writer .shutdown))]

/-- The loop minds the request to end and leaves, and so does the registrar, whose inbox is empty. -/
def closing : List Move :=
  [.server (.loop (.quit 0)), work, work, work, work, .server (.loop (.leave 0))] ++ List.replicate 3 register

/-- Settings with room for two reports of each kind. -/
def twofold : Builder where
  codec := some (Codec.lines 80)
  config := { lifecycle := 2 }

/-- A server that has just been built with these settings, and its consumer. -/
def fresh : House Codec where
  server :=
    { codec := Codec.lines 80
      config := { lifecycle := 2 }
      outlets := .ofConfig { lifecycle := 2 } }

/-- One client connects, and its attendant is tracked. -/
def oneClient : List Move :=
  opening ++ arrival 0 ++ admission 0 ++ relaying

/-- A stop ends everything. -/
def oneClientAfter : List Move :=
  List.replicate 5 halt ++ departure 0 ++ [.server (.attendant 0 .proceed)] ++ relaying ++ closing

/-- Five clients connect, and nobody takes a report: the third one's start cannot be passed on, the fourth one's
stays in the inbox, and the fifth one's waits for room there. -/
def fiveClients : List Move :=
  opening ++ arrival 0 ++ admission 0 ++ relaying ++ arrival 1 ++ admission 1 ++ relaying ++
    arrival 2 ++ admission 2 ++ reflection ++ arrival 3 ++ admission 3 ++ arrival 4

/-- A stop finds the three attendants that are tracked. -/
def fiveClientsAfter : List Move :=
  List.replicate 7 halt ++ departure 0 ++ departure 1 ++ departure 2

/-- A run is bound, and its loop has not begun. -/
def early : List Move :=
  [.server .run, .server (.bind 0 (.ok default)), .server (.advance 0)]

/-- A stop raises the flag that refuses connections before the loop, as its first thing, lowers it.  A client is
accepted, the set is emptied, and the client's attendant is tracked only then. -/
def earlyAfter : List Move :=
  [halt, .server (.loop (.begin 0)), work, work, work, work, work] ++ arrival 0 ++ admission 0 ++
    [halt, halt, halt] ++ relaying ++ closing

/-- Whether operation `l` is a stop that has come out well. -/
def hasHalted (h : House μ) (l : Nat) : Bool :=
  match h.server.calls[l]? with
  | some (.halted (.ok _)) => true
  | _ => false

theorem calls_of_hasHalted (hh : h.hasHalted l = true) : h.server.calls[l]? = some (.halted (.ok ())) := by
  unfold hasHalted at hh
  split at hh
  · assumption
  · simp at hh

/-- A run of which something can be computed. -/
theorem exists_of_run (h : House μ) (ms : List Move) (check : House μ → Bool) (hcheck : (h.after ms).any check = true) :
    ∃ j, h.after ms = some j ∧ check j = true :=
  (Option.any_eq_true _ _).1 hcheck

/-- A run up to a stop and on from there, of which something can be computed. -/
theorem exists_of_check (h : House μ) (ms ns : List Move) (check : House μ → House μ → Bool)
    (hcheck : ((h.after ms).any fun i => (i.step (.server .stop)).any fun u => (u.after ns).any fun j =>
      check i j) = true) :
    ∃ i u j, h.after ms = some i ∧ i.step (.server .stop) = some u ∧ u.after ns = some j ∧
      check i j = true := by
  obtain ⟨i, hi, hcheck⟩ := (Option.any_eq_true _ _).1 hcheck
  obtain ⟨u, hu, hcheck⟩ := (Option.any_eq_true _ _).1 hcheck
  obtain ⟨j, hj, hcheck⟩ := (Option.any_eq_true _ _).1 hcheck
  exact ⟨i, u, j, hi, hu, hj, hcheck⟩

theorem completion_of_one_client :
    ∃ h i j, twofold.build = .ok fresh.server ∧ fresh.after oneClient = some h ∧
      h.step (.server .stop) = some i ∧ i.after oneClientAfter = some j ∧ j.server.Completed 0 := by
  obtain ⟨h, i, j, hh, hi, hj, hcheck⟩ := exists_of_check fresh oneClient oneClientAfter
    (fun h j => decide (h.server.closer = some 0) && !h.server.outlets.stopped.isFull &&
        decide j.server.Quiet && !j.server.outlets.started.isFull &&
        !j.server.outlets.acceptFailed.isFull && !j.server.outlets.attendantStarted.isFull &&
        !j.server.outlets.attendantStopped.isFull && j.server.tracked.isEmpty)
    (by decide +kernel)
  simp only [Bool.and_eq_true, decide_eq_true_eq, Bool.not_eq_true', List.isEmpty_iff] at hcheck
  obtain ⟨⟨⟨⟨⟨⟨⟨hcloser, hroom⟩, hquiet⟩, hstarted⟩, hfailed⟩, htold⟩, hended⟩, hempty⟩ := hcheck
  have hcompletion :=
    completion_of_stop (b := twofold) rfl (reaches_of_after hh) hcloser hi (reaches_of_after hj) hquiet
    hroom (fun _ _ => hstarted) (fun _ _ => hfailed)
  refine ⟨h, i, j, rfl, hh, hi, hj, hcompletion.2.1.2 ⟨not_jammed_of_room htold hended, ?_⟩⟩
  intro a x ha
  simp [hempty] at ha

/-- Nobody takes a report, and there is room for everything but reports on attendants: the stop comes out, and its
run does not. -/
theorem jam_of_five_clients :
    ∃ h i j, twofold.build = .ok fresh.server ∧ fresh.after fiveClients = some h ∧
      h.step (.server .stop) = some i ∧ i.after fiveClientsAfter = some j ∧
      (∀ m ∈ fiveClients ++ fiveClientsAfter, ∃ n, m = .server n) ∧
      h.server.closer = some 0 ∧ h.server.outlets.stopped.isFull = false ∧
      j.server.outlets.started.isFull = false ∧ j.server.outlets.acceptFailed.isFull = false ∧
      j.server.Quiet ∧ j.server.calls[1]? = some (.halted (.ok ())) ∧
      j.server.outlets.stopped.sent = [] ∧ ¬ j.server.Completed 0 := by
  obtain ⟨h, i, j, hh, hi, hj, hcheck⟩ := exists_of_check fresh fiveClients fiveClientsAfter
    (fun h j => decide (h.server.closer = some 0) && !h.server.outlets.stopped.isFull &&
        !j.server.outlets.started.isFull && !j.server.outlets.acceptFailed.isFull &&
        decide j.server.Quiet && j.hasHalted 1 && j.server.outlets.stopped.sent.isEmpty &&
        !j.server.dispatcher.isFinished 0)
    (by decide +kernel)
  simp only [Bool.and_eq_true, decide_eq_true_eq, Bool.not_eq_true', List.isEmpty_iff] at hcheck
  obtain ⟨⟨⟨⟨⟨⟨⟨hcloser, hroom⟩, hstarted⟩, hfailed⟩, hquiet⟩, hhalted⟩, hsilent⟩, hrunning⟩ := hcheck
  refine ⟨h, i, j, rfl, hh, hi, hj, ?_, hcloser, hroom, hstarted, hfailed, hquiet,
    calls_of_hasHalted hhalted, hsilent, fun hc => ?_⟩
  · simp [fiveClients, fiveClientsAfter, opening, arrival, admission, relaying, reflection, departure, work, register,
      halt]
  · have hfinished := hc.finished
    simp [hrunning] at hfinished

/-- A stop that is overtaken by the beginning of the run, which goes on to end: an attendant goes on. -/
theorem stray_of_early_stop :
    ∃ h i j, twofold.build = .ok fresh.server ∧ fresh.after early = some h ∧
      h.step (.server .stop) = some i ∧ i.after earlyAfter = some j ∧
      (∀ m ∈ early ++ earlyAfter, ∃ n, m = .server n) ∧
      h.server.closer = some 0 ∧ j.server.Quiet ∧ j.server.calls[1]? = some (.halted (.ok ())) ∧
      j.server.dispatcher.isFinished 0 = true ∧ ¬ j.server.Completed 0 := by
  obtain ⟨h, i, j, hh, hi, hj, hcheck⟩ := exists_of_check fresh early earlyAfter
    (fun h j => decide (h.server.closer = some 0) && decide j.server.Quiet && j.hasHalted 1 &&
      j.server.dispatcher.isFinished 0 &&
      j.server.members[0]?.any fun x => decide (j.server.runOf? x = some 0) &&
        decide (x.attendant.status = .running))
    (by decide +kernel)
  simp only [Bool.and_eq_true, decide_eq_true_eq, Option.any_eq_true] at hcheck
  obtain ⟨⟨⟨⟨hcloser, hquiet⟩, hhalted⟩, hfinished⟩, x, hx, hrun, hrunning⟩ := hcheck
  refine ⟨h, i, j, rfl, hh, hi, hj, ?_, hcloser, hquiet, calls_of_hasHalted hhalted, hfinished, fun hc => ?_⟩
  · simp [early, earlyAfter, arrival, admission, relaying, reflection, closing, work, register, halt]
  · have hstopped := (hc.released 0 x hx hrun).1
    simp [hrunning] at hstopped

end House
end Courier
