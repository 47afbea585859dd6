import Courier.Attendant.Solo
import Courier.Proofs.Attendant.Access
import Courier.Proofs.Channel

/-!
# Course — runs of one attendant among other tasks

An attendant shares its channels with their consumer and, inside a server, with other attendants.  A
`Course` interleaves the moves of one attendant with anything those others may do, so what is shown of all
courses holds for an attendant of its own and for a member of a server alike.

1. `Ports.Foreign` says what others may do to the channels,
2. `Course` is the closure of moves and foreign use,
3. `Course.preserves` carries an invariant along,
4. `Attendant.Funnel.Scans` lists what a look of a funnel through the channels comes to,
5. `Solo.course_of_reaches` reads the runs of an attendant of its own as courses.
-/

namespace Courier

variable {μ : Type} [Marshaler μ]

/-! ## What an attendant has reported -/

namespace Ports

/-- The reports on the life of an attendant, oldest first. -/
def notices (id : AttendantId) (p : Ports) : List Notice :=
  p.lifecycle.sent.filter fun n => decide (n.attendant = id)

/-- The messages of an attendant that were admitted, oldest first. -/
def deliveries (id : AttendantId) (p : Ports) : List Delivery :=
  p.messages.sent.filter fun d => decide (d.attendant = id)

/-- The messages of an attendant that came too early, oldest first. -/
def deferrals (id : AttendantId) (p : Ports) : List Deferral :=
  p.throttled.sent.filter fun d => decide (d.attendant = id)

/-- Only others have used the channels. -/
structure Foreign (id : AttendantId) (p q : Ports) : Prop where
  lifecycle : Channel.Foreign (fun n : Notice => n.attendant = id) p.lifecycle q.lifecycle
  messages : Channel.Foreign (fun d : Delivery => d.attendant = id) p.messages q.messages
  throttled : Channel.Foreign (fun d : Deferral => d.attendant = id) p.throttled q.throttled

namespace Foreign

variable {id : AttendantId} {p q : Ports}

theorem refl (id : AttendantId) (p : Ports) : Foreign id p p :=
  ⟨.refl _ _, .refl _ _, .refl _ _⟩

theorem notices_eq (h : Foreign id p q) : q.notices id = p.notices id :=
  h.lifecycle.filter_sent

theorem deliveries_eq (h : Foreign id p q) : q.deliveries id = p.deliveries id :=
  h.messages.filter_sent

theorem deferrals_eq (h : Foreign id p q) : q.deferrals id = p.deferrals id :=
  h.throttled.filter_sent

theorem of_lifecycle {lifecycle : Channel Notice}
    (h : Channel.Foreign (fun n : Notice => n.attendant = id) p.lifecycle lifecycle) :
    Foreign id p { p with lifecycle } :=
  ⟨h, .refl _ _, .refl _ _⟩

theorem of_messages {messages : Channel Delivery}
    (h : Channel.Foreign (fun d : Delivery => d.attendant = id) p.messages messages) :
    Foreign id p { p with messages } :=
  ⟨.refl _ _, h, .refl _ _⟩

theorem of_throttled {throttled : Channel Deferral}
    (h : Channel.Foreign (fun d : Deferral => d.attendant = id) p.throttled throttled) :
    Foreign id p { p with throttled } :=
  ⟨.refl _ _, .refl _ _, h⟩

end Foreign
end Ports

/-! ## Courses -/

/-- A run of one attendant among other tasks; the list holds the attendant's own moves. -/
inductive Course (id : AttendantId) :
    Attendant μ → Ports → List Attendant.Move → Attendant μ → Ports → Prop where
  | refl (a : Attendant μ) (p : Ports) : Course id a p [] a p
  | move {a b c : Attendant μ} {p q r : Ports} {now : Nat} {m : Attendant.Move}
      {ms : List Attendant.Move} :
      a.step id now p m = some (b, q) → Course id b q ms c r → Course id a p (m :: ms) c r
  | others {a c : Attendant μ} {p q r : Ports} {ms : List Attendant.Move} :
      p.Foreign id q → Course id a q ms c r → Course id a p ms c r

namespace Course

variable {id : AttendantId} {a b c : Attendant μ} {p q r : Ports} {ms ns : List Attendant.Move}

theorem trans (h : Course id a p ms b q) (k : Course id b q ns c r) :
    Course id a p (ms ++ ns) c r := by
  induction h with
  | refl => exact k
  | move hstep _ ih => exact .move hstep (ih k)
  | others hf _ ih => exact .others hf (ih k)

theorem single {now : Nat} {m : Attendant.Move} (h : a.step id now p m = some (b, q)) :
    Course id a p [m] b q :=
  .move h (.refl b q)

/-- What the accesses of allowed moves and all foreign use keep, in step with a value that the moves compute,
holds after a course. -/
theorem preserves_along {G : Type} {f : G → Attendant.Move → G} {A : Attendant.Move → Prop}
    {I : G → Attendant μ → Ports → Prop}
    (own : ∀ {g now m a b p q}, A m → Attendant.Access id now a p m b q → I g a p →
      I (f g m) b q)
    (foreign : ∀ {g a p q}, p.Foreign id q → I g a p → I g a q)
    {g : G} (h : Course id a p ms b q) (hms : ∀ m ∈ ms, A m) : I g a p →
      I (ms.foldl f g) b q := by
  induction h generalizing g with
  | refl => exact fun hi => hi
  | move hstep _ ih =>
    intro hi
    have hown := own (hms _ (List.mem_cons_self ..)) (Attendant.access_of_step hstep) hi
    exact ih (fun m hm => hms m (List.mem_cons_of_mem _ hm)) hown
  | others hf _ ih => exact fun hi => ih hms (foreign hf hi)

/-- What every access and all foreign use keep holds after a course. -/
theorem preserves {I : Attendant μ → Ports → Prop}
    (own : ∀ {now m a b p q}, Attendant.Access id now a p m b q → I a p → I b q)
    (foreign : ∀ {a p q}, p.Foreign id q → I a p → I a q)
    (h : Course id a p ms b q) (hi : I a p) : I b q :=
  preserves_along (G := Unit) (f := fun g _ => g) (A := fun _ => True)
    (I := fun _ a p => I a p) (fun _ h hi => own h hi) (fun hf hi => foreign hf hi) (g := ()) h
    (fun _ _ => trivial) hi

end Course

namespace Attendant

/-- The attendant and its channels after given moves, all at one instant and with nobody else about. -/
def after (id : AttendantId) (now : Nat) (a : Attendant μ) (p : Ports) :
    List Move → Option (Attendant μ × Ports)
  | [] => some (a, p)
  | m :: ms => (a.step id now p m).bind fun (b, q) => after id now b q ms

end Attendant

theorem Course.of_after {id : AttendantId} {now : Nat} {a b : Attendant μ} {p q : Ports}
    {ms : List Attendant.Move} (h : a.after id now p ms = some (b, q)) : Course id a p ms b q := by
  induction ms generalizing a p with
  | nil =>
      obtain ⟨rfl, rfl⟩ : a = b ∧ p = q := by simpa [Attendant.after] using h
      exact .refl a p
  | cons m ms ih =>
      obtain ⟨⟨a', p'⟩, hstep, hrest⟩ := Option.bind_eq_some_iff.1 h
      exact .move hstep (ih hrest)

/-! ## Funnels -/

namespace Attendant.Funnel

/-- What one look through the channels comes to. -/
inductive Scans (f : Funnel) (status : Status) (isOver : Bool) (p : Ports) : Funnel → Ports → Prop where
  | started {a : AttendantId} {lifecycle : Channel Notice} (hp : f.phase = .scanning)
      (ht : p.lifecycle.take? = some (.started a, lifecycle)) :
      Scans f status isOver p (f.call (.attendantStarted a status)) { p with lifecycle }
  /-- The end is told of only when the other channels have been cleared. -/
  | stopped {a : AttendantId} {e : Ending} {lifecycle : Channel Notice} (hp : f.phase = .scanning)
      (ht : p.lifecycle.take? = some (.stopped a e, lifecycle)) :
      Scans f status isOver p { f with phase := .clearing a e } { p with lifecycle }
  | message {d : Delivery} {messages : Channel Delivery}
      (hp : f.phase = .scanning ∧ p.lifecycle.take? = none ∨ ∃ a e, f.phase = .clearing a e)
      (ht : p.messages.take? = some (d, messages)) :
      Scans f status isOver p (f.call (.message d)) { p with messages }
  | deferral {d : Deferral} {throttled : Channel Deferral}
      (hp : f.phase = .scanning ∧ p.lifecycle.take? = none ∧ p.messages.take? = none ∨
        ∃ a e, f.phase = .clearingThrottled a e)
      (ht : p.throttled.take? = some (d, throttled)) :
      Scans f status isOver p (f.call (.throttled d)) { p with throttled }
  | cleared {a : AttendantId} {e : Ending} (hp : f.phase = .clearing a e) (ht : p.messages.take? = none) :
      Scans f status isOver p { f with phase := .clearingThrottled a e } p
  | ended {a : AttendantId} {e : Ending} (hp : f.phase = .clearingThrottled a e) (ht : p.throttled.take? = none) :
      Scans f status isOver p ({ f with phase := .finished }.call (.attendantStopped a e)) p
  /-- Nobody can report anything any more. -/
  | exhausted (hp : f.phase = .scanning) (hl : p.lifecycle.take? = none) (hm : p.messages.take? = none)
      (ht : p.throttled.take? = none) (ho : isOver = true) :
      Scans f status isOver p { f with phase := .finished } p

theorem scans_of_scan {f g : Funnel} {status : Status} {isOver : Bool} {p q : Ports}
    (h : f.scan status isOver p = some (g, q)) : f.busy = false ∧ Scans f status isOver p g q := by
  unfold scan at h
  obtain ⟨hbusy, h⟩ := Option.ite_none_left_eq_some.1 h
  refine ⟨by simpa using hbusy, ?_⟩
  cases hp : f.phase with
  | scanning =>
      simp only [hp] at h
      split at h
      · next hl =>
        obtain ⟨rfl, rfl⟩ := Prod.mk.inj (Option.some.inj h)
        exact .started hp hl
      · next hl =>
        obtain ⟨rfl, rfl⟩ := Prod.mk.inj (Option.some.inj h)
        exact .stopped hp hl
      · next hl =>
        split at h
        · next hm =>
          obtain ⟨rfl, rfl⟩ := Prod.mk.inj (Option.some.inj h)
          exact .message (.inl ⟨hp, hl⟩) hm
        · next hm =>
          split at h
          · next ht =>
            obtain ⟨rfl, rfl⟩ := Prod.mk.inj (Option.some.inj h)
            exact .deferral (.inl ⟨hp, hl, hm⟩) ht
          · next ht =>
            obtain ⟨ho, hover⟩ := Option.ite_none_right_eq_some.1 h
            obtain ⟨rfl, rfl⟩ := Prod.mk.inj (Option.some.inj hover)
            exact .exhausted hp hl hm ht ho
  | clearing a e =>
      simp only [hp] at h
      split at h
      · next hm =>
        obtain ⟨rfl, rfl⟩ := Prod.mk.inj (Option.some.inj h)
        exact .message (.inr ⟨a, e, hp⟩) hm
      · next hm =>
        obtain ⟨rfl, rfl⟩ := Prod.mk.inj (Option.some.inj h)
        exact .cleared hp hm
  | clearingThrottled a e =>
      simp only [hp] at h
      split at h
      · next ht =>
        obtain ⟨rfl, rfl⟩ := Prod.mk.inj (Option.some.inj h)
        exact .deferral (.inr ⟨a, e, hp⟩) ht
      · next ht =>
        obtain ⟨rfl, rfl⟩ := Prod.mk.inj (Option.some.inj h)
        exact .ended hp ht
  | finished => simp [hp] at h

/-- A funnel takes values off the channels, and puts none in. -/
theorem Scans.foreign {f g : Funnel} {status : Status} {isOver : Bool} {p q : Ports}
    (h : Scans f status isOver p g q) (id : AttendantId) : p.Foreign id q := by
  cases h with
  | started _ ht | stopped _ ht => exact .of_lifecycle (.of_take? ht)
  | message _ ht => exact .of_messages (.of_take? ht)
  | deferral _ ht => exact .of_throttled (.of_take? ht)
  | cleared _ _ | ended _ _ | exhausted _ _ _ _ _ => exact .refl _ _

end Attendant.Funnel

/-! ## Attendants of their own -/

namespace Solo

/-- The move of the attendant in a move of an attendant with its consumer. -/
def Move.own? : Solo.Move → Option Attendant.Move
  | .attendant m => some m
  | _ => none

variable {s t : Solo μ}

/-- Whatever moves is the attendant or uses its channels from outside. -/
theorem step_cases {m : Solo.Move} (h : s.step m = some t) :
    (∃ n, m = .attendant n ∧
      s.attendant.step id s.now s.ports n = some (t.attendant, t.ports)) ∨
    (m.own? = none ∧ t.attendant = s.attendant ∧ s.ports.Foreign id t.ports) := by
  cases m with
  | attendant n =>
      simp only [step, Option.map_eq_some_iff] at h
      obtain ⟨⟨b, q⟩, hstep, rfl⟩ := h
      exact .inl ⟨n, rfl, hstep⟩
  | tick nanos =>
      obtain rfl := Option.some.inj h
      exact .inr ⟨rfl, rfl, .refl _ _⟩
  | takeNotice =>
      simp only [step, Option.ite_none_left_eq_some, Option.map_eq_some_iff] at h
      obtain ⟨-, ⟨n, lifecycle⟩, hl, rfl⟩ := h
      exact .inr ⟨rfl, rfl, .of_lifecycle (.of_take? hl)⟩
  | takeMessage =>
      simp only [step, Option.ite_none_left_eq_some, Option.map_eq_some_iff] at h
      obtain ⟨-, ⟨d, messages⟩, hm, rfl⟩ := h
      exact .inr ⟨rfl, rfl, .of_messages (.of_take? hm)⟩
  | takeThrottled =>
      simp only [step, Option.ite_none_left_eq_some, Option.map_eq_some_iff] at h
      obtain ⟨-, ⟨d, throttled⟩, ht, rfl⟩ := h
      exact .inr ⟨rfl, rfl, .of_throttled (.of_take? ht)⟩
  | drop =>
      simp only [step, Option.ite_none_left_eq_some, Option.some.injEq] at h
      obtain ⟨-, rfl⟩ := h
      exact .inr ⟨rfl, rfl, ⟨.of_close, .of_close, .of_close⟩⟩
  | pour =>
      simp only [step, Option.ite_none_left_eq_some, Option.some.injEq] at h
      obtain ⟨-, rfl⟩ := h
      exact .inr ⟨rfl, rfl, .refl _ _⟩
  | scan =>
      cases hf : s.funnel with
      | none => simp [step, hf] at h
      | some f =>
          simp only [step, hf, Option.map_eq_some_iff] at h
          obtain ⟨⟨g, q⟩, hscan, rfl⟩ := h
          exact .inr ⟨rfl, rfl, (Attendant.Funnel.scans_of_scan hscan).2.foreign id⟩
  | handled =>
      cases hf : s.funnel with
      | none => simp [step, hf] at h
      | some f =>
          simp only [step, hf, Option.map_eq_some_iff] at h
          obtain ⟨g, -, rfl⟩ := h
          exact .inr ⟨rfl, rfl, .refl _ _⟩

/-- A run of an attendant with its consumer is a course of the attendant. -/
theorem course_of_reaches {ms : List Solo.Move} (h : Reaches s ms t) :
    Course id s.attendant s.ports (ms.filterMap Move.own?) t.attendant t.ports := by
  induction h with
  | refl s => exact .refl _ _
  | @step s t u m ms hstep _ ih =>
    rcases step_cases hstep with ⟨n, rfl, hn⟩ | ⟨hm, ha, hf⟩
    · exact .move hn ih
    · rw [List.filterMap_cons_none hm]
      rw [ha] at ih
      exact .others hf ih

end Solo
end Courier
