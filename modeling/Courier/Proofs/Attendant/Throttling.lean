import Courier.Proofs.Attendant.Course
import Courier.Proofs.Revision
import Courier.Proofs.Throttle

/-!
# Throttling — setters of the throttle among messages

Callers change the throttle of an attendant at any time, while what is remembered of the last admitted message is with
the read loop, which comes to know of the throttle only when a message arrives.  A throttle that has been taken away and
set again between two messages is therefore as if it had never been away.

1. `Attendant.Note` — what concerns the throttle in the life of an attendant, and `Attendant.Logged` — a run with its
   notes,
2. `Attendant.Regulated` — the throttle and the gate are what the notes make of them, which
   `Attendant.regulated_of_logged` shows of all runs,
3. `Attendant.StartsFresh` — a throttle that is set again begins anew; in `Attendant.stale_of_reset` it does not,
4. `Attendant.throttling_of_logged` says when a message is admitted, and when a throttle that is set again begins anew.
-/

namespace Courier

variable {μ : Type} [Marshaler μ]

namespace Reader

/-- What has become of the message that the read loop has in hand. -/
def admission? : Reader μ → Option Admission
  | .publishing _ _ none => some .admitted
  | .publishing _ _ (some (_, lapse)) => some (.refused lapse)
  | _ => none

theorem admission?_publishing (r : Marshaler.Receiver μ) (m : Message) (d : Admission) (now : Nat) :
    (publishing r m (d.refusal? now)).admission? = some d := by
  cases d <;> rfl

end Reader

namespace Attendant

/-! ## Notes -/

/-- What concerns the throttle of an attendant. -/
inductive Note where
  /-- A caller has changed the throttle. -/
  | set (throttle : Nat)
  /-- The read loop has judged a message. -/
  | judged (j : Gate.Judgement)
deriving DecidableEq

namespace Note

def judgement? : Note → Option Gate.Judgement
  | .set _ => none
  | .judged j => some j

/-- The throttle that is in force behind a note. -/
def throttleAfter (throttle : Nat) : Note → Nat
  | .set throttle => throttle
  | .judged _ => throttle

end Note

/-- What is noted of a move that has taken an attendant from `a` to `b`. -/
def note? (now : Nat) (a b : Attendant μ) : Move → Option Note
  | .setThrottle _ | .setThrottleSigned _ => some (.set b.throttle)
  | .proceed =>
    match a.reader with
    | .judging _ _ => b.reader.admission?.map fun d => .judged ⟨a.throttle, now, d⟩
    | _ => none
  | _ => none

/-- A run of one attendant among other tasks, with its notes. -/
inductive Logged (id : AttendantId) (a : Attendant μ) (p : Ports) : List Note → Attendant μ → Ports → Prop where
  | refl : Logged id a p [] a p
  | move {notes : List Note} {b c : Attendant μ} {q r : Ports} {now : Nat} {m : Move} (h : Logged id a p notes b q)
      (hs : b.step id now q m = some (c, r)) : Logged id a p (notes ++ (note? now b c m).toList) c r
  | others {notes : List Note} {b : Attendant μ} {q r : Ports} (h : Logged id a p notes b q) (hf : q.Foreign id r) :
      Logged id a p notes b r

/-- The messages that have been judged. -/
def judgements (notes : List Note) : List Gate.Judgement :=
  notes.filterMap Note.judgement?

/-- The throttle in force behind some notes. -/
def inForce (initial : Nat) (notes : List Note) : Nat :=
  notes.foldl Note.throttleAfter initial

variable {id : AttendantId} {now throttle initial : Nat} {a b c : Attendant μ} {p q r : Ports} {m : Move}
  {ms : List Move}
  {notes xs ys zs : List Note} {j k : Gate.Judgement} {n : Note}

@[simp] theorem inForce_concat_set (initial : Nat) (notes : List Note) (t : Nat) :
    inForce initial (notes ++ [.set t]) = t := by
  simp [inForce, Note.throttleAfter]

@[simp] theorem inForce_concat_judged (initial : Nat) (notes : List Note) (j : Gate.Judgement) :
    inForce initial (notes ++ [.judged j]) = inForce initial notes := by
  simp [inForce, Note.throttleAfter]

@[simp] theorem judgements_concat_set (notes : List Note) (t : Nat) :
    judgements (notes ++ [.set t]) = judgements notes := by
  simp [judgements, Note.judgement?]

@[simp] theorem judgements_concat_judged (notes : List Note) (j : Gate.Judgement) :
    judgements (notes ++ [.judged j]) = judgements notes ++ [j] := by
  simp [judgements, Note.judgement?]

theorem judgements_append (xs ys : List Note) : judgements (xs ++ ys) = judgements xs ++ judgements ys :=
  List.filterMap_append ..

/-- No message has been judged. -/
theorem judgements_eq_nil (h : ∀ k, .judged k ∉ notes) : judgements notes = [] := by
  refine List.filterMap_eq_nil_iff.2 fun n hn => ?_
  cases n with
  | set _ => rfl
  | judged j => exact absurd hn (h j)

/-- Every run has its notes. -/
theorem logged_of_course (hl : Logged id a p notes b q) (h : Course id b q ms c r) :
    ∃ more, Logged id a p (notes ++ more) c r := by
  induction h generalizing notes with
  | refl => exact ⟨[], by simpa using hl⟩
  | move hstep _ ih =>
      obtain ⟨more, hmore⟩ := ih (hl.move hstep)
      exact ⟨_, by simpa [List.append_assoc] using hmore⟩
  | others hf _ ih => exact ih (hl.others hf)

/-! ## Where the throttle and the gate come from -/

/-- What a move comes to for the throttle and the gate. -/
inductive Noted (now : Nat) (a b : Attendant μ) : Option Note → Prop where
  | set (hg : b.gate = a.gate) : Noted now a b (some (.set b.throttle))
  | judged (ht : b.throttle = a.throttle) (hg : b.gate = (a.gate.check a.throttle now).2) :
      Noted now a b (some (.judged ⟨a.throttle, now, (a.gate.check a.throttle now).1⟩))
  | nothing (ht : b.throttle = a.throttle) (hg : b.gate = a.gate) : Noted now a b none

theorem noted_of_access (h : Access id now a p m b q) : Noted now a b (note? now a b m) := by
  cases h with
  | setThrottle _ | setThrottleSigned _ => exact .set rfl
  | judge r msg hr =>
      simp only [note?, hr, Reader.admission?_publishing, Option.map_some]
      exact .judged rfl rfl
  | pollError _ _ _ hr _ | pollMessage _ _ _ hr _ | classify _ hr | deliver _ _ _ hr _ _ | defer _ _ _ _ _ hr _ _
  | settleWon _ hr _ | settleLost _ hr _ | fireReader _ hr | release _ hr | report _ _ hr _ =>
      simp only [note?, hr]
      exact .nothing rfl rfl
  | _ => exact .nothing rfl rfl

/-- The throttle and the gate are what the notes make of them. -/
structure Regulated (initial : Nat) (notes : List Note) (a : Attendant μ) : Prop where
  throttle : a.throttle = inForce initial notes
  gate : a.gate = Gate.after {} ((judgements notes).map Gate.Judgement.arrival)
  /-- The messages are judged as they come, one after the other. -/
  judged : Gate.judge {} ((judgements notes).map Gate.Judgement.arrival) = judgements notes
  /-- Each message is judged under the throttle that is in force when it comes. -/
  current : ∀ xs j ys, notes = xs ++ .judged j :: ys → j.throttle = inForce initial xs

theorem current_concat (h : ∀ xs j ys, notes = xs ++ .judged j :: ys → j.throttle = inForce initial xs)
    (hn : ∀ j, n = .judged j → j.throttle = inForce initial notes) :
    ∀ xs j ys, notes ++ [n] = xs ++ .judged j :: ys → j.throttle = inForce initial xs := by
  intro xs j ys hsplit
  rcases of_concat_eq_append hsplit with ⟨-, rfl, hj⟩ | ⟨zs, -, hbefore⟩
  · exact hn j hj.symm
  · exact h xs j zs hbefore

theorem regulated_of_noted {note : Option Note} (hr : Regulated initial notes a) (h : Noted now a b note) :
    Regulated initial (notes ++ note.toList) b := by
  cases h with
  | nothing ht hg =>
      rw [Option.toList_none, List.append_nil]
      exact ⟨ht.trans hr.throttle, hg.trans hr.gate, hr.judged, hr.current⟩
  | set hg =>
      refine ⟨by simp, ?_, by simpa using hr.judged, current_concat hr.current (by simp)⟩
      rw [Option.toList_some, judgements_concat_set]
      exact hg.trans hr.gate
  | judged ht hg =>
      refine ⟨?_, ?_, ?_, current_concat hr.current ?_⟩
      · rw [Option.toList_some, inForce_concat_judged]
        exact ht.trans hr.throttle
      · rw [Option.toList_some, judgements_concat_judged, List.map_append, List.map_singleton, Gate.after_concat,
          ← hr.gate]
        exact hg
      · rw [Option.toList_some, judgements_concat_judged, List.map_append, List.map_singleton, Gate.judge_append,
          ← hr.gate, hr.judged]
        rfl
      · rintro j hj
        obtain rfl := Note.judged.inj hj
        exact hr.throttle

theorem regulated_of_logged {codec : μ} {writer : Nat} (h : Logged id (create codec throttle writer) p notes b q) :
    Regulated (holdThrottle throttle) notes b := by
  induction h with
  | refl => exact ⟨rfl, rfl, rfl, by simp⟩
  | move _ hs ih => exact regulated_of_noted ih (noted_of_access (access_of_step hs))
  | others _ _ ih => exact ih

/-! ## When a message is admitted -/

/-- A message that comes under throttle `t` at an instant is not too early after a message that was admitted. -/
def Allows (t instant : Nat) (k : Gate.Judgement) : Prop :=
  k.throttle = 0 ∨ k.instant + t ≤ instant

/-- A message is admitted unless it comes too early after the last admitted one. -/
theorem Regulated.isAdmitted_iff (h : Regulated initial notes a) (hsplit : notes = xs ++ .judged j :: ys) :
    j.isAdmitted = true ↔
      j.throttle = 0 ∨ ∀ k, Gate.lastAdmitted? (judgements xs) = some k → Allows j.throttle j.instant k := by
  have hjudged : Gate.judge {} ((judgements notes).map Gate.Judgement.arrival) =
      judgements xs ++ j :: judgements ys := by
    rw [h.judged, hsplit, judgements_append]
    rfl
  obtain ⟨g, hchecked⟩ := Gate.checked_of_split hjudged
  -- what the gate remembers is read off the last admitted message
  cases hlast : Gate.lastAdmitted? (judgements xs) with
  | none =>
      rw [Gate.reference?, hlast, Option.bind_none] at hchecked
      generalize hd : j.admission = d at hchecked
      cases hchecked with
      | free _ | first _ _ => simp [Gate.Judgement.isAdmitted, hd, Admission.isAdmitted]
      | late _ hl _ | early hl _ => simp at hl
  | some k =>
      rw [Gate.reference?, hlast, Option.bind_some] at hchecked
      generalize hd : j.admission = d at hchecked
      cases hchecked with
      | free hz => simp [Gate.Judgement.isAdmitted, hd, Admission.isAdmitted, hz]
      | first hz hl =>
          have hfree : k.throttle = 0 := by simpa using hl
          simp [Gate.Judgement.isAdmitted, hd, Admission.isAdmitted, Allows, hfree]
      | late hz hl ht =>
          obtain ⟨-, rfl⟩ : k.throttle ≠ 0 ∧ k.instant = _ := by simpa using hl
          simp [Gate.Judgement.isAdmitted, hd, Admission.isAdmitted, Allows, ht]
      | early hl ht =>
          obtain ⟨hk, rfl⟩ : k.throttle ≠ 0 ∧ k.instant = _ := by simpa using hl
          simp [Gate.Judgement.isAdmitted, hd, Admission.isAdmitted, Allows, hk]
          omega

/-- What becomes of a message that comes under a throttle depends on the messages before it only. -/
theorem Regulated.isAdmitted_since (h : Regulated initial notes a) (hsplit : notes = xs ++ ys ++ .judged j :: zs)
    (hys : ∀ k, .judged k ∉ ys) (hj : 0 < j.throttle) :
    j.isAdmitted = true ↔
      ∀ k, Gate.lastAdmitted? (judgements xs) = some k → Allows j.throttle j.instant k := by
  rw [h.isAdmitted_iff hsplit, judgements_append, judgements_eq_nil hys, List.append_nil]
  exact or_iff_right (Nat.ne_of_gt hj)

/-- Behind a message that came while there was no throttle, any message is admitted. -/
theorem Regulated.isAdmitted_of_free (h : Regulated initial notes a)
    (hsplit : notes = xs ++ .judged k :: ys ++ .judged j :: zs) (hk : k.throttle = 0) (hys : ∀ i, .judged i ∉ ys) :
    j.isAdmitted = true := by
  have hadmitted : k.isAdmitted = true := by
    rw [List.append_assoc, List.cons_append] at hsplit
    exact (h.isAdmitted_iff hsplit).2 (.inl hk)
  have hlast : Gate.lastAdmitted? (judgements (xs ++ .judged k :: ys)) = some k := by
    rw [judgements_append, show judgements (.judged k :: ys) = k :: judgements ys from rfl, judgements_eq_nil hys]
    exact Gate.lastAdmitted?_append hadmitted (by simp)
  refine (h.isAdmitted_iff hsplit).2 (.inr fun i hi => .inl ?_)
  obtain rfl := Option.some.inj (hlast.symm.trans hi)
  exact hk

/-! ## A throttle that is set again -/

/-- Whenever the throttle has been zero since the last message, the next message that comes under a throttle is
admitted. -/
def StartsFresh (initial : Nat) (notes : List Note) : Prop :=
  ∀ xs ys j zs, notes = xs ++ ys ++ .judged j :: zs → inForce initial xs = 0 → (∀ k, .judged k ∉ ys) →
    0 < j.throttle → j.isAdmitted = true

/-- A run of given moves, all at one instant and with nobody else about, with its notes. -/
def logAfter (id : AttendantId) (now : Nat) :
    List Move → List Note × Attendant μ × Ports → Option (List Note × Attendant μ × Ports)
  | [], s => some s
  | m :: ms, (notes, a, p) =>
    (a.step id now p m).bind fun (b, q) => logAfter id now ms (notes ++ (note? now a b m).toList, b, q)

theorem logged_of_logAfter (h : Logged id a p notes b q) (hn : logAfter id now ms (notes, b, q) = some (xs, c, r)) :
    Logged id a p xs c r := by
  induction ms generalizing notes b q with
  | nil =>
      obtain ⟨rfl, rfl, rfl⟩ : notes = xs ∧ b = c ∧ q = r := by simpa [logAfter] using hn
      exact h
  | cons m ms ih =>
      obtain ⟨⟨b', q'⟩, hstep, hrest⟩ := Option.bind_eq_some_iff.1 hn
      exact ih (h.move hstep) hrest

/-- A message arrives and goes through the read loop. -/
def arrival (letter : UInt8) : List Move :=
  [.read (.data [91, 34, letter, 34, 93, 10]), .proceed, .proceed, .proceed]

/-- The throttle is taken away and set again between two messages. -/
def reset : List Move :=
  [.start, .advance 0, .advance 0, .advance 0] ++ arrival 65 ++ [.setThrottle 0, .setThrottle 100] ++ arrival 66

/-- The second message is refused. -/
theorem stale_of_reset :
    ∃ notes a p, Logged 0 (create (Codec.lines 80) 100 8) (.ofCapacities 2 2) notes a p ∧ ¬ StartsFresh 100 notes := by
  have hrun : (logAfter 0 0 reset ([], create (Codec.lines 80) 100 8, .ofCapacities 2 2)).map Prod.fst =
      some [.judged ⟨100, 0, .admitted⟩, .set 0, .set 100, .judged ⟨100, 0, .refused 0⟩] := by decide +kernel
  obtain ⟨⟨notes, a, p⟩, hlog, hnotes⟩ := Option.map_eq_some_iff.1 hrun
  refine ⟨notes, a, p, logged_of_logAfter .refl hlog, fun hfresh => ?_⟩
  have hadmitted := hfresh [.judged ⟨100, 0, .admitted⟩, .set 0] [.set 100] ⟨100, 0, .refused 0⟩ [] hnotes rfl
    (by simp) (by decide)
  simp [Gate.Judgement.isAdmitted, Admission.isAdmitted] at hadmitted

/-- What setters of the throttle and messages come to, in whatever order they come.

- The throttle is the one that was set last, and each message is judged under it.
- A message is admitted exactly if there is no throttle then, or none has been admitted before, or the last such came
  while there was no throttle, or has been as long ago as the throttle says.
- A message under a throttle is thus admitted if the one before it came while there was none.
- A throttle that is set again begins anew exactly if, whenever none came in between, the first message would have been
  admitted under the new throttle anyway. -/
theorem throttling_of_logged {codec : μ} {writer : Nat}
    (h : Logged id (create codec throttle writer) p notes b q) :
    b.throttle = inForce (holdThrottle throttle) notes ∧
    (∀ xs j ys, notes = xs ++ .judged j :: ys →
      j.throttle = inForce (holdThrottle throttle) xs ∧
      (j.isAdmitted = true ↔ j.throttle = 0 ∨
        ∀ k, Gate.lastAdmitted? (judgements xs) = some k → Allows j.throttle j.instant k)) ∧
    (∀ xs k ys j zs, notes = xs ++ .judged k :: ys ++ .judged j :: zs → k.throttle = 0 → (∀ i, .judged i ∉ ys) →
      j.isAdmitted = true) ∧
    (StartsFresh (holdThrottle throttle) notes ↔
      ∀ xs ys j zs, notes = xs ++ ys ++ .judged j :: zs → inForce (holdThrottle throttle) xs = 0 →
        (∀ k, .judged k ∉ ys) → 0 < j.throttle →
        ∀ k, Gate.lastAdmitted? (judgements xs) = some k → Allows j.throttle j.instant k) := by
  have hregulated := regulated_of_logged h
  refine ⟨hregulated.throttle,
    fun xs j ys hsplit => ⟨hregulated.current xs j ys hsplit, hregulated.isAdmitted_iff hsplit⟩,
    fun xs k ys j zs hsplit hk hys => hregulated.isAdmitted_of_free hsplit hk hys, ?_, ?_⟩
  · intro hfresh xs ys j zs hsplit hzero hys hj
    exact (hregulated.isAdmitted_since hsplit hys hj).1 (hfresh xs ys j zs hsplit hzero hys hj)
  · intro hallowed xs ys j zs hsplit hzero hys hj
    exact (hregulated.isAdmitted_since hsplit hys hj).2 (hallowed xs ys j zs hsplit hzero hys hj)

/-- A message arrives while the throttle is away. -/
def relieved : List Move :=
  [.start, .advance 0, .advance 0, .advance 0] ++ arrival 65 ++ [.setThrottle 0] ++ arrival 66 ++
    [.setThrottleSigned (-100)] ++ arrival 67

theorem throttling_of_relieved :
    ∃ notes a p d, Logged 0 (create (Codec.lines 80) 100 8) (.ofCapacities 4 4) notes a p ∧
      judgements notes = [⟨100, 0, .admitted⟩, ⟨0, 0, .admitted⟩, ⟨100, 0, d⟩] ∧ a.throttle = 100 ∧
      d.isAdmitted = true := by
  have hrun : (logAfter 0 0 relieved ([], create (Codec.lines 80) 100 8, .ofCapacities 4 4)).map Prod.fst =
      some [.judged ⟨100, 0, .admitted⟩, .set 0, .judged ⟨0, 0, .admitted⟩, .set 100, .judged ⟨100, 0, .admitted⟩] := by
    decide +kernel
  obtain ⟨⟨notes, a, p⟩, hlog, hnotes⟩ := Option.map_eq_some_iff.1 hrun
  have hlogged : Logged 0 (create (Codec.lines 80) 100 8) (.ofCapacities 4 4) notes a p := logged_of_logAfter .refl hlog
  obtain rfl : notes = _ := hnotes
  obtain ⟨hthrottle, -, hfree, -⟩ := throttling_of_logged hlogged
  have hadmitted := hfree [.judged ⟨100, 0, .admitted⟩, .set 0] ⟨0, 0, .admitted⟩ [.set 100] ⟨100, 0, .admitted⟩ [] rfl
    rfl (by simp)
  exact ⟨_, a, p, .admitted, hlogged, rfl, hthrottle, hadmitted⟩

end Attendant
end Courier
