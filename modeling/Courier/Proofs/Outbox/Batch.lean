import Courier.Proofs.Outbox.Ending

/-!
# Batch — writing frames to a sink that takes them in parts

A batch is written by one loop.  Each write offers what is left, and what is left is counted again from the front of the
batch each time.

1. `Batch.remaining` finds the slices that are left by their places in the batch, and `Batch.slices_eq` shows that
   these are the slices that are offered,
2. `Batch.writeOut` is the loop against any sink, and `Batch.course_writeOut` follows it call by call,
3. `Outbox.after_of_course` — the writing task makes the calls of the loop,
4. `Batch.writing_of_batch` puts together what the sink sees.
-/

namespace Courier

/-- A sink answers each call on it by what it is offered and by all calls before. -/
structure Sink where
  write : List SinkCall → List Bytes → Outcome
  /-- How a flush fails, if it does. -/
  flush : List SinkCall → Option IoError

namespace Sink

/-- It never takes more than it is offered. -/
def Bounded (sink : Sink) : Prop :=
  ∀ calls offered n, sink.write calls offered = .took n → n ≤ offered.flatten.length

/-- It takes something whenever something is offered. -/
def Steady (sink : Sink) : Prop :=
  ∀ calls offered, offered.flatten ≠ [] → ∃ n, sink.write calls offered = .took (n + 1)

end Sink

namespace SinkCall

def isWrite : SinkCall → Bool
  | .write _ _ => true
  | _ => false

/-- A write of which the sink takes something, and no more than it is offered. -/
def Takes (call : SinkCall) : Prop :=
  ∃ offered n, call = .write offered (.took n) ∧ 1 ≤ n ∧ n ≤ offered.flatten.length

theorem Takes.isWrite {call : SinkCall} (h : call.Takes) : call.isWrite = true := by
  obtain ⟨offered, n, rfl, -⟩ := h
  rfl

theorem Takes.taken_ne_nil {call : SinkCall} (h : call.Takes) : call.taken ≠ [] := by
  obtain ⟨offered, n, rfl, hpos, hle⟩ := h
  refine List.ne_nil_of_length_pos ?_
  rw [taken, List.length_take]
  omega

/-- As many writes that take something take at least as many bytes. -/
theorem length_le_taken {calls : List SinkCall} (h : ∀ call ∈ calls, call.Takes) :
    calls.length ≤ (calls.flatMap taken).length := by
  induction calls with
  | nil => exact Nat.le_refl _
  | cons call calls ih =>
      have hpos := List.length_pos_iff.2 (h call (List.mem_cons_self ..)).taken_ne_nil
      have hrest := ih fun c hc => h c (List.mem_cons_of_mem _ hc)
      rw [List.flatMap_cons, List.length_append, List.length_cons]
      omega

end SinkCall

namespace Batch

variable {b c : Batch} {frames : List Bytes} {sink : Sink} {calls writes : List SinkCall} {outcome : Outcome}
  {e : IoError}

/-! ## Slices -/

/-- The slices of frames behind the first `skip` bytes of a batch, with `offset` bytes of the batch in front of the
frames.  A frame that is empty is left out wherever it is. -/
def remaining (skip : Nat) : Nat → List Bytes → List Bytes
  | _, [] => []
  | offset, f :: fs =>
    if skip < offset + f.length && !f.isEmpty then f.drop (skip - offset) :: remaining skip (offset + f.length) fs
    else remaining skip (offset + f.length) fs

/-- A frame at `offset` is left, if it has any byte at all, when it ends behind the bytes to skip. -/
theorem isLeft_iff (f : Bytes) (skip offset : Nat) :
    (skip < offset + f.length && !f.isEmpty) = true ↔ skip - offset < f.length := by
  cases f with
  | nil => simp
  | cons x f =>
      simp only [List.isEmpty_cons, Bool.not_false, Bool.and_true, decide_eq_true_eq, List.length_cons]
      omega

/-- Counting what is left of the bytes to skip comes to the same as comparing with places in the batch. -/
theorem slices_eq (frames : List Bytes) (skip offset : Nat) :
    slices frames (skip - offset) = remaining skip offset frames := by
  induction frames generalizing offset with
  | nil => rfl
  | cons f fs ih =>
      rw [slices, remaining, ← ih]
      by_cases hf : f.length ≤ skip - offset
      · -- the frame is empty or has been taken
        rw [if_pos hf, if_neg (mt (isLeft_iff f skip offset).1 (by omega)), Nat.sub_sub]
      · have hnext : skip - (offset + f.length) = 0 := by omega
        rw [if_neg hf, if_pos ((isLeft_iff f skip offset).2 (by omega)), hnext]

theorem nil_not_mem_slices (frames : List Bytes) (skip : Nat) : [] ∉ slices frames skip := by
  induction frames generalizing skip with
  | nil => simp [slices]
  | cons f fs ih =>
      rw [slices]
      by_cases hf : f.length ≤ skip
      · rw [if_pos hf]
        exact ih _
      · rw [if_neg hf, List.mem_cons, not_or]
        refine ⟨fun hnil => hf ?_, ih 0⟩
        exact List.drop_eq_nil_iff.1 hnil.symm

theorem offered_eq_remaining (b : Batch) : b.offered = remaining b.written 0 b.frames :=
  slices_eq b.frames b.written 0

theorem length_offered (b : Batch) : b.offered.flatten.length = b.size - b.written := by
  rw [flatten_offered, List.length_drop, size_eq]

/-! ## The loop -/

/-- Writes what is left of a batch until nothing is left, and flushes then: the calls on the sink, in order, behind
those that it has seen before, and how the last of them fails, if it does. -/
def writeOut (sink : Sink) (before : List SinkCall) (b : Batch) : List SinkCall × Option IoError :=
  if b.isWritten then ([.flush], sink.flush before)
  else
    let outcome := sink.write before b.offered
    match _h : b.accept outcome with
    | .error e => ([.write b.offered outcome], some e)
    | .ok c =>
      let (calls, failure) := writeOut sink (before ++ [.write b.offered outcome]) c
      (.write b.offered outcome :: calls, failure)
termination_by b.size - b.written
decreasing_by
  obtain ⟨n, -, rfl⟩ := took_of_accept _h
  have hleft : ¬ b.size ≤ b.written := by simpa [isWritten] using ‹¬ b.isWritten = true›
  show b.size - (b.written + (n + 1)) < b.size - b.written
  omega

/-- The loop, call by call. -/
inductive Course (sink : Sink) : List SinkCall → Batch → List SinkCall × Option IoError → Prop where
  | flush {before : List SinkCall} {b : Batch} (hb : b.isWritten = true) :
      Course sink before b ([.flush], sink.flush before)
  | failed {before : List SinkCall} {b : Batch} {e : IoError} (hb : b.isWritten = false)
      (he : b.accept (sink.write before b.offered) = .error e) :
      Course sink before b ([.write b.offered (sink.write before b.offered)], some e)
  | took {before : List SinkCall} {b : Batch} {n : Nat} {calls : List SinkCall} {failure : Option IoError}
      (hb : b.isWritten = false) (hn : sink.write before b.offered = .took (n + 1))
      (h : Course sink (before ++ [.write b.offered (.took (n + 1))]) { b with written := b.written + (n + 1) }
        (calls, failure)) :
      Course sink before b (.write b.offered (.took (n + 1)) :: calls, failure)

theorem course_writeOut (sink : Sink) (before : List SinkCall) (b : Batch) :
    Course sink before b (writeOut sink before b) := by
  fun_induction writeOut sink before b with
  | case1 before b hb => exact .flush hb
  | case2 before b hb outcome e he => exact .failed (by simpa using hb) he
  | case3 before b hb outcome c hc calls failure hrest ih =>
      obtain ⟨n, hn, rfl⟩ := took_of_accept hc
      rw [hrest] at ih
      rw [hn] at ih ⊢
      exact .took (by simpa using hb) hn ih

namespace Course

variable {before : List SinkCall} {r : List SinkCall × Option IoError}

/-- Each write offers what the writes before it have left. -/
theorem offers (h : Course sink before b r) (hsink : sink.Bounded) {done later : List SinkCall} {offered : List Bytes}
    (hcalls : r.1 = done ++ .write offered outcome :: later) :
    offered = remaining (b.written + (done.flatMap SinkCall.taken).length) 0 b.frames ∧
      done.flatMap SinkCall.taken ++ offered.flatten = b.offered.flatten ∧ offered.flatten ≠ [] ∧
      outcome = sink.write (before ++ done) offered := by
  induction h generalizing done with
  | flush _ => cases done <;> simp at hcalls
  | @failed before b e hb he =>
      cases done with
      | cons call done => simp at hcalls
      | nil =>
          simp only [List.nil_append, List.cons.injEq, SinkCall.write.injEq] at hcalls
          obtain ⟨⟨rfl, rfl⟩, -⟩ := hcalls
          exact ⟨offered_eq_remaining b, rfl, offered_ne_nil hb, by rw [List.append_nil]⟩
  | @took before b n calls failure hb hn _ ih =>
      cases done with
      | nil =>
          simp only [List.nil_append, List.cons.injEq, SinkCall.write.injEq] at hcalls
          obtain ⟨⟨rfl, rfl⟩, -⟩ := hcalls
          exact ⟨offered_eq_remaining b, rfl, offered_ne_nil hb, by rw [List.append_nil, hn]⟩
      -- the write in question is behind the first one
      | cons call done =>
          simp only [List.cons_append, List.cons.injEq] at hcalls
          obtain ⟨rfl, hcalls⟩ := hcalls
          obtain ⟨hoffered, hflatten, hne, houtcome⟩ := ih hcalls
          have hlength : (SinkCall.write b.offered (.took (n + 1))).taken.length = n + 1 := by
            have hle := hsink before b.offered (n + 1) hn
            rw [SinkCall.taken, List.length_take]
            omega
          refine ⟨?_, ?_, hne, by rw [houtcome, List.append_assoc]; rfl⟩
          · rw [hoffered, List.flatMap_cons, List.length_append, hlength, Nat.add_assoc]
          · rw [List.flatMap_cons, List.append_assoc, hflatten]
            exact taken_append_offered b (n + 1)

/-- Every call but the last takes something.  The last one is the flush, or a write that fails. -/
theorem ending (h : Course sink before b r) (hsink : sink.Bounded) :
    ∃ writes last, r.1 = writes ++ [last] ∧ (∀ call ∈ writes, call.Takes) ∧
      ((last = .flush ∧ r.2 = sink.flush (before ++ writes) ∧ writes.flatMap SinkCall.taken = b.offered.flatten) ∨
        ∃ offered outcome e, last = .write offered outcome ∧ r.2 = some e ∧
          (outcome = .failed e ∨ outcome = .took 0 ∧ e = .tookNothing)) := by
  induction h with
  | @flush before b hb =>
      refine ⟨[], .flush, rfl, by simp, .inl ⟨rfl, by rw [List.append_nil], ?_⟩⟩
      rw [offered_of_isWritten hb]
      rfl
  | @failed before b e _ he =>
      exact ⟨[], _, rfl, by simp, .inr ⟨_, _, e, rfl, rfl, failed_of_accept he⟩⟩
  | @took before b n calls failure _ hn _ ih =>
      obtain ⟨writes, last, hcalls, htakes, hlast⟩ := ih
      refine ⟨.write b.offered (.took (n + 1)) :: writes, last, congrArg (List.cons _) hcalls, ?_, ?_⟩
      · intro call hcall
        rcases List.mem_cons.1 hcall with rfl | hcall
        · exact ⟨_, _, rfl, Nat.succ_pos n, hsink _ _ _ hn⟩
        · exact htakes call hcall
      · rcases hlast with ⟨rfl, hfailure, hflatten⟩ | hbroken
        · refine .inl ⟨rfl, hfailure.trans (by rw [List.append_assoc]; rfl), ?_⟩
          rw [List.flatMap_cons, hflatten]
          exact taken_append_offered b (n + 1)
        · exact .inr hbroken

end Course
end Batch

/-! ## The loop of the task -/

/-- The move of the task that makes a call, the failure being that of a flush. -/
def SinkCall.move (failure : Option IoError) : SinkCall → Outbox.Move
  | .write _ outcome => .write outcome
  | .flush => .flush failure
  | .shutdown => .shutdown

namespace Outbox

variable {held : Bool} {b c : Outbox} {sink : Sink} {before : List SinkCall} {batch : Batch}
  {r : List SinkCall × Option IoError}

/-- The writing end after moves, one after the other; none when one of them is not possible. -/
def after (fired held : Bool) (b : Outbox) : List Move → Option Outbox
  | [] => some b
  | m :: ms => (b.step fired held m).bind fun c => c.after fired held ms

/-- The phase behind a batch, by how it has come out. -/
def Phase.ofFailure : Option IoError → Phase
  | none => .waiting
  | some e => .ended (some e)

theorem step_flush (hp : b.phase = .flushing) (held : Bool) (failure : Option IoError) :
    ∃ c, b.step false held (.flush failure) = some c ∧ c.calls = b.calls ++ [.flush] ∧
      c.phase = .ofFailure failure := by
  cases failure with
  | none => exact ⟨{ b.record .flush with phase := .waiting }, by simp only [step, hp], rfl, rfl⟩
  | some e => exact ⟨(b.record .flush).finish (some e), by simp only [step, hp], rfl, rfl⟩

/-- A sink takes no more of a batch than is left of it. -/
theorem admits_of_bounded (hsink : sink.Bounded) (before : List SinkCall) (batch : Batch) :
    batch.admits (sink.write before batch.offered) = true := by
  cases houtcome : sink.write before batch.offered with
  | failed e => rfl
  | took n =>
      have hle := hsink before batch.offered n houtcome
      rw [Batch.length_offered] at hle
      simpa [Batch.admits] using hle

/-- After a write the task goes on with the rest of the batch, or ends with the error. -/
theorem step_write (hp : b.phase = .writing batch) (held : Bool) {outcome : Outcome}
    (hadmits : batch.admits outcome = true) :
    ∃ c, b.step false held (.write outcome) = some c ∧ c.calls = b.calls ++ [.write batch.offered outcome] ∧
      c.phase = match batch.accept outcome with
        | .error e => .ended (some e)
        | .ok next => if next.isWritten then .flushing else .writing next := by
  cases haccept : batch.accept outcome with
  | error e =>
      exact ⟨(b.record (.write batch.offered outcome)).finish (some e),
        by simp only [step, hp, if_pos hadmits, haccept], rfl, rfl⟩
  | ok next =>
      exact ⟨{ b.record (.write batch.offered outcome) with
          phase := if next.isWritten then .flushing else .writing next },
        by simp only [step, hp, if_pos hadmits, haccept], rfl, rfl⟩

/-- The task writes a batch call by call as the loop does. -/
theorem after_of_course (h : Batch.Course sink before batch r) (hsink : sink.Bounded) (hcalls : b.calls = before)
    (hp : b.phase = if batch.isWritten then .flushing else .writing batch) :
    ∃ c, b.after false held (r.1.map (SinkCall.move r.2)) = some c ∧ c.calls = before ++ r.1 ∧
      c.phase = .ofFailure r.2 := by
  induction h generalizing b with
  | @flush before batch hb =>
      rw [if_pos hb] at hp
      obtain ⟨c, hstep, hc, hphase⟩ := step_flush hp held (sink.flush before)
      refine ⟨c, ?_, hcalls ▸ hc, hphase⟩
      simp only [List.map_cons, List.map_nil, SinkCall.move, after, hstep, Option.bind_some]
  | @failed before batch e hb he =>
      rw [if_neg (by simp [hb])] at hp
      obtain ⟨c, hstep, hc, hphase⟩ := step_write hp held (admits_of_bounded hsink before batch)
      rw [he] at hphase
      refine ⟨c, ?_, hcalls ▸ hc, hphase⟩
      simp only [List.map_cons, List.map_nil, SinkCall.move, after, hstep, Option.bind_some]
  | @took before batch n calls failure hb hn _ ih =>
      rw [if_neg (by simp [hb])] at hp
      obtain ⟨d, hstep, hd, hnext⟩ := step_write hp held (admits_of_bounded hsink before batch)
      rw [hn] at hstep hd hnext
      -- the task stands where the loop goes on, with one more call behind it
      obtain ⟨c, hafter, hc, hphase⟩ := ih (hd.trans (by rw [hcalls])) hnext
      refine ⟨c, ?_, by rw [hc, List.append_assoc]; rfl, hphase⟩
      rw [List.map_cons, after, SinkCall.move, hstep]
      exact hafter

/-- A batch that is complete is written next, or flushed if there is nothing to write. -/
theorem phase_of_seal {frames : List Bytes} (hp : b.phase = .gathering frames) (h : b.step false held .seal = some c) :
    c.calls = b.calls ∧
      c.phase = if ({ frames } : Batch).isWritten then .flushing else .writing { frames } := by
  simp only [step, hp, Option.ite_none_left_eq_some, Option.some.injEq] at h
  obtain ⟨-, rfl⟩ := h
  exact ⟨rfl, rfl⟩

end Outbox

/-! ## What the sink sees -/

namespace Batch

variable {sink : Sink} {before calls : List SinkCall} {failure : Option IoError} {frames : List Bytes}

/-- There are no more writes than bytes. -/
theorem Course.writes_le {b : Batch} {r : List SinkCall × Option IoError} (h : Course sink before b r)
    (hsink : sink.Bounded) :
    r.1.countP SinkCall.isWrite ≤ b.offered.flatten.length := by
  obtain ⟨writes, last, hcalls, htakes, hlast⟩ := h.ending hsink
  have hlength := SinkCall.length_le_taken htakes
  have hwrites : writes.countP SinkCall.isWrite = writes.length :=
    List.countP_eq_length.2 fun call hcall => (htakes call hcall).isWrite
  rw [hcalls, List.countP_append, hwrites]
  rcases hlast with ⟨rfl, -, hflatten⟩ | ⟨offered, outcome, e, rfl, -, -⟩
  · rw [hflatten] at hlength
    exact hlength
  · -- what the last write has offered is not among the bytes taken
    obtain ⟨-, hflatten, hne, -⟩ := h.offers hsink hcalls
    have hpos := List.length_pos_iff.2 hne
    have hone : [SinkCall.write offered outcome].countP SinkCall.isWrite = 1 := rfl
    rw [← hflatten, List.length_append, hone]
    omega

/-- If the sink takes something of every write, the last call is the flush. -/
theorem Course.flush_of_steady {b : Batch} {r : List SinkCall × Option IoError} (h : Course sink before b r)
    (hsink : sink.Bounded) (hsteady : sink.Steady) : r.1.getLast? = some .flush := by
  obtain ⟨writes, last, hcalls, -, hlast⟩ := h.ending hsink
  rw [hcalls, List.getLast?_concat]
  rcases hlast with ⟨rfl, -, -⟩ | ⟨offered, outcome, e, rfl, -, houtcome⟩
  · rfl
  · obtain ⟨-, -, hne, hwrite⟩ := h.offers hsink hcalls
    obtain ⟨n, hn⟩ := hsteady (before ++ writes) offered hne
    rw [← hwrite] at hn
    rcases houtcome with rfl | ⟨rfl, -⟩ <;> simp at hn

/-- Whatever frames a batch has, empty ones too, and whatever a sink does that takes no more than it is offered:

- Each write offers the slices that are left of the frames.  There is at least one, none is empty, and put together they
  are all bytes that the writes before have not taken.
- There are no more writes than bytes, and none if there are no bytes.
- Every call before the last one is a write that takes something.  Either the last call is the flush, and the sink has
  taken all bytes, or it is a write that fails or takes nothing, and the writing ends with its error.
- If the sink takes something of every write, it is the flush.
- The task that has gathered the frames makes these calls, and goes on or ends as the writing comes out. -/
theorem writing_of_batch (frames : List Bytes) (sink : Sink) (hsink : sink.Bounded) (before calls : List SinkCall)
    (failure : Option IoError) (hrun : writeOut sink before { frames } = (calls, failure)) :
    (∀ done offered outcome later, calls = done ++ .write offered outcome :: later →
      offered = remaining (done.flatMap SinkCall.taken).length 0 frames ∧
      offered ≠ [] ∧ [] ∉ offered ∧
      done.flatMap SinkCall.taken ++ offered.flatten = frames.flatten ∧
      outcome = sink.write (before ++ done) offered) ∧
    calls.countP SinkCall.isWrite ≤ frames.flatten.length ∧
    (∃ writes last, calls = writes ++ [last] ∧
      (∀ call ∈ writes, ∃ offered n, call = .write offered (.took n) ∧ 1 ≤ n ∧ n ≤ offered.flatten.length) ∧
      ((last = .flush ∧ failure = sink.flush (before ++ writes) ∧ writes.flatMap SinkCall.taken = frames.flatten) ∨
        ∃ offered outcome e, last = .write offered outcome ∧ failure = some e ∧
          (outcome = .failed e ∨ outcome = .took 0 ∧ e = .tookNothing))) ∧
    (sink.Steady → calls.getLast? = some .flush) ∧
    (frames.flatten = [] → calls = [.flush]) ∧
    ∀ (held : Bool) (b c : Outbox), b.phase = .gathering frames → b.calls = before → b.step false held .seal = some c →
      ∃ d, c.after false held (calls.map (SinkCall.move failure)) = some d ∧ d.calls = before ++ calls ∧
        d.phase = .ofFailure failure := by
  have hcourse : Course sink before { frames } (calls, failure) := hrun ▸ course_writeOut sink before { frames }
  have hall : ({ frames } : Batch).offered.flatten = frames.flatten := flatten_offered { frames }
  have hending := hcourse.ending hsink
  have hwrites := hcourse.writes_le hsink
  rw [hall] at hending hwrites
  refine ⟨fun done offered outcome later hcalls => ?_, hwrites, hending, hcourse.flush_of_steady hsink, fun hnil => ?_,
    fun held b c hp hbefore hseal => ?_⟩
  · obtain ⟨hoffered, hflatten, hne, houtcome⟩ := hcourse.offers hsink hcalls
    rw [Nat.zero_add] at hoffered
    refine ⟨hoffered, ?_, ?_, hflatten.trans hall, houtcome⟩
    · rintro rfl
      exact hne rfl
    · rw [hoffered, ← slices_eq]
      exact nil_not_mem_slices _ _
  · have hwritten : ({ frames } : Batch).isWritten = true := by
      simp only [isWritten, size_eq, hnil, List.length_nil, Nat.le_refl, decide_true]
    rw [writeOut, if_pos hwritten] at hrun
    exact (Prod.mk.inj hrun).1.symm
  · obtain ⟨hcalls, hphase⟩ := Outbox.phase_of_seal hp hseal
    exact Outbox.after_of_course hcourse hsink (hcalls.trans hbefore) hphase

/-- A sink that takes at most two bytes of each write. -/
def pairwise : Sink where
  write _ offered := .took (min 2 offered.flatten.length)
  flush _ := none

/-- Parts end inside a frame and where a frame ends, next to empty ones. -/
theorem writing_in_pairs :
    ∃ calls failure, pairwise.Bounded ∧
      writeOut pairwise [] { frames := [[], [1, 2, 3], [], [4], []] } = (calls, failure) ∧
      calls.getLast? = some .flush ∧ calls.flatMap SinkCall.taken = [1, 2, 3, 4] ∧ failure = none ∧
      calls.countP SinkCall.isWrite ≤ 4 := by
  have hsink : pairwise.Bounded := by
    intro calls offered n hn
    obtain rfl := Outcome.took.inj hn
    exact Nat.min_le_right _ _
  have hsteady : pairwise.Steady := by
    intro calls offered hne
    have hpos := List.length_pos_iff.2 hne
    exact ⟨min 2 offered.flatten.length - 1, congrArg Outcome.took (by omega)⟩
  rcases hrun : writeOut pairwise [] { frames := [[], [1, 2, 3], [], [4], []] } with ⟨calls, failure⟩
  obtain ⟨-, hcount, hending, hlast, -, -⟩ := writing_of_batch _ pairwise hsink [] calls failure hrun
  have hflush := hlast hsteady
  refine ⟨calls, failure, hsink, rfl, hflush, ?_, ?_, hcount⟩
  all_goals
    obtain ⟨writes, last, rfl, -, ⟨rfl, hfailure, htaken⟩ | ⟨offered, outcome, e, rfl, -, -⟩⟩ := hending
  · simpa [SinkCall.taken] using htaken
  · simp at hflush
  · exact hfailure
  · simp at hflush

end Batch
end Courier
