import Courier.Proofs.Frame.Operations

/-!
# Refusal — a length above the maximum stops a buffer

An extraction goes on in turns: one turn reads a header, the next one takes the payload behind it.  Both change the
buffer, so that it has to be shown that no failure comes after a change.

1. `FrameBuffer.turn` is one turn, `FrameBuffer.seek` takes turns up to the first answer, and
   `FrameBuffer.perform_extract` says that this is what an extraction does,
2. `FrameBuffer.Refuses` describes the buffers that fail, and `FrameBuffer.seek_eq_error_iff` shows that there are
   no others,
3. `FrameBuffer.Refuses.performs` — whatever is done with such a buffer, it fails and keeps all its bytes.
-/

namespace Courier
namespace FrameBuffer

variable {b c : FrameBuffer} {size : Nat} {e : Error}

/-! ## Turns -/

/-- One turn of an extraction, and the buffer as the turn leaves it.  Without an answer it has read a header. -/
def turn (b : FrameBuffer) : Option (Except Error (Option Bytes)) × FrameBuffer :=
  match b.awaited with
  | none =>
    if b.bytes.length < headerSize then (some (.ok none), b)
    else
      let size := Bytes.toNat (b.bytes.take headerSize)
      if b.maximum < size then (some (.error (.protocol (.payloadTooLarge size b.maximum))), b)
      else (none, { b with bytes := b.bytes.drop headerSize, awaited := some size })
  | some size =>
    if b.bytes.length < size then (some (.ok none), b)
    else (some (.ok (some (b.bytes.take size))), { b with bytes := b.bytes.drop size, awaited := none })

/-- A buffer that awaits a payload comes to an answer, which is not a failure. -/
theorem turn_of_awaited (ha : b.awaited = some size) :
    b.turn = (some (.ok (b.takePayload size).1), (b.takePayload size).2) := by
  obtain ⟨bytes, awaited, maximum⟩ := b
  obtain rfl : awaited = some size := ha
  by_cases hs : bytes.length < size
  · simp only [turn, takePayload, if_pos hs]
  · simp only [turn, takePayload, if_neg hs]

/-- A turn without an answer is one that has read a header. -/
theorem awaited_of_turn (h : b.turn = (none, c)) : b.awaited = none ∧ c.awaited.isSome = true := by
  cases ha : b.awaited with
  | some size => simp [turn_of_awaited ha] at h
  | none =>
      refine ⟨rfl, ?_⟩
      simp only [turn, ha] at h
      split at h
      · simp at h
      · split at h
        · simp at h
        · rw [← (Prod.mk.inj h).2]
          rfl

/-- Turns up to the first answer.  A header is read once. -/
def seek (b : FrameBuffer) : Except Error (Option Bytes) × FrameBuffer :=
  match _h : b.turn with
  | (some answer, c) => (answer, c)
  | (none, c) => c.seek
termination_by b.awaited.isNone.toNat
decreasing_by
  obtain ⟨hb, hc⟩ := awaited_of_turn _h
  cases hs : c.awaited with
  | none => simp [hs] at hc
  | some size => simp [hb]

theorem seek_of_answer {answer : Except Error (Option Bytes)} (h : b.turn = (some answer, c)) :
    b.seek = (answer, c) := by
  rw [seek.eq_def]
  split
  · next h' => simpa using h'.symm.trans h
  · next h' => simp [h] at h'

theorem seek_of_turn (h : b.turn = (none, c)) : b.seek = c.seek := by
  rw [seek.eq_def]
  split
  · next h' => simp [h] at h'
  · next h' => rw [(Prod.mk.inj (h'.symm.trans h)).2]

theorem seek_of_awaited (ha : b.awaited = some size) : b.seek = (.ok (b.takePayload size).1, (b.takePayload size).2) :=
  seek_of_answer (turn_of_awaited ha)

/-! ## Failures -/

/-- The next frame begins with a length above the maximum. -/
structure Refuses (b : FrameBuffer) (size : Nat) : Prop where
  boundary : b.awaited = none
  header : headerSize ≤ b.length
  declared : Bytes.toNat (b.bytes.take headerSize) = size
  large : b.maximum < size

/-- How it fails. -/
def refusal (b : FrameBuffer) (size : Nat) : Error :=
  .protocol (.payloadTooLarge size b.maximum)

theorem Refuses.turn (h : b.Refuses size) : b.turn = (some (.error (b.refusal size)), b) := by
  have hheader : ¬ b.bytes.length < headerSize := Nat.not_lt.2 h.header
  simp only [FrameBuffer.turn, h.boundary, if_neg hheader, h.declared, if_pos h.large]
  rfl

theorem Refuses.extract (h : b.Refuses size) : b.extract = .error (b.refusal size) := by
  have hheader : ¬ b.bytes.length < headerSize := Nat.not_lt.2 h.header
  simp only [FrameBuffer.extract, h.boundary, if_neg hheader, h.declared, if_pos h.large]
  rfl

/-- What a turn comes to at the boundary of two frames. -/
theorem turn_cases (hb : b.awaited = none) :
    (b.turn = (some (.ok none), b) ∧ b.extract = .ok (none, b)) ∨ (∃ size, b.Refuses size) ∨
      ∃ size, b.turn = (none, { b with bytes := b.bytes.drop headerSize, awaited := some size }) ∧
        b.extract = .ok (takePayload { b with bytes := b.bytes.drop headerSize } size) := by
  by_cases hs : b.bytes.length < headerSize
  · left
    simp only [turn, extract, hb, if_pos hs, and_self]
  · right
    by_cases hl : b.maximum < Bytes.toNat (b.bytes.take headerSize)
    · exact .inl ⟨_, hb, Nat.le_of_not_lt hs, rfl, hl⟩
    · refine .inr ⟨Bytes.toNat (b.bytes.take headerSize), ?_, ?_⟩
      · simp only [turn, hb, if_neg hs, if_neg hl]
      · simp only [extract, hb, if_neg hs, if_neg hl]

/-- An extraction is as many turns as it takes to come to an answer. -/
theorem perform_extract (b : FrameBuffer) : b.perform .extract = (.payload b.seek.1, b.seek.2) := by
  unfold perform
  cases hb : b.awaited with
  | some size =>
      have hextract : b.extract = .ok (b.takePayload size) := by
        unfold extract
        rw [hb]
      rw [hextract, seek_of_awaited hb]
  | none =>
      rcases turn_cases hb with ⟨hturn, hextract⟩ | ⟨size, hrefuses⟩ | ⟨size, hturn, hextract⟩
      · rw [hextract, seek_of_answer hturn]
      · rw [hrefuses.extract, seek_of_answer hrefuses.turn]
      · -- the second turn takes the payload, if it is there
        rw [hextract, seek_of_turn hturn, seek_of_awaited rfl]
        rfl

/-- Turns fail exactly if the first one does, and that is where the next frame begins with a length above the
maximum. -/
theorem seek_eq_error_iff :
    b.seek.1 = .error e ↔ ∃ size, b.Refuses size ∧ e = b.refusal size ∧ b.seek = (.error e, b) := by
  constructor
  · intro h
    cases hb : b.awaited with
    | some size => simp [seek_of_awaited hb] at h
    | none =>
        rcases turn_cases hb with ⟨hturn, -⟩ | ⟨size, hrefuses⟩ | ⟨size, hturn, -⟩
        · simp [seek_of_answer hturn] at h
        · have hseek := seek_of_answer hrefuses.turn
          obtain rfl : b.refusal size = e := by simpa [hseek] using h
          exact ⟨size, hrefuses, rfl, hseek⟩
        · have hseek := (seek_of_turn hturn).trans (seek_of_awaited rfl)
          simp [hseek] at h
  · rintro ⟨size, -, -, hseek⟩
    rw [hseek]

/-! ## What is done with a buffer that fails -/

/-- The bytes that an operation adds. -/
def Op.given : Op → Bytes
  | .extend data | .fill data | .push data => data
  | .extract | .clear => []

/-- What a buffer that fails answers. -/
def Op.refused (e : Error) : Op → Answer
  | .extend _ | .fill _ | .clear => .done
  | .push _ => .payloads (.error e)
  | .extract => .payload (.error e)

/-- The buffer after operations, one after the other. -/
def after (b : FrameBuffer) (ops : List Op) : FrameBuffer :=
  ops.foldl (fun b op => (b.perform op).2) b

theorem after_append (b : FrameBuffer) (ops ops' : List Op) : b.after (ops ++ ops') = (b.after ops).after ops' :=
  List.foldl_append

namespace Refuses

/-- More bytes leave the header in front as it is. -/
theorem extend (h : b.Refuses size) (data : Bytes) : (b.extend data).Refuses size where
  boundary := h.boundary
  header := by
    show headerSize ≤ (b.bytes ++ data).length
    rw [List.length_append]
    exact Nat.le_trans h.header (Nat.le_add_right ..)
  declared := by
    show Bytes.toNat ((b.bytes ++ data).take headerSize) = size
    rw [List.take_append_of_le_length h.header]
    exact h.declared
  large := h.large

/-- A push adds its bytes and fails. -/
theorem push (h : b.Refuses size) (data : Bytes) : b.push data = (.error (b.refusal size), b.extend data) := by
  have hextract : (b.extend data).extract = .error (b.refusal size) := (h.extend data).extract
  simp only [FrameBuffer.push, extractAll, hextract]

/-- One operation other than clearing adds its bytes, and nothing comes out. -/
theorem performs (h : b.Refuses size) {op : Op} (hop : op ≠ .clear) :
    b.perform op = (op.refused (b.refusal size), b.extend op.given) := by
  cases op with
  | extend data | fill data => rfl
  | push data =>
      rw [perform, h.push data]
      rfl
  | extract =>
      rw [perform, h.extract]
      simp [Op.refused, Op.given, FrameBuffer.extend]
  | clear => exact absurd rfl hop

/-- And so do any number of them. -/
theorem after (h : b.Refuses size) {ops : List Op} (hops : .clear ∉ ops) :
    b.answers ops = ops.map (·.refused (b.refusal size)) ∧ b.after ops = b.extend (ops.flatMap Op.given) := by
  induction ops generalizing b with
  | nil => exact ⟨rfl, by simp [FrameBuffer.after, FrameBuffer.extend]⟩
  | cons op ops ih =>
      have hstep := h.performs (fun hop => hops (hop ▸ List.mem_cons_self ..) : op ≠ .clear)
      obtain ⟨hanswers, hafter⟩ := ih (h.extend op.given) fun hmem => hops (List.mem_cons_of_mem _ hmem)
      refine ⟨?_, ?_⟩
      · rw [answers, hstep, hanswers]
        rfl
      · calc b.after (op :: ops) = (b.extend op.given).after ops := by
              rw [FrameBuffer.after, List.foldl_cons, hstep]
              rfl
          _ = b.extend ((op :: ops).flatMap Op.given) := by
              rw [hafter]
              simp [FrameBuffer.extend]

end Refuses

/-- Of any buffer, whatever has been done with it:

- An extraction is a number of turns, each of which may change the buffer, up to the first answer.
- It fails exactly where a frame begins and the next four bytes declare a length above the maximum, and then it
  leaves the buffer as it was.
- From then on, up to the next clearing, every extraction and every push fails in the same way, and all bytes that are
  added stay behind those that were there.
- Clearing makes it a new buffer with the same maximum. -/
theorem refusal_of_operations (b : FrameBuffer) :
    b.perform .extract = (.payload b.seek.1, b.seek.2) ∧
    ((∃ e, b.seek.1 = .error e) ↔
      b.awaited = none ∧ headerSize ≤ b.length ∧ b.maximum < Bytes.toNat (b.bytes.take headerSize)) ∧
    ∀ e, b.seek.1 = .error e →
      b.seek.2 = b ∧
      e = .protocol (.payloadTooLarge (Bytes.toNat (b.bytes.take headerSize)) b.maximum) ∧
      ∀ ops, .clear ∉ ops →
        b.answers ops = ops.map (·.refused e) ∧
        b.after ops = b.extend (ops.flatMap Op.given) ∧
        (b.after ops).seek = (.error e, b.after ops) ∧
        b.after (ops ++ [.clear]) = empty b.maximum := by
  refine ⟨perform_extract b, ⟨?_, ?_⟩, fun e he => ?_⟩
  · rintro ⟨e, he⟩
    obtain ⟨size, hrefuses, -⟩ := seek_eq_error_iff.1 he
    exact ⟨hrefuses.boundary, hrefuses.header, hrefuses.declared ▸ hrefuses.large⟩
  · rintro ⟨hb, hh, hl⟩
    have hrefuses : b.Refuses _ := ⟨hb, hh, rfl, hl⟩
    exact ⟨_, congrArg Prod.fst (seek_of_answer hrefuses.turn)⟩
  · obtain ⟨size, hrefuses, rfl, hseek⟩ := seek_eq_error_iff.1 he
    refine ⟨by rw [hseek], by rw [hrefuses.declared]; rfl, fun ops hops => ?_⟩
    obtain ⟨hanswers, hafter⟩ := hrefuses.after hops
    refine ⟨hanswers, hafter, ?_, ?_⟩
    · rw [hafter]
      exact seek_of_answer (hrefuses.extend _).turn
    · rw [after_append, hafter]
      rfl

/-- A frame, a length above the maximum and more bytes, some of which look like a frame. -/
theorem refusal_of_large_length :
    ∃ b, b = (empty 2).after [.push [0, 0, 0, 1, 65], .extend [0, 0], .fill [0, 3]] ∧
      b.perform .extract = (.payload (.error (.protocol (.payloadTooLarge 3 2))), b) ∧
      b.answers [.push [66, 67, 68], .extend [0, 0, 0, 1, 69], .extract] =
        [.payloads (.error (.protocol (.payloadTooLarge 3 2))), .done,
          .payload (.error (.protocol (.payloadTooLarge 3 2)))] := by
  refine ⟨_, rfl, ?_⟩
  obtain ⟨hperform, hfails, hkept⟩ :=
    refusal_of_operations ((empty 2).after [.push [0, 0, 0, 1, 65], .extend [0, 0], .fill [0, 3]])
  obtain ⟨e, he⟩ := hfails.2 ⟨rfl, by decide, by decide⟩
  obtain ⟨hsame, rfl, hblocked⟩ := hkept e he
  refine ⟨?_, (hblocked [.push [66, 67, 68], .extend [0, 0, 0, 1, 69], .extract] (by simp)).1⟩
  rw [hperform, he, hsame]
  rfl

end FrameBuffer
end Courier
