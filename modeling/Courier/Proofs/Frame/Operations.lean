import Courier.Proofs.Frame
import Courier.Proofs.Stream

/-!
# Operations — a buffer of frames under any use

A buffer may be given bytes and asked for payloads in any order.  What it has been given since it was last cleared
is the payloads it has handed on, framed again, and what it still holds; a header that has been read counts as held.
All answers follow from the bytes that are held, so that it does not matter how they have come.

1. `Frames.next` is the answer to an extraction, and `FrameBuffer.extract_eq` says that it depends on the held bytes
   only,
2. `FrameBuffer.Emptied` follows a push from payload to payload, and `FrameBuffer.emptied_push` shows that it comes
   to an end,
3. `FrameBuffer.Session` keeps account of what has been done with a buffer, and `FrameBuffer.Session.sound_run` is the
   equation of bytes given, handed on and held,
4. `FrameBuffer.Alike` relates buffers that hold the same bytes, whatever of them has been read as a header.
-/

namespace Courier

namespace Frames

variable {maximum : Nat} {payload S : Bytes} {payloads : List Bytes}

/-! ## Framed payloads -/

/-- Payloads as they stand in a stream, each behind its length. -/
def join (payloads : List Bytes) : Bytes :=
  payloads.flatMap fun payload => Bytes.bigEndian headerSize payload.length ++ payload

/-- A stream that ends where a frame ends. -/
def Whole (S : Bytes) : Prop :=
  ∃ payloads, (∀ payload ∈ payloads, payload.length < 256 ^ headerSize) ∧ S = join payloads

theorem join_append (ps qs : List Bytes) : join (ps ++ qs) = join ps ++ join qs :=
  List.flatMap_append

/-- Whole frames in front are cut off. -/
theorem parse_join (h : ∀ payload ∈ payloads, payload.length < 256 ^ headerSize ∧ payload.length ≤ maximum)
    (S : Bytes) :
    parse maximum (join payloads ++ S) = (payloads ++ (parse maximum S).1, (parse maximum S).2) := by
  induction payloads with
  | nil => rfl
  | cons payload payloads ih =>
      obtain ⟨hw, hl⟩ := h payload (List.mem_cons_self ..)
      have hrest := ih fun p hp => h p (List.mem_cons_of_mem _ hp)
      rw [join, List.flatMap_cons, List.append_assoc, parse_frame hw hl, ← join, hrest]
      rfl

/-- A stream that ends with a frame leaves nothing behind the last one. -/
theorem parse_of_whole (h : Whole S) : ∃ payloads, parse (256 ^ headerSize) S = (payloads, []) := by
  obtain ⟨payloads, hw, rfl⟩ := h
  have hparse := parse_join (fun p hp => ⟨hw p hp, Nat.le_of_lt (hw p hp)⟩) []
  rw [List.append_nil] at hparse
  have hnil : parse (256 ^ headerSize) [] = ([], []) := by
    rw [parse]
    rfl
  exact ⟨payloads, by rw [hparse, hnil, List.append_nil]⟩

/-- What the next extraction comes to when given bytes are held, and what is held then. -/
def next (maximum : Nat) (S : Bytes) : Except Error (Option Bytes × Bytes) :=
  let size := Bytes.toNat (S.take headerSize)
  let body := S.drop headerSize
  if S.length < headerSize then .ok (none, S)
  else if maximum < size then .error (.protocol (.payloadTooLarge size maximum))
  else if body.length < size then .ok (none, S)
  else .ok (some (body.take size), body.drop size)

end Frames

namespace FrameBuffer

variable {b b' c c' : FrameBuffer} {payload : Bytes} {payloads payloads' : List Bytes} {failure failure' : Option Error}

/-! ## Extractions -/

/-- A larger maximum leaves the beginning of a frame what it is, and so does one that no header is above. -/
theorem Partial.mono {m n : Nat} {S : Bytes} (h : Partial m S) (hmn : min m (256 ^ headerSize) ≤ n) : Partial n S := by
  cases h with
  | header hs => exact .header hs
  | payload hw hl hs => exact .payload hw (Nat.le_trans (Nat.le_min.2 ⟨hl, Nat.le_of_lt hw⟩) hmn) hs

/-- An extraction goes by what is held. -/
theorem extract_eq (h : b.Regular) :
    (b.extract.map fun r => (r.1, r.2.held)) = Frames.next b.maximum b.held := by
  have hextracted := extracted h
  generalize b.extract = r at hextracted
  cases hextracted with
  | @taken payload c hw hl hheld hc hm =>
      have hnext : Frames.next b.maximum b.held = .ok (some payload, c.bytes) := by
        rw [hheld, List.append_assoc]
        simp only [Frames.next, Frames.take_header, Frames.drop_header, Bytes.toNat_bigEndian hw,
          if_neg (Frames.not_length_lt_header _ _), if_neg (Nat.not_lt.2 hl)]
        rw [if_neg (by simp), List.take_left, List.drop_left]
      rw [hnext, Except.map, held_of_awaited_none hc]
  | @short c hs hheld hc hm =>
      rw [Except.map, hheld]
      generalize b.held = S at hs
      cases hs with
      | header hs => simp only [Frames.next, if_pos hs]
      | payload hw hl hs =>
          simp only [Frames.next, Frames.take_header, Frames.drop_header, Bytes.toNat_bigEndian hw,
            if_neg (Frames.not_length_lt_header _ _), if_neg (Nat.not_lt.2 hl), if_pos hs]
  | @refused size rest hw hl hheld =>
      rw [hheld]
      simp only [Except.map, Frames.next, Frames.take_header, Bytes.toNat_bigEndian hw,
        if_neg (Frames.not_length_lt_header _ _), if_pos hl]

theorem regular_extend (h : b.Regular) (data : Bytes) : (b.extend data).Regular := h

/-- Whatever an extraction answers, the buffer it leaves is one of the same kind. -/
theorem kept_of_extract {r : Option Bytes} (h : b.Regular) (he : b.extract = .ok (r, c)) :
    c.Regular ∧ c.maximum = b.maximum := by
  have hextracted := extracted h
  rw [he] at hextracted
  cases hextracted with
  | taken _ _ _ hc hm => exact ⟨regular_of_awaited_none hc, hm⟩
  | short _ _ hc hm => exact ⟨hc, hm⟩

/-- A payload that is handed on has been held, behind its length. -/
theorem held_of_extract (h : b.Regular) (he : b.extract = .ok (some payload, c)) :
    b.held = Frames.join [payload] ++ c.held ∧ payload.length < 256 ^ headerSize ∧ payload.length ≤ b.maximum := by
  have hextracted := extracted h
  rw [he] at hextracted
  cases hextracted with
  | taken hw hl hheld hc hm =>
      refine ⟨?_, hw, hl⟩
      rw [hheld, held_of_awaited_none hc]
      simp [Frames.join]

/-- Where more bytes are needed, a header is not complete or a payload is not. -/
inductive Short (b : FrameBuffer) : Prop where
  | header (ha : b.awaited = none) (hs : b.bytes.length < headerSize)
  | payload {size : Nat} (ha : b.awaited = some size) (hs : b.bytes.length < size)

theorem short_of_takePayload {size : Nat} (h : b.takePayload size = (none, c)) : c.Short := by
  unfold takePayload at h
  by_cases hs : b.bytes.length < size
  · rw [if_pos hs] at h
    obtain rfl := (Prod.mk.inj h).2
    exact .payload rfl hs
  · rw [if_neg hs] at h
    cases (Prod.mk.inj h).1

/-- An extraction that needs more bytes has read the header if it was there. -/
theorem short_of_extract (he : b.extract = .ok (none, c)) : c.Short := by
  unfold extract at he
  cases ha : b.awaited with
  | some size =>
      rw [ha] at he
      exact short_of_takePayload (Except.ok.inj he)
  | none =>
      rw [ha] at he
      by_cases hs : b.bytes.length < headerSize
      · rw [if_pos hs] at he
        obtain rfl := (Prod.mk.inj (Except.ok.inj he)).2
        exact .header ha hs
      · rw [if_neg hs] at he
        simp only at he
        split at he
        · cases he
        · exact short_of_takePayload (Except.ok.inj he)

/-- There is nothing more to extract, and nothing more to read. -/
theorem Short.extract (h : b.Short) : b.extract = .ok (none, b) := by
  obtain ⟨bytes, awaited, maximum⟩ := b
  cases h with
  | header ha hs =>
      obtain rfl : awaited = none := ha
      simp only [FrameBuffer.extract, if_pos hs]
  | payload ha hs =>
      obtain rfl : awaited = some _ := ha
      simp only [FrameBuffer.extract, takePayload, if_pos hs]

theorem Short.length_lt (h : b.Short) (hr : b.Regular) : b.length < max headerSize b.maximum := by
  cases h with
  | header _ hs => exact Nat.lt_of_lt_of_le hs (Nat.le_max_left ..)
  | payload ha hs => exact Nat.lt_of_lt_of_le hs (Nat.le_trans (hr _ ha).2 (Nat.le_max_right ..))

/-- What is held there is the beginning of a frame. -/
theorem Short.partial (h : b.Short) (hr : b.Regular) : Partial b.maximum b.held := by
  cases h with
  | header ha hs => exact .header (by rwa [held_of_awaited_none ha])
  | @payload size ha hs =>
      obtain ⟨hw, hl⟩ := hr size ha
      have hheld : b.held = Bytes.bigEndian headerSize size ++ b.bytes := by
        unfold held
        rw [ha]
      rw [hheld]
      exact .payload hw hl hs

/-- There the held bytes say what the buffer is like. -/
theorem Short.eq_of_held (h : b.Short) (h' : c.Short) (hr : b.Regular) (hr' : c.Regular) (hheld : b.held = c.held)
    (hm : b.maximum = c.maximum) : b = c := by
  obtain ⟨bytes, awaited, maximum⟩ := b
  obtain ⟨bytes', awaited', maximum'⟩ := c
  obtain rfl : maximum = maximum' := hm
  cases h with
  | header ha hs =>
      obtain rfl : awaited = none := ha
      cases h' with
      | header ha' _ =>
          obtain rfl : awaited' = none := ha'
          obtain rfl : bytes = bytes' := hheld
          rfl
      | payload ha' _ =>
          obtain rfl : awaited' = some _ := ha'
          -- one of them would hold more bytes than the other
          have hlong := congrArg List.length (show bytes = Bytes.bigEndian headerSize _ ++ bytes' from hheld)
          rw [List.length_append, Bytes.length_bigEndian] at hlong
          simp only at hs
          omega
  | payload ha hs =>
      obtain rfl : awaited = some _ := ha
      cases h' with
      | header ha' hs' =>
          obtain rfl : awaited' = none := ha'
          have hlong := congrArg List.length (show Bytes.bigEndian headerSize _ ++ bytes = bytes' from hheld)
          rw [List.length_append, Bytes.length_bigEndian] at hlong
          simp only at hs'
          omega
      | payload ha' _ =>
          obtain rfl : awaited' = some _ := ha'
          obtain ⟨rfl, rfl⟩ := Codec.header_inj (hr _ rfl).1 (hr' _ rfl).1 hheld
          rfl

/-! ## Pushes -/

/-- Payloads are extracted until more bytes are needed or the next header is above the maximum. -/
inductive Emptied : FrameBuffer → List Bytes → Option Error → FrameBuffer → Prop where
  | short {b c : FrameBuffer} (h : b.extract = .ok (none, c)) : Emptied b [] none c
  | refused {b : FrameBuffer} {e : Error} (h : b.extract = .error e) : Emptied b [] (some e) b
  | next {b c d : FrameBuffer} {payload : Bytes} {payloads : List Bytes} {failure : Option Error}
      (h : b.extract = .ok (some payload, c)) (hc : Emptied c payloads failure d) :
      Emptied b (payload :: payloads) failure d

/-- What a push answers: the payloads are lost if it fails. -/
def pushed (payloads : List Bytes) : Option Error → Except Error (List Bytes)
  | none => .ok payloads
  | some e => .error e

/-- Each payload takes its header along, so that few extractions are enough. -/
theorem emptied_extractAll {fuel : Nat} (h : b.Regular) (hfuel : b.held.length < 4 * fuel) (done : List Bytes) :
    ∃ payloads failure, Emptied b payloads failure (extractAll fuel done b).2 ∧
      (extractAll fuel done b).1 = pushed (done.reverse ++ payloads) failure := by
  induction fuel generalizing b done with
  | zero => simp at hfuel
  | succ fuel ih =>
      rw [extractAll]
      cases he : b.extract with
      | error e => exact ⟨[], some e, .refused he, rfl⟩
      | ok r =>
          obtain ⟨payload?, c⟩ := r
          cases payload? with
          | none => exact ⟨[], none, .short he, by simp [pushed]⟩
          | some payload =>
              have hheld := congrArg List.length (held_of_extract h he).1
              have hfuel' : c.held.length < 4 * fuel := by
                simp only [Frames.join, List.flatMap_cons, List.length_append, Bytes.length_bigEndian,
                  headerSize] at hheld
                omega
              obtain ⟨payloads, failure, hemptied, hanswer⟩ := ih (kept_of_extract h he).1 hfuel' (payload :: done)
              exact ⟨payload :: payloads, failure, .next he hemptied, by rw [hanswer]; simp⟩

theorem length_held_le (b : FrameBuffer) : b.held.length ≤ b.bytes.length + headerSize := by
  cases ha : b.awaited with
  | none => simp [held, ha]
  | some size => simp [held, ha, Nat.add_comm]

theorem emptied_push (h : b.Regular) (data : Bytes) :
    ∃ payloads failure, Emptied (b.extend data) payloads failure (b.push data).2 ∧
      (b.push data).1 = pushed payloads failure := by
  have hle := length_held_le (b.extend data)
  exact emptied_extractAll (regular_extend h data) (by simp only [headerSize] at hle; omega) []

namespace Emptied

theorem kept (h : Emptied b payloads failure c) (hb : b.Regular) : c.Regular ∧ c.maximum = b.maximum := by
  induction h with
  | short he => exact kept_of_extract hb he
  | refused _ => exact ⟨hb, rfl⟩
  | next he _ ih =>
      obtain ⟨hc, hm⟩ := kept_of_extract hb he
      exact ⟨(ih hc).1, (ih hc).2.trans hm⟩

/-- What has been held is the payloads, framed again, and what is held then. -/
theorem held_eq (h : Emptied b payloads failure c) (hb : b.Regular) :
    b.held = Frames.join payloads ++ c.held ∧
      ∀ payload ∈ payloads, payload.length < 256 ^ headerSize ∧ payload.length ≤ b.maximum := by
  induction h with
  | @short b c he =>
      have hextracted := extracted hb
      rw [he] at hextracted
      cases hextracted with
      | short _ hheld _ _ => exact ⟨hheld.symm, by simp⟩
  | refused _ => exact ⟨rfl, by simp⟩
  | @next b c d payload payloads failure he _ ih =>
      obtain ⟨hc, hm⟩ := kept_of_extract hb he
      obtain ⟨hheld, hw, hl⟩ := held_of_extract hb he
      obtain ⟨hheld', hall⟩ := ih hc
      refine ⟨?_, fun p hp => ?_⟩
      · rw [hheld, hheld', ← List.append_assoc, ← Frames.join_append]
        rfl
      · rcases List.mem_cons.1 hp with rfl | hp
        · exact ⟨hw, hl⟩
        · exact ⟨(hall p hp).1, hm ▸ (hall p hp).2⟩

/-- A push that does not fail leaves nothing to extract. -/
theorem short_of_none (h : Emptied b payloads none c) : c.Short := by
  generalize hf : (none : Option Error) = failure at h
  induction h with
  | short he => exact short_of_extract he
  | refused _ => cases hf
  | next _ _ ih => exact ih hf

end Emptied

/-! ## Operations -/

/-- What can be done with a buffer. -/
inductive Op where
  | extend (data : Bytes)
  /-- Bytes are read straight into those of the buffer. -/
  | fill (data : Bytes)
  | push (data : Bytes)
  | extract
  | clear

/-- What an operation answers. -/
inductive Answer where
  | done
  | payload (result : Except Error (Option Bytes))
  | payloads (result : Except Error (List Bytes))

/-- The answer to an operation, and the buffer after it. -/
def perform (b : FrameBuffer) : Op → Answer × FrameBuffer
  | .extend data => (.done, b.extend data)
  | .fill data => (.done, { b with bytes := b.bytes ++ data })
  | .push data => (.payloads (b.push data).1, (b.push data).2)
  | .extract =>
    match b.extract with
    | .ok (payload, c) => (.payload (.ok payload), c)
    | .error e => (.payload (.error e), b)
  | .clear => (.done, b.clear)

/-- The answers to operations, one after the other. -/
def answers (b : FrameBuffer) : List Op → List Answer
  | [] => []
  | op :: ops => (b.perform op).1 :: (b.perform op).2.answers ops

/-- A buffer, and what has been done with it since it was last cleared. -/
structure Session where
  buffer : FrameBuffer
  /-- All bytes that it has been given. -/
  appended : Bytes := []
  /-- All payloads that it has handed on. -/
  extracted : List Bytes := []
  /-- Whether a push has failed, so that payloads may have been lost. -/
  lossy : Bool := false

namespace Session

/-- A fresh buffer. -/
def start (maximum : Nat) : Session :=
  { buffer := .empty maximum }

/-- One more operation, with its answer. -/
def record (s : Session) (c : FrameBuffer) : Op → Answer → Session
  | .extend data, _ | .fill data, _ => { s with buffer := c, appended := s.appended ++ data }
  | .push data, .payloads (.ok payloads) =>
    { s with buffer := c, appended := s.appended ++ data, extracted := s.extracted ++ payloads }
  | .push data, _ => { s with buffer := c, appended := s.appended ++ data, lossy := true }
  | .extract, .payload (.ok payload) => { s with buffer := c, extracted := s.extracted ++ payload.toList }
  | .extract, _ => { s with buffer := c }
  | .clear, _ => { buffer := c }

def perform (s : Session) (op : Op) : Session :=
  s.record (s.buffer.perform op).2 op (s.buffer.perform op).1

def run (s : Session) (ops : List Op) : Session :=
  ops.foldl perform s

/-- What has been given is what has been handed on, framed again, and what is held. -/
structure Sound (maximum : Nat) (s : Session) : Prop where
  limited : s.buffer.maximum = maximum
  regular : s.buffer.Regular
  appended : s.lossy = false → s.appended = Frames.join s.extracted ++ s.buffer.held
  extracted : ∀ payload ∈ s.extracted, payload.length < 256 ^ headerSize ∧ payload.length ≤ maximum

variable {maximum : Nat} {s t : Session} {op : Op}

theorem sound_start (maximum : Nat) : (start maximum).Sound maximum where
  limited := rfl
  regular := regular_of_awaited_none rfl
  appended _ := rfl
  extracted := by simp [start]

theorem Sound.give (h : s.Sound maximum) (data : Bytes) :
    Sound maximum { s with buffer := s.buffer.extend data, appended := s.appended ++ data } where
  limited := h.limited
  regular := regular_extend h.regular data
  appended hl := by
    rw [held_extend, ← List.append_assoc, ← h.appended hl]
  extracted := h.extracted

theorem Sound.hand (h : s.Sound maximum) (he : Emptied s.buffer payloads failure c) :
    Sound maximum { s with buffer := c, extracted := s.extracted ++ payloads } where
  limited := (he.kept h.regular).2.trans h.limited
  regular := (he.kept h.regular).1
  appended hl := by
    rw [Frames.join_append, List.append_assoc, ← (he.held_eq h.regular).1]
    exact h.appended hl
  extracted payload hp := by
    rcases List.mem_append.1 hp with hp | hp
    · exact h.extracted payload hp
    · exact h.limited ▸ (he.held_eq h.regular).2 payload hp

theorem sound_perform (h : s.Sound maximum) (op : Op) : (s.perform op).Sound maximum := by
  cases op with
  | extend data | fill data => exact h.give data
  | push data =>
      obtain ⟨payloads, failure, hemptied, hanswer⟩ := emptied_push h.regular data
      have hgiven := (h.give data).hand hemptied
      unfold perform FrameBuffer.perform
      simp only [hanswer]
      cases failure with
      | none => exact hgiven
      -- a failure loses what has been taken out before it
      | some e => exact ⟨hgiven.limited, hgiven.regular, by simp [record, pushed], h.extracted⟩
  | extract =>
      unfold perform FrameBuffer.perform
      cases he : s.buffer.extract with
      | error e => exact h
      | ok r =>
          obtain ⟨payload?, c⟩ := r
          cases payload? with
          | none => exact h.hand (.short he)
          | some payload =>
              have hkept := kept_of_extract h.regular he
              obtain ⟨hheld, hfits⟩ := held_of_extract h.regular he
              refine ⟨hkept.2.trans h.limited, hkept.1, fun hl => ?_, fun p hp => ?_⟩
              · show s.appended = Frames.join (s.extracted ++ [payload]) ++ c.held
                rw [Frames.join_append, List.append_assoc, ← hheld]
                exact h.appended hl
              · rcases List.mem_append.1 hp with hp | hp
                · exact h.extracted p hp
                · obtain rfl := List.mem_singleton.1 hp
                  exact h.limited ▸ hfits
  | clear =>
      have hfresh := sound_start s.buffer.maximum
      exact h.limited ▸ hfresh

theorem sound_run (maximum : Nat) (ops : List Op) : ((start maximum).run ops).Sound maximum := by
  suffices h : ∀ s : Session, s.Sound maximum → (s.run ops).Sound maximum from h _ (sound_start maximum)
  induction ops with
  | nil => exact fun s hs => hs
  | cons op ops ih => exact fun s hs => ih (s.perform op) (sound_perform hs op)

end Session

/-! ## Buffers that hold the same bytes -/

/-- The buffers hold the same bytes.  One of them may have read a header that the other has not. -/
structure Alike (b c : FrameBuffer) : Prop where
  held : b.held = c.held
  maximum : b.maximum = c.maximum
  left : b.Regular
  right : c.Regular

namespace Alike

theorem extend (h : Alike b c) (data : Bytes) : Alike (b.extend data) (c.extend data) where
  held := by rw [held_extend, held_extend, h.held]
  maximum := h.maximum
  left := regular_extend h.left data
  right := regular_extend h.right data

/-- They answer an extraction in the same way. -/
theorem extract (h : Alike b c) :
    (∃ e, b.extract = .error e ∧ c.extract = .error e) ∨
    ∃ r b' c', b.extract = .ok (r, b') ∧ c.extract = .ok (r, c') ∧ Alike b' c' := by
  have hsame := extract_eq h.left
  rw [h.held, h.maximum, ← extract_eq h.right] at hsame
  cases hb : b.extract with
  | error e =>
      cases hc : c.extract with
      | error e' =>
          rw [hb, hc] at hsame
          obtain rfl := Except.error.inj hsame
          exact .inl ⟨e, rfl, rfl⟩
      | ok r => simp [hb, hc, Except.map] at hsame
  | ok r =>
      cases hc : c.extract with
      | error e => simp [hb, hc, Except.map] at hsame
      | ok r' =>
          obtain ⟨r, b'⟩ := r
          obtain ⟨r', c'⟩ := r'
          rw [hb, hc] at hsame
          obtain ⟨rfl, hheld⟩ := Prod.mk.inj (Except.ok.inj hsame)
          have hkept := kept_of_extract h.left hb
          have hkept' := kept_of_extract h.right hc
          exact .inr ⟨r, b', c', rfl, rfl, hheld, hkept.2.trans (h.maximum.trans hkept'.2.symm), hkept.1, hkept'.1⟩

/-- What one of them yields, so does the other. -/
theorem extract_ok {r : Option Bytes} {x : FrameBuffer} (h : Alike b c) (hb : b.extract = .ok (r, x)) :
    ∃ y, c.extract = .ok (r, y) ∧ Alike x y := by
  rcases h.extract with ⟨e, he, -⟩ | ⟨r', b', c', hb', hc', halike⟩
  · simp [hb] at he
  · obtain ⟨rfl, rfl⟩ := Prod.mk.inj (Except.ok.inj (hb.symm.trans hb'))
    exact ⟨c', hc', halike⟩

/-- They hand on the same payloads when they are emptied. -/
theorem emptied (h : Alike b c) (hb : Emptied b payloads failure b') (hc : Emptied c payloads' failure' c') :
    payloads = payloads' ∧ failure = failure' ∧ Alike b' c' := by
  -- both take the same turn each time
  induction hb generalizing c payloads' with
  | short he =>
      obtain ⟨y, hy, halike⟩ := h.extract_ok he
      cases hc with
      | short he' =>
          obtain ⟨-, rfl⟩ := Prod.mk.inj (Except.ok.inj (he'.symm.trans hy))
          exact ⟨rfl, rfl, halike⟩
      | refused he' | next he' _ => simp [hy] at he'
  | refused he =>
      rcases h.extract with ⟨e, he', hc'⟩ | ⟨r, x, y, hx, -, -⟩
      · obtain rfl := Except.error.inj (he.symm.trans he')
        cases hc with
        | refused hc'' =>
            obtain rfl := Except.error.inj (hc''.symm.trans hc')
            exact ⟨rfl, rfl, h⟩
        | short hc'' | next hc'' _ => simp [hc'] at hc''
      · simp [he] at hx
  | next he _ ih =>
      obtain ⟨y, hy, halike⟩ := h.extract_ok he
      cases hc with
      | next he' hrest =>
          obtain ⟨hpayload, rfl⟩ := Prod.mk.inj (Except.ok.inj (he'.symm.trans hy))
          obtain ⟨rfl, rfl, hend⟩ := ih halike hrest
          exact ⟨by rw [Option.some.inj hpayload], rfl, hend⟩
      | short he' | refused he' => simp [hy] at he'

/-- They answer every operation in the same way, and go on to be alike. -/
theorem perform (h : Alike b c) (op : Op) :
    (b.perform op).1 = (c.perform op).1 ∧ Alike (b.perform op).2 (c.perform op).2 := by
  cases op with
  | extend data | fill data => exact ⟨rfl, h.extend data⟩
  | push data =>
      obtain ⟨payloads, failure, hemptied, hanswer⟩ := emptied_push h.left data
      obtain ⟨payloads', failure', hemptied', hanswer'⟩ := emptied_push h.right data
      obtain ⟨rfl, rfl, halike⟩ := (h.extend data).emptied hemptied hemptied'
      exact ⟨congrArg Answer.payloads (hanswer.trans hanswer'.symm), halike⟩
  | extract =>
      unfold FrameBuffer.perform
      rcases h.extract with ⟨e, he, he'⟩ | ⟨r, x, y, hx, hy, halike⟩
      · rw [he, he']
        exact ⟨rfl, h⟩
      · rw [hx, hy]
        exact ⟨rfl, halike⟩
  | clear =>
      unfold FrameBuffer.perform clear
      rw [h.maximum]
      exact ⟨rfl, rfl, rfl, regular_of_awaited_none rfl, regular_of_awaited_none rfl⟩

theorem answers_eq (h : Alike b c) (ops : List Op) : b.answers ops = c.answers ops := by
  induction ops generalizing b c with
  | nil => rfl
  | cons op ops ih =>
      obtain ⟨hanswer, halike⟩ := h.perform op
      rw [answers, answers, hanswer, ih halike]

end Alike

/-! ## Streams -/

namespace Session

variable {maximum : Nat} {s t : Session} {S : Bytes}

/-- The payloads that have been handed on are the first frames of what has been given. -/
theorem Sound.parse_appended (h : s.Sound maximum) (hl : s.lossy = false) {m : Nat}
    (hm : min maximum (256 ^ headerSize) ≤ m) :
    Frames.parse m s.appended =
      (s.extracted ++ (Frames.parse m s.buffer.held).1, (Frames.parse m s.buffer.held).2) := by
  rw [h.appended hl]
  refine Frames.parse_join (fun p hp => ?_) _
  obtain ⟨hw, hfits⟩ := h.extracted p hp
  exact ⟨hw, Nat.le_trans (Nat.le_min.2 ⟨hfits, Nat.le_of_lt hw⟩) hm⟩

/-- Where nothing more can be extracted, they are all of them. -/
theorem Sound.parse_of_short (h : s.Sound maximum) (hl : s.lossy = false) {m : Nat}
    (hm : min maximum (256 ^ headerSize) ≤ m) (he : s.buffer.extract = .ok (none, c)) :
    Frames.parse m s.appended = (s.extracted, c.held) := by
  have hextracted := FrameBuffer.extracted h.regular
  rw [he] at hextracted
  cases hextracted with
  | short hs hheld _ _ =>
      have hpartial := Frames.parse_partial ((h.limited ▸ hs).mono hm)
      rw [h.parse_appended hl hm, hpartial.1, List.append_nil, hheld]

/-- A buffer that needs more bytes is inside a frame unless what it has been given ends with one. -/
theorem Sound.isMidFrame_iff (h : s.Sound maximum) (hl : s.lossy = false) (he : s.buffer.extract = .ok (none, c)) :
    c.isMidFrame = true ↔ ¬ Frames.Whole s.appended := by
  have hparse := h.parse_of_short hl (Nat.min_le_right ..) he
  rw [isMidFrame_eq, Bool.not_eq_true', List.isEmpty_eq_false_iff]
  refine not_congr ⟨?_, ?_⟩
  · intro hnil
    refine ⟨s.extracted, fun p hp => (h.extracted p hp).1, ?_⟩
    rw [← (Frames.append_parse (256 ^ headerSize) s.appended).1, hparse, hnil, List.append_nil]
    rfl
  · intro hwhole
    obtain ⟨payloads, hwhole⟩ := Frames.parse_of_whole hwhole
    exact (Prod.mk.inj (hparse.symm.trans hwhole)).2

/-- Two buffers that have been given the same bytes and have handed on as many payloads hold the same bytes. -/
theorem Sound.alike (hs : s.Sound maximum) (ht : t.Sound maximum) (hl : s.lossy = false) (hl' : t.lossy = false)
    (happended : t.appended = s.appended) (hlength : t.extracted.length = s.extracted.length) :
    t.extracted = s.extracted ∧ Alike t.buffer s.buffer := by
  -- both are what the parse cuts off first
  have hparse := hs.parse_appended hl (Nat.min_le_left ..)
  have hparse' := ht.parse_appended hl' (Nat.min_le_left ..)
  rw [happended, hparse] at hparse'
  have hextracted := (List.append_inj (Prod.mk.inj hparse').1 hlength.symm).1.symm
  refine ⟨hextracted, ?_, ht.limited.trans hs.limited.symm, ht.regular, hs.regular⟩
  have hsame := (ht.appended hl').symm.trans (happended.trans (hs.appended hl))
  rw [hextracted] at hsame
  exact List.append_cancel_left hsame

end Session

/-- Whatever is done with a buffer of frames since it was last cleared, as long as no push fails:

- The payloads that it has handed on are the first ones of a parse of all bytes that it has been given, and none is
  above the maximum.
- These bytes are the payloads, framed again, the header that has been read for the next one, and the buffered bytes.
- An extraction that needs more bytes leaves fewer of them than a header or the maximum takes, and the buffer is inside
  a frame unless the bytes end with one; a push always leaves nothing to extract.
- How the bytes came does not matter.  Of two buffers that have been given the same bytes, those that have handed on as
  many payloads have handed on the same and answer all further operations in the same way, and so have those that need
  more bytes, which are the same buffers then. -/
theorem extraction_of_operations (maximum : Nat) (ops : List Op) (s : Session)
    (hrun : (Session.start maximum).run ops = s)
    (hl : s.lossy = false) :
    s.extracted <+: (Frames.parse (256 ^ headerSize) s.appended).1 ∧
    (∀ payload ∈ s.extracted, payload.length ≤ maximum) ∧
    s.appended =
      Frames.join s.extracted ++ (s.buffer.awaited.elim [] (Bytes.bigEndian headerSize) ++ s.buffer.bytes) ∧
    (∀ c, s.buffer.extract = .ok (none, c) →
      c.length < max headerSize maximum ∧ (c.isMidFrame = true ↔ ¬ Frames.Whole s.appended)) ∧
    (∀ data payloads c, s.buffer.push data = (.ok payloads, c) → c.extract = .ok (none, c)) ∧
    (∀ ops' t, (Session.start maximum).run ops' = t → t.lossy = false → t.appended = s.appended →
      (t.extracted.length = s.extracted.length →
        t.extracted = s.extracted ∧ ∀ more, t.buffer.answers more = s.buffer.answers more) ∧
      (∀ c d, s.buffer.extract = .ok (none, c) → t.buffer.extract = .ok (none, d) →
        t.extracted = s.extracted ∧ d = c)) := by
  have hs : s.Sound maximum := hrun ▸ Session.sound_run maximum ops
  have hfits : ∀ payload ∈ s.extracted, payload.length < 256 ^ headerSize ∧ payload.length ≤ maximum := hs.extracted
  refine ⟨?_, fun p hp => (hfits p hp).2, ?_, fun c he => ?_, fun data payloads c hpush => ?_,
    fun ops' t hrun' hl' happended => ?_⟩
  · rw [hs.appended hl, Frames.parse_join fun p hp => ⟨(hfits p hp).1, Nat.le_of_lt (hfits p hp).1⟩]
    exact List.prefix_append ..
  · rw [hs.appended hl]
    cases ha : s.buffer.awaited <;> simp [held, ha]
  · obtain ⟨hc, hm⟩ := kept_of_extract hs.regular he
    have hshort := short_of_extract he
    exact ⟨(hm.trans hs.limited) ▸ hshort.length_lt hc, hs.isMidFrame_iff hl he⟩
  · obtain ⟨payloads', failure, hemptied, hanswer⟩ := emptied_push hs.regular data
    rw [hpush] at hemptied hanswer
    cases failure with
    | some e => simp [pushed] at hanswer
    | none => exact hemptied.short_of_none.extract
  · have ht : t.Sound maximum := hrun' ▸ Session.sound_run maximum ops'
    refine ⟨fun hlength => ?_, fun c d hc hd => ?_⟩
    · obtain ⟨hextracted, halike⟩ := hs.alike ht hl hl' happended hlength
      exact ⟨hextracted, halike.answers_eq⟩
    · have hparse := hs.parse_of_short hl (Nat.min_le_left ..) hc
      rw [← happended, ht.parse_of_short hl' (Nat.min_le_left ..) hd] at hparse
      obtain ⟨hextracted, hheld⟩ := Prod.mk.inj hparse
      obtain ⟨hkept, hm⟩ := kept_of_extract hs.regular hc
      obtain ⟨hkept', hm'⟩ := kept_of_extract ht.regular hd
      have hmaximum : d.maximum = c.maximum := by rw [hm, hm', hs.limited, ht.limited]
      exact ⟨hextracted, (short_of_extract hd).eq_of_held (short_of_extract hc) hkept' hkept hheld hmaximum⟩

/-- A push fails, the buffer is cleared, and then two frames and a part of the third come in pieces that end
anywhere. -/
def cutFrames : List Op :=
  [.push [0, 0, 0, 9], .clear, .extend [0, 0], .fill [0, 2, 65], .extract, .push [66, 0], .fill [0, 0, 0, 0], .extract,
    .extend [0, 0, 3, 67], .extract, .extend [68]]

theorem extraction_of_cut_frames :
    ∃ s t c, (Session.start 6).run cutFrames = s ∧ s.lossy = false ∧
      (Session.start 6).run [.push [0, 0, 0, 2, 65, 66, 0, 0, 0, 0, 0, 0, 0, 3, 67, 68]] = t ∧ t.lossy = false ∧
      s.buffer.extract = .ok (none, c) ∧ c.length < max headerSize 6 ∧ t.extracted = s.extracted ∧ t.buffer = c ∧
      s.extracted = [[65, 66], []] := by
  obtain ⟨s, hs⟩ : ∃ s, (Session.start 6).run cutFrames = s := ⟨_, rfl⟩
  obtain ⟨t, ht⟩ :
      ∃ t, (Session.start 6).run [.push [0, 0, 0, 2, 65, 66, 0, 0, 0, 0, 0, 0, 0, 3, 67, 68]] = t := ⟨_, rfl⟩
  have hl : s.lossy = false := by rw [← hs]; rfl
  have hl' : t.lossy = false := by rw [← ht]; rfl
  obtain ⟨-, -, -, hshort, -, hcut⟩ := extraction_of_operations 6 cutFrames s hs hl
  obtain ⟨c, hc⟩ : ∃ c, s.buffer.extract = .ok (none, c) := by rw [← hs]; exact ⟨_, rfl⟩
  have hd : t.buffer.extract = .ok (none, t.buffer) := by rw [← ht]; rfl
  obtain ⟨hextracted, hbuffer⟩ := (hcut _ t ht hl' (by rw [← hs, ← ht]; rfl)).2 c t.buffer hc hd
  exact ⟨s, t, c, hs, hl, ht, hl', hc, (hshort c hc).1, hextracted, hbuffer, by rw [← hs]; rfl⟩

end FrameBuffer
end Courier
