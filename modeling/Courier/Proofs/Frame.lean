import Courier.Frame.Receiver
import Courier.Proofs.Bytes

/-!
# Frame — payloads out of a byte stream

A buffer that waits for a payload has read the length in front of it and dropped the header.  What it has been given and
has not handed on is therefore its bytes behind that header.

1. `FrameBuffer.Extracted` lists what taking the next payload comes to, and `FrameBuffer.extracted` shows that it comes
   to nothing else,
2. `Frames.parse` cuts a stream at its lengths, said without any buffer,
3. `Frames.answer` is what the calls of a receiver come to on a whole stream.
-/

namespace Courier

/-! ## Taking a payload -/

namespace FrameBuffer

variable {b : FrameBuffer} {size : Nat} {S : Bytes}

/-- The bytes that have been added and are not part of a payload taken out. -/
def held (b : FrameBuffer) : Bytes :=
  match b.awaited with
  | none => b.bytes
  | some size => Bytes.bigEndian headerSize size ++ b.bytes

/-- The length of an awaited payload has stood in a header and is accepted. -/
def Regular (b : FrameBuffer) : Prop :=
  ∀ size, b.awaited = some size → size < 256 ^ headerSize ∧ size ≤ b.maximum

/-- The beginning of a frame without its end. -/
inductive Partial (maximum : Nat) : Bytes → Prop where
  | header {S : Bytes} (hs : S.length < headerSize) : Partial maximum S
  | payload {size : Nat} {part : Bytes} (hw : size < 256 ^ headerSize) (hl : size ≤ maximum)
      (hs : part.length < size) : Partial maximum (Bytes.bigEndian headerSize size ++ part)

/-- What taking the next payload comes to. -/
inductive Extracted (b : FrameBuffer) : Except Error (Option Bytes × FrameBuffer) → Prop where
  | taken {payload : Bytes} {c : FrameBuffer} (hw : payload.length < 256 ^ headerSize)
      (hl : payload.length ≤ b.maximum)
      (hheld : b.held = Bytes.bigEndian headerSize payload.length ++ payload ++ c.bytes)
      (hc : c.awaited = none) (hm : c.maximum = b.maximum) : Extracted b (.ok (some payload, c))
  /-- The header may have been read. -/
  | short {c : FrameBuffer} (hs : Partial b.maximum b.held) (hheld : c.held = b.held) (hc : c.Regular)
      (hm : c.maximum = b.maximum) : Extracted b (.ok (none, c))
  | refused {size : Nat} {rest : Bytes} (hw : size < 256 ^ headerSize) (hl : b.maximum < size)
      (hheld : b.held = Bytes.bigEndian headerSize size ++ rest) :
      Extracted b (.error (.protocol (.payloadTooLarge size b.maximum)))

theorem held_of_awaited_none (h : b.awaited = none) : b.held = b.bytes := by
  unfold held
  rw [h]

theorem regular_of_awaited_none (h : b.awaited = none) : b.Regular := by
  intro size hs
  simp [h] at hs

theorem held_extend (b : FrameBuffer) (data : Bytes) : (b.extend data).held = b.held ++ data := by
  cases ha : b.awaited <;> simp [held, extend, ha]

/-- A stream ends inside a frame exactly if something is held. -/
theorem isMidFrame_eq (b : FrameBuffer) : b.isMidFrame = !b.held.isEmpty := by
  cases ha : b.awaited with
  | none => simp [isMidFrame, held, ha]
  | some size => simp [isMidFrame, held, ha, headerSize, Bytes.bigEndian]

/-- The first four bytes of a stream are the header of what they say. -/
theorem header_split (h : headerSize ≤ S.length) :
    S = Bytes.bigEndian headerSize (Bytes.toNat (S.take headerSize)) ++ S.drop headerSize ∧
      Bytes.toNat (S.take headerSize) < 256 ^ headerSize := by
  have hlength : (S.take headerSize).length = headerSize := by
    rw [List.length_take]
    omega
  have hheader := Bytes.bigEndian_toNat (S.take headerSize)
  have hlt := Bytes.toNat_lt (S.take headerSize)
  rw [hlength] at hheader hlt
  refine ⟨?_, hlt⟩
  rw [hheader, List.take_append_drop]

/-- Behind its header, a payload is there or it is not. -/
theorem extracted_takePayload {c : FrameBuffer} (hw : size < 256 ^ headerSize) (hl : size ≤ b.maximum)
    (hheld : b.held = Bytes.bigEndian headerSize size ++ c.bytes) (hm : c.maximum = b.maximum) :
    Extracted b (.ok (c.takePayload size)) := by
  unfold takePayload
  by_cases hs : c.bytes.length < size
  · -- The header has been read, and it goes on counting as held.
    rw [if_pos hs]
    refine .short ?_ hheld.symm ?_ hm
    · rw [hheld]
      exact .payload hw hl hs
    · intro n hn
      obtain rfl := Option.some.inj hn
      exact ⟨hw, by rw [hm]; exact hl⟩
  · rw [if_neg hs]
    have hlength : (c.bytes.take size).length = size := by
      rw [List.length_take]
      omega
    refine .taken (by rwa [hlength]) (by rwa [hlength]) ?_ rfl hm
    rw [hlength, hheld, List.append_assoc, List.take_append_drop]

/-- Taking a payload comes to one of the listed outcomes. -/
theorem extracted (h : b.Regular) : Extracted b b.extract := by
  cases ha : b.awaited with
  | some size =>
      obtain ⟨hw, hl⟩ := h size ha
      have hextract : b.extract = .ok (b.takePayload size) := by
        unfold extract
        rw [ha]
      rw [hextract]
      exact extracted_takePayload hw hl (by unfold held; rw [ha]) rfl
  | none =>
      have hheld := held_of_awaited_none ha
      by_cases hshort : b.bytes.length < headerSize
      · have hextract : b.extract = .ok (none, b) := by
          simp only [extract, ha, if_pos hshort]
        rw [hextract]
        exact .short (.header (by rwa [hheld])) rfl h rfl
      · -- The header is there, and it is what the four bytes in front say.
        obtain ⟨hsplit, hw⟩ := header_split (Nat.le_of_not_lt hshort)
        generalize hsize : Bytes.toNat (b.bytes.take headerSize) = size at hsplit hw
        by_cases hlarge : b.maximum < size
        · have hextract : b.extract = .error (.protocol (.payloadTooLarge size b.maximum)) := by
            simp only [extract, ha, if_neg hshort, hsize, if_pos hlarge]
          rw [hextract]
          exact .refused hw hlarge (hheld.trans hsplit)
        · have hextract : b.extract =
              .ok (takePayload { b with bytes := b.bytes.drop headerSize } size) := by
            simp only [extract, ha, if_neg hshort, hsize, if_neg hlarge]
          rw [hextract]
          exact extracted_takePayload hw (Nat.le_of_not_lt hlarge) (hheld.trans hsplit) rfl

end FrameBuffer

/-- At the end of the stream, whatever is held is cut off. -/
theorem FrameReceiver.atEnd_eq (r : FrameReceiver) :
    r.atEnd = (if r.buffer.held.isEmpty then .connectionClosed else .protocol .endedInFrame, r) := by
  unfold atEnd
  rw [FrameBuffer.isMidFrame_eq]
  cases r.buffer.held.isEmpty <;> rfl

/-! ## Cutting a stream -/

namespace Frames

variable {maximum size : Nat} {payload part rest S : Bytes}

/-- The payloads of a stream, cut off one by one at their lengths, and what is left behind the last that is whole
and not above the maximum. -/
def parse (maximum : Nat) (S : Bytes) : List Bytes × Bytes :=
  let size := Bytes.toNat (S.take headerSize)
  let body := S.drop headerSize
  if S.length < headerSize ∨ maximum < size ∨ body.length < size then ([], S)
  else
    let (payloads, rest) := parse maximum (body.drop size)
    (body.take size :: payloads, rest)
termination_by S.length
decreasing_by
  simp only [List.length_drop, headerSize] at *
  omega

/-- What every call behind the last payload comes to: a length above the maximum stays where it is, a frame that is cut
off is cut off for good, and a stream that ends with a frame has ended. -/
def ending (maximum : Nat) (rest : Bytes) : Error :=
  let size := Bytes.toNat (rest.take headerSize)
  if rest = [] then .connectionClosed
  else if headerSize ≤ rest.length ∧ maximum < size then .protocol (.payloadTooLarge size maximum)
  else .protocol .endedInFrame

/-- The `k`-th of the calls on a stream comes to the decoding of the `k`-th payload and nothing else. -/
def answer (maximum : Nat) (S : Bytes) (k : Nat) : Except Error Message :=
  match (parse maximum S).1[k]? with
  | some payload => (MsgPack.readMessage payload).mapError .pack
  | none => .error (ending maximum (parse maximum S).2)

theorem take_header (size : Nat) (S : Bytes) :
    (Bytes.bigEndian headerSize size ++ S).take headerSize = Bytes.bigEndian headerSize size :=
  List.take_left' (Bytes.length_bigEndian _ _)

theorem drop_header (size : Nat) (S : Bytes) : (Bytes.bigEndian headerSize size ++ S).drop headerSize = S :=
  List.drop_left' (Bytes.length_bigEndian _ _)

theorem header_append_ne_nil (size : Nat) (S : Bytes) : Bytes.bigEndian headerSize size ++ S ≠ [] := by
  simp [Bytes.bigEndian, headerSize]

theorem not_length_lt_header (size : Nat) (S : Bytes) :
    ¬ (Bytes.bigEndian headerSize size ++ S).length < headerSize := by
  rw [List.length_append, Bytes.length_bigEndian]
  omega

/-- A whole frame in front is cut off. -/
theorem parse_frame (hw : payload.length < 256 ^ headerSize) (hl : payload.length ≤ maximum) (S : Bytes) :
    parse maximum (Bytes.bigEndian headerSize payload.length ++ payload ++ S) =
      (payload :: (parse maximum S).1, (parse maximum S).2) := by
  rw [List.append_assoc, parse]
  simp only [take_header, drop_header, Bytes.toNat_bigEndian hw]
  have hwhole : ¬ (payload ++ S).length < payload.length := by
    rw [List.length_append]
    omega
  rw [if_neg (not_or.2 ⟨not_length_lt_header _ _, not_or.2 ⟨Nat.not_lt.2 hl, hwhole⟩⟩), List.take_left,
    List.drop_left]

/-- Behind a length above the maximum nothing is cut off. -/
theorem parse_large (hw : size < 256 ^ headerSize) (hl : maximum < size) (S : Bytes) :
    parse maximum (Bytes.bigEndian headerSize size ++ S) = ([], Bytes.bigEndian headerSize size ++ S) ∧
      ending maximum (Bytes.bigEndian headerSize size ++ S) = .protocol (.payloadTooLarge size maximum) := by
  refine ⟨?_, ?_⟩
  · rw [parse]
    simp only [take_header, Bytes.toNat_bigEndian hw]
    rw [if_pos (.inr (.inl hl))]
  · simp only [ending, take_header, Bytes.toNat_bigEndian hw]
    rw [if_neg (header_append_ne_nil size S), if_pos ⟨Nat.not_lt.1 (not_length_lt_header _ _), hl⟩]

/-- Nothing is cut off the beginning of a frame. -/
theorem parse_partial (h : FrameBuffer.Partial maximum S) :
    parse maximum S = ([], S) ∧
      ending maximum S = if S.isEmpty then .connectionClosed else .protocol .endedInFrame := by
  cases h with
  | header hs =>
      refine ⟨?_, ?_⟩
      · rw [parse]
        exact if_pos (.inl hs)
      · cases S with
        | nil => rfl
        | cons b S =>
            simp only [ending]
            rw [if_neg (List.cons_ne_nil b S), if_neg fun hlarge => Nat.not_lt.2 hlarge.1 hs]
            rfl
  | @payload size part hw hl hs =>
      have hne := header_append_ne_nil size part
      refine ⟨?_, ?_⟩
      · rw [parse]
        simp only [take_header, drop_header, Bytes.toNat_bigEndian hw]
        rw [if_pos (.inr (.inr hs))]
      · simp only [ending, take_header, Bytes.toNat_bigEndian hw]
        rw [if_neg hne, if_neg fun hlarge => Nat.not_lt.2 hl hlarge.2]
        simp [hne]

/-- Framed again, the payloads of a stream and what is left behind them are the stream. -/
theorem append_parse (maximum : Nat) (S : Bytes) :
    ((parse maximum S).1.flatMap fun payload => Bytes.bigEndian headerSize payload.length ++ payload) ++
        (parse maximum S).2 = S ∧
      ∀ payload ∈ (parse maximum S).1, payload.length ≤ maximum := by
  fun_induction parse maximum S with
  | case1 S size body hstop => exact ⟨rfl, by simp⟩
  | case2 S size body hwhole payloads rest hparse ih =>
      obtain ⟨hheader, hfits, hbody⟩ : headerSize ≤ S.length ∧ size ≤ maximum ∧ size ≤ body.length := by
        simpa only [not_or, Nat.not_lt] using hwhole
      have hlength : (body.take size).length = size := by
        rw [List.length_take]
        omega
      rw [hparse] at ih
      refine ⟨?_, ?_⟩
      · calc _ = Bytes.bigEndian headerSize size ++ (body.take size ++ (payloads.flatMap (fun payload =>
                Bytes.bigEndian headerSize payload.length ++ payload) ++ rest)) := by
              simp [List.flatMap_cons, hlength]
          _ = Bytes.bigEndian headerSize size ++ body := by rw [ih.1, List.take_append_drop]
          _ = S := (FrameBuffer.header_split hheader).1.symm
      · intro payload hmem
        rcases List.mem_cons.1 hmem with rfl | hmem
        · rwa [hlength]
        · exact ih.2 payload hmem

/-! ## What the calls of a receiver come to -/

/-- The first call on a stream takes the payload in front, and the others go on behind it. -/
theorem answer_frame (hw : payload.length < 256 ^ headerSize) (hl : payload.length ≤ maximum) (S : Bytes) :
    let framed := Bytes.bigEndian headerSize payload.length ++ payload ++ S
    answer maximum framed 0 = (MsgPack.readMessage payload).mapError .pack ∧
      ∀ k, answer maximum framed (k + 1) = answer maximum S k := by
  refine ⟨?_, fun k => ?_⟩
  · simp only [answer, parse_frame hw hl, List.getElem?_cons_zero]
  · simp only [answer, parse_frame hw hl, List.getElem?_cons_succ]

theorem answer_large (hw : size < 256 ^ headerSize) (hl : maximum < size) (S : Bytes) (k : Nat) :
    answer maximum (Bytes.bigEndian headerSize size ++ S) k = .error (.protocol (.payloadTooLarge size maximum)) := by
  obtain ⟨hparse, hending⟩ := parse_large hw hl S
  simp only [answer, hparse, List.getElem?_nil, hending]

theorem answer_partial (h : FrameBuffer.Partial maximum S) (k : Nat) :
    answer maximum S k = .error (if S.isEmpty then .connectionClosed else .protocol .endedInFrame) := by
  obtain ⟨hparse, hending⟩ := parse_partial h
  simp only [answer, hparse, List.getElem?_nil, hending]

end Frames
end Courier
