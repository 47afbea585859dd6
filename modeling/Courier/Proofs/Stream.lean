import Courier.Codec
import Courier.Proofs.Bytes

/-!
# Stream — what a byte stream carries

A stream is read as a sequence of lines or frames, said here without any receiver.

1. `Codec.Unit` — a line or frame that is accepted, with the message it carries,
2. `Codec.Fault` — a rest of the stream that begins with a line or frame that is not,
3. `Codec.Carries` — a part of the stream that is made of accepted units,
4. `Codec.Reads` — a whole stream, with its messages and the error that its reading ends with.

A stream can be read in one way only (`Codec.Reads.unique`).
-/

namespace Courier
namespace Codec

/-! ## Units and faults -/

/-- The bytes of one accepted line or frame, with the message in it.  A blank line carries none. -/
inductive Unit : Codec → Bytes → Option Message → Prop where
  | blankLine {maximum : UInt64} {line : Bytes} (hn : 10 ∉ line)
      (hl : line.length ≤ maximum.toNat)
      (hb : (LineReceiver.content line.reverse).all LineReceiver.isBlank = true) :
      Unit (.lines maximum) (line ++ [10]) none
  | line {maximum : UInt64} {line : Bytes} {m : Message} (hn : 10 ∉ line)
      (hl : line.length ≤ maximum.toNat)
      (hb : (LineReceiver.content line.reverse).all LineReceiver.isBlank = false)
      (hm : Json.readMessage (LineReceiver.content line.reverse) = .ok m) :
      Unit (.lines maximum) (line ++ [10]) (some m)
  | frame {maximum : Nat} {payload : Bytes} {m : Message} (hw : payload.length < 256 ^ headerSize)
      (hl : payload.length ≤ maximum) (hm : MsgPack.readMessage payload = .ok m) :
      Unit (.frames maximum) (Bytes.bigEndian headerSize payload.length ++ payload) (some m)

/-- What is left of a stream at its first line or frame that cannot be decoded, is too large, or is cut off by
the end of the stream. -/
inductive Fault : Codec → Bytes → Error → Prop where
  | badLine {maximum : UInt64} {line : Bytes} {f : Json.Fault} (rest : Bytes) (hn : 10 ∉ line)
      (hl : line.length ≤ maximum.toNat)
      (hb : (LineReceiver.content line.reverse).all LineReceiver.isBlank = false)
      (hf : Json.readMessage (LineReceiver.content line.reverse) = .error f) :
      Fault (.lines maximum) (line ++ 10 :: rest) (.json f)
  | longLine {maximum : UInt64} {line : Bytes} (rest : Bytes) (hn : 10 ∉ line)
      (hl : line.length = maximum.toNat + 1) :
      Fault (.lines maximum) (line ++ rest) (.protocol (.lineTooLong maximum.toNat))
  | cutLine {maximum : UInt64} {line : Bytes} (hn : 10 ∉ line) (hl : line.length ≤ maximum.toNat)
      (hp : line ≠ []) :
      Fault (.lines maximum) line (.protocol .endedInLine)
  | badFrame {maximum : Nat} {payload : Bytes} {f : MsgPack.Fault} (rest : Bytes)
      (hw : payload.length < 256 ^ headerSize) (hl : payload.length ≤ maximum)
      (hf : MsgPack.readMessage payload = .error f) :
      Fault (.frames maximum) (Bytes.bigEndian headerSize payload.length ++ payload ++ rest) (.pack f)
  | largeFrame {maximum size : Nat} (rest : Bytes) (hw : size < 256 ^ headerSize)
      (hl : maximum < size) :
      Fault (.frames maximum) (Bytes.bigEndian headerSize size ++ rest)
        (.protocol (.payloadTooLarge size maximum))
  | cutHeader {maximum : Nat} {part : Bytes} (hp : part ≠ []) (hs : part.length < headerSize) :
      Fault (.frames maximum) part (.protocol .endedInFrame)
  | cutFrame {maximum size : Nat} {part : Bytes} (hw : size < 256 ^ headerSize)
      (hl : size ≤ maximum) (hs : part.length < size) :
      Fault (.frames maximum) (Bytes.bigEndian headerSize size ++ part) (.protocol .endedInFrame)

variable {c : Codec} {u u' x x' y y' S : Bytes} {m m' : Option Message} {e e' : Error}

theorem Fault.isGraceful (h : c.Fault S e) : e.isGraceful = false := by
  cases h <;> rfl

theorem Fault.ne_nil (h : c.Fault S e) : S ≠ [] := by
  cases h with
  | badLine _ _ _ _ _ => simp
  | longLine _ _ hl =>
      intro hnil
      simp [(List.append_eq_nil_iff.1 hnil).1] at hl
  | cutLine _ _ hp => exact hp
  | badFrame _ _ _ _ => simp [Bytes.bigEndian, headerSize]
  | largeFrame _ _ _ => simp [Bytes.bigEndian, headerSize]
  | cutHeader hp _ => exact hp
  | cutFrame _ _ _ => simp [Bytes.bigEndian, headerSize]

theorem Unit.ne_nil (h : c.Unit u m) : u ≠ [] := by
  cases h with
  | blankLine _ _ _ => simp
  | line _ _ _ _ => simp
  | frame _ _ _ => simp [Bytes.bigEndian, headerSize]

/-! ## One reading only -/

/-- The sizes in two headers at the front of one stream agree. -/
theorem header_inj {n n' : Nat} (h : n < 256 ^ headerSize) (h' : n' < 256 ^ headerSize)
    (he : Bytes.bigEndian headerSize n ++ x = Bytes.bigEndian headerSize n' ++ x') :
    n = n' ∧ x = x' := by
  obtain ⟨hheader, hrest⟩ := List.append_inj he (by simp)
  refine ⟨?_, hrest⟩
  rw [← Bytes.toNat_bigEndian h, hheader, Bytes.toNat_bigEndian h']

/-- The payloads in two frames at the front of one stream agree. -/
theorem frame_inj {p p' : Bytes} (h : p.length < 256 ^ headerSize) (h' : p'.length < 256 ^ headerSize)
    (he : Bytes.bigEndian headerSize p.length ++ p ++ x =
      Bytes.bigEndian headerSize p'.length ++ p' ++ x') : p = p' ∧ x = x' := by
  rw [List.append_assoc, List.append_assoc] at he
  obtain ⟨hn, hrest⟩ := header_inj h h' he
  exact List.append_inj hrest hn

/-- A long stretch without a newline does not end in one before. -/
theorem newline_mem {line line' rest rest' : Bytes} (hl : line'.length < line.length)
    (he : line ++ rest = line' ++ 10 :: rest') : 10 ∈ line := by
  have htake : (line' ++ [10]) = line.take (line'.length + 1) := by
    calc line' ++ [10] = (line' ++ 10 :: rest').take (line'.length + 1) := by
          simp [List.take_append, List.take_of_length_le]
      _ = (line ++ rest).take (line'.length + 1) := by rw [he]
      _ = line.take (line'.length + 1) := List.take_append_of_le_length hl
  exact List.mem_of_mem_take (i := line'.length + 1) (by rw [← htake]; simp)

theorem Unit.unique (h : c.Unit u m) (h' : c.Unit u' m') (he : u ++ x = u' ++ x') :
    u = u' ∧ x = x' ∧ m = m' := by
  -- lines end at the first newline, frames where their header says
  cases h with
  | blankLine hn _ hb =>
      cases h' with
      | blankLine hn' _ _ =>
          obtain ⟨rfl, rfl⟩ := Bytes.append_newline_inj hn hn' (by simpa using he)
          exact ⟨rfl, rfl, rfl⟩
      | line hn' _ hb' _ =>
          obtain ⟨rfl, rfl⟩ := Bytes.append_newline_inj hn hn' (by simpa using he)
          simp [hb] at hb'
  | line hn _ hb hm =>
      cases h' with
      | blankLine hn' _ hb' =>
          obtain ⟨rfl, rfl⟩ := Bytes.append_newline_inj hn hn' (by simpa using he)
          simp [hb] at hb'
      | line hn' _ _ hm' =>
          obtain ⟨rfl, rfl⟩ := Bytes.append_newline_inj hn hn' (by simpa using he)
          rw [hm] at hm'
          exact ⟨rfl, rfl, congrArg some (Except.ok.inj hm')⟩
  | frame hw _ hm =>
      cases h' with
      | frame hw' _ hm' =>
          obtain ⟨rfl, rfl⟩ := frame_inj hw hw' he
          rw [hm] at hm'
          exact ⟨rfl, rfl, congrArg some (Except.ok.inj hm')⟩

/-- A stream that begins with a header is no shorter than one. -/
theorem headerSize_le {n : Nat} (he : S = Bytes.bigEndian headerSize n ++ x) : headerSize ≤ S.length := by
  rw [he, List.length_append, Bytes.length_bigEndian]
  exact Nat.le_add_right ..

namespace Fault

/-- A fault at the front of which a whole line stands lies in the document of the line. -/
theorem of_line {maximum : UInt64} {line rest : Bytes} (h : Fault (.lines maximum) S e) (hn : 10 ∉ line)
    (hl : line.length ≤ maximum.toNat) (he : S = line ++ 10 :: rest) :
    (LineReceiver.content line.reverse).all LineReceiver.isBlank = false ∧
      ∃ f, Json.readMessage (LineReceiver.content line.reverse) = .error f ∧ e = .json f := by
  cases h with
  | badLine rest' hn' _ hb hf =>
      obtain ⟨rfl, -⟩ := Bytes.append_newline_inj hn' hn he
      exact ⟨hb, _, hf, rfl⟩
  -- the newline stands too early for a line that is too long or cut off
  | longLine rest' hn' hl' => exact absurd (newline_mem (by omega) he) hn'
  | cutLine hn' _ _ => exact absurd (by simp [he]) hn'

/-- A fault that begins with more bytes than a line may have, none of them a newline, is the line's length. -/
theorem of_long {maximum : UInt64} {line rest : Bytes} (h : Fault (.lines maximum) S e) (hn : 10 ∉ line)
    (hl : line.length = maximum.toNat + 1) (he : S = line ++ rest) :
    e = .protocol (.lineTooLong maximum.toNat) := by
  cases h with
  | badLine rest' hn' hl' _ _ => exact absurd (newline_mem (by omega) he.symm) hn
  | longLine _ _ _ => rfl
  | cutLine _ hl' _ =>
      have hlength := congrArg List.length he
      rw [List.length_append] at hlength
      omega

/-- A fault at the front of which a whole frame stands lies in the payload. -/
theorem of_frame {maximum : Nat} {payload rest : Bytes} (h : Fault (.frames maximum) S e)
    (hw : payload.length < 256 ^ headerSize) (hl : payload.length ≤ maximum)
    (he : S = Bytes.bigEndian headerSize payload.length ++ payload ++ rest) :
    ∃ f, MsgPack.readMessage payload = .error f ∧ e = .pack f := by
  rw [List.append_assoc] at he
  cases h with
  | badFrame rest' hw' _ hf =>
      rw [← List.append_assoc] at he
      obtain ⟨rfl, -⟩ := frame_inj hw' hw he
      exact ⟨_, hf, rfl⟩
  | largeFrame rest' hw' hl' =>
      obtain ⟨rfl, -⟩ := header_inj hw' hw he
      omega
  | cutHeader _ hs => exact absurd (headerSize_le he) (Nat.not_le_of_lt hs)
  | cutFrame hw' _ hs =>
      obtain ⟨rfl, rfl⟩ := header_inj hw' hw he
      rw [List.length_append] at hs
      omega

/-- A fault that begins with the header of a large payload is the payload's size. -/
theorem of_large {maximum size : Nat} {rest : Bytes} (h : Fault (.frames maximum) S e)
    (hw : size < 256 ^ headerSize) (hl : maximum < size)
    (he : S = Bytes.bigEndian headerSize size ++ rest) :
    e = .protocol (.payloadTooLarge size maximum) := by
  cases h with
  | badFrame rest' hw' hl' _ =>
      rw [List.append_assoc] at he
      obtain ⟨rfl, -⟩ := header_inj hw' hw he
      omega
  | largeFrame rest' hw' _ =>
      obtain ⟨rfl, -⟩ := header_inj hw' hw he
      rfl
  | cutHeader _ hs => exact absurd (headerSize_le he) (Nat.not_le_of_lt hs)
  | cutFrame hw' hl' _ =>
      obtain ⟨rfl, -⟩ := header_inj hw' hw he
      omega

end Fault

/-- No stream begins with an accepted unit and a fault. -/
theorem Unit.not_fault (h : c.Unit u m) (hf : c.Fault S e) (he : u ++ x = S) : False := by
  cases h with
  | blankLine hn hl hb =>
      rw [List.append_assoc] at he
      obtain ⟨hb', -⟩ := hf.of_line hn hl he.symm
      simp [hb] at hb'
  | line hn hl _ hm =>
      rw [List.append_assoc] at he
      obtain ⟨-, f, hf', -⟩ := hf.of_line hn hl he.symm
      simp [hm] at hf'
  | frame hw hl hm =>
      obtain ⟨f, hf', -⟩ := hf.of_frame hw hl he.symm
      simp [hm] at hf'

theorem Fault.unique (h : c.Fault S e) (h' : c.Fault S' e') (he : S = S') : e = e' := by
  cases h with
  | badLine rest hn hl _ hf =>
      obtain ⟨-, f', hf', rfl⟩ := h'.of_line hn hl he.symm
      rw [Except.error.inj (hf.symm.trans hf')]
  | longLine rest hn hl => exact (h'.of_long hn hl he.symm).symm
  | cutLine hn hl hp =>
      cases h' with
      | badLine _ _ _ _ _ => exact absurd (by simp [he]) hn
      | longLine _ hn' hl' => exact of_long (.cutLine hn hl hp) hn' hl' he
      | cutLine _ _ _ => rfl
  | badFrame rest hw hl hf =>
      obtain ⟨f', hf', rfl⟩ := h'.of_frame hw hl he.symm
      rw [Except.error.inj (hf.symm.trans hf')]
  | largeFrame rest hw hl => exact (h'.of_large hw hl he.symm).symm
  -- a frame that is cut off, before or behind its header, has no whole frame at its front
  | cutHeader hp hs =>
      cases h' with
      | badFrame _ hw' hl' _ =>
          obtain ⟨f, -, hf⟩ := of_frame (.cutHeader hp hs) hw' hl' he
          cases hf
      | largeFrame _ hw' hl' => exact of_large (.cutHeader hp hs) hw' hl' he
      | cutHeader _ _ => rfl
      | cutFrame _ _ _ => rfl
  | cutFrame hw hl hs =>
      cases h' with
      | badFrame _ hw' hl' _ =>
          obtain ⟨f, -, hf⟩ := of_frame (.cutFrame hw hl hs) hw' hl' he
          cases hf
      | largeFrame _ hw' hl' => exact of_large (.cutFrame hw hl hs) hw' hl' he
      | cutHeader _ _ => rfl
      | cutFrame _ _ _ => rfl

/-! ## Streams -/

/-- Bytes that are a concatenation of accepted units, with the messages in them. -/
inductive Carries (c : Codec) : Bytes → List Message → Prop where
  | nil : Carries c [] []
  | unit {u x : Bytes} {m : Option Message} {ms : List Message} (hu : c.Unit u m)
      (hx : Carries c x ms) : Carries c (u ++ x) (m.toList ++ ms)

/-- What a whole stream comes to: its messages up to the first fault, and the error of that fault; no error if
the stream is a concatenation of accepted units. -/
inductive Reads (c : Codec) : Bytes → List Message → Option Error → Prop where
  | clean {x : Bytes} {ms : List Message} (hx : c.Carries x ms) : Reads c x ms none
  | faulty {x y : Bytes} {ms : List Message} {e : Error} (hx : c.Carries x ms) (hy : c.Fault y e) :
      Reads c (x ++ y) ms (some e)

variable {ms ns : List Message} {v v' : Option Error} {w : Bytes}

namespace Carries

theorem of_unit (h : c.Unit u m) : c.Carries u m.toList := by
  simpa using Carries.unit h .nil

theorem append (hx : c.Carries x ms) (hy : c.Carries y ns) : c.Carries (x ++ y) (ms ++ ns) := by
  induction hx with
  | nil => exact hy
  | unit hu _ ih => simpa using Carries.unit hu ih

theorem eq_nil (h : c.Carries x ms) (hx : x = []) : ms = [] := by
  cases h with
  | nil => rfl
  | unit hu _ => exact absurd (List.append_eq_nil_iff.1 hx).1 hu.ne_nil

theorem not_fault (h : c.Carries x ms) (hf : c.Fault x e) : False := by
  cases h with
  | nil => exact hf.ne_nil rfl
  | unit hu _ => exact hu.not_fault hf rfl

/-- The units at the front of a stream of units are the first ones of it. -/
theorem split (hx : c.Carries x ms) (hw : c.Carries w ns) (he : w = x ++ y) :
    ∃ ns', ns = ms ++ ns' ∧ c.Carries y ns' := by
  induction hx generalizing w ns with
  | nil =>
      rw [List.nil_append] at he
      exact ⟨ns, rfl, he ▸ hw⟩
  | @unit u x m ms hu _ ih =>
    cases hw with
    | nil =>
        rw [List.append_assoc] at he
        exact absurd (List.append_eq_nil_iff.1 he.symm).1 hu.ne_nil
    | @unit u' x' m' ms' hu' hx' =>
        rw [List.append_assoc] at he
        obtain ⟨rfl, htail, rfl⟩ := hu'.unique hu he
        obtain ⟨ns', rfl, hy⟩ := ih hx' htail
        exact ⟨ns', by simp, hy⟩

/-- Two faults that stand behind units in one stream are the same. -/
theorem split_fault (hx : c.Carries x ms) (hx' : c.Carries x' ns) (hy : c.Fault y e)
    (hy' : c.Fault y' e') (he : x ++ y = x' ++ y') : ms = ns ∧ e = e' := by
  induction hx generalizing x' ns with
  | nil =>
      cases hx' with
      | nil => exact ⟨rfl, hy.unique hy' he⟩
      | unit hu _ => exact (hu.not_fault hy (by simpa using he.symm)).elim
  | @unit u x m ms hu _ ih =>
      rw [List.append_assoc] at he
      cases hx' with
      | nil => exact (hu.not_fault hy' he).elim
      | @unit u' x' m' ms' hu' hx' =>
          rw [List.append_assoc] at he
          obtain ⟨rfl, htail, rfl⟩ := hu.unique hu' he
          obtain ⟨rfl, rfl⟩ := ih hx' htail
          exact ⟨rfl, rfl⟩

end Carries

/-- A stream has one reading. -/
theorem Reads.unique (h : c.Reads S ms v) (h' : c.Reads S' ns v') (he : S = S') :
    ms = ns ∧ v = v' := by
  cases h with
  | clean hx =>
      cases h' with
      | clean hx' =>
          obtain ⟨ns', rfl, hnil⟩ := hx.split hx' (y := []) (by simp [he])
          exact ⟨by simp [hnil.eq_nil rfl], rfl⟩
      | faulty hx' hy' =>
          obtain ⟨_, -, hy⟩ := hx'.split hx he
          exact (hy.not_fault hy').elim
  | faulty hx hy =>
      cases h' with
      | clean hx' =>
          obtain ⟨_, -, hy'⟩ := hx.split hx' he.symm
          exact (hy'.not_fault hy).elim
      | faulty hx' hy' =>
          obtain ⟨rfl, rfl⟩ := hx.split_fault hx' hy hy' he
          exact ⟨rfl, rfl⟩

/-- An error that a reading ends with is no clean end. -/
theorem Reads.isGraceful (h : c.Reads S ms (some e)) : e.isGraceful = false := by
  cases h with
  | faulty _ hy => exact hy.isGraceful

end Codec
end Courier
