import Courier.Proofs.Frame.Refusal

/-!
# Loss — payloads in front of a length above the maximum

A push takes payloads up to the next length above the maximum.  When it comes to one it fails, and the payloads that
it has taken until then are gone.  Bytes that are pushed one at a time lose nothing: a byte that completes a header
completes no payload.

1. `FrameBuffer.pushed_push` compares a push with the frames that are held,
2. `FrameBuffer.handed_singly` is what comes out of single bytes,
3. `FrameBuffer.loss_of_push` says exactly when a payload is lost.
-/

namespace Courier

/-- A stream that begins with a length above the maximum. -/
def Frames.Oversized (maximum : Nat) (S : Bytes) : Prop :=
  headerSize ≤ S.length ∧ maximum < Bytes.toNat (S.take headerSize)

namespace Frames

variable {maximum : Nat} {S : Bytes}

theorem Oversized.append (h : Oversized maximum S) (T : Bytes) : Oversized maximum (S ++ T) := by
  refine ⟨?_, ?_⟩
  · rw [List.length_append]
    exact Nat.le_trans h.1 (Nat.le_add_right ..)
  · rw [List.take_append_of_le_length h.1]
    exact h.2

theorem Oversized.parse (h : Oversized maximum S) : parse maximum S = ([], S) := by
  rw [Frames.parse]
  exact if_pos (.inr (.inl h.2))

theorem Oversized.not_partial (h : Oversized maximum S) : ¬ FrameBuffer.Partial maximum S := by
  intro hpartial
  cases hpartial with
  | header hs => exact Nat.not_lt.2 h.1 hs
  | payload hw hl _ =>
      have hlarge := h.2
      rw [take_header, Bytes.toNat_bigEndian hw] at hlarge
      exact Nat.not_lt.2 hl hlarge

end Frames

namespace FrameBuffer

variable {b c : FrameBuffer} {size : Nat} {data S : Bytes} {payloads : List Bytes} {failure : Option Error} {e : Error}

/-! ## What a push comes to -/

theorem Refuses.oversized (h : b.Refuses size) : Frames.Oversized b.maximum b.held := by
  rw [held_of_awaited_none h.boundary]
  exact ⟨h.header, h.declared ▸ h.large⟩

theorem refuses_of_extract (h : b.extract = .error e) : ∃ size, b.Refuses size ∧ e = b.refusal size := by
  have hperform := perform_extract b
  rw [perform, h] at hperform
  obtain ⟨size, hrefuses, he, -⟩ := seek_eq_error_iff.1 (Answer.payload.inj (Prod.mk.inj hperform).1).symm
  exact ⟨size, hrefuses, he⟩

/-- A push that fails leaves the length that it has failed at in front. -/
theorem Emptied.refuses (h : Emptied b payloads (some e) c) : ∃ size, c.Refuses size ∧ e = c.refusal size := by
  generalize hf : some e = failure at h
  induction h with
  | short _ => cases hf
  | refused he =>
      obtain rfl := Option.some.inj hf
      exact refuses_of_extract he
  | next _ _ ih => exact ih hf

/-- What a push comes to.  Either way the payloads that it has taken are no longer held. -/
inductive Pushed (b : FrameBuffer) (data : Bytes) : Except Error (List Bytes) × FrameBuffer → Prop where
  | complete {payloads : List Bytes} {c : FrameBuffer} (hheld : b.held ++ data = Frames.join payloads ++ c.held)
      (hfits : ∀ payload ∈ payloads, payload.length < 256 ^ headerSize ∧ payload.length ≤ b.maximum)
      (hc : c.Short) (hr : c.Regular) (hm : c.maximum = b.maximum) : Pushed b data (.ok payloads, c)
  | failed {payloads : List Bytes} {size : Nat} {c : FrameBuffer}
      (hheld : b.held ++ data = Frames.join payloads ++ c.held)
      (hfits : ∀ payload ∈ payloads, payload.length < 256 ^ headerSize ∧ payload.length ≤ b.maximum)
      (hc : c.Refuses size) (hm : c.maximum = b.maximum) : Pushed b data (.error (c.refusal size), c)

theorem pushed_push (h : b.Regular) (data : Bytes) : Pushed b data (b.push data) := by
  obtain ⟨payloads, failure, hemptied, hanswer⟩ := emptied_push h data
  have hpush : b.push data = (pushed payloads failure, (b.push data).2) := Prod.ext hanswer rfl
  rw [hpush]
  generalize (b.push data).2 = c at hemptied
  obtain ⟨hheld, hfits⟩ := hemptied.held_eq (regular_extend h data)
  obtain ⟨hr, hm⟩ := hemptied.kept (regular_extend h data)
  rw [held_extend] at hheld
  cases failure with
  | none => exact .complete hheld hfits hemptied.short_of_none hr hm
  | some e =>
      obtain ⟨size, hrefuses, rfl⟩ := hemptied.refuses
      exact .failed hheld hfits hrefuses hm

/-! ## What comes out -/

/-- The payloads that an answer hands on. -/
def Answer.handed : Answer → List Bytes
  | .payload (.ok taken) => taken.toList
  | .payloads (.ok taken) => taken
  | _ => []

/-- The payloads that operations hand on. -/
def handed (b : FrameBuffer) (ops : List Op) : List Bytes :=
  (b.answers ops).flatMap Answer.handed

/-- Bytes that are pushed one at a time. -/
def singly (data : Bytes) : List Op :=
  data.map fun x => .push [x]

theorem clear_not_mem_singly (data : Bytes) : .clear ∉ singly data := by
  simp [singly]

theorem handed_cons (b : FrameBuffer) (op : Op) (ops : List Op) :
    b.handed (op :: ops) = (b.perform op).1.handed ++ (b.perform op).2.handed ops := by
  rw [handed, answers, List.flatMap_cons]
  rfl

/-- Nothing comes out of a buffer that fails. -/
theorem Refuses.handed (h : b.Refuses size) {ops : List Op} (hops : .clear ∉ ops) : b.handed ops = [] := by
  rw [FrameBuffer.handed, (h.after hops).1, List.flatMap_eq_nil_iff]
  intro answer hmem
  obtain ⟨op, -, rfl⟩ := List.mem_map.1 hmem
  cases op <;> rfl

/-- A single byte behind the beginning of a frame completes a header or a payload, but not one behind the other. -/
theorem eq_nil_of_partial {x : UInt8} (h : Partial b.maximum b.held)
    (hheld : b.held ++ [x] = Frames.join payloads ++ S)
    (hfits : ∀ payload ∈ payloads, payload.length < 256 ^ headerSize ∧ payload.length ≤ b.maximum) (hS : S ≠ []) :
    payloads = [] := by
  cases payloads with
  | nil => rfl
  | cons payload payloads =>
      obtain ⟨hw, hl⟩ := hfits payload (List.mem_cons_self ..)
      -- without the byte, the first of the frames would still be whole
      have hfront : b.held = Frames.join (payload :: payloads) ++ S.dropLast := by
        have hdrop := congrArg List.dropLast hheld
        rwa [List.dropLast_concat, List.dropLast_append_of_ne_nil hS] at hdrop
      have hparse := (Frames.parse_partial h).1
      rw [hfront, Frames.join, List.flatMap_cons, List.append_assoc, Frames.parse_frame hw hl] at hparse
      simp at hparse

/-- Single bytes hand on every frame in front of the next length above the maximum. -/
theorem handed_singly (hr : b.Regular) (h : Partial b.maximum b.held) (data : Bytes) :
    b.handed (singly data) = (Frames.parse b.maximum (b.held ++ data)).1 := by
  induction data generalizing b with
  | nil =>
      rw [List.append_nil, (Frames.parse_partial h).1]
      rfl
  | cons x data ih =>
      have hsplit : b.held ++ x :: data = b.held ++ [x] ++ data := by simp
      have hpushed := pushed_push hr [x]
      rw [singly, List.map_cons, handed_cons, perform, ← singly, hsplit]
      generalize b.push [x] = r at hpushed
      cases hpushed with
      | @complete payloads c hheld hfits hc hr' hm =>
          rw [hheld, List.append_assoc, Frames.parse_join hfits, ← hm, ← ih hr' (hc.partial hr')]
          rfl
      | @failed payloads size c hheld hfits hc hm =>
          have hover : Frames.Oversized b.maximum c.held := hm ▸ hc.oversized
          have hne : c.held ≠ [] := fun hnil => by simp [Frames.Oversized, hnil, headerSize] at hover
          obtain rfl := eq_nil_of_partial h hheld hfits hne
          have hall : b.held ++ [x] ++ data = c.held ++ data := congrArg (· ++ data) hheld
          rw [hall, (hover.append data).parse, hc.handed (clear_not_mem_singly data)]
          rfl

namespace Session

variable {maximum : Nat} {s : Session}

/-- What has been given to a buffer, and what is pushed then, are frames up to where the push comes to an end. -/
theorem Sound.parse_of_push (h : s.Sound maximum) (hl : s.lossy = false)
    (hheld : s.buffer.held ++ data = Frames.join payloads ++ c.held)
    (hfits : ∀ payload ∈ payloads, payload.length < 256 ^ headerSize ∧ payload.length ≤ s.buffer.maximum)
    (hend : Frames.parse maximum c.held = ([], c.held)) :
    Frames.parse maximum (s.appended ++ data) = (s.extracted ++ payloads, c.held) := by
  have hall : s.appended ++ data = Frames.join (s.extracted ++ payloads) ++ c.held := by
    rw [h.appended hl, List.append_assoc, hheld, Frames.join_append, List.append_assoc]
  have hfits' : ∀ payload ∈ s.extracted ++ payloads, payload.length < 256 ^ headerSize ∧ payload.length ≤ maximum := by
    intro payload hp
    rcases List.mem_append.1 hp with hp | hp
    · exact h.extracted payload hp
    · exact h.limited ▸ hfits payload hp
  rw [hall, Frames.parse_join hfits', hend, List.append_nil]

/-- A buffer that needs more bytes hands on all frames when it gets them one at a time. -/
theorem Sound.handed_singly (h : s.Sound maximum) (hl : s.lossy = false) (he : s.buffer.extract = .ok (none, c))
    (data : Bytes) :
    s.extracted ++ s.buffer.handed (singly data) = (Frames.parse maximum (s.appended ++ data)).1 := by
  have hextracted := FrameBuffer.extracted h.regular
  rw [he] at hextracted
  cases hextracted with
  | short hpartial _ _ _ =>
      rw [FrameBuffer.handed_singly h.regular hpartial, h.limited, h.appended hl, List.append_assoc,
        Frames.parse_join h.extracted]

end Session

/-- Of a buffer that has lost nothing since it was last cleared, and any push, with the frames of all bytes that it
has been given then and of those that are pushed:

- Pushed one at a time, all these bytes hand on all these frames, and so do the bytes of the push alone when the buffer
  needs more bytes.
- The push fails exactly if a length above the maximum stands behind the frames, and takes them all out of the buffer in
  either case.
- If it fails, nothing comes out by it or by anything that is done then, up to the next clearing.
- So all these frames come out, by the push or later, exactly if the push does not fail or had no frame to take. -/
theorem loss_of_push (maximum : Nat) (ops : List Op) (s : Session) (hrun : (Session.start maximum).run ops = s)
    (hl : s.lossy = false) (data : Bytes) (frames : List Bytes) (rest : Bytes)
    (hparse : Frames.parse maximum (s.appended ++ data) = (frames, rest)) :
    (empty maximum).handed (singly (s.appended ++ data)) = frames ∧
    (∀ c, s.buffer.extract = .ok (none, c) → s.extracted ++ s.buffer.handed (singly data) = frames) ∧
    ((∃ e, (s.buffer.push data).1 = .error e) ↔ Frames.Oversized maximum rest) ∧
    (s.buffer.push data).2.held = rest ∧
    (Frames.Oversized maximum rest → ∀ later, .clear ∉ later → s.buffer.handed (.push data :: later) = []) ∧
    ((∃ later, .clear ∉ later ∧ s.extracted ++ s.buffer.handed (.push data :: later) = frames) ↔
      (Frames.Oversized maximum rest → s.extracted = frames)) := by
  have hs : s.Sound maximum := hrun ▸ Session.sound_run maximum ops
  have hframes : (Frames.parse maximum (s.appended ++ data)).1 = frames := congrArg Prod.fst hparse
  have hfresh : (empty maximum).handed (singly (s.appended ++ data)) = frames :=
    hframes ▸ (Session.sound_start maximum).handed_singly rfl rfl (s.appended ++ data)
  refine ⟨hfresh, fun c hc => hframes ▸ hs.handed_singly hl hc data, ?_⟩
  have hpushed := pushed_push hs.regular data
  have hperform : ∀ later, s.buffer.handed (.push data :: later) =
      (Answer.payloads (s.buffer.push data).1).handed ++ (s.buffer.push data).2.handed later := handed_cons _ _
  generalize s.buffer.push data = r at hpushed hperform
  -- what is left behind the frames decides: less than a frame, or a length above the maximum
  cases hpushed with
  | @complete payloads c hheld hfits hc hr hm =>
      have hpartial : Partial maximum c.held := (hm.trans hs.limited) ▸ hc.partial hr
      rw [hs.parse_of_push hl hheld hfits (Frames.parse_partial hpartial).1] at hparse
      obtain ⟨rfl, rfl⟩ := Prod.mk.inj hparse
      have hnot : ¬ Frames.Oversized maximum c.held := fun hover => hover.not_partial hpartial
      refine ⟨⟨by simp, fun hover => absurd hover hnot⟩, rfl, fun hover => absurd hover hnot,
        ⟨fun _ hover => absurd hover hnot, fun _ => ⟨[], by simp, ?_⟩⟩⟩
      rw [hperform]
      simp [Answer.handed, handed, answers]
  | @failed payloads size c hheld hfits hc hm =>
      have hover : Frames.Oversized maximum c.held := (hm.trans hs.limited) ▸ hc.oversized
      rw [hs.parse_of_push hl hheld hfits hover.parse] at hparse
      obtain ⟨rfl, rfl⟩ := Prod.mk.inj hparse
      have hnothing : ∀ later, .clear ∉ later → s.buffer.handed (.push data :: later) = [] := by
        intro later hlater
        rw [hperform, hc.handed hlater]
        rfl
      refine ⟨⟨fun _ => hover, fun _ => ⟨_, rfl⟩⟩, rfl, fun _ => hnothing, ⟨?_, fun hall => ⟨[], by simp, ?_⟩⟩⟩
      · rintro ⟨later, hlater, hall⟩ -
        rwa [hnothing later hlater, List.append_nil] at hall
      · rw [hnothing [] (by simp), List.append_nil]
        exact hall hover

/-- A frame, and a length that is above a maximum of 2. -/
def frameAndLength : Bytes :=
  [0, 0, 0, 1, 65, 0, 0, 0, 3]

/-- Half a header is there already.  The push completes two frames and then fails. -/
theorem loss_of_two_frames :
    ∃ s, (Session.start 2).run [.push [0, 0, 0, 1, 66, 0, 0]] = s ∧ s.lossy = false ∧ s.extracted = [[66]] ∧
      (s.buffer.push ([0, 0] ++ frameAndLength)).1 = .error (.protocol (.payloadTooLarge 3 2)) ∧
      s.buffer.handed [.push ([0, 0] ++ frameAndLength), .extract, .extract] = [] ∧
      s.buffer.handed (singly ([0, 0] ++ frameAndLength)) = [[], [65]] := by
  obtain ⟨s, hs⟩ : ∃ s, (Session.start 2).run [.push [0, 0, 0, 1, 66, 0, 0]] = s := ⟨_, rfl⟩
  have hl : s.lossy = false := by rw [← hs]; rfl
  have hextracted : s.extracted = [[66]] := by rw [← hs]; rfl
  rcases hparse : Frames.parse 2 (s.appended ++ ([0, 0] ++ frameAndLength)) with ⟨frames, rest⟩
  obtain ⟨hfresh, hsingly, hfails, -, hlost, -⟩ :=
    loss_of_push 2 _ s hs hl ([0, 0] ++ frameAndLength) frames rest hparse
  have hpush : (s.buffer.push ([0, 0] ++ frameAndLength)).1 = .error (.protocol (.payloadTooLarge 3 2)) := by
    rw [← hs]
    rfl
  have hall : frames = [[66], [], [65]] := by
    rw [← hfresh, ← hs]
    rfl
  have hrest : [[66]] ++ s.buffer.handed (singly ([0, 0] ++ frameAndLength)) = [[66]] ++ [[], [65]] := by
    rw [← hextracted, hsingly s.buffer (by rw [← hs]; rfl), hall, hextracted]
    rfl
  exact ⟨s, hs, hl, hextracted, hpush, hlost (hfails.1 ⟨_, hpush⟩) [.extract, .extract] (by simp),
    List.append_cancel_left hrest⟩

/-- The frame in front comes out when the bytes are pushed one at a time, and never when they are pushed together. -/
theorem lost_frame :
    (empty 2).handed (singly frameAndLength) = [[65]] ∧
    ((empty 2).push frameAndLength).1 = .error (.protocol (.payloadTooLarge 3 2)) ∧
    ∀ later, .clear ∉ later → (empty 2).handed (.push frameAndLength :: later) = [] := by
  refine ⟨rfl, rfl, fun later hlater => ?_⟩
  have hrefuses : ((empty 2).push frameAndLength).2.Refuses 3 := ⟨rfl, by decide, rfl, by decide⟩
  rw [handed_cons, perform, hrefuses.handed hlater]
  rfl

end FrameBuffer
end Courier
