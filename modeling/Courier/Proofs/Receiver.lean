import Courier.Proofs.Frame
import Courier.Proofs.Line
import Courier.Proofs.Stream

/-!
# Receiver — what the reading end makes of a stream

A receiver holds the bytes that it has read and not used up.  Polling it uses up a unit of the stream, meets
a fault, or finds nothing whole.

1. `Receiver.Polled` lists what polling comes to, and `Receiver.polled` shows that it comes to nothing else,
2. `Receiver.Tracks` says that a receiver has come to given messages after given bytes,
3. `Receiver.Account` is what the read loop needs to know of a receiver, and `Receiver.account` provides it.

A line limit of zero, which is what the largest maximum comes to in 64-bit words, is a case of its own
(`Receiver.account_of_overflows`).
-/

namespace Courier

/-! ## Polling -/

namespace Receiver

/-- The bytes that have been read and not used up. -/
def held : Receiver → Bytes
  | .lines r => r.line.reverse ++ r.buffered
  | .frames r =>
    match r.buffer.awaited with
    | none => r.buffer.bytes
    | some size => Bytes.bigEndian headerSize size ++ r.buffer.bytes

/-- The receiver is one of the codec, and between two of its steps. -/
inductive Fits : Codec → Receiver → Prop where
  | lines {r : LineReceiver} (hm : (Codec.lines r.maximum).overflows = false) (hn : 10 ∉ r.line)
      (hc : r.count = r.line.length) (hl : r.line.length ≤ r.maximum.toNat + 1) :
      Fits (.lines r.maximum) (.lines r)
  | frames {r : FrameReceiver}
      (ha : ∀ size, r.buffer.awaited = some size →
        size < 256 ^ headerSize ∧ size ≤ r.buffer.maximum) :
      Fits (.frames r.buffer.maximum) (.frames r)

/-- The receiver holds nothing, or something that would be cut off if the stream ended now. -/
def Starved (c : Codec) (r : Receiver) : Prop :=
  (r.held = [] ∧ r.atEnd.1 = .connectionClosed) ∨ c.Fault r.held r.atEnd.1

/-- What polling comes to when given bytes are held. -/
inductive Polled (c : Codec) (bytes : Bytes) :
    Option (Except Error Message) → Receiver → Prop where
  /-- Blank lines may have been passed over. -/
  | starved {x : Bytes} {r : Receiver} (hx : c.Carries x []) (he : bytes = x ++ r.held)
      (hf : r.Fits c) (hs : r.Starved c) : Polled c bytes none r
  | decoded {x : Bytes} {m : Message} {r : Receiver} (hx : c.Carries x [m])
      (he : bytes = x ++ r.held) (hf : r.Fits c) : Polled c bytes (some (.ok m)) r
  /-- The fault is there whatever comes behind it. -/
  | refused {x y : Bytes} {e : Error} (r : Receiver) (hx : c.Carries x []) (he : bytes = x ++ y)
      (hy : ∀ rest, c.Fault (y ++ rest) e) : Polled c bytes (some (.error e)) r

variable {c : Codec} {r r' : Receiver} {bytes u P data : Bytes}
  {result : Option (Except Error Message)} {ms : List Message} {m : Message} {e : Error}

/-- A blank line in front does not matter. -/
theorem Polled.skip (hu : c.Unit u none) (h : Polled c bytes result r) :
    Polled c (u ++ bytes) result r := by
  have hskip : ∀ {x : Bytes} {ms : List Message}, c.Carries x ms → c.Carries (u ++ x) ms :=
    fun hx => Codec.Carries.unit hu hx
  cases h with
  | starved hx he hf hs => exact .starved (hskip hx) (by simp [he]) hf hs
  | decoded hx he hf => exact .decoded (hskip hx) (by simp [he]) hf
  | refused r hx he hy => exact .refused r (hskip hx) (by simp [he]) hy

theorem fits_between {l : LineReceiver} (hm : (Codec.lines l.maximum).overflows = false) (rest : Bytes) :
    (Receiver.lines (l.between rest)).Fits (.lines l.maximum) :=
  .lines (r := l.between rest) hm (by simp [LineReceiver.between]) rfl (Nat.zero_le _)

theorem fits_unfinished {l : LineReceiver} {line : Bytes} (hm : (Codec.lines l.maximum).overflows = false)
    (hn : 10 ∉ line) (hl : line.length ≤ l.maximum.toNat) :
    (Receiver.lines (l.unfinished line)).Fits (.lines l.maximum) := by
  refine .lines (r := l.unfinished line) hm ?_ ?_ ?_
  · simpa [LineReceiver.unfinished] using hn
  · simp [LineReceiver.unfinished]
  · exact Nat.le_succ_of_le (by simpa [LineReceiver.unfinished] using hl)

theorem held_unfinished (l : LineReceiver) (line : Bytes) : (Receiver.lines (l.unfinished line)).held = line := by
  simp [held, LineReceiver.unfinished]

theorem polled_of_scanned {l r : LineReceiver} (hm : (Codec.lines l.maximum).overflows = false)
    (h : l.Scanned bytes result r) : Polled (.lines l.maximum) bytes result (.lines r) := by
  induction h with
  | @waiting line hn hl =>
      refine .starved .nil (by rw [held_unfinished]; rfl) (fits_unfinished hm hn hl) ?_
      unfold Starved
      rw [held_unfinished]
      cases line with
      | nil => exact .inl ⟨rfl, rfl⟩
      | cons b line => exact .inr (.cutLine hn hl (by simp))
  | overrun rest hn hl =>
      refine .refused _ .nil (List.nil_append _).symm fun more => ?_
      rw [List.append_assoc]
      exact .longLine (rest ++ more) hn hl
  | @blank line rest _ _ hn hl hb _ ih =>
      have hline : line ++ 10 :: rest = line ++ [10] ++ rest := by simp
      rw [hline]
      exact ih.skip (.blankLine hn hl hb)
  | @finished line rest hn hl hb =>
      cases hread : Json.readMessage (LineReceiver.content line.reverse) with
      | ok m =>
          exact .decoded (.of_unit (.line hn hl hb hread)) (by simp [held, LineReceiver.between])
            (fits_between hm rest)
      | error f =>
          refine .refused _ .nil (List.nil_append _).symm fun more => ?_
          rw [List.append_assoc]
          exact .badLine (rest ++ more) hn hl hb hread

/-- What is held of a frame is cut off if the stream ends now. -/
theorem starved_of_partial {b : FrameBuffer} (h : FrameBuffer.Partial b.maximum b.held) :
    Starved (.frames b.maximum) (.frames ⟨b⟩) := by
  have hend : (Receiver.frames ⟨b⟩).atEnd.1 =
      if b.held.isEmpty then .connectionClosed else .protocol .endedInFrame := by
    simp only [atEnd, FrameReceiver.atEnd_eq, Prod.map]
    rfl
  unfold Starved
  rw [hend]
  change (b.held = [] ∧ _) ∨ Codec.Fault _ b.held _
  generalize b.held = S at h ⊢
  cases h with
  | header hs =>
      cases S with
      | nil => exact .inl ⟨rfl, rfl⟩
      | cons x S => exact .inr (.cutHeader (by simp) hs)
  | payload hw hl hs =>
      rw [if_neg fun hnil => Frames.header_append_ne_nil _ _ (List.isEmpty_iff.1 hnil)]
      exact .inr (.cutFrame hw hl hs)

theorem polled_frames (r : FrameReceiver) (h : r.buffer.Regular) :
    Polled (.frames r.buffer.maximum) (Receiver.frames r).held r.poll.1 (.frames r.poll.2) := by
  have hextracted := FrameBuffer.extracted h
  unfold FrameReceiver.poll
  generalize r.buffer.extract = extract at hextracted
  cases hextracted with
  | @taken payload c hw hl hheld hc hm =>
      have hfits : (Receiver.frames ⟨c⟩).Fits (.frames r.buffer.maximum) :=
        hm ▸ .frames (r := ⟨c⟩) (FrameBuffer.regular_of_awaited_none hc)
      cases hread : MsgPack.readMessage payload with
      | ok m =>
          simp only [hread]
          refine .decoded (.of_unit (.frame hw hl hread)) ?_ hfits
          exact hheld.trans (congrArg (_ ++ ·) (FrameBuffer.held_of_awaited_none hc).symm)
      | error f =>
          simp only [hread]
          refine .refused _ .nil (List.nil_append _).symm fun more => ?_
          show Codec.Fault _ (r.buffer.held ++ more) _
          rw [hheld, List.append_assoc]
          exact .badFrame (c.bytes ++ more) hw hl hread
  | @short c hs hheld hc hm =>
      refine .starved .nil hheld.symm (hm ▸ .frames (r := ⟨c⟩) hc) ?_
      rw [← hheld, ← hm] at hs
      rw [← hm]
      exact starved_of_partial hs
  | @refused size rest hw hl hheld =>
      refine .refused _ .nil (List.nil_append _).symm fun more => ?_
      show Codec.Fault _ (r.buffer.held ++ more) _
      rw [hheld, List.append_assoc]
      exact .largeFrame (rest ++ more) hw hl

/-- Polling comes to one of the listed outcomes. -/
theorem polled (hf : r.Fits c) : Polled c r.held r.poll.1 r.poll.2 := by
  cases hf with
  | lines hm hn hc hl => exact polled_of_scanned hm (LineReceiver.scanned_poll hm hn hc hl)
  | @frames r ha => exact polled_frames r ha

/-! ## Accounts -/

theorem fits_start (h : c.overflows = false) : (start c).Fits c := by
  cases c with
  | lines maximum => exact .lines (r := .start maximum) h (by simp [LineReceiver.start]) rfl (Nat.zero_le _)
  | frames maximum => exact .frames (r := .start maximum) (by simp [FrameReceiver.start, FrameBuffer.empty])

theorem held_start (c : Codec) : (start c).held = [] := by
  cases c <;> rfl

theorem Fits.feed (h : r.Fits c) (data : Bytes) : (r.feed data).Fits c := by
  cases h with
  | @lines l hm hn hc hl => exact .lines (r := l.feed data) hm hn hc hl
  | @frames r ha => exact .frames (r := r.feed data) ha

theorem held_feed (r : Receiver) (data : Bytes) : (r.feed data).held = r.held ++ data := by
  cases r with
  | lines l => simp [held, feed, LineReceiver.feed]
  | frames r => exact FrameBuffer.held_extend r.buffer data

/-- After given bytes of the stream, the receiver has come to given messages. -/
def Tracks (c : Codec) (bytes : Bytes) (r : Receiver) (ms : List Message) : Prop :=
  r.Fits c ∧ ∃ x, bytes = x ++ r.held ∧ c.Carries x ms

/-- After given bytes, which may be all there are, reading ends with an error. -/
def Ends (c : Codec) (bytes : Bytes) (ended : Bool) (ms : List Message) (e : Error) : Prop :=
  (∀ rest, c.Reads (bytes ++ rest) ms (some e)) ∨
    ended = true ∧ ∃ v, c.Reads bytes ms v ∧ e = v.getD .connectionClosed

/-- What the read loop relies on: `tracks` holds of a receiver while it is in use, and `ends` once it has
failed. -/
structure Account (c : Codec) (tracks : Bytes → Receiver → List Message → Prop)
    (ends : Bytes → Bool → List Message → Error → Prop) : Prop where
  start : tracks [] (start c) []
  decoded {bytes : Bytes} {r r' : Receiver} {ms : List Message} {m : Message} :
    tracks bytes r ms → r.poll = (some (.ok m), r') → tracks bytes r' (ms ++ [m])
  refused {bytes : Bytes} {r r' : Receiver} {ms : List Message} {e : Error} :
    tracks bytes r ms → r.poll = (some (.error e), r') → ends bytes false ms e
  waiting {bytes : Bytes} {r r' : Receiver} {ms : List Message} :
    tracks bytes r ms → r.poll = (none, r') → tracks bytes r' ms
  fed {bytes : Bytes} {r : Receiver} {ms : List Message} (data : Bytes) :
    tracks bytes r ms → tracks (bytes ++ data) (r.feed data) ms
  ended {bytes : Bytes} {r r' : Receiver} {ms : List Message} :
    tracks bytes r ms → r.poll = (none, r') → ends bytes true ms r'.atEnd.1

namespace Tracks

theorem start (h : c.overflows = false) : Tracks c [] (start c) [] :=
  ⟨fits_start h, [], by rw [held_start]; rfl, .nil⟩

theorem decoded (h : Tracks c bytes r ms) (hp : r.poll = (some (.ok m), r')) :
    Tracks c bytes r' (ms ++ [m]) := by
  obtain ⟨hf, x, rfl, hx⟩ := h
  have hpolled := polled hf
  rw [hp] at hpolled
  cases hpolled with
  | @decoded y _ _ hy he hf' => exact ⟨hf', x ++ y, by rw [he, List.append_assoc], hx.append hy⟩

theorem refused (h : Tracks c bytes r ms) (hp : r.poll = (some (.error e), r')) (rest : Bytes) :
    c.Reads (bytes ++ rest) ms (some e) := by
  obtain ⟨hf, x, rfl, hx⟩ := h
  have hpolled := polled hf
  rw [hp] at hpolled
  cases hpolled with
  | @refused y z _ _ hy he hz =>
      have hreads := Codec.Reads.faulty (hx.append hy) (hz rest)
      rw [he]
      simpa using hreads

/-- A receiver that needs more bytes holds no whole unit any more. -/
theorem starved (h : Tracks c bytes r ms) (hp : r.poll = (none, r')) :
    Tracks c bytes r' ms ∧ r'.Starved c := by
  obtain ⟨hf, x, rfl, hx⟩ := h
  have hpolled := polled hf
  rw [hp] at hpolled
  cases hpolled with
  | @starved y _ hy he hf' hs =>
      refine ⟨⟨hf', x ++ y, by rw [he, List.append_assoc], ?_⟩, hs⟩
      simpa using hx.append hy

theorem feed (h : Tracks c bytes r ms) (data : Bytes) : Tracks c (bytes ++ data) (r.feed data) ms := by
  obtain ⟨hf, x, rfl, hx⟩ := h
  exact ⟨hf.feed data, x, by rw [held_feed, List.append_assoc], hx⟩

theorem atEnd (h : Tracks c bytes r ms) (hs : r.Starved c) :
    ∃ v, c.Reads bytes ms v ∧ r.atEnd.1 = v.getD .connectionClosed := by
  obtain ⟨-, x, rfl, hx⟩ := h
  rcases hs with ⟨hnil, hclosed⟩ | hfault
  · refine ⟨none, ?_, hclosed⟩
    rw [hnil, List.append_nil]
    exact .clean hx
  · exact ⟨some r.atEnd.1, .faulty hx hfault, rfl⟩

end Tracks

theorem account (h : c.overflows = false) : Account c (Tracks c) (Ends c) where
  start := .start h
  decoded := .decoded
  refused ht hp := .inl (ht.refused hp)
  waiting ht hp := (ht.starved hp).1
  fed data ht := ht.feed data
  ended ht hp := .inr ⟨rfl, (ht.starved hp).1.atEnd (ht.starved hp).2⟩

/-! ## A limit of zero -/

/-- A receiver of lines without any room for a byte. -/
def Stunned (_bytes : Bytes) (r : Receiver) (ms : List Message) : Prop :=
  ms = [] ∧ ∃ l, r = .lines l ∧ l.limit = 0 ∧ l.count = 0

theorem Stunned.poll (h : Stunned bytes r ms) : r.poll.1 = some (.error .connectionClosed) := by
  obtain ⟨-, l, rfl, hlimit, hcount⟩ := h
  have hover : l.limit ≤ l.count := by omega
  show (l.scan l.line l.count l.buffered).1 = _
  -- the limit is looked at before any byte is
  cases l.buffered with
  | nil | cons b rest =>
      unfold LineReceiver.scan
      rw [if_pos hover, hcount]
      rfl

/-- And it stays without room. -/
theorem Stunned.next (h : Stunned bytes r ms) : Stunned bytes r.poll.2 ms := by
  obtain ⟨hms, l, rfl, hlimit, hcount⟩ := h
  have hover : l.limit ≤ l.count := by omega
  have hbetween : (l.scan l.line l.count l.buffered).2 = l.between l.buffered := by
    cases l.buffered <;> simp [LineReceiver.scan, hover]
  exact ⟨hms, l.between l.buffered, congrArg Receiver.lines hbetween, hlimit, rfl⟩

/-- With a line limit of zero every stream seems to end where it begins. -/
theorem account_of_overflows (h : c.overflows = true) :
    Account c Stunned fun _ _ ms e => ms = [] ∧ e = .connectionClosed where
  start := by
    cases c with
    | lines maximum =>
        exact ⟨rfl, .start maximum, rfl, LineReceiver.limit_of_overflows (r := .start maximum) h, rfl⟩
    | frames maximum => simp [Codec.overflows] at h
  decoded ht hp := by
    have hpoll := ht.poll
    simp [hp] at hpoll
  refused ht hp := by
    have hpoll := ht.poll
    rw [hp] at hpoll
    exact ⟨ht.1, by simpa using hpoll⟩
  waiting ht hp := by
    have hpoll := ht.poll
    simp [hp] at hpoll
  fed data ht := by
    obtain ⟨hms, l, rfl, hlimit, hcount⟩ := ht
    exact ⟨hms, l.feed data, rfl, hlimit, hcount⟩
  ended ht hp := by
    have hpoll := ht.poll
    simp [hp] at hpoll

end Receiver
end Courier
