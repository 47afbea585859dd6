import Courier.Proofs.Json.Line
import Courier.Proofs.Line
import Courier.Proofs.MsgPack.RoundTrip
import Courier.Proofs.Stream

/-!
# Encoding — what is sent is a unit of the stream

1. `Codec.line_of_message`: the line of any message is a line to its peer, and nothing in the message ends it sooner,
2. `Codec.Accepts` collects what is asked of a message: its values can be read back, it is not nested too deeply, and
   its line or payload is no larger than the receiver's maximum,
3. `Codec.unit_of_accepts`: its encoding is then a unit of the stream and carries that message.
-/

namespace Courier
namespace Codec

/-! ## Lines of messages -/

/-- A document is the whole content of its line. -/
theorem content_writeMessage (command : String) (args : List Value) (kwargs : List (String × Value)) :
    LineReceiver.content (Json.writeMessage command args kwargs).reverse = Json.writeMessage command args kwargs ∧
      (Json.writeMessage command args kwargs).all LineReceiver.isBlank = false := by
  obtain ⟨text, htext⟩ : ∃ text, Json.writeMessage command args kwargs = 123 :: text ++ [125] :=
    ⟨_, rfl⟩
  rw [htext]
  refine ⟨?_, by simp [LineReceiver.isBlank]⟩
  rw [List.reverse_append]
  simp [LineReceiver.content]

theorem newline_not_mem_document (command : String) (args : List Value) (kwargs : List (String × Value)) :
    10 ∉ Json.writeMessage command args kwargs :=
  fun hn => (Json.printed_writeMessage command args kwargs).ge hn (by decide)

/-- The line of a document comes to what the document reads as, whatever stands behind it. -/
theorem outcomes_of_document {limit : Nat} {command : String} {args : List Value} {kwargs : List (String × Value)}
    (hl : (Json.writeMessage command args kwargs).length ≤ limit) (S : Bytes) :
    Lines.outcomes limit (Json.writeMessage command args kwargs ++ 10 :: S) =
      (Json.readMessage (Json.writeMessage command args kwargs)).mapError .json :: Lines.outcomes limit S := by
  obtain ⟨hcontent, hblank⟩ := content_writeMessage command args kwargs
  rw [Lines.outcomes_newline (newline_not_mem_document command args kwargs) hl, hcontent, hblank]
  rfl

/-- Whatever the command and the arguments are, and in whatever order the named ones come: the encoding ends with
the only newline in it, has no carriage return, is well-formed text and not blank.  A peer takes one line of it and
reads on behind that as if nothing had been there; where the line is longer than the peer's limit, it is refused at
that limit. -/
theorem line_of_message (maximum : UInt64) (command : String) (args : List Value) (kwargs : List (String × Value)) :
    ∃ frame line, (Codec.lines maximum).encodeParts command args kwargs = .ok frame ∧
      frame = line ++ [10] ∧ 10 ∉ line ∧ 13 ∉ frame ∧
      (∃ text, Utf8.decode frame = .ok text ∧ Utf8.encode text = frame) ∧
      frame.all LineReceiver.isBlank = false ∧
      ∀ limit S, Lines.outcomes limit (frame ++ S) =
        if line.length ≤ limit then (Json.readMessage line).mapError .json :: Lines.outcomes limit S
        else .error (.protocol (.lineTooLong limit)) :: Lines.outcomes limit (frame.drop (limit + 1) ++ S) := by
  have hprinted := Json.printed_writeMessage command args kwargs
  have hframe : (Codec.lines maximum).encodeParts command args kwargs =
      .ok (Json.writeMessage command args kwargs ++ [10]) := rfl
  have hnewline := newline_not_mem_document command args kwargs
  have hblank := (content_writeMessage command args kwargs).2
  have houtcomes := fun limit hl => @outcomes_of_document limit command args kwargs hl
  generalize Json.writeMessage command args kwargs = line at hprinted hframe hnewline hblank houtcomes
  refine ⟨_, line, hframe, rfl, hnewline, ?_, ?_, ?_, fun limit S => ?_⟩
  · intro hr
    rcases List.mem_append.1 hr with hr | hr
    · exact hprinted.ge hr (by decide)
    · simp at hr
  · obtain ⟨chars, rfl, -⟩ := hprinted
    have htext : Utf8.encode (String.ofList (chars ++ ['\n'])) = chars.flatMap String.utf8EncodeChar ++ [10] := by
      rw [Utf8.encode, String.toList_ofList, List.flatMap_append]
      rfl
    exact ⟨_, htext ▸ Utf8.decode_encode _, htext⟩
  · rw [List.all_append, hblank, Bool.false_and]
  · by_cases hl : line.length ≤ limit
    · rw [if_pos hl, List.append_assoc, List.singleton_append, houtcomes limit hl S]
    · -- the limit lies within the line, and what is left of it stands in front of the other bytes
      have htake : (line.take (limit + 1)).length = limit + 1 := List.length_take_of_le (by omega)
      have hlong := Lines.outcomes_long (fun hn => hnewline (List.mem_of_mem_take hn)) htake
        ((line ++ [10]).drop (limit + 1) ++ S)
      have hsplit : line.take (limit + 1) ++ (line ++ [10]).drop (limit + 1) = line ++ [10] := by
        rw [List.drop_append_of_le_length (by omega), ← List.append_assoc, List.take_append_drop]
      rw [if_neg hl, ← hlong, ← List.append_assoc, hsplit]

/-! ## Messages that can be read -/

/-- The doubles that a codec carries.  A line holds their text, which has to read as the same double. -/
def Legible : Codec → Double → Prop
  | .lines _, x => Json.ReadsBack x
  | .frames _, _ => True

/-- The nesting of arguments that a reader allows.  A message and its arguments take two levels. -/
def levels : Codec → Nat
  | .lines _ => Json.maxDepth - 3
  | .frames _ => MsgPack.maxDepth - 3

/-- The size that counts against the maximum of a receiver. -/
def sizeOf (command : String) (args : List Value) (kwargs : List (String × Value)) : Codec → Nat
  | .lines _ => (Json.writeMessage command args kwargs).length
  | .frames _ => (MsgPack.writeMessage command args kwargs).length

/-- The largest size that a receiver takes. -/
def largest : Codec → Nat
  | .lines maximum => maximum.toNat
  | .frames maximum => maximum

/-- A message that a receiver of the codec is able to read. -/
structure Accepts (c : Codec) (command : String) (args : List Value) (kwargs : List (String × Value)) :
    Prop where
  positional : ∀ x ∈ args, x.Sendable c.Legible c.levels
  named : ∀ e ∈ kwargs, e.2.Sendable c.Legible c.levels
  size : c.sizeOf command args kwargs ≤ c.largest

variable {command : String} {args : List Value} {kwargs : List (String × Value)} {frame : Bytes}

theorem unit_of_document {maximum : UInt64} (h : (Codec.lines maximum).Accepts command args kwargs) :
    (Codec.lines maximum).Unit (Json.writeMessage command args kwargs ++ [10])
      (some ⟨command, args, Entries.ofList kwargs⟩) := by
  have hread : Json.readMessage (Json.writeMessage command args kwargs) =
      .ok ⟨command, args, Entries.ofList kwargs⟩ :=
    Json.readMessage_write h.positional h.named (by simp [levels, Json.maxDepth])
  obtain ⟨hcontent, hblank⟩ := content_writeMessage command args kwargs
  refine .line (newline_not_mem_document command args kwargs) h.size ?_ ?_
  · rw [hcontent]
    exact hblank
  · rw [hcontent]
    exact hread

theorem unit_of_payload {maximum : Nat} (h : (Codec.frames maximum).Accepts command args kwargs)
    (hf : buildFrame (MsgPack.writeMessage command args kwargs) = .ok frame) :
    (Codec.frames maximum).Unit frame (some ⟨command, args, Entries.ofList kwargs⟩) := by
  unfold buildFrame at hf
  by_cases hlength : (MsgPack.writeMessage command args kwargs).length < 2 ^ 32
  · rw [if_pos hlength] at hf
    obtain rfl := Except.ok.inj hf
    have hread := MsgPack.readMessage_write h.positional h.named (by simp [levels, MsgPack.maxDepth])
      hlength
    exact .frame (by simpa [headerSize] using hlength) h.size hread
  · rw [if_neg hlength] at hf
    simp at hf

/-- The encoding of a message that can be read is a unit that carries the message. -/
theorem unit_of_accepts {c : Codec} (h : c.Accepts command args kwargs)
    (hf : c.encodeParts command args kwargs = .ok frame) :
    c.Unit frame (some ⟨command, args, Entries.ofList kwargs⟩) := by
  cases c with
  | lines maximum =>
      obtain rfl : Json.writeMessage command args kwargs ++ [10] = frame := Except.ok.inj hf
      exact unit_of_document h
  | frames maximum => exact unit_of_payload h hf

end Codec
end Courier
