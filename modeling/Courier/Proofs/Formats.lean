import Courier.Proofs.Json.Rereading
import Courier.Proofs.Letters

/-!
# Formats — one message in either format

A message that both formats take is encoded and received in each of them, with its named arguments in any order.
Packed, it comes out as it was.  As a line, it comes out the same exactly if every double in it reads back from its
text, and the line limit fits a 64-bit word.
-/

namespace Courier
namespace Letter

variable {maximum : UInt64} {l l' : Letter} {m : Message} {line : Bytes} {events : List ReadEvent}
  {kind : Double → Prop}
  {n : Nat}

/-- The first call on the line of a letter decodes its document. -/
theorem answer_of_line
    (hs : (Json.writeMessage l.message.command l.message.args l.order).length ≤ maximum.toNat) :
    (Codec.lines maximum).answer (Json.writeMessage l.message.command l.message.args l.order ++ [10]) 0 =
      (Json.readMessage (Json.writeMessage l.message.command l.message.args l.order)).mapError .json :=
  (Codec.gives_of_outcomes (Codec.outcomes_of_document hs [])).1

/-- Whatever is received of the line of a letter, it is the same message only if every double in it reads back. -/
theorem sendable_of_received (ho : (Codec.lines maximum).overflows = false) (hv : l.message.Sendable kind n)
    (hn : n + 2 < Json.maxDepth)
    (hs : (Json.writeMessage l.message.command l.message.args l.order).length ≤ maximum.toNat)
    (hy : Yields (Json.writeMessage l.message.command l.message.args l.order ++ [10]) events)
    (hnone : ∀ event ∈ events, (Codec.lines maximum).failure? event = none)
    (hr : (Receiver.start (.lines maximum)).results 1 events = [.ok m]) (hm : m.same l.message = true) :
    l.message.Sendable Json.ReadsBack n := by
  have hread : Json.readMessage (Json.writeMessage l.message.command l.message.args l.order) = .ok m := by
    rw [Receiver.results_of_unfailed (Receiver.fits_start ho) hy hnone, Receiver.held_start, List.nil_append] at hr
    have hfirst : (Codec.lines maximum).answer
        (Json.writeMessage l.message.command l.message.args l.order ++ [10]) 0 = .ok m := List.cons.inj hr |>.1
    rw [answer_of_line hs] at hfirst
    generalize Json.readMessage (Json.writeMessage l.message.command l.message.args l.order) = document at hfirst
    cases document with
    | error f => exact nomatch hfirst
    | ok m' => exact congrArg Except.ok (Except.ok.inj hfirst)
  obtain ⟨hargs, horder⟩ := Json.sendable_of_readMessage rfl hv.1 (fun e he => hv.2 e (l.perm.mem_iff.1 he)) hn l.sorted
    l.perm hread hm
  exact ⟨hargs, fun e he => horder e (l.perm.mem_iff.2 he)⟩

/-- The only message of a stream is received as it was sent. -/
theorem received_of_fits {c : Codec} {frame : Bytes} (ho : c.overflows = false) (h : l.Fits c)
    (hf : l.encode c = .ok frame) (hy : Yields frame events) (hnone : ∀ event ∈ events, c.failure? event = none) :
    (Receiver.start c).results 1 events = [.ok l.message] :=
  Receiver.results_of_carries ho (.of_unit (unit_of_fits h hf)) hy hnone 0

/-- A message is encoded in both formats, its named arguments coming in any two orders.  The frame is received as the
message itself.  The line is received as the same message exactly if every double in it reads back from its text and the
line limit fits a 64-bit word. -/
theorem same_of_both_formats (maximum : UInt64) (maximum' : UInt32) (l l' : Letter) (hm : l'.message = l.message)
    (hv : l.message.Sendable (fun _ => True) (Codec.lines maximum).levels)
    (hs : (Codec.lines maximum).sizeOf l.message.command l.message.args l.order ≤ maximum.toNat)
    (hs' : (Codec.frames maximum'.toNat).sizeOf l'.message.command l'.message.args l'.order ≤ maximum'.toNat) :
    ∃ line frame, l.encode (.lines maximum) = .ok line ∧ l'.encode (.frames maximum'.toNat) = .ok frame ∧
      ∀ events events', Yields line events → (∀ e, .failed e ∈ events → e.kind = .interrupted) →
        Yields frame events' → (∀ e, .failed e ∉ events') →
        (Receiver.start (.frames maximum'.toNat)).results 1 events' = [.ok l.message] ∧
        ((∃ m, (Receiver.start (.lines maximum)).results 1 events = [.ok m] ∧ m.same l.message = true) ↔
          maximum.toNat < 2 ^ 64 - 1 ∧ l.message.Sendable Json.ReadsBack (Codec.lines maximum).levels) := by
  have hfits : l'.Fits (.frames maximum'.toNat) :=
    fits_of_sendable
      (by rw [hm]; exact hv.mono (fun _ _ => trivial) (by simp [Codec.levels, Json.maxDepth, MsgPack.maxDepth])) hs'
  refine ⟨_, _, rfl, (encode_of_fits hfits).1, fun events events' hy hfailed hy' hfailed' => ⟨?_, ?_⟩⟩
  · rw [← hm]
    exact received_of_fits rfl hfits (encode_of_fits hfits).1 hy' (Codec.unfailed_frames hfailed')
  · constructor
    · rintro ⟨m, hresults, hsame⟩
      by_cases hlt : maximum.toNat < 2 ^ 64 - 1
      · exact ⟨hlt, sendable_of_received (Codec.not_overflows_of_lt hlt) hv (by simp [Codec.levels, Json.maxDepth])
          hs hy
          (Codec.unfailed_lines hfailed) hresults hsame⟩
      · -- a receiver without room for a byte receives no message
        have hover := Codec.overflows_of_not_lt hlt
        rw [Receiver.results_of_stunned (Receiver.account_of_overflows hover).start] at hresults
        simp at hresults
    · rintro ⟨hlt, hreads⟩
      refine ⟨l.message, ?_, Message.same_refl _⟩
      exact received_of_fits (Codec.not_overflows_of_lt hlt) (fits_of_sendable hreads hs) rfl hy
        (Codec.unfailed_lines hfailed)

/-- The named arguments come out of order in the line, and in order in the frame. -/
theorem same_of_move :
    ∃ line frame m, shuffled.encode (.lines 160) = .ok line ∧
      (ofMessage move shuffled.sorted).encode (.frames 100) = .ok frame ∧
      (Receiver.start (.lines 160)).results 1 (trickle line) = [.ok m] ∧ m.same move = true ∧
      (Receiver.start (.frames 100)).results 1 (trickle frame) = [.ok move] := by
  obtain ⟨line, frame, hline, hframe, hresults⟩ := same_of_both_formats 160 100 shuffled
    (ofMessage move shuffled.sorted) rfl (move_sendable trivial 123) (by decide +kernel) (by decide +kernel)
  obtain ⟨hpacked, hagree⟩ := hresults (trickle line) (trickle frame) (yields_trickle line) (by simp [trickle])
    (yields_trickle frame) (by simp [trickle])
  have hz : Json.ReadsBack (.zero true) := by decide +kernel
  obtain ⟨m, hm, hsame⟩ := hagree.2 ⟨by decide, move_sendable hz 123⟩
  exact ⟨line, frame, m, hline, hframe, hm, hsame, hpacked⟩

/-- The double nearest to `10 ^ -23`. -/
def tiny : Letter :=
  plain "F" [.float ⟨0x3B282DB34012B251, by decide⟩]

/-- Whether a message has been received that is not the same as a given one. -/
def isChanged (m : Message) : List (Except Error Message) → Bool
  | [.ok m'] => !m'.same m
  | _ => false

/-- Its text is read as the double above it. -/
theorem changed_double :
    ∃ line frame m, tiny.encode (.lines 100) = .ok line ∧ tiny.encode (.frames 100) = .ok frame ∧
      (Receiver.start (.lines 100)).results 1 (trickle line) = [.ok m] ∧ m.same tiny.message = false ∧
      (Receiver.start (.frames 100)).results 1 (trickle frame) = [.ok tiny.message] := by
  have hfits : tiny.Fits (.frames (100 : UInt32).toNat) := by
    refine fits_of_sendable ⟨fun x hx => ?_, by simp [tiny, plain, ofMessage]⟩ (by decide +kernel)
    obtain rfl : x = _ := by simpa [tiny, plain, ofMessage] using hx
    exact .float _ trivial
  have hframe := (encode_of_fits hfits).1
  have hpacked := received_of_fits rfl hfits hframe (yields_trickle _) (Codec.unfailed_frames (by simp [trickle]))
  have hchanged : isChanged tiny.message ((Receiver.start (.lines 100)).results 1 (trickle
      (Json.writeMessage tiny.message.command tiny.message.args tiny.order ++ [10]))) = true := by
    decide +kernel
  unfold isChanged at hchanged
  split at hchanged
  · next m hm => exact ⟨_, _, m, rfl, hframe, hm, by simpa using hchanged, hpacked⟩
  · simp at hchanged

end Letter
end Courier
