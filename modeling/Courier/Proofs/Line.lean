import Courier.Codec

/-!
# Line — lines out of a byte stream

A receiver of lines holds the unfinished line, and looks at each byte once.

1. `LineReceiver.Scanned` lists what looking through given bytes comes to, and `LineReceiver.scanned` shows that it
   comes to nothing else,
2. `Lines.pieces` cuts a stream at its newlines and limits, said without any receiver,
3. `Lines.answer` is what the calls of a receiver come to on a whole stream.

All of it is about line limits that fit a 64-bit word.
-/

namespace Courier

/-! ## Line limits -/

namespace Codec

/-- Whether the limit of a line does not fit a 64-bit word. -/
def overflows : Codec → Bool
  | .lines maximum => maximum + 1 == 0
  | .frames _ => false

theorem not_overflows_of_lt {maximum : UInt64} (h : maximum.toNat < 2 ^ 64 - 1) :
    (Codec.lines maximum).overflows = false := by
  have hadd : (maximum + 1).toNat = (maximum.toNat + 1) % 2 ^ 64 := UInt64.toNat_add _ _
  refine beq_eq_false_iff_ne.2 fun hzero => ?_
  rw [hzero, UInt64.toNat_zero] at hadd
  omega

theorem overflows_of_not_lt {maximum : UInt64} (h : ¬ maximum.toNat < 2 ^ 64 - 1) :
    (Codec.lines maximum).overflows = true := by
  have hmax : maximum.toNat < 2 ^ 64 := maximum.toNat_lt
  have hadd : (maximum + 1).toNat = (maximum.toNat + 1) % 2 ^ 64 := UInt64.toNat_add _ _
  refine beq_iff_eq.2 (UInt64.toNat_inj.1 ?_)
  rw [hadd, UInt64.toNat_zero]
  omega

end Codec

namespace LineReceiver

variable {l r : LineReceiver} {bytes line : Bytes}

theorem limit_of_not_overflows (h : (Codec.lines r.maximum).overflows = false) :
    r.limit = r.maximum.toNat + 1 := by
  have hne : r.maximum + 1 ≠ 0 := by simpa [Codec.overflows] using h
  have hnat : (r.maximum + 1).toNat ≠ 0 := fun hz => hne (UInt64.toNat_inj.1 hz)
  have hlt : r.maximum.toNat < 2 ^ 64 := r.maximum.toNat_lt
  have hadd : (r.maximum + 1).toNat = (r.maximum.toNat + 1) % 2 ^ 64 := UInt64.toNat_add _ _
  unfold limit
  rw [hadd] at hnat ⊢
  omega

theorem limit_of_overflows (h : (Codec.lines r.maximum).overflows = true) : r.limit = 0 := by
  have hz : r.maximum + 1 = 0 := by simpa [Codec.overflows] using h
  unfold limit
  rw [hz]
  rfl

/-! ## Scanning -/

/-- The receiver that has nothing but an unfinished line. -/
def unfinished (l : LineReceiver) (line : Bytes) : LineReceiver :=
  { l with buffered := [], line := line.reverse, count := line.length }

/-- What looking through the bytes behind an unfinished line comes to. -/
inductive Scanned (l : LineReceiver) : Bytes → Option (Except Error Message) → LineReceiver → Prop where
  | waiting {line : Bytes} (hn : 10 ∉ line) (hl : line.length ≤ l.maximum.toNat) :
      Scanned l line none (l.unfinished line)
  | overrun {line : Bytes} (rest : Bytes) (hn : 10 ∉ line) (hl : line.length = l.maximum.toNat + 1) :
      Scanned l (line ++ rest) (some (.error (.protocol (.lineTooLong l.maximum.toNat)))) (l.between rest)
  | blank {line rest : Bytes} {result : Option (Except Error Message)} {r : LineReceiver} (hn : 10 ∉ line)
      (hl : line.length ≤ l.maximum.toNat) (hb : (content line.reverse).all isBlank = true)
      (h : Scanned l rest result r) : Scanned l (line ++ 10 :: rest) result r
  | finished {line : Bytes} (rest : Bytes) (hn : 10 ∉ line) (hl : line.length ≤ l.maximum.toNat)
      (hb : (content line.reverse).all isBlank = false) :
      Scanned l (line ++ 10 :: rest) (some ((Json.readMessage (content line.reverse)).mapError .json))
        (l.between rest)

theorem overrun_of_length (hl : line.length = l.maximum.toNat + 1) :
    l.overrun line.length = .protocol (.lineTooLong l.maximum.toNat) := by
  unfold overrun
  rw [if_neg (by omega)]

/-- Scanning comes to one of the listed outcomes.  The induction is on the bytes, with any unfinished line in front. -/
theorem scanned (hm : (Codec.lines l.maximum).overflows = false) (bytes : Bytes) (hn : 10 ∉ line)
    (hl : line.length ≤ l.maximum.toNat + 1) :
    Scanned l (line ++ bytes) (l.scan line.reverse line.length bytes).1 (l.scan line.reverse line.length bytes).2 := by
  have hlimit : l.limit = l.maximum.toNat + 1 := limit_of_not_overflows hm
  induction bytes generalizing line with
  | nil =>
      unfold scan
      by_cases hover : l.limit ≤ line.length
      · rw [if_pos hover, overrun_of_length (by omega)]
        exact .overrun [] hn (by omega)
      · rw [if_neg hover, List.append_nil]
        exact .waiting hn (by omega)
  | cons b rest ih =>
      unfold scan
      by_cases hover : l.limit ≤ line.length
      · rw [if_pos hover, overrun_of_length (by omega)]
        exact .overrun (b :: rest) hn (by omega)
      · rw [if_neg hover]
        by_cases hb : b = 10
        · subst hb
          rw [if_pos rfl]
          cases hblank : (content line.reverse).all isBlank with
          | true =>
              simp only [hblank, if_true]
              exact .blank hn (by omega) hblank (@ih [] (by simp) (Nat.zero_le _))
          | false =>
              simp only [hblank, Bool.false_eq_true, if_false]
              exact .finished rest hn (by omega) hblank
        · -- the unfinished line grows by a byte, and the limit has just been checked
          rw [if_neg hb]
          have hnext := @ih (line ++ [b]) (by simpa [hn] using Ne.symm hb) (by simp; omega)
          simpa using hnext

theorem scanned_poll (hm : (Codec.lines l.maximum).overflows = false) (hn : 10 ∉ l.line)
    (hc : l.count = l.line.length) (hl : l.line.length ≤ l.maximum.toNat + 1) :
    Scanned l (l.line.reverse ++ l.buffered) l.poll.1 l.poll.2 := by
  have h := @scanned l l.line.reverse hm l.buffered (by simpa using hn) (by simpa using hl)
  rw [List.reverse_reverse, List.length_reverse, ← hc] at h
  exact h

end LineReceiver

/-! ## Cutting a stream -/

namespace Lines

variable {maximum : Nat} {line rest S : Bytes}

/-- The front of a stream up to its first newline, or as much of it as leaves no room for one. -/
def piece (maximum : Nat) (S : Bytes) : Bytes :=
  S.take (min ((S.takeWhile (· != 10)).length + 1) (maximum + 1))

/-- A stream cut into pieces. -/
def pieces (maximum : Nat) (S : Bytes) : List Bytes :=
  if S = [] then []
  else piece maximum S :: pieces maximum (S.drop (piece maximum S).length)
termination_by S.length
decreasing_by
  have hpos := List.length_pos_iff.2 ‹S ≠ []›
  simp only [piece, List.length_drop, List.length_take]
  omega

/-- What a piece comes to; none for a blank line.  A piece without a newline is a line that is too long, or one that the
end of the stream has cut off. -/
def outcome (maximum : Nat) (piece : Bytes) : Option (Except Error Message) :=
  if piece.getLast? = some 10 then
    if piece.all LineReceiver.isBlank then none
    else some ((Json.readMessage (LineReceiver.content piece.dropLast.reverse)).mapError .json)
  else if piece.length = maximum + 1 then some (.error (.protocol (.lineTooLong maximum)))
  else some (.error (.protocol .endedInLine))

/-- What the calls on a stream come to until it is used up. -/
def outcomes (maximum : Nat) (S : Bytes) : List (Except Error Message) :=
  (pieces maximum S).filterMap (outcome maximum)

/-- The `k`-th of the calls on a stream. -/
def answer (maximum : Nat) (S : Bytes) (k : Nat) : Except Error Message :=
  (outcomes maximum S)[k]?.getD (.error .connectionClosed)

/-- The front of a stream that is not empty is cut off, and its rest is cut by itself. -/
theorem outcomes_append (hp : piece maximum (line ++ rest) = line) (hne : line ≠ []) :
    outcomes maximum (line ++ rest) = (outcome maximum line).toList ++ outcomes maximum rest := by
  have hpieces : pieces maximum (line ++ rest) = line :: pieces maximum rest := by
    rw [pieces, if_neg (by simp [hne]), hp, List.drop_left]
  unfold outcomes
  rw [hpieces, List.filterMap_cons]
  cases outcome maximum line <;> rfl

theorem outcomes_nil (maximum : Nat) : outcomes maximum [] = [] := by
  unfold outcomes
  rw [pieces, if_pos rfl, List.filterMap_nil]

/-! ### The first piece -/

theorem takeWhile_line (hn : 10 ∉ line) (rest : Bytes) :
    (line ++ rest).takeWhile (· != 10) = line ++ rest.takeWhile (· != 10) :=
  List.takeWhile_append_of_pos fun b hb => by
    rw [bne_iff_ne]
    rintro rfl
    exact hn hb

theorem piece_newline (hn : 10 ∉ line) (hl : line.length ≤ maximum) (rest : Bytes) :
    piece maximum (line ++ [10] ++ rest) = line ++ [10] := by
  -- the newline is the byte that the limit leaves room for
  have hstop : ([10] ++ rest : Bytes).takeWhile (· != 10) = [] := rfl
  unfold piece
  rw [List.append_assoc, takeWhile_line hn, hstop, List.append_nil, ← List.append_assoc]
  refine List.take_left' ?_
  rw [List.length_append, List.length_singleton]
  omega

theorem piece_long (hn : 10 ∉ line) (hl : line.length = maximum + 1) (rest : Bytes) :
    piece maximum (line ++ rest) = line := by
  unfold piece
  rw [takeWhile_line hn, List.length_append]
  refine List.take_left' ?_
  omega

theorem piece_cut (hn : 10 ∉ line) (hl : line.length ≤ maximum) : piece maximum (line ++ []) = line := by
  unfold piece
  rw [takeWhile_line hn, List.takeWhile_nil, List.append_nil]
  refine List.take_of_length_le ?_
  omega

/-! ### What it comes to -/

/-- A carriage return that is cut off is white space. -/
theorem all_isBlank_content (line : Bytes) :
    (LineReceiver.content line).all LineReceiver.isBlank = line.all LineReceiver.isBlank := by
  cases line with
  | nil => rfl
  | cons b line =>
      by_cases hb : b = 13
      · subst hb
        simp [LineReceiver.content, LineReceiver.isBlank]
      · simp [LineReceiver.content, hb, Bool.and_comm]

theorem outcome_newline (maximum : Nat) (line : Bytes) :
    outcome maximum (line ++ [10]) =
      if (LineReceiver.content line.reverse).all LineReceiver.isBlank then none
      else some ((Json.readMessage (LineReceiver.content line.reverse)).mapError .json) := by
  have hblank : (line ++ [10]).all LineReceiver.isBlank =
      (LineReceiver.content line.reverse).all LineReceiver.isBlank := by
    rw [all_isBlank_content, List.all_append, List.all_reverse]
    simp [LineReceiver.isBlank]
  unfold outcome
  rw [if_pos List.getLast?_concat, hblank, List.dropLast_concat]

theorem outcome_unended (hn : 10 ∉ line) :
    outcome maximum line = some (.error (.protocol
      (if line.length = maximum + 1 then .lineTooLong maximum else .endedInLine))) := by
  unfold outcome
  rw [if_neg fun hlast => hn (List.mem_of_getLast? hlast)]
  split <;> rfl

/-! ### Whole streams -/

theorem outcomes_newline (hn : 10 ∉ line) (hl : line.length ≤ maximum) (rest : Bytes) :
    outcomes maximum (line ++ 10 :: rest) =
      (if (LineReceiver.content line.reverse).all LineReceiver.isBlank then []
        else [(Json.readMessage (LineReceiver.content line.reverse)).mapError .json]) ++ outcomes maximum rest := by
  have happend : line ++ 10 :: rest = line ++ [10] ++ rest := by simp
  rw [happend, outcomes_append (piece_newline hn hl rest) (by simp), outcome_newline]
  split <;> rfl

theorem outcomes_long (hn : 10 ∉ line) (hl : line.length = maximum + 1) (rest : Bytes) :
    outcomes maximum (line ++ rest) = .error (.protocol (.lineTooLong maximum)) :: outcomes maximum rest := by
  have hne : line ≠ [] := by
    rintro rfl
    simp at hl
  rw [outcomes_append (piece_long hn hl rest) hne, outcome_unended hn, if_pos hl]
  rfl

theorem outcomes_cut (hn : 10 ∉ line) (hl : line.length ≤ maximum) (hne : line ≠ []) :
    outcomes maximum line = [.error (.protocol .endedInLine)] := by
  have hcut := outcomes_append (piece_cut hn hl) hne
  rw [List.append_nil, outcomes_nil, outcome_unended hn, if_neg (by omega)] at hcut
  exact hcut

end Lines
end Courier
