import Courier.Text.Utf8

/-!
# UTF-8 — texts as bytes and back

A character is one to four bytes; `decodeFrom_char` reads one in front of anything, and `decode_encode` a whole
text.
-/

namespace Courier
namespace Utf8

theorem toNat_ofNat_of_lt {n : Nat} (h : n < 256) : (UInt8.ofNat n).toNat = n := by
  simp [Nat.mod_eq_of_lt h]

theorem isContinuation_ofNat {n : Nat} (h : n < 64) : isContinuation (UInt8.ofNat (n + 128)) = true := by
  have hn : (UInt8.ofNat (n + 128)).toNat = n + 128 := toNat_ofNat_of_lt (by omega)
  simp only [isContinuation, UInt8.le_iff_toNat_le, hn, Bool.and_eq_true, decide_eq_true_eq]
  exact ⟨by simp, by simp; omega⟩

theorem low6_ofNat {n : Nat} (h : n < 64) : low6 (UInt8.ofNat (n + 128)) = n := by
  have hn : (UInt8.ofNat (n + 128)).toNat = n + 128 := toNat_ofNat_of_lt (by omega)
  unfold low6
  rw [hn]
  omega

variable {position : Nat} {done : List Char} {s : Bytes} {v : Nat}

theorem decodeFrom_one (hv : v < 0x80) :
    decodeFrom position done (UInt8.ofNat v :: s) =
      decodeFrom (position + 1) (Char.ofNat v :: done) s := by
  have hn : (UInt8.ofNat v).toNat = v := toNat_ofNat_of_lt (by omega)
  have hlead : UInt8.ofNat v < 0x80 := by
    rw [UInt8.lt_iff_toNat_lt, hn]
    exact hv
  rw [decodeFrom.eq_def]
  simp only [if_pos hlead, hn]

theorem decodeFrom_two (h : 0x80 ≤ v) (hv : v < 0x800) :
    decodeFrom position done
        (UInt8.ofNat (v / 64 % 32 + 192) :: UInt8.ofNat (v % 64 + 128) :: s) =
      decodeFrom (position + 2) (Char.ofNat v :: done) s := by
  have hn : (UInt8.ofNat (v / 64 % 32 + 192)).toNat = v / 64 % 32 + 192 :=
    toNat_ofNat_of_lt (by omega)
  have hone : ¬ UInt8.ofNat (v / 64 % 32 + 192) < 0x80 := by
    rw [UInt8.lt_iff_toNat_lt, hn]
    simp
  have htwo : (0xC2 ≤ UInt8.ofNat (v / 64 % 32 + 192) &&
      UInt8.ofNat (v / 64 % 32 + 192) ≤ 0xDF) = true := by
    simp only [UInt8.le_iff_toNat_le, hn, Bool.and_eq_true, decide_eq_true_eq]
    exact ⟨by simp; omega, by simp; omega⟩
  have hvalue : (v / 64 % 32 + 192) % 32 * 64 + v % 64 = v := by omega
  rw [decodeFrom.eq_def]
  simp only [if_neg hone, if_pos htwo, isContinuation_ofNat (Nat.mod_lt v (by decide : 64 > 0)), if_true, hn,
    low6_ofNat (Nat.mod_lt v (by decide : 64 > 0)), hvalue]

theorem decodeFrom_three (h : 0x800 ≤ v) (hv : v < 0x10000) (hs : v < 0xD800 ∨ 0xDFFF < v) :
    decodeFrom position done
        (UInt8.ofNat (v / 4096 % 16 + 224) :: UInt8.ofNat (v / 64 % 64 + 128) ::
          UInt8.ofNat (v % 64 + 128) :: s) =
      decodeFrom (position + 3) (Char.ofNat v :: done) s := by
  have hn : (UInt8.ofNat (v / 4096 % 16 + 224)).toNat = v / 4096 % 16 + 224 :=
    toNat_ofNat_of_lt (by omega)
  have hm : (UInt8.ofNat (v / 64 % 64 + 128)).toNat = v / 64 % 64 + 128 :=
    toNat_ofNat_of_lt (by omega)
  have hone : ¬ UInt8.ofNat (v / 4096 % 16 + 224) < 0x80 := by
    rw [UInt8.lt_iff_toNat_lt, hn]
    simp
  have htwo : ¬ (0xC2 ≤ UInt8.ofNat (v / 4096 % 16 + 224) &&
      UInt8.ofNat (v / 4096 % 16 + 224) ≤ 0xDF) = true := by
    simp only [UInt8.le_iff_toNat_le, hn, Bool.and_eq_true, decide_eq_true_eq]
    simp
  have hthree : (0xE0 ≤ UInt8.ofNat (v / 4096 % 16 + 224) &&
      UInt8.ofNat (v / 4096 % 16 + 224) ≤ 0xEF) = true := by
    simp only [UInt8.le_iff_toNat_le, hn, Bool.and_eq_true, decide_eq_true_eq]
    exact ⟨by simp, by simp; omega⟩
  -- No overlong form, and no surrogate.
  have hsecond : secondOfThree (UInt8.ofNat (v / 4096 % 16 + 224)) (UInt8.ofNat (v / 64 % 64 + 128)) =
      true := by
    simp only [secondOfThree, isContinuation_ofNat (Nat.mod_lt _ (by decide : 64 > 0)),
      Bool.true_and, ← UInt8.toNat_inj, UInt8.le_iff_toNat_le, hn, hm]
    split
    · simp at *; omega
    · split
      · simp at *; omega
      · rfl
  have hvalue : (v / 4096 % 16 + 224) % 16 * 4096 + v / 64 % 64 * 64 + v % 64 = v := by omega
  rw [decodeFrom.eq_def]
  simp only [if_neg hone, if_neg htwo, if_pos hthree, hsecond,
    isContinuation_ofNat (Nat.mod_lt v (by decide : 64 > 0)), if_true, hn,
    low6_ofNat (Nat.mod_lt _ (by decide : 64 > 0)), hvalue]

theorem decodeFrom_four (h : 0x10000 ≤ v) (hv : v < 0x110000) :
    decodeFrom position done
        (UInt8.ofNat (v / 262144 % 8 + 240) :: UInt8.ofNat (v / 4096 % 64 + 128) ::
          UInt8.ofNat (v / 64 % 64 + 128) :: UInt8.ofNat (v % 64 + 128) :: s) =
      decodeFrom (position + 4) (Char.ofNat v :: done) s := by
  have hn : (UInt8.ofNat (v / 262144 % 8 + 240)).toNat = v / 262144 % 8 + 240 :=
    toNat_ofNat_of_lt (by omega)
  have hm : (UInt8.ofNat (v / 4096 % 64 + 128)).toNat = v / 4096 % 64 + 128 :=
    toNat_ofNat_of_lt (by omega)
  have hone : ¬ UInt8.ofNat (v / 262144 % 8 + 240) < 0x80 := by
    rw [UInt8.lt_iff_toNat_lt, hn]
    simp
  have htwo : ¬ (0xC2 ≤ UInt8.ofNat (v / 262144 % 8 + 240) &&
      UInt8.ofNat (v / 262144 % 8 + 240) ≤ 0xDF) = true := by
    simp only [UInt8.le_iff_toNat_le, hn, Bool.and_eq_true, decide_eq_true_eq]
    simp
  have hthree : ¬ (0xE0 ≤ UInt8.ofNat (v / 262144 % 8 + 240) &&
      UInt8.ofNat (v / 262144 % 8 + 240) ≤ 0xEF) = true := by
    simp only [UInt8.le_iff_toNat_le, hn, Bool.and_eq_true, decide_eq_true_eq]
    simp
  have hfour : (0xF0 ≤ UInt8.ofNat (v / 262144 % 8 + 240) &&
      UInt8.ofNat (v / 262144 % 8 + 240) ≤ 0xF4) = true := by
    simp only [UInt8.le_iff_toNat_le, hn, Bool.and_eq_true, decide_eq_true_eq]
    exact ⟨by simp, by simp; omega⟩
  -- No overlong form, and nothing above the last code point.
  have hsecond : secondOfFour (UInt8.ofNat (v / 262144 % 8 + 240)) (UInt8.ofNat (v / 4096 % 64 + 128)) =
      true := by
    simp only [secondOfFour, isContinuation_ofNat (Nat.mod_lt _ (by decide : 64 > 0)),
      Bool.true_and, ← UInt8.toNat_inj, UInt8.le_iff_toNat_le, hn, hm]
    split
    · simp at *; omega
    · split
      · simp at *; omega
      · rfl
  have hvalue : (v / 262144 % 8 + 240) % 8 * 262144 + v / 4096 % 64 * 4096 + v / 64 % 64 * 64 +
      v % 64 = v := by omega
  rw [decodeFrom.eq_def]
  simp only [if_neg hone, if_neg htwo, if_neg hthree, if_pos hfour, hsecond,
    isContinuation_ofNat (Nat.mod_lt _ (by decide : 64 > 0)), if_true, hn,
    low6_ofNat (Nat.mod_lt _ (by decide : 64 > 0)), hvalue]

/-- A character in front of anything is read as it was written. -/
theorem decodeFrom_char (ch : Char) :
    decodeFrom position done (String.utf8EncodeChar ch ++ s) =
      decodeFrom (position + (String.utf8EncodeChar ch).length) (ch :: done) s := by
  have hvalid : ch.val.toNat < 0xD800 ∨ 0xDFFF < ch.val.toNat ∧ ch.val.toNat < 0x110000 := ch.valid
  have hch : Char.ofNat ch.val.toNat = ch := Char.ofNat_toNat ch
  unfold String.utf8EncodeChar
  by_cases h₁ : ch.val.toNat ≤ 0x7f
  · simp only [if_pos h₁, List.cons_append, List.nil_append, List.length_cons, List.length_nil]
    rw [decodeFrom_one (by omega), hch]
  · by_cases h₂ : ch.val.toNat ≤ 0x7ff
    · simp only [if_neg h₁, if_pos h₂, List.cons_append, List.nil_append, List.length_cons,
        List.length_nil]
      rw [decodeFrom_two (by omega) (by omega), hch]
    · by_cases h₃ : ch.val.toNat ≤ 0xffff
      · simp only [if_neg h₁, if_neg h₂, if_pos h₃, List.cons_append, List.nil_append,
          List.length_cons, List.length_nil]
        rw [decodeFrom_three (by omega) (by omega) (by omega), hch]
      · simp only [if_neg h₁, if_neg h₂, if_neg h₃, List.cons_append, List.nil_append,
          List.length_cons, List.length_nil]
        rw [decodeFrom_four (by omega) (by omega), hch]

theorem decodeFrom_encode (position : Nat) (done chars : List Char) :
    decodeFrom position done (chars.flatMap String.utf8EncodeChar) = .ok (done.reverse ++ chars) := by
  induction chars generalizing position done with
  | nil => simp [decodeFrom]
  | cons ch chars ih => rw [List.flatMap_cons, decodeFrom_char, ih, List.reverse_cons, List.append_assoc,
      List.singleton_append]

/-- A text is read as it was written. -/
theorem decode_encode (s : String) : decode (encode s) = .ok s := by
  unfold decode encode
  rw [decodeFrom_encode]
  simp [Except.map]

end Utf8
end Courier
