import Courier.Bytes

/-!
# Bytes — numbers on the wire and back

- `Bytes.toNat_bigEndian` reads a written number,
- `Bytes.bigEndian_toNat` writes a number that was read,
- `Bytes.append_newline_inj` cuts a line off at its first newline.
-/

namespace Courier
namespace Bytes

/-! ## Big-endian numbers -/

@[simp] theorem length_bigEndian (width n : Nat) : (bigEndian width n).length = width := by
  induction width with
  | zero => rfl
  | succ width ih => simp [bigEndian, ih]

theorem foldl_bigEndian (width n acc : Nat) :
    (bigEndian width n).foldl (fun n b => n * 256 + b.toNat) acc =
      acc * 256 ^ width + n % 256 ^ width := by
  induction width generalizing acc with
  | zero => simp [bigEndian, Nat.mod_one]
  | succ width ih =>
      have hdigit : (UInt8.ofNat (n / 256 ^ width)).toNat = n / 256 ^ width % 256 := by simp
      simp only [bigEndian, List.foldl_cons, ih, hdigit]
      calc (acc * 256 + n / 256 ^ width % 256) * 256 ^ width + n % 256 ^ width
          = acc * 256 * 256 ^ width +
              (n % 256 ^ width + 256 ^ width * (n / 256 ^ width % 256)) := by
            rw [Nat.add_mul, Nat.mul_comm (n / 256 ^ width % 256)]
            omega
        _ = acc * 256 ^ (width + 1) + n % 256 ^ (width + 1) := by
            rw [← Nat.mod_pow_succ, Nat.mul_assoc, Nat.pow_succ, Nat.mul_comm 256]

theorem toNat_bigEndian {width n : Nat} (h : n < 256 ^ width) :
    toNat (bigEndian width n) = n := by
  unfold toNat
  rw [foldl_bigEndian, Nat.zero_mul, Nat.zero_add, Nat.mod_eq_of_lt h]

theorem foldl_toNat (bytes : Bytes) (acc : Nat) :
    bytes.foldl (fun n b => n * 256 + b.toNat) acc = acc * 256 ^ bytes.length + toNat bytes := by
  induction bytes generalizing acc with
  | nil => simp [toNat]
  | cons b bytes ih =>
      unfold toNat
      rw [List.foldl_cons, List.foldl_cons, ih, ih (0 * 256 + b.toNat), List.length_cons,
        Nat.pow_succ, Nat.zero_mul, Nat.zero_add, Nat.add_mul, Nat.mul_assoc,
        Nat.mul_comm 256 (256 ^ bytes.length)]
      omega

theorem toNat_cons (b : UInt8) (bytes : Bytes) :
    toNat (b :: bytes) = b.toNat * 256 ^ bytes.length + toNat bytes := by
  calc toNat (b :: bytes) = bytes.foldl (fun n b => n * 256 + b.toNat) (0 * 256 + b.toNat) := rfl
    _ = b.toNat * 256 ^ bytes.length + toNat bytes := by
      rw [foldl_toNat, Nat.zero_mul, Nat.zero_add]

theorem toNat_lt (bytes : Bytes) : toNat bytes < 256 ^ bytes.length := by
  induction bytes with
  | nil => simp [toNat]
  | cons b bytes ih =>
      have hb : b.toNat + 1 ≤ 256 := b.toNat_lt
      calc toNat (b :: bytes) < (b.toNat + 1) * 256 ^ bytes.length := by
            rw [toNat_cons, Nat.add_mul, Nat.one_mul]
            omega
        _ ≤ 256 * 256 ^ bytes.length := Nat.mul_le_mul_right _ hb
        _ = 256 ^ (b :: bytes).length := by rw [List.length_cons, Nat.pow_succ, Nat.mul_comm]

/-- Only the low bytes are written. -/
theorem bigEndian_add_mul (width n k : Nat) :
    bigEndian width (k * 256 ^ width + n) = bigEndian width n := by
  induction width generalizing k with
  | zero => rfl
  | succ width ih =>
      have hsplit : k * 256 ^ (width + 1) = k * 256 * 256 ^ width := by
        rw [Nat.pow_succ, Nat.mul_assoc, Nat.mul_comm 256]
      have hpos : 0 < 256 ^ width := Nat.pow_pos (by decide)
      have hdiv : (k * 256 * 256 ^ width + n) / 256 ^ width = n / 256 ^ width + k * 256 := by
        rw [Nat.add_comm, Nat.add_mul_div_right _ _ hpos]
      simp only [bigEndian, hsplit, hdiv, ih, List.cons.injEq, and_true]
      exact UInt8.toNat_inj.1 (by simp)

theorem bigEndian_toNat (bytes : Bytes) : bigEndian bytes.length (toNat bytes) = bytes := by
  induction bytes with
  | nil => rfl
  | cons b bytes ih =>
      have hpos : 0 < 256 ^ bytes.length := Nat.pow_pos (by decide)
      have hdiv : (b.toNat * 256 ^ bytes.length + toNat bytes) / 256 ^ bytes.length = b.toNat := by
        rw [Nat.add_comm, Nat.add_mul_div_right _ _ hpos, Nat.div_eq_of_lt (toNat_lt bytes),
          Nat.zero_add]
      rw [List.length_cons, bigEndian, toNat_cons, hdiv, bigEndian_add_mul, ih]
      simp

/-! ## Lines -/

/-- What stands before the first newline is determined. -/
theorem append_newline_inj {line line' rest rest' : Bytes} (h : 10 ∉ line) (h' : 10 ∉ line')
    (he : line ++ 10 :: rest = line' ++ 10 :: rest') : line = line' ∧ rest = rest' := by
  induction line generalizing line' with
  | nil =>
      cases line' with
      | nil => exact ⟨rfl, by simpa using he⟩
      | cons b line' =>
          obtain ⟨rfl, -⟩ : 10 = b ∧ _ := by simpa using he
          simp at h'
  | cons b line ih =>
      cases line' with
      | nil =>
          obtain ⟨rfl, -⟩ : b = 10 ∧ _ := by simpa using he
          simp at h
      | cons c line' =>
          obtain ⟨rfl, htail⟩ : b = c ∧ line ++ 10 :: rest = line' ++ 10 :: rest' := by
            simpa using he
          obtain ⟨rfl, rfl⟩ := ih (fun hm => h (List.mem_cons_of_mem _ hm))
            (fun hm => h' (List.mem_cons_of_mem _ hm)) htail
          exact ⟨rfl, rfl⟩

end Bytes
end Courier
