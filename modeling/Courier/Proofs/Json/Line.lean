import Courier.Proofs.Json.RoundTrip

/-!
# Line — a written document stays on its line

Whatever stands in a message, its document is a text without control characters: in strings and keys they are written as
escapes, and everything else that is written has none.

1. `Printed` is such a text, as bytes, and `Printed.append` puts two of them together,
2. `printed_text` goes through the characters of a string,
3. `printed_write`, by induction on the value, with no condition on it,
4. `printed_writeMessage`.
-/

namespace Courier
namespace Json

variable {b : UInt8} {ch : Char} {text text' : Bytes} {parts : List Bytes}

/-! ## Texts without control characters -/

/-- The bytes of a text without control characters, such as a newline. -/
def Printed (text : Bytes) : Prop :=
  ∃ chars : List Char, text = chars.flatMap String.utf8EncodeChar ∧ ∀ ch ∈ chars, ¬ ch.toNat < 32

/-- A byte that is a character by itself and no control character. -/
def IsLetter (b : UInt8) : Prop :=
  ¬ b < 32 ∧ b < 128

instance : DecidablePred IsLetter := fun b => inferInstanceAs (Decidable (¬ b < 32 ∧ b < 128))

theorem Printed.append (h : Printed text) (h' : Printed text') : Printed (text ++ text') := by
  obtain ⟨chars, rfl, hchars⟩ := h
  obtain ⟨chars', rfl, hchars'⟩ := h'
  refine ⟨chars ++ chars', List.flatMap_append.symm, fun ch hch => ?_⟩
  rcases List.mem_append.1 hch with hch | hch
  · exact hchars ch hch
  · exact hchars' ch hch

theorem printed_char (h : ¬ ch.toNat < 32) : Printed (String.utf8EncodeChar ch) :=
  ⟨[ch], by simp, by simpa using h⟩

theorem printed_byte (h : IsLetter b) : Printed [b] := by
  have hall : ∀ n : Fin 128, String.utf8EncodeChar (Char.ofNat n.val) = [UInt8.ofNat n.val] ∧
      (Char.ofNat n.val).toNat = n.val := by decide
  obtain ⟨hbytes, hvalue⟩ := hall ⟨b.toNat, UInt8.lt_iff_toNat_lt.1 h.2⟩
  rw [UInt8.ofNat_toNat] at hbytes
  rw [← hbytes]
  refine printed_char ?_
  rw [hvalue]
  exact fun hlt => h.1 (UInt8.lt_iff_toNat_lt.2 hlt)

theorem Printed.cons (hb : IsLetter b) (h : Printed text) : Printed (b :: text) :=
  (printed_byte hb).append h

theorem printed_of_letters (h : ∀ b ∈ text, IsLetter b) : Printed text := by
  induction text with
  | nil => exact ⟨[], rfl, by simp⟩
  | cons b text ih => exact .cons (h b (List.mem_cons_self ..)) (ih fun x hx => h x (List.mem_cons_of_mem _ hx))

theorem printed_flatMap {α : Type} {f : α → Bytes} {xs : List α} (h : ∀ x ∈ xs, Printed (f x)) :
    Printed (xs.flatMap f) := by
  induction xs with
  | nil => exact printed_of_letters (by simp)
  | cons x xs ih =>
      rw [List.flatMap_cons]
      exact (h x (List.mem_cons_self ..)).append (ih fun y hy => h y (List.mem_cons_of_mem _ hy))

/-- None of its bytes is a control character either. -/
theorem Printed.ge (h : Printed text) (hb : b ∈ text) : ¬ b < 32 := by
  obtain ⟨chars, rfl, hchars⟩ := h
  obtain ⟨ch, hch, hb⟩ := List.mem_flatMap.1 hb
  by_cases hquote : ch = '"'
  · subst hquote
    obtain rfl : b = 34 := List.mem_singleton.1 hb
    decide
  by_cases hslash : ch = '\\'
  · subst hslash
    obtain rfl : b = 92 := List.mem_singleton.1 hb
    decide
  exact (Text.isPlain_of_mem hquote hslash (hchars ch hch) hb).2.2

/-! ## Strings -/

theorem isLetter_hexDigit {n : Nat} (h : n < 16) : IsLetter (Text.hexDigit n) := by
  have hall : ∀ n : Fin 16, IsLetter (Text.hexDigit n.val) := by decide
  exact hall ⟨n, h⟩

/-- What stands behind the backslash of a short escape. -/
theorem isLetter_of_shortEscape? {x : UInt8} (h : Text.shortEscape? b = some x) : IsLetter b := by
  have hall : ∀ n : Fin 256, (Text.shortEscape? (UInt8.ofNat n.val)).isSome = true → IsLetter (UInt8.ofNat n.val) := by
    decide +kernel
  have hletter := hall ⟨b.toNat, b.toNat_lt⟩
  rw [UInt8.ofNat_toNat, h] at hletter
  exact hletter rfl

/-- A character that stands for itself is no control character: one would be a single byte below 32. -/
theorem toNat_of_isPlain (h : ∀ b ∈ String.utf8EncodeChar ch, Text.IsPlain b) : ¬ ch.toNat < 32 := by
  intro hlt
  have hval : ch.val.toNat < 32 := hlt
  have hbytes : String.utf8EncodeChar ch = [UInt8.ofNat ch.val.toNat] := by
    unfold String.utf8EncodeChar
    simp only [if_pos (show ch.val.toNat ≤ 0x7f by omega)]
  refine (h (UInt8.ofNat ch.val.toNat) (by rw [hbytes]; exact List.mem_cons_self ..)).2.2 ?_
  rw [UInt8.lt_iff_toNat_lt, Utf8.toNat_ofNat_of_lt (by omega)]
  exact hval

theorem printed_writeChar (ch : Char) : Printed (Text.writeChar ch) := by
  have hwritten := Text.written_writeChar ch
  generalize Text.writeChar ch = text at hwritten
  cases hwritten with
  | short hs _ => exact .cons (by decide) (printed_byte (isLetter_of_shortEscape? hs))
  | numbered hn =>
      refine .cons (by decide) (.cons (by decide) (.cons (by decide) (.cons (by decide) ?_)))
      exact .cons (isLetter_hexDigit (by omega)) (printed_byte (isLetter_hexDigit (by omega)))
  | plain hp => exact printed_char (toNat_of_isPlain hp)

/-- A string, whatever its characters are. -/
theorem printed_text (s : String) : Printed (Text.write s) := by
  rw [Text.write_eq]
  exact .cons (by decide) ((printed_flatMap fun ch _ => printed_writeChar ch).append (printed_byte (by decide)))

/-! ## Values -/

theorem IsNumeric.isLetter (h : IsNumeric b) : IsLetter b := by
  refine ⟨h.ge, ?_⟩
  rcases h with h | rfl | rfl | rfl | rfl
  · simp only [Bytes.isDigit, Bool.and_eq_true, decide_eq_true_eq] at h
    exact UInt8.lt_of_le_of_lt h.2 (by decide)
  all_goals decide

theorem printed_writeInt (i : WireInt) : Printed (writeInt i) := by
  have hnumeral : ∀ k, Printed (Bytes.numeral k) := fun k =>
    printed_of_letters fun _ hb => (isNumeric_of_mem_numeral hb).isLetter
  unfold writeInt
  split
  · exact hnumeral _
  · exact .cons (by decide) (hnumeral _)

theorem printed_separated (h : ∀ part ∈ parts, Printed part) : Printed (separated parts) := by
  cases parts with
  | nil => exact printed_of_letters (by simp [separated, List.intercalate])
  | cons part parts =>
      rw [separated_cons]
      refine (h part (List.mem_cons_self ..)).append (printed_flatMap fun p hp => ?_)
      exact .cons (by decide) (h p (List.mem_cons_of_mem _ hp))

mutual

/-- A value, whatever it is and however deeply it is nested. -/
theorem printed_write (v : Value) : Printed (write v) := by
  cases v with
  | null => exact printed_of_letters (by decide +kernel)
  | bool b => cases b <;> exact printed_of_letters (by decide +kernel)
  | int n =>
      rw [write]
      exact printed_writeInt n
  | float x =>
      rw [write]
      exact printed_of_letters fun _ hb => (isNumeric_of_mem_text hb).isLetter
  | str s =>
      rw [write]
      exact printed_text s
  | arr xs =>
      rw [write_arr]
      exact .cons (by decide) ((printed_separated (printed_elements xs)).append (printed_byte (by decide)))
  | obj es =>
      rw [write_obj]
      exact .cons (by decide) ((printed_separated (printed_entries es)).append (printed_byte (by decide)))

theorem printed_elements (xs : List Value) : ∀ part ∈ xs.map write, Printed part := by
  cases xs with
  | nil => simp
  | cons x xs =>
      intro part hpart
      rcases List.mem_cons.1 hpart with rfl | hpart
      · exact printed_write x
      · exact printed_elements xs part hpart

theorem printed_entries (es : List (String × Value)) : ∀ part ∈ es.map writeEntry, Printed part := by
  cases es with
  | nil => simp
  | cons e es =>
      intro part hpart
      rcases List.mem_cons.1 hpart with rfl | hpart
      · exact printed_entry e
      · exact printed_entries es part hpart

theorem printed_entry (e : String × Value) : Printed (writeEntry e) := by
  obtain ⟨key, v⟩ := e
  rw [writeEntry_eq]
  exact (printed_text key).append (.cons (by decide) (printed_write v))

end

/-! ## Messages -/

theorem printed_writeField (field : Field) (h : Printed text) : Printed (writeField field text) :=
  (printed_text field.name).append (.cons (by decide) h)

/-- A written message stays on its line, whatever its command and its arguments are. -/
theorem printed_writeMessage (command : String) (args : List Value) (kwargs : List (String × Value)) :
    Printed (writeMessage command args kwargs) := by
  refine .cons (by decide) (.append (printed_separated fun part hpart => ?_) (printed_byte (by decide)))
  simp only [List.mem_cons, List.not_mem_nil, or_false] at hpart
  rcases hpart with rfl | rfl | rfl
  · exact printed_writeField .command (printed_text command)
  · exact printed_writeField .args (printed_write _)
  · exact printed_writeField .kwargs (printed_write _)

end Json
end Courier
