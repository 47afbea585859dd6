import Courier.Json.Reader
import Courier.Proofs.Text.Utf8

/-!
# Text — written strings read back

1. what the steps of a cursor leave unread,
2. `Text.readBytes_chars` — the characters of a string, one by one,
3. `Text.read_write` — a string with its quotes.

Places are left out: a reader of written text never fails, so they do not show.
-/

namespace Courier
namespace Json

/-! ## Cursors -/

namespace Cursor

variable {c : Cursor} {b : UInt8} {rest : Bytes}

theorem peek_of_rest (h : c.rest = b :: rest) : c.peek = some b := by
  rw [peek, h]
  rfl

theorem rest_advance (h : c.rest = b :: rest) : c.advance.rest = rest := by
  unfold advance
  rw [h]
  by_cases hb : b = 10 <;> simp [past, hb]

theorem skipBlank_of_rest (h : c.rest = b :: rest) (hb : isBlank b = false) : c.skipBlank = c := by
  obtain ⟨text, line, column⟩ := c
  obtain rfl : text = b :: rest := h
  simp [skipBlank, skipWhile, skipFrom, hb]

end Cursor

namespace Text

/-! ## Escapes -/

theorem hexValue?_hexDigit {n : Nat} (h : n < 16) : hexValue? (hexDigit n) = some n := by
  have hall : ∀ n : Fin 16, hexValue? (hexDigit n.val) = some n.val := by decide
  exact hall ⟨n, h⟩

theorem hexEscape_of_rest {c : Cursor} {n m : Nat} {rest : Bytes} (hn : n < 16) (hm : m < 16)
    (h : c.rest = 48 :: 48 :: hexDigit n :: hexDigit m :: rest) :
    ∃ c', hexEscape c = .ok (n * 16 + m, c') ∧ c'.rest = rest := by
  have hzero : hexValue? 48 = some 0 := rfl
  have h₁ := Cursor.rest_advance h
  have h₂ := Cursor.rest_advance h₁
  have h₃ := Cursor.rest_advance h₂
  refine ⟨c.advance.advance.advance.advance, ?_, Cursor.rest_advance h₃⟩
  unfold hexEscape
  rw [h]
  simp only [hzero, hexValue?_hexDigit hn, hexValue?_hexDigit hm, Nat.zero_mul, Nat.zero_add]

/-- A byte that stands for itself inside a string. -/
def IsPlain (b : UInt8) : Prop :=
  b ≠ 34 ∧ b ≠ 92 ∧ ¬ b < 32

variable {c : Cursor} {rest : Bytes}

theorem readBytes_plain (fuel : Nat) (done : Bytes) {bytes : Bytes} (hb : ∀ b ∈ bytes, IsPlain b)
    (h : c.rest = bytes ++ rest) :
    ∃ c', readBytes (fuel + bytes.length) done c = readBytes fuel (bytes.reverse ++ done) c' ∧
      c'.rest = rest := by
  induction bytes generalizing c done with
  | nil => exact ⟨c, rfl, h⟩
  | cons b bytes ih =>
      obtain ⟨hquote, hslash, hcontrol⟩ := hb b (List.mem_cons_self ..)
      obtain ⟨c', hread, hrest⟩ := ih (b :: done)
        (fun x hx => hb x (List.mem_cons_of_mem _ hx)) (Cursor.rest_advance h)
      refine ⟨c', ?_, hrest⟩
      rw [List.length_cons, ← Nat.add_assoc, readBytes, Cursor.peek_of_rest h]
      simp only [if_neg hquote, if_neg hslash, if_neg hcontrol, hread]
      simp

theorem readBytes_escape {fuel : Nat} {done bytes : Bytes} {d : Cursor} (h : c.rest = 92 :: rest)
    (he : escape c.advance = .ok (bytes, d)) :
    readBytes (fuel + 1) done c = readBytes fuel (bytes.reverse ++ done) d := by
  rw [readBytes, Cursor.peek_of_rest h]
  simp only [he, if_true]
  rw [if_neg (by decide)]

theorem escape_short {b x : UInt8} (hs : shortEscape? b = some x) (h : c.rest = b :: rest) :
    escape c = .ok ([x], c.advance) := by
  unfold escape
  rw [Cursor.peek_of_rest h]
  simp only [hs]

theorem escape_unicode {n : Nat} (hn : n < 32)
    (h : c.rest = 117 :: 48 :: 48 :: hexDigit (n / 16) :: hexDigit (n % 16) :: rest) :
    ∃ d, escape c = .ok (String.utf8EncodeChar (Char.ofNat n), d) ∧ d.rest = rest := by
  obtain ⟨d, hhex, hd⟩ := hexEscape_of_rest (c := c.advance) (n := n / 16) (m := n % 16) (by omega)
    (by omega) (Cursor.rest_advance h)
  refine ⟨d, ?_, hd⟩
  have hn' : n / 16 * 16 + n % 16 = n := by omega
  have htrailing : isTrailing n = false := by
    simp only [isTrailing, Bool.and_eq_false_iff, decide_eq_false_iff_not]
    omega
  have hleading : isLeading n = false := by
    simp only [isLeading, Bool.and_eq_false_iff, decide_eq_false_iff_not]
    omega
  have hunicode : unicodeEscape c.advance = .ok (Char.ofNat n, d) := by
    unfold unicodeEscape
    rw [hhex, hn']
    simp [bind, Except.bind, htrailing, hleading]
  have hshort : shortEscape? 117 = none := rfl
  unfold escape
  rw [Cursor.peek_of_rest h]
  simp only [hshort, if_true, hunicode, Except.map]

/-! ## Characters -/

/-- The bytes of a character that needs no escape. -/
theorem isPlain_of_mem {ch : Char} {b : UInt8} (hq : ch ≠ '"') (hs : ch ≠ '\\')
    (hc : ¬ ch.toNat < 32) (hb : b ∈ String.utf8EncodeChar ch) : IsPlain b := by
  have hq' : ch.val.toNat ≠ 34 := fun h => hq (Char.ext (UInt32.toNat_inj.1 h))
  have hs' : ch.val.toNat ≠ 92 := fun h => hs (Char.ext (UInt32.toNat_inj.1 h))
  have hc' : ¬ ch.val.toNat < 32 := hc
  have hplain : ∀ n, n < 256 → n ≠ 34 → n ≠ 92 → ¬ n < 32 → IsPlain (UInt8.ofNat n) := by
    intro n hn h₁ h₂ h₃
    have hnat : (UInt8.ofNat n).toNat = n := Utf8.toNat_ofNat_of_lt hn
    refine ⟨fun h => ?_, fun h => ?_, fun h => ?_⟩
    · rw [h] at hnat
      exact h₁ hnat.symm
    · rw [h] at hnat
      exact h₂ hnat.symm
    · rw [UInt8.lt_iff_toNat_lt, hnat] at h
      exact h₃ h
  unfold String.utf8EncodeChar at hb
  -- where a character takes several bytes, all of them are above those that have a meaning
  by_cases h₁ : ch.val.toNat ≤ 0x7f
  · simp only [if_pos h₁, List.mem_singleton] at hb
    subst hb
    exact hplain _ (by omega) hq' hs' hc'
  · by_cases h₂ : ch.val.toNat ≤ 0x7ff
    · simp only [if_neg h₁, if_pos h₂, List.mem_cons, List.not_mem_nil, or_false] at hb
      rcases hb with rfl | rfl
      · exact hplain _ (by omega) (by omega) (by omega) (by omega)
      · exact hplain _ (by omega) (by omega) (by omega) (by omega)
    · by_cases h₃ : ch.val.toNat ≤ 0xffff
      · simp only [if_neg h₁, if_neg h₂, if_pos h₃, List.mem_cons, List.not_mem_nil, or_false] at hb
        rcases hb with rfl | rfl | rfl
        · exact hplain _ (by omega) (by omega) (by omega) (by omega)
        · exact hplain _ (by omega) (by omega) (by omega) (by omega)
        · exact hplain _ (by omega) (by omega) (by omega) (by omega)
      · simp only [if_neg h₁, if_neg h₂, if_neg h₃, List.mem_cons, List.not_mem_nil, or_false] at hb
        rcases hb with rfl | rfl | rfl | rfl
        · exact hplain _ (by omega) (by omega) (by omega) (by omega)
        · exact hplain _ (by omega) (by omega) (by omega) (by omega)
        · exact hplain _ (by omega) (by omega) (by omega) (by omega)
        · exact hplain _ (by omega) (by omega) (by omega) (by omega)

/-- How a character is written: as a short escape, as a numbered one, or as it is. -/
inductive Written (ch : Char) : Bytes → Prop where
  | short {b x : UInt8} (hs : shortEscape? b = some x) (hx : [x] = String.utf8EncodeChar ch) :
      Written ch [92, b]
  | numbered (hn : ch.toNat < 32) :
      Written ch [92, 117, 48, 48, hexDigit (ch.toNat / 16), hexDigit (ch.toNat % 16)]
  | plain (hp : ∀ b ∈ String.utf8EncodeChar ch, IsPlain b) : Written ch (String.utf8EncodeChar ch)

theorem written_writeChar (ch : Char) : Written ch (writeChar ch) := by
  have hofNat : ∀ n, ch.toNat = n → ch = Char.ofNat n := fun n h => by
    rw [← h]
    exact (Char.ofNat_toNat ch).symm
  unfold writeChar
  by_cases h₁ : ch = '"'
  · rw [if_pos h₁, h₁]
    exact .short (x := 34) rfl rfl
  by_cases h₂ : ch = '\\'
  · rw [if_neg h₁, if_pos h₂, h₂]
    exact .short (x := 92) rfl rfl
  by_cases h₃ : ch.toNat = 8
  · rw [if_neg h₁, if_neg h₂, if_pos h₃, hofNat 8 h₃]
    exact .short (x := 8) rfl rfl
  by_cases h₄ : ch.toNat = 12
  · rw [if_neg h₁, if_neg h₂, if_neg h₃, if_pos h₄, hofNat 12 h₄]
    exact .short (x := 12) rfl rfl
  by_cases h₅ : ch.toNat = 10
  · rw [if_neg h₁, if_neg h₂, if_neg h₃, if_neg h₄, if_pos h₅, hofNat 10 h₅]
    exact .short (x := 10) rfl rfl
  by_cases h₆ : ch.toNat = 13
  · rw [if_neg h₁, if_neg h₂, if_neg h₃, if_neg h₄, if_neg h₅, if_pos h₆, hofNat 13 h₆]
    exact .short (x := 13) rfl rfl
  by_cases h₇ : ch.toNat = 9
  · rw [if_neg h₁, if_neg h₂, if_neg h₃, if_neg h₄, if_neg h₅, if_neg h₆, if_pos h₇, hofNat 9 h₇]
    exact .short (x := 9) rfl rfl
  rw [if_neg h₁, if_neg h₂, if_neg h₃, if_neg h₄, if_neg h₅, if_neg h₆, if_neg h₇]
  by_cases h₈ : ch.toNat < 32
  · rw [if_pos h₈]
    exact .numbered h₈
  · rw [if_neg h₈]
    exact .plain fun b => isPlain_of_mem h₁ h₂ h₈

/-- A written character is read as its bytes. -/
theorem readBytes_char {fuel : Nat} (done : Bytes) {ch : Char} {text : Bytes} (hw : Written ch text)
    (h : c.rest = text ++ rest)
    (hf : text.length + rest.length ≤ fuel) :
    ∃ c' fuel', readBytes fuel done c =
      readBytes fuel' ((String.utf8EncodeChar ch).reverse ++ done) c' ∧ c'.rest = rest ∧
      rest.length ≤ fuel' := by
  cases hw with
  | @short b x hs hx =>
      obtain ⟨f, rfl⟩ : ∃ f, fuel = f + 1 := ⟨fuel - 1, by simp at hf; omega⟩
      have hrest : c.advance.rest = b :: rest := Cursor.rest_advance h
      refine ⟨c.advance.advance, f, ?_, Cursor.rest_advance hrest, by simp at hf; omega⟩
      rw [readBytes_escape h (escape_short hs hrest), hx]
  | numbered hn =>
      obtain ⟨f, rfl⟩ : ∃ f, fuel = f + 1 := ⟨fuel - 1, by simp at hf; omega⟩
      obtain ⟨d, he, hd⟩ := escape_unicode hn (Cursor.rest_advance h)
      refine ⟨d, f, ?_, hd, by simp at hf; omega⟩
      have hch : Char.ofNat ch.toNat = ch := Char.ofNat_toNat ch
      rw [hch] at he
      rw [readBytes_escape h he]
  | plain hp =>
      obtain ⟨f, rfl⟩ : ∃ f, fuel = f + (String.utf8EncodeChar ch).length :=
        ⟨fuel - (String.utf8EncodeChar ch).length, by omega⟩
      obtain ⟨c', hread, hrest⟩ := readBytes_plain f done hp h
      exact ⟨c', f, hread, hrest, by omega⟩

theorem readBytes_chars (fuel : Nat) (done : Bytes) {chars : List Char}
    (h : c.rest = chars.flatMap writeChar ++ 34 :: rest)
    (hf : c.rest.length ≤ fuel) :
    ∃ c', readBytes fuel done c =
      .ok (done.reverse ++ chars.flatMap String.utf8EncodeChar, c') ∧ c'.rest = rest := by
  induction chars generalizing c done fuel with
  | nil =>
      have h' : c.rest = 34 :: rest := h
      obtain ⟨f, rfl⟩ : ∃ f, fuel = f + 1 := ⟨fuel - 1, by rw [h'] at hf; simp at hf; omega⟩
      refine ⟨c.advance, ?_, Cursor.rest_advance h'⟩
      rw [readBytes, Cursor.peek_of_rest h']
      simp
  | cons ch chars ih =>
      rw [List.flatMap_cons, List.append_assoc] at h
      rw [h, List.length_append] at hf
      obtain ⟨c', fuel', hread, hrest, hf'⟩ :=
        readBytes_char done (written_writeChar ch) h hf
      obtain ⟨c'', hread', hrest'⟩ := ih fuel'
        ((String.utf8EncodeChar ch).reverse ++ done) hrest (by rw [hrest]; exact hf')
      refine ⟨c'', ?_, hrest'⟩
      rw [hread, hread']
      simp

/-- A written string, whose opening quote has been read, is read as it was written. -/
theorem read_chars {fuel : Nat} {s : String} (h : c.rest = s.toList.flatMap writeChar ++ 34 :: rest)
    (hf : c.rest.length ≤ fuel) : ∃ c', read fuel c = .ok (s, c') ∧ c'.rest = rest := by
  obtain ⟨c', hread, hrest⟩ := readBytes_chars fuel [] h hf
  refine ⟨c', ?_, hrest⟩
  have hdecode : Utf8.decode (s.toList.flatMap String.utf8EncodeChar) = .ok s := Utf8.decode_encode s
  unfold read
  rw [hread]
  simp only [List.reverse_nil, List.nil_append, hdecode]

theorem write_eq (s : String) : write s = 34 :: (s.toList.flatMap writeChar ++ [34]) := rfl

/-- A written string is read as it was written. -/
theorem read_write {fuel : Nat} {s : String} (h : c.rest = write s ++ rest) (hf : c.rest.length ≤ fuel) :
    ∃ c', read fuel c.advance = .ok (s, c') ∧ c'.rest = rest := by
  have h' : c.rest = 34 :: (s.toList.flatMap writeChar ++ 34 :: rest) := by
    rw [h, write_eq]
    simp
  have hadvance : c.advance.rest = s.toList.flatMap writeChar ++ 34 :: rest := Cursor.rest_advance h'
  have hlength : c.advance.rest.length ≤ fuel := by
    rw [hadvance]
    rw [h', List.length_cons] at hf
    omega
  exact read_chars hadvance hlength

end Text
end Json
end Courier
