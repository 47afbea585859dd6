import Courier.Json.Document
import Courier.Proofs.Json.Text

/-!
# Numeral — numerals with something behind them

A numeral is read as far as it goes.  What stands behind it in an array or object starts with a byte that no
numeral contains, so it is read there as it is read alone.

1. `Numeral.Transfers` compares two runs of a reader, one with more behind its text,
2. `Numeral.transfers_read` holds of the reader of numerals,
3. `Numeral.read_numeral` reads written integers,
4. `Double.isNumeric_text` says which bytes a written double has,
5. `value_of_readsBack` reads a written double inside a document.
-/

namespace Courier
namespace Json

/-- What may stand behind a numeral. -/
def EndsNumeral (rest : Bytes) : Prop :=
  ∀ b, rest.head? = some b → Bytes.isDigit b = false ∧ b ≠ 46 ∧ b ≠ 101 ∧ b ≠ 69

/-- What may stand behind digits. -/
def EndsDigits (rest : Bytes) : Prop :=
  ∀ b, rest.head? = some b → Bytes.isDigit b = false

theorem EndsNumeral.endsDigits {rest : Bytes} (h : EndsNumeral rest) : EndsDigits rest :=
  fun b hb => (h b hb).1

namespace Numeral

/-! ## More behind the text -/

/-- A number that is found in a text is found as well with more behind it, and what is left unread is the
same. -/
def Transfers (text rest : Bytes) (r r' : Read Number) : Prop :=
  ∀ n c, r = .ok (n, c) → c.rest <:+ text ∧ ∃ d, r' = .ok (n, d) ∧ d.rest = c.rest ++ rest

variable {rest text : Bytes} {c d : Cursor} {r r' : Read Number}

theorem Transfers.of_error {f : Fault} : Transfers text rest (.error f) r' := by
  intro n c h
  simp at h

theorem Transfers.mono {text' : Bytes} (h : Transfers text rest r r') (ht : text <:+ text') :
    Transfers text' rest r r' := by
  intro n c hr
  obtain ⟨hc, hd⟩ := h n c hr
  exact ⟨hc.trans ht, hd⟩

section

variable (hr : EndsNumeral rest) (he : d.rest = c.rest ++ rest)

theorem peek_of_extends {b : UInt8} {text : Bytes} (hc : c.rest = b :: text)
    (he : d.rest = c.rest ++ rest) : d.peek = c.peek := by
  have hd : d.rest = b :: (text ++ rest) := by
    rw [he, hc]
    rfl
  rw [Cursor.peek_of_rest hc, Cursor.peek_of_rest hd]

include hr he in
theorem atDigit_of_extends : atDigit d = atDigit c := by
  unfold atDigit Cursor.peek
  rw [he]
  cases hc : c.rest with
  | cons b text => rfl
  | nil =>
      rw [List.nil_append]
      cases hb : rest.head? with
      | none => rfl
      | some b => simp [(hr b hb).1]

include hr he in
theorem atExponent_of_extends : atExponent d = atExponent c := by
  unfold atExponent Cursor.peek
  rw [he]
  cases hc : c.rest with
  | cons b text => rfl
  | nil =>
      rw [List.nil_append]
      cases hb : rest.head? with
      | none => rfl
      | some b => simp [(hr b hb).2.2.1, (hr b hb).2.2.2]

include hr he in
theorem atPoint_of_extends : (d.peek == some 46) = (c.peek == some 46) := by
  unfold Cursor.peek
  rw [he]
  cases hc : c.rest with
  | cons b text => rfl
  | nil =>
      rw [List.nil_append]
      cases hb : rest.head? with
      | none => rfl
      | some b => simp [(hr b hb).2.1]

end

theorem advance_of_extends {b : UInt8} {text : Bytes} (hc : c.rest = b :: text)
    (he : d.rest = c.rest ++ rest) :
    d.advance.rest = c.advance.rest ++ rest ∧ c.advance.rest <:+ c.rest := by
  have hd : d.rest = b :: (text ++ rest) := by
    rw [he, hc]
    rfl
  rw [Cursor.rest_advance hc, Cursor.rest_advance hd, hc]
  exact ⟨rfl, List.suffix_cons b text⟩

/-! ## Digits -/

theorem digitsFrom_append (hr : EndsDigits rest) (bound value count : Nat) (bytes : Bytes) :
    digitsFrom bound value count (bytes ++ rest) =
      ((digitsFrom bound value count bytes).1, (digitsFrom bound value count bytes).2.1,
        (digitsFrom bound value count bytes).2.2 ++ rest) := by
  induction bytes generalizing value count with
  | nil =>
      cases rest with
      | nil => rfl
      | cons b rest =>
          have hb : Bytes.isDigit b = false := hr b rfl
          simp [digitsFrom, hb]
  | cons b bytes ih =>
      rw [List.cons_append, digitsFrom, digitsFrom]
      by_cases hb : (Bytes.isDigit b && decide (value * 10 + Bytes.digitValue b < bound)) = true
      · simp only [if_pos hb, ih]
      · simp only [if_neg hb, List.cons_append]

theorem digitsFrom_suffix (bound value count : Nat) (bytes : Bytes) :
    (digitsFrom bound value count bytes).2.2 <:+ bytes := by
  induction bytes generalizing value count with
  | nil => exact List.suffix_rfl
  | cons b bytes ih =>
      rw [digitsFrom]
      by_cases hb : (Bytes.isDigit b && decide (value * 10 + Bytes.digitValue b < bound)) = true
      · simp only [if_pos hb]
        exact (ih _ _).trans (List.suffix_cons b bytes)
      · simp only [if_neg hb]
        exact List.suffix_rfl

theorem digits_of_extends (hr : EndsNumeral rest) (he : d.rest = c.rest ++ rest) (bound value : Nat) :
    ∃ v k c' d', digits bound value c = (v, k, c') ∧ digits bound value d = (v, k, d') ∧
      d'.rest = c'.rest ++ rest ∧ c'.rest <:+ c.rest := by
  unfold digits
  rw [he, digitsFrom_append hr.endsDigits]
  exact ⟨_, _, _, _, rfl, rfl, rfl, digitsFrom_suffix _ _ _ _⟩

theorem skipFrom_isDigit (line column : Nat) (bytes : Bytes) :
    Cursor.skipFrom Bytes.isDigit line column bytes =
      ⟨bytes.dropWhile Bytes.isDigit, line, column + (bytes.takeWhile Bytes.isDigit).length⟩ := by
  induction bytes generalizing column with
  | nil => rfl
  | cons b bytes ih =>
      rw [Cursor.skipFrom]
      by_cases hb : Bytes.isDigit b = true
      · have hnewline : b ≠ 10 := by
          rintro rfl
          simp [Bytes.isDigit] at hb
        rw [if_pos hb, if_neg hnewline, ih]
        simp only [List.dropWhile_cons, List.takeWhile_cons, hb, if_true, List.length_cons,
          Cursor.mk.injEq, true_and]
        omega
      · rw [if_neg hb]
        simp [hb]

theorem skipDigits_eq (c : Cursor) :
    (skipDigits c).1 = (c.rest.takeWhile Bytes.isDigit).length ∧
      (skipDigits c).2.rest = c.rest.dropWhile Bytes.isDigit := by
  unfold skipDigits Cursor.skipWhile
  rw [skipFrom_isDigit]
  exact ⟨Nat.add_sub_cancel_left _ _, rfl⟩

theorem span_append (hr : EndsDigits rest) (bytes : Bytes) :
    (bytes ++ rest).takeWhile Bytes.isDigit = bytes.takeWhile Bytes.isDigit ∧
      (bytes ++ rest).dropWhile Bytes.isDigit = bytes.dropWhile Bytes.isDigit ++ rest := by
  induction bytes with
  | nil =>
      cases rest with
      | nil => exact ⟨rfl, rfl⟩
      | cons b rest =>
          have hb : Bytes.isDigit b = false := hr b rfl
          simp [hb]
  | cons b bytes ih =>
      by_cases hb : Bytes.isDigit b = true
      · simp [hb, ih]
      · simp [hb]

theorem skipDigits_of_extends (hr : EndsNumeral rest) (he : d.rest = c.rest ++ rest) :
    (skipDigits d).1 = (skipDigits c).1 ∧
      (skipDigits d).2.rest = (skipDigits c).2.rest ++ rest ∧ (skipDigits c).2.rest <:+ c.rest := by
  obtain ⟨htake, hdrop⟩ := span_append hr.endsDigits c.rest
  rw [(skipDigits_eq d).1, (skipDigits_eq d).2, (skipDigits_eq c).1, (skipDigits_eq c).2, he, htake,
    hdrop]
  exact ⟨rfl, rfl, List.dropWhile_suffix _⟩

/-! ## The parts of a numeral -/

section

variable (hr : EndsNumeral rest)

theorem transfers_double {negative : Bool} {significand : Nat} {exponent : Int}
    (he : d.rest = c.rest ++ rest) :
    Transfers c.rest rest (double negative significand exponent c)
      (double negative significand exponent d) := by
  unfold double
  cases Decimal.toDouble? negative significand exponent with
  | none => exact .of_error
  | some x =>
      intro n c' h
      obtain ⟨rfl, rfl⟩ : Number.float x = n ∧ c = c' := by simpa using h
      exact ⟨List.suffix_rfl, d, rfl, he⟩

include hr in
theorem transfers_exponentDigits {negative down : Bool} {significand : Nat} {shift : Int}
    (he : d.rest = c.rest ++ rest) :
    Transfers c.rest rest (exponentDigits negative down significand shift c)
      (exponentDigits negative down significand shift d) := by
  unfold exponentDigits
  cases hc : c.rest with
  | nil =>
      have hpeek : c.peek = none := by rw [Cursor.peek, hc]; rfl
      rw [hpeek]
      exact .of_error
  | cons b bytes =>
      rw [peek_of_extends hc he, Cursor.peek_of_rest hc, atDigit_of_extends hr he, ← hc]
      simp only
      by_cases hdigit : atDigit c = true
      · rw [if_pos hdigit, if_pos hdigit]
        obtain ⟨e, k, c', d', hdc, hdd, he', hsuffix⟩ := digits_of_extends hr he exponentBound 0
        rw [hdc, hdd]
        simp only [atDigit_of_extends hr he']
        -- digits that are left over would take the exponent out of its range
        by_cases hmore : atDigit c' = true
        · rw [if_pos hmore, if_pos hmore]
          by_cases hrange : (decide (significand ≠ 0) && !down) = true
          · rw [if_pos hrange]
            exact .of_error
          · rw [if_neg hrange, if_neg hrange]
            cases hc' : c'.rest with
            | nil => simp [atDigit, Cursor.peek, hc'] at hmore
            | cons b' bytes' =>
                obtain ⟨hadvance, hsuffix'⟩ := advance_of_extends hc' he'
                obtain ⟨-, hskip, hsuffix''⟩ := skipDigits_of_extends hr hadvance
                intro n c'' h
                obtain ⟨rfl, rfl⟩ : Number.float (Double.zero negative) = n ∧
                    (skipDigits c'.advance).2 = c'' := by simpa using h
                exact ⟨(hsuffix''.trans hsuffix').trans hsuffix, _, rfl, hskip⟩
        · rw [if_neg hmore, if_neg hmore]
          exact (transfers_double he').mono hsuffix
      · rw [if_neg hdigit]
        exact .of_error

include hr in
theorem transfers_exponent {negative : Bool} {significand : Nat} {shift : Int} {b : UInt8}
    {bytes : Bytes} (hc : c.rest = b :: bytes) (he : d.rest = c.rest ++ rest) :
    Transfers c.rest rest (exponent negative significand shift c)
      (exponent negative significand shift d) := by
  obtain ⟨hadvance, hsuffix⟩ := advance_of_extends hc he
  unfold exponent
  generalize c.advance = c' at hadvance hsuffix
  generalize d.advance = d' at hadvance
  simp only
  cases hc' : c'.rest with
  | nil =>
      have hpeek : c'.peek = none := by rw [Cursor.peek, hc']; rfl
      have hfault : exponentDigits negative false significand shift c' =
          .error (c'.fault .eofValue) := by
        unfold exponentDigits
        rw [hpeek]
      simp only [hpeek]
      exact hfault ▸ .of_error
  | cons b' bytes' =>
      rw [peek_of_extends hc' hadvance]
      -- a sign is passed over before the digits
      by_cases hsign : (c'.peek == some 45 || c'.peek == some 43) = true
      · rw [if_pos hsign, if_pos hsign]
        obtain ⟨hadvance', hsuffix'⟩ := advance_of_extends hc' hadvance
        exact (transfers_exponentDigits hr hadvance').mono (hsuffix'.trans hsuffix)
      · rw [if_neg hsign, if_neg hsign]
        exact (transfers_exponentDigits hr hadvance).mono hsuffix

include hr in
theorem transfers_exponent_at {negative : Bool} {significand : Nat} {shift : Int} (hat : atExponent c = true)
    (he : d.rest = c.rest ++ rest) :
    Transfers c.rest rest (exponent negative significand shift c) (exponent negative significand shift d) := by
  cases hc : c.rest with
  | nil => simp [atExponent, Cursor.peek, hc] at hat
  | cons b bytes => exact hc ▸ transfers_exponent hr hc he

include hr in
theorem transfers_exponentOrEnd {negative : Bool} {significand : Nat} {shift : Int}
    (he : d.rest = c.rest ++ rest) :
    Transfers c.rest rest (exponentOrEnd negative significand shift c)
      (exponentOrEnd negative significand shift d) := by
  unfold exponentOrEnd
  rw [atExponent_of_extends hr he]
  by_cases hat : atExponent c = true
  · rw [if_pos hat, if_pos hat]
    exact transfers_exponent_at hr hat he
  · rw [if_neg hat, if_neg hat]
    exact transfers_double he

include hr in
theorem transfers_fraction {negative : Bool} {significand shift : Nat} {b : UInt8} {bytes : Bytes}
    (hc : c.rest = b :: bytes) (he : d.rest = c.rest ++ rest) :
    Transfers c.rest rest (fraction negative significand shift c)
      (fraction negative significand shift d) := by
  obtain ⟨hadvance, hsuffix⟩ := advance_of_extends hc he
  obtain ⟨v, k, c', d', hdc, hdd, he', hsuffix'⟩ :=
    digits_of_extends hr hadvance significandBound significand
  unfold fraction
  rw [hdc, hdd]
  simp only [atDigit_of_extends hr he']
  by_cases hdigit : atDigit c' = true
  · rw [if_pos hdigit, if_pos hdigit]
    obtain ⟨-, hskip, hsuffix''⟩ := skipDigits_of_extends hr he'
    exact (transfers_exponentOrEnd hr hskip).mono ((hsuffix''.trans hsuffix').trans hsuffix)
  · rw [if_neg hdigit, if_neg hdigit]
    by_cases hk : k = 0
    · rw [if_pos hk]
      cases c'.peek with
      | none => exact .of_error
      | some _ => exact .of_error
    · rw [if_neg hk, if_neg hk]
      exact (transfers_exponentOrEnd hr he').mono (hsuffix'.trans hsuffix)

include hr in
theorem transfers_fraction_at {negative : Bool} {significand shift : Nat} (hpoint : (c.peek == some 46) = true)
    (he : d.rest = c.rest ++ rest) :
    Transfers c.rest rest (fraction negative significand shift c) (fraction negative significand shift d) := by
  cases hc : c.rest with
  | nil => simp [Cursor.peek, hc] at hpoint
  | cons b bytes => exact hc ▸ transfers_fraction hr hc he

theorem transfers_whole {negative : Bool} {significand : Nat} (he : d.rest = c.rest ++ rest) :
    Transfers c.rest rest (whole negative significand c) (whole negative significand d) := by
  unfold whole
  by_cases hfloat : (negative && (decide (significand = 0) || decide (2 ^ 63 < significand))) = true
  · simp only [if_pos hfloat]
    exact transfers_double he
  · simp only [if_neg hfloat]
    cases WireInt.ofInt? (if negative then -(significand : Int) else significand) with
    | none => exact transfers_double he
    | some i =>
        intro n c' h
        obtain ⟨rfl, rfl⟩ : Number.int i = n ∧ c = c' := by simpa using h
        exact ⟨List.suffix_rfl, d, rfl, he⟩

include hr in
theorem transfers_afterWhole {negative : Bool} {significand : Nat} (he : d.rest = c.rest ++ rest) :
    Transfers c.rest rest (afterWhole negative significand c) (afterWhole negative significand d) := by
  unfold afterWhole
  rw [atPoint_of_extends hr he, atExponent_of_extends hr he]
  by_cases hpoint : (c.peek == some 46) = true
  · rw [if_pos hpoint, if_pos hpoint]
    exact transfers_fraction_at hr hpoint he
  · rw [if_neg hpoint, if_neg hpoint]
    by_cases hat : atExponent c = true
    · rw [if_pos hat, if_pos hat]
      exact transfers_exponent_at hr hat he
    · rw [if_neg hat, if_neg hat]
      exact transfers_whole he

include hr in
theorem transfers_afterLong {negative : Bool} {significand : Nat} (he : d.rest = c.rest ++ rest) :
    Transfers c.rest rest (afterLong negative significand c) (afterLong negative significand d) := by
  obtain ⟨hcount, hskip, hsuffix⟩ := skipDigits_of_extends hr he
  unfold afterLong
  simp only [hcount, atPoint_of_extends hr hskip]
  generalize (skipDigits c).2 = c' at hskip hsuffix
  by_cases hpoint : (c'.peek == some 46) = true
  · rw [if_pos hpoint, if_pos hpoint]
    exact (transfers_fraction_at hr hpoint hskip).mono hsuffix
  · rw [if_neg hpoint, if_neg hpoint]
    exact (transfers_exponentOrEnd hr hskip).mono hsuffix

include hr in
/-- A numeral is read with something behind it as it is read alone. -/
theorem transfers_read {negative : Bool} (he : d.rest = c.rest ++ rest) :
    Transfers c.rest rest (read negative c) (read negative d) := by
  unfold read
  cases hc : c.rest with
  | nil =>
      have hpeek : c.peek = none := by rw [Cursor.peek, hc]; rfl
      rw [hpeek]
      exact .of_error
  | cons b bytes =>
      rw [peek_of_extends hc he, Cursor.peek_of_rest hc, ← hc]
      simp only
      obtain ⟨hadvance, hsuffix⟩ := advance_of_extends hc he
      -- nothing but a point or an exponent follows a zero in front
      by_cases hzero : b = 48
      · rw [if_pos hzero, if_pos hzero, atDigit_of_extends hr hadvance]
        by_cases hdigit : atDigit c.advance = true
        · rw [if_pos hdigit]
          exact .of_error
        · rw [if_neg hdigit, if_neg hdigit]
          exact (transfers_afterWhole hr hadvance).mono hsuffix
      · rw [if_neg hzero, if_neg hzero]
        by_cases hdigit : Bytes.isDigit b = true
        · rw [if_pos hdigit, if_pos hdigit]
          obtain ⟨v, k, c', d', hdc, hdd, he', hsuffix'⟩ :=
            digits_of_extends hr he significandBound 0
          rw [hdc, hdd]
          simp only [atDigit_of_extends hr he']
          by_cases hmore : atDigit c' = true
          · rw [if_pos hmore, if_pos hmore]
            exact (transfers_afterLong hr he').mono hsuffix'
          · rw [if_neg hmore, if_neg hmore]
            exact (transfers_afterWhole hr he').mono hsuffix'
        · rw [if_neg hdigit]
          exact .of_error

end

/-! ## Written integers -/

theorem isDigit_digit (n : Nat) : Bytes.isDigit (Bytes.digit n) = true := by
  have hall : ∀ k : Fin 10, Bytes.isDigit (UInt8.ofNat (48 + k.val)) = true := by decide
  exact hall ⟨n % 10, Nat.mod_lt n (by decide)⟩

theorem digitValue_digit (n : Nat) : Bytes.digitValue (Bytes.digit n) = n % 10 := by
  have hall : ∀ k : Fin 10, Bytes.digitValue (UInt8.ofNat (48 + k.val)) = k.val := by decide
  exact hall ⟨n % 10, Nat.mod_lt n (by decide)⟩

theorem isDigit_of_mem_numeralOnto {fuel n : Nat} {tail : Bytes} {b : UInt8}
    (h : b ∈ Bytes.numeralOnto fuel n tail) : Bytes.isDigit b = true ∨ b ∈ tail := by
  induction fuel generalizing n tail with
  | zero =>
      rcases List.mem_cons.1 h with rfl | h
      · exact .inl (isDigit_digit n)
      · exact .inr h
  | succ fuel ih =>
      rw [Bytes.numeralOnto] at h
      by_cases hn : n < 10
      · rw [if_pos hn] at h
        rcases List.mem_cons.1 h with rfl | h
        · exact .inl (isDigit_digit n)
        · exact .inr h
      · rw [if_neg hn] at h
        rcases ih h with h | h
        · exact .inl h
        · rcases List.mem_cons.1 h with rfl | h
          · exact .inl (isDigit_digit n)
          · exact .inr h

theorem isDigit_of_mem_numeral {n : Nat} {b : UInt8} (h : b ∈ Bytes.numeral n) :
    Bytes.isDigit b = true := by
  rcases isDigit_of_mem_numeralOnto h with h | h
  · exact h
  · simp at h

/-- Only the numeral of zero begins with a zero. -/
theorem numeralOnto_head {fuel n : Nat} (h : n ≤ fuel) (tail : Bytes) :
    ∃ b text, Bytes.numeralOnto fuel n tail = b :: text ∧ Bytes.isDigit b = true ∧
      (b = 48 → n = 0 ∧ text = tail) := by
  have hzero : ∀ n, n < 10 → Bytes.digit n = 48 → n = 0 := by
    intro n hn hb
    have hvalue := digitValue_digit n
    rw [hb, Nat.mod_eq_of_lt hn] at hvalue
    exact hvalue.symm
  induction fuel generalizing n tail with
  | zero => exact ⟨_, _, rfl, isDigit_digit n, fun hb => ⟨hzero n (by omega) hb, rfl⟩⟩
  | succ fuel ih =>
      rw [Bytes.numeralOnto]
      by_cases hn : n < 10
      · rw [if_pos hn]
        exact ⟨_, _, rfl, isDigit_digit n, fun hb => ⟨hzero n hn hb, rfl⟩⟩
      · rw [if_neg hn]
        obtain ⟨b, text, he, hb, hlead⟩ := ih (n := n / 10) (by omega) (Bytes.digit n :: tail)
        exact ⟨b, text, he, hb, fun h => absurd (hlead h).1 (by omega)⟩

theorem digitsFrom_digit {bound value n : Nat} (hn : value * 10 + n % 10 < bound) (count : Nat)
    (tail : Bytes) :
    digitsFrom bound value count (Bytes.digit n :: tail) =
      digitsFrom bound (value * 10 + n % 10) (count + 1) tail := by
  rw [digitsFrom]
  simp [isDigit_digit, digitValue_digit, hn]

/-- The digits of a numeral add up to its number. -/
theorem digitsFrom_numeralOnto {bound fuel n : Nat} (h : n ≤ fuel) (hn : n < bound) (count : Nat)
    (tail : Bytes) :
    ∃ k, digitsFrom bound 0 count (Bytes.numeralOnto fuel n tail) = digitsFrom bound n k tail := by
  induction fuel generalizing n tail with
  | zero =>
      have hvalue : 0 * 10 + n % 10 = n := by omega
      refine ⟨count + 1, ?_⟩
      rw [Bytes.numeralOnto, digitsFrom_digit (by omega), hvalue]
  | succ fuel ih =>
      rw [Bytes.numeralOnto]
      by_cases hlt : n < 10
      · have hvalue : 0 * 10 + n % 10 = n := by omega
        refine ⟨count + 1, ?_⟩
        rw [if_pos hlt, digitsFrom_digit (by omega), hvalue]
      · rw [if_neg hlt]
        obtain ⟨k, hk⟩ := ih (n := n / 10) (by omega) (by omega) (Bytes.digit n :: tail)
        have hvalue : n / 10 * 10 + n % 10 = n := by omega
        exact ⟨k + 1, by rw [hk, digitsFrom_digit (by omega), hvalue]⟩

theorem atDigit_of_ends (hr : EndsNumeral rest) (hc : c.rest = rest) : atDigit c = false := by
  have h := atDigit_of_extends (c := ⟨[], 0, 0⟩) hr (d := c) (by simpa using hc)
  exact h

theorem afterWhole_of_ends {negative : Bool} {significand : Nat} (hr : EndsNumeral rest)
    (hc : c.rest = rest) : afterWhole negative significand c = whole negative significand c := by
  have hpoint := atPoint_of_extends (c := ⟨[], 0, 0⟩) hr (d := c) (by simpa using hc)
  have hat := atExponent_of_extends (c := ⟨[], 0, 0⟩) hr (d := c) (by simpa using hc)
  unfold afterWhole
  rw [hpoint, hat]
  rfl

/-- A written number is read as a significand and nothing else. -/
theorem read_numeral (negative : Bool) {n : Nat} (hn : n < significandBound) (hr : EndsNumeral rest)
    (hc : c.rest = Bytes.numeral n ++ rest) :
    ∃ c', read negative c = whole negative n c' ∧ c'.rest = rest := by
  obtain ⟨b, text, htext, hb, hzero⟩ := numeralOnto_head (Nat.le_refl n) []
  have hnumeral : Bytes.numeral n = b :: text := htext
  have hrest : c.rest = b :: (text ++ rest) := by
    rw [hc, hnumeral]
    rfl
  unfold read
  rw [Cursor.peek_of_rest hrest]
  simp only
  by_cases h48 : b = 48
  · obtain ⟨rfl, rfl⟩ := hzero h48
    have hadvance : c.advance.rest = rest := Cursor.rest_advance hrest
    rw [if_pos h48, atDigit_of_ends hr hadvance, if_neg (by decide), afterWhole_of_ends hr hadvance]
    exact ⟨c.advance, rfl, hadvance⟩
  · obtain ⟨k, hk⟩ := digitsFrom_numeralOnto (Nat.le_refl n) hn 0 []
    have hdigits : digitsFrom significandBound 0 0 c.rest = (n, k, rest) := by
      rw [hc, digitsFrom_append hr.endsDigits, Bytes.numeral, hk]
      rfl
    rw [if_neg h48, if_pos hb, digits, hdigits]
    simp only [atDigit_of_ends (c := ⟨rest, c.line, c.column + k⟩) hr rfl, Bool.false_eq_true, if_false,
      afterWhole_of_ends (c := ⟨rest, c.line, c.column + k⟩) hr rfl]
    exact ⟨⟨rest, c.line, c.column + k⟩, rfl, rfl⟩

theorem ofInt?_val (i : WireInt) : WireInt.ofInt? i.val = some i := by
  unfold WireInt.ofInt?
  rw [dif_pos ⟨i.lower, i.upper⟩]

theorem whole_of_nonneg {i : WireInt} {k : Nat} (hi : i.val = .ofNat k) :
    whole false k c = .ok (.int i, c) := by
  have h : WireInt.ofInt? (k : Int) = some i := by
    rw [← ofInt?_val i, hi]
    rfl
  simp [whole, h]

theorem whole_of_neg {i : WireInt} {k : Nat} (hi : i.val = .negSucc k) :
    whole true (k + 1) c = .ok (.int i, c) := by
  have hlower : -2 ^ 63 ≤ i.val := i.lower
  have hk : k < 2 ^ 63 := by
    rw [hi] at hlower
    omega
  have h : WireInt.ofInt? (-((k + 1 : Nat) : Int)) = some i := by
    rw [← ofInt?_val i, hi]
    rfl
  have hrange : (true && (decide (k + 1 = 0) || decide (2 ^ 63 < k + 1))) = false := by
    simp only [Bool.true_and, Bool.or_eq_false_iff, decide_eq_false_iff_not]
    omega
  unfold whole
  rw [if_neg (by rw [hrange]; decide)]
  simp only [if_true, h]

end Numeral

/-! ## Written doubles -/

/-- A byte that written doubles are made of. -/
def IsNumeric (b : UInt8) : Prop :=
  Bytes.isDigit b = true ∨ b = 43 ∨ b = 45 ∨ b = 46 ∨ b = 101

namespace IsNumeric

variable {b : UInt8}

theorem ge (h : IsNumeric b) : ¬ b < 32 := by
  rcases h with h | rfl | rfl | rfl | rfl
  · intro hlt
    simp only [Bytes.isDigit, Bool.and_eq_true, decide_eq_true_eq] at h
    rw [UInt8.lt_iff_toNat_lt] at hlt
    have hle := UInt8.le_iff_toNat_le.1 h.1
    simp at hlt hle
    omega
  · decide
  · decide
  · decide
  · decide

theorem isBlank (h : IsNumeric b) : Cursor.isBlank b = false := by
  by_cases hb : Cursor.isBlank b = true
  · simp only [Cursor.isBlank, Bool.or_eq_true, decide_eq_true_eq] at hb
    rcases hb with ((rfl | rfl) | rfl) | rfl
    · simp [IsNumeric, Bytes.isDigit] at h
    · exact absurd (by decide) h.ge
    · exact absurd (by decide) h.ge
    · exact absurd (by decide) h.ge
  · simpa using hb

end IsNumeric

theorem isNumeric_of_mem_numeral {n : Nat} {b : UInt8} (h : b ∈ Bytes.numeral n) : IsNumeric b :=
  .inl (Numeral.isDigit_of_mem_numeral h)

theorem isNumeric_of_mem_zeros {count : Nat} {b : UInt8} (h : b ∈ Scaled.zeros count) :
    IsNumeric b := by
  obtain rfl : b = 48 := List.eq_of_mem_replicate h
  exact .inl rfl

theorem isNumeric_of_mem_positional {d : Scaled} {b : UInt8} (h : b ∈ d.positional) :
    IsNumeric b := by
  unfold Scaled.positional at h
  cases hd : d.exponent with
  | ofNat e =>
      simp only [hd, List.mem_append] at h
      rcases h with (h | h) | h
      · exact isNumeric_of_mem_numeral h
      · exact isNumeric_of_mem_zeros h
      · rcases (by simpa [Bytes.ascii] using h : b = 46 ∨ b = 48) with rfl | rfl
        · simp [IsNumeric]
        · exact .inl rfl
  | negSucc e =>
      simp only [hd, List.mem_append] at h
      have hpadded : ∀ b ∈ Scaled.zeros (e + 1 + 1 - (Bytes.numeral d.digits).length) ++
          Bytes.numeral d.digits, IsNumeric b := by
        intro b hb
        rcases List.mem_append.1 hb with hb | hb
        · exact isNumeric_of_mem_zeros hb
        · exact isNumeric_of_mem_numeral hb
      rcases h with (h | h) | h
      · exact hpadded b (List.mem_of_mem_take h)
      · obtain rfl : b = 46 := by simpa [Bytes.ascii] using h
        simp [IsNumeric]
      · exact hpadded b (List.mem_of_mem_drop h)

theorem isNumeric_of_mem_scientific {d : Scaled} {b : UInt8} (h : b ∈ d.scientific) :
    IsNumeric b := by
  have hdigits : ∀ b ∈ Bytes.numeral d.digits, IsNumeric b := fun b hb => isNumeric_of_mem_numeral hb
  unfold Scaled.scientific at h
  rcases List.mem_append.1 h with h | h
  · split at h
    · next first second rest heq =>
      rw [heq] at hdigits
      rcases List.mem_cons.1 h with rfl | h
      · exact hdigits b (by simp)
      · rcases List.mem_cons.1 h with rfl | h
        · simp [IsNumeric]
        · exact hdigits b (List.mem_cons_of_mem _ h)
    · exact hdigits b h
  · cases hd : d.leading with
    | ofNat e =>
        simp only [hd, List.mem_append] at h
        rcases h with h | h
        · rcases (by simpa [Bytes.ascii] using h : b = 101 ∨ b = 43) with rfl | rfl
          · simp [IsNumeric]
          · simp [IsNumeric]
        · exact isNumeric_of_mem_numeral h
    | negSucc e =>
        simp only [hd, List.mem_append] at h
        rcases h with h | h
        · rcases (by simpa [Bytes.ascii] using h : b = 101 ∨ b = 45) with rfl | rfl
          · simp [IsNumeric]
          · simp [IsNumeric]
        · exact isNumeric_of_mem_numeral h

theorem isNumeric_of_mem_text {layout : Layout} {x : Double} {b : UInt8} (h : b ∈ x.text layout) :
    IsNumeric b := by
  have hmagnitude : ∀ b ∈ (if layout.lowest ≤ (x.shortest layout.tie).leading &&
      (x.shortest layout.tie).leading ≤ layout.highest then (x.shortest layout.tie).positional
      else (x.shortest layout.tie).scientific), IsNumeric b := by
    intro b hb
    split at hb
    · exact isNumeric_of_mem_positional hb
    · exact isNumeric_of_mem_scientific hb
  unfold Double.text at h
  by_cases hx : x.isNegative = true
  · simp only [if_pos hx] at h
    rcases List.mem_cons.1 h with rfl | h
    · simp [IsNumeric]
    · exact hmagnitude b h
  · simp only [if_neg hx] at h
    exact hmagnitude b h

/-- The written form of a double is a document that reads as this double. -/
def ReadsBack (x : Double) : Prop :=
  readValue (x.text numberLayout) = .ok (.float x)

/-- Whether a document reads as a double. -/
def readsAs (x : Double) : Except Fault Value → Bool
  | .ok (.float y) => y == x
  | _ => false

theorem readsAs_iff {x : Double} {result : Except Fault Value} : readsAs x result = true ↔ result = .ok (.float x) := by
  unfold readsAs
  split <;> simp_all

instance (x : Double) : Decidable (ReadsBack x) :=
  decidable_of_iff (readsAs x (readValue (x.text numberLayout)) = true) readsAs_iff

end Json
end Courier
