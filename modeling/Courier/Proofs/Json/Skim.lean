import Courier.Proofs.Json.Extension

/-!
# Skim — what can be read can be passed over

A value that nobody wants is passed over with a stack of open brackets and without a bound for its nesting.  Where it
could have been read, this ends at the same place.

1. `Numeral.skip_of_read` and `Text.skip_of_readBytes` — numerals and strings,
2. `Skim.Passes` — a value is passed over in some steps, whatever is on the stack,
3. `Skim.passes_of_value`, by induction on the depth, with the insides of arrays and objects one by one,
4. `skip_of_value`.
-/

namespace Courier
namespace Json

variable {c c' c₁ : Cursor} {b : UInt8} {fuel depth steps : Nat}

namespace Cursor

theorem length_advance (h : c.peek = some b) : c.advance.rest.length + 1 = c.rest.length := by
  rw [rest_of_peek h, List.length_cons]

theorem length_advance_le (c : Cursor) : c.advance.rest.length ≤ c.rest.length := by
  cases hp : c.peek with
  | none =>
      have hc : c.rest = [] := List.head?_eq_none_iff.1 hp
      simp only [advance, hc, Nat.le_refl]
  | some b => exact Nat.le_of_succ_le (Nat.le_of_eq (length_advance hp))

theorem length_skipBlank (c : Cursor) : c.skipBlank.rest.length ≤ c.rest.length := by
  rw [rest_skipBlank]
  exact (List.dropWhile_suffix _).length_le

/-- Nothing is gained behind a comma. -/
theorem length_next (c : Cursor) : c.skipBlank.advance.skipBlank.rest.length ≤ c.rest.length :=
  Nat.le_trans (length_skipBlank _) (Nat.le_trans (length_advance_le _) (length_skipBlank c))

/-- Where white space ends there is none. -/
theorem skipBlank_skipBlank (c : Cursor) : c.skipBlank.skipBlank = c.skipBlank := by
  cases hc : c.skipBlank.rest with
  | nil =>
      rw [skipBlank, skipWhile, hc, skipFrom, ← hc]
  | cons b rest =>
      refine skipBlank_of_rest hc ?_
      have hhead := List.head?_dropWhile_not isBlank c.rest
      rw [← rest_skipBlank, hc] at hhead
      simpa using hhead

end Cursor

/-! ## Numerals -/

namespace Numeral

variable {bound count k v significand : Nat} {negative down : Bool} {shift : Int} {n : Number}

/-- Digits that have been read are some of those that are skipped. -/
theorem span_of_digitsFrom {bytes rest : Bytes} {value : Nat} (h : digitsFrom bound value count bytes = (v, k, rest)) :
    rest.dropWhile Bytes.isDigit = bytes.dropWhile Bytes.isDigit ∧
      (bytes.takeWhile Bytes.isDigit).length + count = k + (rest.takeWhile Bytes.isDigit).length := by
  induction bytes generalizing value count with
  | nil =>
      obtain ⟨-, rfl, rfl⟩ : value = v ∧ count = k ∧ [] = rest := by simpa [digitsFrom] using h
      exact ⟨rfl, Nat.zero_add _⟩
  | cons b bytes ih =>
      rw [digitsFrom] at h
      split at h
      · next hb =>
        have hdigit : Bytes.isDigit b = true := (Bool.and_eq_true _ _ ▸ hb).1
        obtain ⟨hdrop, htake⟩ := ih h
        rw [List.dropWhile_cons_of_pos hdigit, List.takeWhile_cons_of_pos hdigit, List.length_cons]
        exact ⟨hdrop, by omega⟩
      · obtain ⟨-, rfl, rfl⟩ : value = v ∧ count = k ∧ b :: bytes = rest := by simpa using h
        exact ⟨rfl, Nat.add_comm _ _⟩

theorem skipDigits_digits {value : Nat} (h : digits bound value c = (v, k, c')) :
    (skipDigits c').2 = (skipDigits c).2 ∧ (skipDigits c).1 = k + (skipDigits c').1 := by
  unfold digits at h
  obtain ⟨v', k', rest, hfrom⟩ : ∃ v k rest, digitsFrom bound value 0 c.rest = (v, k, rest) := ⟨_, _, _, rfl⟩
  rw [hfrom] at h
  obtain ⟨rfl, rfl, rfl⟩ : v' = v ∧ k' = k ∧ Cursor.mk rest c.line (c.column + k') = c' := by simpa using h
  obtain ⟨hdrop, htake⟩ := span_of_digitsFrom hfrom
  refine ⟨?_, ?_⟩
  · simp only [skipDigits, Cursor.skipWhile, skipFrom_isDigit, hdrop, Nat.add_assoc, ← htake, Nat.add_zero]
  · rw [(skipDigits_eq c).1, (skipDigits_eq _).1]
    exact htake

theorem skipDigits_of_not_atDigit (h : ¬ atDigit c = true) : skipDigits c = (0, c) := by
  obtain ⟨text, line, column⟩ := c
  cases text with
  | nil => simp [skipDigits, Cursor.skipWhile, Cursor.skipFrom]
  | cons b text =>
      have hb : Bytes.isDigit b = false := by simpa [atDigit, Cursor.peek] using h
      simp [skipDigits, Cursor.skipWhile, Cursor.skipFrom, hb]

theorem skipDigits_of_atDigit (h : atDigit c = true) :
    (skipDigits c).2 = (skipDigits c.advance).2 ∧ (skipDigits c).1 = (skipDigits c.advance).1 + 1 := by
  obtain ⟨text, line, column⟩ := c
  cases text with
  | nil => cases h
  | cons b text =>
      have hb : Bytes.isDigit b = true := by simpa [atDigit, Cursor.peek] using h
      have hnewline : ¬ b = 10 := by
        rintro rfl
        cases hb
      have hadvance : (Cursor.mk (b :: text) line column).advance = ⟨text, line, column + 1⟩ := if_neg hnewline
      refine ⟨?_, ?_⟩
      · simp only [hadvance, skipDigits, Cursor.skipWhile, Cursor.skipFrom, if_pos hb, if_neg hnewline]
      · rw [hadvance, (skipDigits_eq _).1, (skipDigits_eq _).1, List.takeWhile_cons_of_pos hb, List.length_cons]

/-! Each part that is read is a part that is skipped. -/

theorem place_of_double (h : double negative significand shift c = .ok (n, c')) : c = c' := by
  unfold double at h
  split at h
  · exact (Prod.mk.inj (Except.ok.inj h)).2
  · cases h

theorem place_of_whole (h : whole negative significand c = .ok (n, c')) : c = c' := by
  unfold whole at h
  split at h
  · exact place_of_double h
  · split at h
    · exact (Prod.mk.inj (Except.ok.inj h)).2
    · exact place_of_double h

theorem place_of_exponentDigits (h : exponentDigits negative down significand shift c = .ok (n, c')) :
    atDigit c = true ∧ (skipDigits c).2 = c' := by
  unfold exponentDigits at h
  split at h
  · cases h
  · split at h
    · next hdigit =>
      refine ⟨hdigit, ?_⟩
      obtain ⟨e, k, c₁, hdigits⟩ : ∃ e k c₁, digits exponentBound 0 c = (e, k, c₁) := ⟨_, _, _, rfl⟩
      rw [hdigits] at h
      rw [← (skipDigits_digits hdigits).1]
      simp only at h
      split at h
      · next hmore =>
        -- one digit more than the exponent holds, and the others are skipped here as well
        obtain ⟨-, h⟩ := Result.of_guard h
        rw [(skipDigits_of_atDigit hmore).1]
        exact (Prod.mk.inj (Except.ok.inj h)).2
      · next hmore =>
        rw [skipDigits_of_not_atDigit hmore]
        exact place_of_double h
    · cases h

theorem skipExponent_of_exponent (h : exponent negative significand shift c = .ok (n, c')) :
    skipExponent c = .ok c' := by
  have hcomm : (c.advance.peek == some 43 || c.advance.peek == some 45) =
      (c.advance.peek == some 45 || c.advance.peek == some 43) := Bool.or_comm _ _
  obtain ⟨hdigit, rfl⟩ := place_of_exponentDigits h
  simp only [skipExponent, hcomm, hdigit, if_true]

theorem skipExponentOrEnd_of_exponentOrEnd (h : exponentOrEnd negative significand shift c = .ok (n, c')) :
    skipExponentOrEnd c = .ok c' := by
  unfold exponentOrEnd at h
  unfold skipExponentOrEnd
  split at h
  · next he => rw [if_pos he, skipExponent_of_exponent h]
  · next he => rw [if_neg he, place_of_double h]

theorem skip_of_fraction {shift : Nat} (h : fraction negative significand shift c = .ok (n, c')) :
    (skipDigits c.advance).1 ≠ 0 ∧ skipExponentOrEnd (skipDigits c.advance).2 = .ok c' := by
  unfold fraction at h
  obtain ⟨s, k, c₁, hdigits⟩ : ∃ s k c₁, digits significandBound significand c.advance = (s, k, c₁) := ⟨_, _, _, rfl⟩
  obtain ⟨hplace, hcount⟩ := skipDigits_digits hdigits
  rw [hdigits] at h
  rw [← hplace, hcount]
  simp only at h
  split at h
  · next hmore =>
    -- digits that the significand has no room for are left to be skipped
    rw [(skipDigits_of_atDigit hmore).2]
    exact ⟨Nat.succ_ne_zero _, skipExponentOrEnd_of_exponentOrEnd h⟩
  · next hmore =>
    split at h
    · split at h
      · cases h
      · cases h
    · next hk =>
      rw [skipDigits_of_not_atDigit hmore]
      exact ⟨hk, skipExponentOrEnd_of_exponentOrEnd h⟩

theorem skipAfterWhole_of_afterWhole (h : afterWhole negative significand c = .ok (n, c')) :
    skipAfterWhole c = .ok c' := by
  unfold afterWhole at h
  unfold skipAfterWhole
  split at h
  · next hpoint =>
    obtain ⟨hcount, hskip⟩ := skip_of_fraction h
    simp only [if_pos hpoint, if_neg hcount, hskip]
  · next hpoint =>
    rw [if_neg hpoint, skipExponentOrEnd]
    split at h
    · next he => rw [if_pos he, skipExponent_of_exponent h]
    · next he => rw [if_neg he, place_of_whole h]

theorem skipAfterWhole_of_afterLong (h : afterLong negative significand c = .ok (n, c')) :
    skipAfterWhole (skipDigits c).2 = .ok c' := by
  unfold afterLong at h
  unfold skipAfterWhole
  simp only at h
  split at h
  · next hpoint =>
    obtain ⟨hcount, hskip⟩ := skip_of_fraction h
    simp only [if_pos hpoint, if_neg hcount, hskip]
  · next hpoint => rw [if_neg hpoint, skipExponentOrEnd_of_exponentOrEnd h]

/-- A numeral that can be read is skipped up to the same place. -/
theorem skip_of_read (h : read negative c = .ok (n, c')) : skip c = .ok c' := by
  unfold read at h
  unfold skip
  split at h
  · cases h
  · next b hp =>
    split at h
    · next hzero =>
      obtain ⟨hdigit, h⟩ := Result.of_guard h
      rw [if_pos hzero, if_neg hdigit, skipAfterWhole_of_afterWhole h]
    · next hzero =>
      rw [if_neg hzero]
      split at h
      · next hb =>
        obtain ⟨s, k, c₁, hdigits⟩ : ∃ s k c₁, digits significandBound 0 c = (s, k, c₁) := ⟨_, _, _, rfl⟩
        rw [hdigits] at h
        rw [if_pos hb, ← (skipDigits_digits hdigits).1]
        simp only at h
        split at h
        · exact skipAfterWhole_of_afterLong h
        · next hmore =>
          rw [skipDigits_of_not_atDigit hmore]
          exact skipAfterWhole_of_afterWhole h
      · cases h

theorem length_skipDigits (c : Cursor) : (skipDigits c).2.rest.length ≤ c.rest.length := by
  rw [(skipDigits_eq c).2]
  exact (List.dropWhile_suffix _).length_le

theorem length_skipExponent (h : skipExponent c = .ok c') : c'.rest.length ≤ c.rest.length := by
  unfold skipExponent at h
  simp only at h
  generalize hd : (if (c.advance.peek == some 43 || c.advance.peek == some 45) = true then c.advance.advance
    else c.advance) = d at h
  have hle : d.rest.length ≤ c.rest.length := by
    rw [← hd]
    split
    · exact Nat.le_trans (Cursor.length_advance_le _) (Cursor.length_advance_le c)
    · exact Cursor.length_advance_le c
  split at h
  · obtain rfl := Except.ok.inj h
    exact Nat.le_trans (length_skipDigits d) hle
  · cases h

theorem length_skipExponentOrEnd (h : skipExponentOrEnd c = .ok c') : c'.rest.length ≤ c.rest.length := by
  unfold skipExponentOrEnd at h
  split at h
  · exact length_skipExponent h
  · obtain rfl := Except.ok.inj h
    exact Nat.le_refl _

theorem length_skipAfterWhole (h : skipAfterWhole c = .ok c') : c'.rest.length ≤ c.rest.length := by
  unfold skipAfterWhole at h
  split at h
  · obtain ⟨-, h⟩ := Result.of_guard h
    exact Nat.le_trans (length_skipExponentOrEnd h)
      (Nat.le_trans (length_skipDigits c.advance) (Cursor.length_advance_le c))
  · exact length_skipExponentOrEnd h

/-- A numeral has a byte at least. -/
theorem length_skip (h : skip c = .ok c') : c'.rest.length < c.rest.length := by
  unfold skip at h
  split at h
  · cases h
  · next b hp =>
    have hadvance := Cursor.length_advance hp
    split at h
    · have hle := length_skipAfterWhole (Result.of_guard h).2
      omega
    · split at h
      · next hb =>
        have hdigit : atDigit c = true := by rw [atDigit, hp, Option.any_some, hb]
        rw [(skipDigits_of_atDigit hdigit).1] at h
        have hle := Nat.le_trans (length_skipAfterWhole h) (length_skipDigits c.advance)
        omega
      · cases h

end Numeral

/-! ## Strings -/

namespace Text

variable {text done : Bytes} {bytes : Option Bytes} {unit : Nat}

theorem length_hexEscape (h : hexEscape c = .ok (unit, c')) : c'.rest.length < c.rest.length := by
  unfold hexEscape at h
  split at h
  · next b₁ b₂ b₃ b₄ tail hc =>
    split at h
    · obtain ⟨-, rfl⟩ := Prod.mk.inj (Except.ok.inj h)
      rw [Cursor.rest_advance (Cursor.rest_advance (Cursor.rest_advance (Cursor.rest_advance hc))), hc]
      simp only [List.length_cons]
      omega
    · cases h
  · cases h

/-- A `\u` escape is skipped in one step, and so is each half of a pair. -/
theorem skip_of_hexEscape (hp : c.peek = some 92) (hu : c.advance.peek = some 117)
    (h : hexEscape c.advance.advance = .ok (unit, c')) : skip (steps + 1) c = skip steps c' := by
  have hquote : ¬ (92 : UInt8) = 34 := by decide
  have hshort : shortEscape? 117 = none := rfl
  have hskip : skipEscape c.advance = .ok c' := by
    simp only [skipEscape, hu, hshort, Option.isSome_none, Bool.false_eq_true, if_false, if_true, h, Except.map]
  rw [skip, hp]
  simp only [if_neg hquote, if_true, hskip]

/-- An escape is skipped in one step, or in two when it is a pair. -/
theorem skip_of_escape {found : Bytes} (hp : c.peek = some 92) (he : escape c.advance = .ok (found, c')) :
    ∃ k, k + 1 + c'.rest.length ≤ c.rest.length ∧ ∀ steps, skip (steps + (k + 1)) c = skip steps c' := by
  have hadvance := Cursor.length_advance hp
  cases escaped_iff.1 he with
  | @short b x hb hs =>
      have hquote : ¬ (92 : UInt8) = 34 := by decide
      have hskip : skipEscape c.advance = .ok c.advance.advance := by
        simp only [skipEscape, hb, hs, Option.isSome_some, if_true]
      refine ⟨0, ?_, fun steps => ?_⟩
      · have hle := Cursor.length_advance_le c.advance
        omega
      · rw [skip, hp]
        simp only [if_neg hquote, if_true, hskip]
  | unicode hb hu =>
      have hletter := Cursor.length_advance hb
      cases unicode_iff.1 hu with
      | single hh ht hl =>
          have hlt := length_hexEscape hh
          exact ⟨0, by omega, fun steps => skip_of_hexEscape hp hb hh⟩
      | @pair unit second c₁ c₂ c₃ c' hh ht hl hs hu' hh' ht' =>
          -- who skips does not look for pairs, so the second half is one more escape
          obtain ⟨hslash, rfl⟩ := pairByte_iff.1 hs
          obtain ⟨hletter', rfl⟩ := pairByte_iff.1 hu'
          have hlt := length_hexEscape hh
          have hlt' := length_hexEscape hh'
          have hadvance₁ := Cursor.length_advance hslash
          have hadvance₂ := Cursor.length_advance hletter'
          refine ⟨1, by omega, fun steps => ?_⟩
          rw [← Nat.add_assoc, skip_of_hexEscape hp hb hh, skip_of_hexEscape hslash hletter' hh']

/-- A string that can be read is skipped up to the same place. -/
theorem skip_of_readBytes (h : readBytes fuel done c = .ok (text, c')) :
    c'.rest.length < c.rest.length ∧ ∀ steps, c.rest.length ≤ steps → skip steps c = .ok c' := by
  induction fuel generalizing done c with
  | zero => cases h
  | succ fuel ih =>
      rcases readBytes_succ.1 h with ⟨hpiece, -⟩ | ⟨found, c₁, hpiece, hrest⟩
      · cases hpiece with
        | closing hp =>
            have hadvance := Cursor.length_advance hp
            refine ⟨by omega, fun steps hsteps => ?_⟩
            obtain ⟨steps, rfl⟩ : ∃ k, steps = k + 1 := ⟨steps - 1, by omega⟩
            rw [skip, hp]
            simp only [if_true]
      · obtain ⟨hlt, hskip⟩ := ih hrest
        cases hpiece with
        | escaped hp he =>
            obtain ⟨k, hk, hsteps⟩ := skip_of_escape hp he
            refine ⟨by omega, fun steps hle => ?_⟩
            obtain ⟨steps, rfl⟩ : ∃ s, steps = s + (k + 1) := ⟨steps - (k + 1), by omega⟩
            rw [hsteps]
            exact hskip steps (by omega)
        | plain hp hb =>
            obtain ⟨hquote, hslash, hcontrol⟩ := hb
            have hadvance := Cursor.length_advance hp
            refine ⟨by omega, fun steps hle => ?_⟩
            obtain ⟨steps, rfl⟩ : ∃ s, steps = s + 1 := ⟨steps - 1, by omega⟩
            rw [skip, hp]
            simp only [if_neg hquote, if_neg hslash, if_neg hcontrol]
            exact hskip steps (by omega)

theorem skip_of_read {s : String} (h : read fuel c = .ok (s, c')) :
    c'.rest.length < c.rest.length ∧ ∀ steps, c.rest.length ≤ steps → skip steps c = .ok c' := by
  obtain ⟨text, hread, -⟩ := read_iff.1 h
  exact skip_of_readBytes hread

end Text

/-! ## Tokens -/

theorem length_word {letters : Bytes} (h : word letters c = .ok c') : c'.rest.length ≤ c.rest.length := by
  induction letters generalizing c with
  | nil =>
      obtain rfl := Except.ok.inj h
      exact Nat.le_refl _
  | cons expected letters ih =>
      rw [word] at h
      split at h
      · cases h
      · split at h
        · exact Nat.le_trans (ih h) (Cursor.length_advance_le c)
        · cases h

theorem Token.length {wanted : UInt8} (h : Token wanted c c') : c'.rest.length < c.rest.length := by
  obtain ⟨hp, rfl⟩ := h
  have hadvance := Cursor.length_advance hp
  have hskip := Cursor.length_skipBlank c
  omega

theorem NextElement.length {first : Bool} (h : NextElement c first c₁) : c₁.rest.length ≤ c.rest.length := by
  cases h with
  | first => exact Cursor.length_skipBlank c
  | comma => exact Cursor.length_next c

theorem NextKey.length {first : Bool} (h : NextKey c first c₁) : c₁.rest.length ≤ c.rest.length := by
  cases h with
  | first => exact Cursor.length_skipBlank c
  | comma => exact Cursor.length_next c

theorem Keyed.length {key : String} (h : Keyed fuel c key c') : c'.rest.length < c.rest.length := by
  obtain ⟨c₁, hread, hcolon⟩ := h.text
  have hskip := (Text.skip_of_read hread).1
  have hadvance := Cursor.length_advance_le c
  have htoken := hcolon.length
  omega

/-! ## Values -/

namespace Skim

variable {α : Type} {bracket : Bracket} {stack : List Bracket} {separated first : Bool} {fuel' : Nat}

/-- The byte that closes a bracket. -/
def Bracket.closing : Bracket → UInt8
  | .array => 93
  | .object => 125

/-- Goes on behind a complete value (`separated`) or right behind an opening. -/
def resume (fuel : Nat) (separated : Bool) (steps : Nat) (stack : List Bracket) (c : Cursor) : Except Fault Cursor :=
  match close separated c stack with
  | .error e => .error e
  | .ok (none, c) => .ok c
  | .ok (some (bracket, outer), c) =>
    match enter fuel bracket c with
    | .error e => .error e
    | .ok c => run fuel steps (bracket :: outer) c

theorem run_of_atom (h : atom fuel c = .ok (none, c')) :
    run fuel (steps + 1) stack c = resume fuel true steps stack c' := by
  rw [run, h]
  rfl

theorem run_of_opening (h : atom fuel c = .ok (some bracket, c')) :
    run fuel (steps + 1) stack c = resume fuel false steps (bracket :: stack) c' := by
  rw [run, h]
  rfl

theorem run_skipBlank : run fuel (steps + 1) stack c.skipBlank = run fuel (steps + 1) stack c := by
  have hatom : atom fuel c.skipBlank = atom fuel c := by
    unfold atom
    rw [Cursor.skipBlank_skipBlank]
  rw [run, run, hatom]

theorem resume_nil (fuel steps : Nat) (c : Cursor) : resume fuel true steps [] c = .ok c := rfl

/-- A bracket that is closed is a complete value. -/
theorem resume_of_closing (h : Token bracket.closing c c') :
    resume fuel separated steps (bracket :: stack) c = resume fuel true steps stack c' := by
  obtain ⟨hp, rfl⟩ := h
  have hclose : close separated c (bracket :: stack) = close true c.skipBlank.advance stack := by
    rw [close]
    simp only [hp]
    cases bracket with
    | array => simp [Bracket.closing]
    | object => simp [Bracket.closing]
  rw [resume, hclose, resume]

/-- Right behind an opening the first part follows. -/
theorem resume_of_first (hp : c.skipBlank.peek = some b) (hb : b ≠ bracket.closing)
    (he : enter fuel bracket c.skipBlank = .ok c') :
    resume fuel false steps (bracket :: stack) c = run fuel steps (bracket :: stack) c' := by
  have hclose : close false c (bracket :: stack) = .ok (some (bracket, stack), c.skipBlank) := by
    rw [close]
    simp only [hp]
    cases bracket with
    | array => simp_all [Bracket.closing]
    | object => simp_all [Bracket.closing]
  rw [resume, hclose]
  simp only [he]

/-- Behind a comma the next part follows. -/
theorem resume_of_comma (hp : c.skipBlank.peek = some 44) (he : enter fuel bracket c.skipBlank.advance = .ok c') :
    resume fuel true steps (bracket :: stack) c = run fuel steps (bracket :: stack) c' := by
  have hclose : close true c (bracket :: stack) = .ok (some (bracket, stack), c.skipBlank.advance) := by
    rw [close]
    simp only [hp, Bool.and_true, decide_true, if_true]
  rw [resume, hclose]
  simp only [he]

theorem resume_of_nextElement (h : NextElement c first c₁) :
    resume fuel (!first) (steps + 1) (.array :: stack) c = run fuel (steps + 1) (.array :: stack) c₁ := by
  cases h with
  | first hp hb => exact resume_of_first hp hb rfl
  | comma hp _ _ => rw [Bool.not_false, resume_of_comma hp rfl, run_skipBlank]

theorem key_of_keyed {k : String} (hp : c.skipBlank.peek = some 34) (h : Keyed fuel' c.skipBlank k c')
    (hf : c.rest.length ≤ fuel) : key fuel c = .ok c' := by
  obtain ⟨c₁, hread, hcolon⟩ := h.text
  have hle : c.skipBlank.advance.rest.length ≤ fuel :=
    Nat.le_trans (Cursor.length_advance_le _) (Nat.le_trans (Cursor.length_skipBlank c) hf)
  have hskip := (Text.skip_of_read hread).2 fuel hle
  simp only [key, hp, if_true, hskip, colon_iff.2 hcolon]

theorem resume_of_nextKey {k : String} (h : NextKey c first c₁) (hk : Keyed fuel' c₁ k c') (hf : c.rest.length ≤ fuel) :
    resume fuel (!first) steps (.object :: stack) c = run fuel steps (.object :: stack) c' := by
  cases h with
  | first hp =>
      have hle := Nat.le_trans (Cursor.length_skipBlank c) hf
      rw [← Cursor.skipBlank_skipBlank] at hk
      have hpeek := hp
      rw [← Cursor.skipBlank_skipBlank] at hpeek
      exact resume_of_first hp (by decide) (key_of_keyed hpeek hk hle)
  | comma hp hq =>
      have hle := Nat.le_trans (Cursor.length_advance_le _) (Nat.le_trans (Cursor.length_skipBlank c) hf)
      exact resume_of_comma hp (key_of_keyed hq hk hle)

/-- Some steps lead over a value, whatever is open around it. -/
def Passes (fuel : Nat) (c c' : Cursor) : Prop :=
  ∃ k, k + 1 + c'.rest.length ≤ c.rest.length ∧
    ∀ steps stack, run fuel (steps + (k + 1)) stack c = resume fuel true steps stack c'

/-- The same behind an opening or behind a part, up to the bracket that closes. -/
def Closes (fuel : Nat) (bracket : Bracket) (separated : Bool) (c c' : Cursor) : Prop :=
  ∃ k, k + 1 + c'.rest.length ≤ c.rest.length ∧
    ∀ steps stack, resume fuel separated (steps + k) (bracket :: stack) c = resume fuel true steps stack c'

theorem closes_of_closing (h : Token bracket.closing c c') : Closes fuel bracket separated c c' :=
  ⟨0, by have hlt := h.length; omega, fun _ _ => resume_of_closing h⟩

/-- One more part in front of the others. -/
theorem Passes.closes {c₂ : Cursor} (h : Passes fuel c₁ c₂) (hl : c₁.rest.length ≤ c.rest.length)
    (hc : Closes fuel bracket true c₂ c')
    (hr : ∀ steps stack,
      resume fuel separated (steps + 1) (bracket :: stack) c = run fuel (steps + 1) (bracket :: stack) c₁) :
    Closes fuel bracket separated c c' := by
  obtain ⟨k, hk, hrun⟩ := h
  obtain ⟨k', hk', hresume⟩ := hc
  refine ⟨k' + (k + 1), by omega, fun steps stack => ?_⟩
  rw [← Nat.add_assoc, ← Nat.add_assoc, hr, Nat.add_assoc, hrun, hresume]

theorem closes_of_elementsFrom {item : Cursor → Read α} {xs done : List α}
    (hitem : ∀ c x c', item c = .ok (x, c') → c.rest.length ≤ fuel → Passes fuel c c')
    (h : elementsFrom item steps first done c = .ok (xs, c₁)) (hc : Token 93 c₁ c') (hf : c.rest.length ≤ fuel) :
    Closes fuel .array (!first) c c' := by
  induction steps generalizing first done c with
  | zero => cases h
  | succ steps ih =>
      rcases elementsFrom_succ.1 h with ⟨-, -, rfl⟩ | ⟨c₂, x, c₃, hmove, hread, hrest⟩
      · exact closes_of_closing hc
      · -- the value is passed over with the bracket still on the stack
        have hpasses := hitem c₂ x c₃ hread (Nat.le_trans hmove.length hf)
        have hf' : c₃.rest.length ≤ fuel := by
          obtain ⟨k, hk, -⟩ := hpasses
          have hle := hmove.length
          omega
        exact hpasses.closes hmove.length (ih hrest hf') fun _ _ => resume_of_nextElement hmove

theorem closes_of_membersFrom {item : Cursor → Read Value} {es done : Entries}
    (hitem : ∀ c x c', item c = .ok (x, c') → c.rest.length ≤ fuel → Passes fuel c c')
    (h : membersFrom fuel' item steps first done c = .ok (es, c₁)) (hc : Token 125 c₁ c') (hf : c.rest.length ≤ fuel) :
    Closes fuel .object (!first) c c' := by
  induction steps generalizing first done c with
  | zero => cases h
  | succ steps ih =>
      rcases membersFrom_succ.1 h with ⟨-, -, rfl⟩ | ⟨c₂, key, c₃, v, c₄, hmove, hkey, hread, hrest⟩
      · exact closes_of_closing hc
      · -- the key has been passed over when the bracket asked for it
        have hle : c₃.rest.length ≤ c.rest.length := Nat.le_trans (Nat.le_of_lt hkey.length) hmove.length
        have hpasses := hitem c₃ v c₄ hread (Nat.le_trans hle hf)
        have hf' : c₄.rest.length ≤ fuel := by
          obtain ⟨k, hk, -⟩ := hpasses
          omega
        exact hpasses.closes hle (ih hrest hf') fun _ _ => resume_of_nextKey hmove hkey hf

/-- An atom takes one step. -/
theorem passes_of_atom (h : atom fuel c = .ok (none, c')) (hl : c'.rest.length < c.rest.length) : Passes fuel c c' :=
  ⟨0, by omega, fun _ _ => run_of_atom h⟩

/-- An array or object takes one step more than what is in it. -/
theorem Closes.passes (h : Closes fuel bracket false c₁ c') (ha : atom fuel c = .ok (some bracket, c₁))
    (hl : c₁.rest.length < c.rest.length) : Passes fuel c c' := by
  obtain ⟨k, hk, hresume⟩ := h
  refine ⟨k, by omega, fun steps stack => ?_⟩
  rw [← Nat.add_assoc, run_of_opening ha, hresume]

/-- A value that can be read is passed over up to the same place. -/
theorem passes_of_value {v : Value} (h : value fuel' depth c = .ok (v, c')) (hf : c.rest.length ≤ fuel) :
    Passes fuel c c' := by
  induction depth generalizing c c' v with
  | zero => cases h
  | succ depth ih =>
      have hskip := Cursor.length_skipBlank c
      -- one level down, with whatever stack: the bracket of this value is then on it
      have hitem : ∀ c v c', value fuel' depth c = .ok (v, c') → c.rest.length ≤ fuel → Passes fuel c c' :=
        fun _ _ _ => ih
      cases found_iff.1 h with
      | word hp hw hword =>
          have hadvance := Cursor.length_advance hp
          have hle := length_word hword
          refine passes_of_atom ?_ (by omega)
          rcases wordOf?_cases hw with ⟨rfl, rfl, -⟩ | ⟨rfl, rfl, -⟩ | ⟨rfl, rfl, -⟩
          · simp only [atom, hp, hword]
            rfl
          · simp only [atom, hp, hword]
            rfl
          · simp only [atom, hp, hword]
            rfl
      | negative hp hn =>
          have hadvance := Cursor.length_advance hp
          have hread := Numeral.skip_of_read hn
          have hlt := Numeral.length_skip hread
          refine passes_of_atom ?_ (by omega)
          simp only [atom, hp, hread]
          rfl
      | number hp hb hn =>
          have hread := Numeral.skip_of_read hn
          have hlt := Numeral.length_skip hread
          refine passes_of_atom ?_ (by omega)
          obtain ⟨hnull, htrue, hfalse, hminus⟩ := ne_of_isDigit hb
          simp only [atom, hp, if_neg hnull, if_neg htrue, if_neg hfalse, if_neg hminus, if_pos hb, hread]
          rfl
      | text hp hs =>
          have hadvance := Cursor.length_advance hp
          obtain ⟨hlt, hread⟩ := Text.skip_of_read hs
          refine passes_of_atom ?_ (by omega)
          simp only [atom, hp, hread fuel (by omega)]
          rfl
      | array hp _ hx =>
          have hadvance := Cursor.length_advance hp
          obtain ⟨c₁, hread, hclose⟩ := elements_iff.1 hx
          refine (closes_of_elementsFrom hitem hread hclose (by omega)).passes ?_ (by omega)
          simp only [atom, hp]
          rfl
      | object hp _ hes =>
          have hadvance := Cursor.length_advance hp
          obtain ⟨c₁, hread, hclose⟩ := members_iff.1 hes
          refine (closes_of_membersFrom hitem hread hclose (by omega)).passes ?_ (by omega)
          simp only [atom, hp]
          rfl

end Skim

/-- A value that can be read is passed over up to the same place, whatever bound its nesting was read with. -/
theorem skip_of_value {fuel' : Nat} {v : Value} (h : value fuel' depth c = .ok (v, c')) (hf : c.rest.length ≤ fuel) :
    skip fuel c = .ok c' := by
  obtain ⟨k, hk, hrun⟩ := Skim.passes_of_value h hf
  -- a step takes a byte at least, so the fuel is enough for all of them
  obtain ⟨steps, hsteps⟩ : ∃ steps, fuel = steps + (k + 1) := ⟨fuel - (k + 1), by omega⟩
  have hskip : Skim.run fuel fuel [] c = Skim.run fuel (steps + (k + 1)) [] c := by rw [← hsteps]
  rw [skip, hskip, hrun, Skim.resume_nil]

end Json
end Courier
