import Courier.Proofs.Json.Numeral

/-!
# Double — reading a written double, whatever comes out

The text of a double need not be read as that double.  It is always one numeral, though, so what the reader makes of
it does not depend on the place where it stands, and none of it is left over.

1. `DoubleText` is the form of such a text, and `doubleText` says that every double is written in it,
2. `Settled` says that a reader makes the same of a text wherever it stands,
3. `settled_read` follows the reader of numerals through such a text.
-/

namespace Courier
namespace Json

/-! ## The form of the text -/

/-- At least one digit, and nothing but digits. -/
structure Digits (ds : Bytes) : Prop where
  some : ds ≠ []
  all : ∀ b ∈ ds, Bytes.isDigit b = true

/-- An exponent with a sign. -/
inductive ExponentText : Bytes → Prop where
  | mk {sign : UInt8} {ds : Bytes} (hs : sign = 43 ∨ sign = 45) (hd : Digits ds) :
      ExponentText (101 :: sign :: ds)

/-- An exponent, or none. -/
def EndText (text : Bytes) : Prop :=
  text = [] ∨ ExponentText text

/-- What stands behind the integer digits: a fraction, an exponent or both. -/
inductive TailText : Bytes → Prop where
  | fraction {ds tail : Bytes} (hd : Digits ds) (he : EndText tail) : TailText (46 :: (ds ++ tail))
  | exponent {tail : Bytes} (he : ExponentText tail) : TailText tail

/-- The text of a double without its sign. -/
inductive DoubleText : Bytes → Prop where
  | mk {ds tail : Bytes} (hd : Digits ds) (ht : TailText tail) : DoubleText (ds ++ tail)

theorem digits_numeral (n : Nat) : Digits (Bytes.numeral n) := by
  obtain ⟨b, text, htext, -⟩ := Numeral.numeralOnto_head (Nat.le_refl n) []
  refine ⟨?_, fun b hb => Numeral.isDigit_of_mem_numeral hb⟩
  rw [Bytes.numeral, htext]
  simp

theorem isDigit_zero : Bytes.isDigit 48 = true := rfl

theorem all_zeros {count : Nat} : ∀ b ∈ Scaled.zeros count, Bytes.isDigit b = true := by
  intro b hb
  obtain rfl : b = 48 := List.eq_of_mem_replicate hb
  rfl

theorem doubleText_positional (d : Scaled) : DoubleText d.positional := by
  have hnumeral := digits_numeral d.digits
  unfold Scaled.positional
  cases hd : d.exponent with
  | ofNat e =>
      have hzero : Digits [48] := ⟨by simp, by simp [isDigit_zero]⟩
      refine .mk ⟨by simp [hnumeral.some], fun b hb => ?_⟩ (.fraction hzero (.inl rfl))
      rcases List.mem_append.1 hb with hb | hb
      · exact hnumeral.all b hb
      · exact all_zeros b hb
  | negSucc e =>
      -- zeros in front leave at least one digit before the point
      generalize hp : Scaled.zeros (e + 1 + 1 - (Bytes.numeral d.digits).length) ++ Bytes.numeral d.digits = padded
      have hall : ∀ b ∈ padded, Bytes.isDigit b = true := by
        intro b hb
        rw [← hp] at hb
        rcases List.mem_append.1 hb with hb | hb
        · exact all_zeros b hb
        · exact hnumeral.all b hb
      have hlength : e + 2 ≤ padded.length := by
        rw [← hp, List.length_append, Scaled.zeros, List.length_replicate]
        omega
      simp only [hp, List.append_assoc]
      show DoubleText (padded.take (padded.length - (e + 1)) ++ 46 :: padded.drop (padded.length - (e + 1)))
      refine .mk ⟨?_, fun b hb => hall b (List.mem_of_mem_take hb)⟩
        (List.append_nil (padded.drop _) ▸ .fraction ⟨?_, fun b hb => hall b (List.mem_of_mem_drop hb)⟩ (.inl rfl))
      · refine List.ne_nil_of_length_pos ?_
        rw [List.length_take]
        omega
      · refine List.ne_nil_of_length_pos ?_
        rw [List.length_drop]
        omega

theorem doubleText_scientific (d : Scaled) : DoubleText d.scientific := by
  have hplus : ∀ e, ExponentText (Bytes.ascii "e+" ++ Bytes.numeral e) := fun e => .mk (.inl rfl) (digits_numeral e)
  have hminus : ∀ e, ExponentText (Bytes.ascii "e-" ++ Bytes.numeral e) := fun e => .mk (.inr rfl) (digits_numeral e)
  have hnumeral := digits_numeral d.digits
  unfold Scaled.scientific
  generalize Bytes.numeral d.digits = digits at hnumeral
  rcases digits with _ | ⟨first, _ | ⟨second, rest⟩⟩
  · exact absurd rfl hnumeral.some
  · cases d.leading with
    | ofNat e => exact .mk hnumeral (.exponent (hplus e))
    | negSucc e => exact .mk hnumeral (.exponent (hminus (e + 1)))
  · have hfirst : Digits [first] := ⟨by simp, fun b hb => hnumeral.all b (by simp_all)⟩
    have hrest : Digits (second :: rest) := ⟨by simp, fun b hb => hnumeral.all b (List.mem_cons_of_mem _ hb)⟩
    have hboth : ∀ tail, ExponentText tail → DoubleText ([first] ++ 46 :: ((second :: rest) ++ tail)) :=
      fun tail ht => .mk hfirst (.fraction hrest (.inr ht))
    cases d.leading with
    | ofNat e => exact hboth _ (hplus e)
    | negSucc e => exact hboth _ (hminus (e + 1))

/-- Every double is written in this form, behind a minus sign if it is negative. -/
theorem doubleText (x : Double) :
    ∃ text, DoubleText text ∧ x.text numberLayout = if x.isNegative then 45 :: text else text := by
  refine ⟨_, ?_, rfl⟩
  split
  · exact doubleText_positional _
  · exact doubleText_scientific _

/-! ## Reading it -/

/-- What a reader comes to: a number with given bytes left, or a fault. -/
def ComesTo (outcome : Option Number) (rest : Bytes) : Read Number → Prop
  | .ok (n, c) => outcome = some n ∧ c.rest = rest
  | .error _ => outcome = none

/-- A reader makes the same of a text wherever it stands, and uses all of it up. -/
def Settled (read : Cursor → Read Number) (text : Bytes) : Prop :=
  ∃ outcome, ∀ c rest, EndsNumeral rest → c.rest = text ++ rest → ComesTo outcome rest (read c)

namespace Settled

variable {read read' : Cursor → Read Number} {text text' : Bytes}

/-- A reader goes on with a part of the text. -/
theorem of_step (h : Settled read' text')
    (hs : ∀ c rest, EndsNumeral rest → c.rest = text ++ rest → ∃ d, read c = read' d ∧ d.rest = text' ++ rest) :
    Settled read text := by
  obtain ⟨outcome, hread⟩ := h
  refine ⟨outcome, fun c rest hr hc => ?_⟩
  obtain ⟨d, hstep, hd⟩ := hs c rest hr hc
  rw [hstep]
  exact hread d rest hr hd

theorem of_error (h : ∀ c rest, EndsNumeral rest → c.rest = text ++ rest → ∃ f, read c = .error f) :
    Settled read text := by
  refine ⟨none, fun c rest hr hc => ?_⟩
  obtain ⟨f, hf⟩ := h c rest hr hc
  rw [hf]
  rfl

end Settled

theorem EndText.endsDigits {text rest : Bytes} (h : EndText text) (hr : EndsNumeral rest) :
    EndsDigits (text ++ rest) := by
  rcases h with rfl | @⟨sign, ds, -, -⟩
  · exact hr.endsDigits
  · intro b hb
    obtain rfl : 101 = b := Option.some.inj hb
    rfl

theorem TailText.endsDigits {text rest : Bytes} (h : TailText text) (hr : EndsNumeral rest) :
    EndsDigits (text ++ rest) := by
  cases h with
  | fraction hd he =>
      intro b hb
      obtain rfl : 46 = b := Option.some.inj hb
      rfl
  | exponent he => exact EndText.endsDigits (.inr he) hr

namespace Numeral

variable {c : Cursor} {ds tail rest : Bytes}

theorem settled_double (negative : Bool) (significand : Nat) (shift : Int) :
    Settled (double negative significand shift) [] := by
  refine ⟨(Decimal.toDouble? negative significand shift).map .float, fun c rest _ hc => ?_⟩
  unfold double
  cases Decimal.toDouble? negative significand shift with
  | some x => exact ⟨rfl, hc⟩
  | none => rfl

/-- How far digits are read does not depend on what stands behind them. -/
theorem digits_of_digits (hd : ∀ b ∈ ds, Bytes.isDigit b = true) (bound value : Nat) :
    ∃ v k left, (∀ b ∈ left, Bytes.isDigit b = true) ∧ ∀ c tail, EndsDigits tail → c.rest = ds ++ tail →
      ∃ d, digits bound value c = (v, k, d) ∧ d.rest = left ++ tail := by
  refine ⟨(digitsFrom bound value 0 ds).1, (digitsFrom bound value 0 ds).2.1, (digitsFrom bound value 0 ds).2.2,
    fun b hb => hd b ((digitsFrom_suffix bound value 0 ds).subset hb), fun c tail ht hc => ?_⟩
  unfold digits
  rw [hc, digitsFrom_append ht]
  exact ⟨_, rfl, rfl⟩

theorem peek_of_digits (hd : Digits ds) (hc : c.rest = ds ++ tail) :
    ∃ b, c.peek = some b ∧ Bytes.isDigit b = true := by
  cases ds with
  | nil => exact absurd rfl hd.some
  | cons b ds => exact ⟨b, Cursor.peek_of_rest hc, hd.all b (List.mem_cons_self ..)⟩

theorem atDigit_of_digits (hd : ∀ b ∈ ds, Bytes.isDigit b = true) (ht : EndsDigits tail) (hc : c.rest = ds ++ tail) :
    atDigit c = !ds.isEmpty := by
  unfold atDigit Cursor.peek
  rw [hc]
  cases ds with
  | nil =>
      rw [List.nil_append]
      cases hb : tail.head? with
      | none => rfl
      | some b => simp [ht b hb]
  | cons b ds => simp [hd b (List.mem_cons_self ..)]

theorem skipDigits_of_digits (hd : ∀ b ∈ ds, Bytes.isDigit b = true) (ht : EndsDigits tail) (hc : c.rest = ds ++ tail) :
    (skipDigits c).1 = ds.length ∧ (skipDigits c).2.rest = tail := by
  have hstop : tail.takeWhile Bytes.isDigit = [] ∧ tail.dropWhile Bytes.isDigit = tail := by
    cases tail with
    | nil => exact ⟨rfl, rfl⟩
    | cons b tail => simp [ht b rfl]
  rw [(skipDigits_eq c).1, (skipDigits_eq c).2, hc, List.takeWhile_append_of_pos hd, List.dropWhile_append_of_pos hd,
    hstop.1, hstop.2, List.append_nil]
  exact ⟨rfl, rfl⟩

theorem settled_exponentDigits (negative down : Bool) (significand : Nat) (shift : Int) (hd : Digits ds) :
    Settled (exponentDigits negative down significand shift) ds := by
  obtain ⟨e, k, left, hleft, hdigits⟩ := digits_of_digits hd.all exponentBound 0
  have hstep : ∀ c rest, EndsNumeral rest → c.rest = ds ++ rest → ∃ d, d.rest = left ++ rest ∧
      exponentDigits negative down significand shift c =
        if atDigit d then
          if significand ≠ 0 && !down then .error (d.advance.fault .numberOutOfRange)
          else .ok (.float (Double.zero negative), (skipDigits d.advance).2)
        else double negative significand (if down then shift - e else shift + e) d := by
    intro c rest hr hc
    obtain ⟨b, hpeek, -⟩ := peek_of_digits hd hc
    obtain ⟨d, hd', hrest⟩ := hdigits c rest hr.endsDigits hc
    have hat : atDigit c = true := by
      rw [atDigit_of_digits hd.all hr.endsDigits hc]
      simpa using hd.some
    refine ⟨d, hrest, ?_⟩
    unfold exponentDigits
    simp only [hpeek, hat, hd', if_true]
  cases left with
  | nil =>
      refine (settled_double negative significand (if down then shift - e else shift + e)).of_step
        fun c rest hr hc => ?_
      obtain ⟨d, hrest, heq⟩ := hstep c rest hr hc
      rw [atDigit_of_digits hleft hr.endsDigits hrest] at heq
      exact ⟨d, heq, hrest⟩
  | cons b left =>
      -- more digits than fit: the number is too large, or so small that it is zero
      have hmore : ∀ d rest, EndsNumeral rest → d.rest = b :: left ++ rest → atDigit d = true := fun d rest hr hrest =>
        atDigit_of_digits hleft hr.endsDigits hrest
      by_cases hlarge : (significand ≠ 0 && !down) = true
      · refine .of_error fun c rest hr hc => ?_
        obtain ⟨d, hrest, heq⟩ := hstep c rest hr hc
        rw [hmore d rest hr hrest, if_pos rfl, if_pos hlarge] at heq
        exact ⟨_, heq⟩
      · refine ⟨some (.float (Double.zero negative)), fun c rest hr hc => ?_⟩
        obtain ⟨d, hrest, heq⟩ := hstep c rest hr hc
        rw [hmore d rest hr hrest, if_pos rfl, if_neg hlarge] at heq
        rw [heq]
        have hskip := skipDigits_of_digits (fun x hx => hleft x (List.mem_cons_of_mem _ hx)) hr.endsDigits
          (Cursor.rest_advance hrest)
        exact ⟨rfl, hskip.2⟩

theorem settled_exponent (negative : Bool) (significand : Nat) (shift : Int) {text : Bytes} (h : ExponentText text) :
    Settled (exponent negative significand shift) text := by
  obtain @⟨sign, ds, hs, hd⟩ := h
  refine (settled_exponentDigits negative (sign == 45) significand shift hd).of_step fun c rest hr hc => ?_
  have hadvance : c.advance.rest = sign :: (ds ++ rest) := Cursor.rest_advance hc
  refine ⟨c.advance.advance, ?_, Cursor.rest_advance hadvance⟩
  unfold exponent
  simp only [Cursor.peek_of_rest hadvance]
  rcases hs with rfl | rfl <;> rfl

theorem atExponent_of_rest {b : UInt8} (hc : c.rest = b :: rest) : atExponent c = (b == 101 || b == 69) := by
  unfold atExponent
  rw [Cursor.peek_of_rest hc]
  rfl

theorem settled_exponentOrEnd (negative : Bool) (significand : Nat) (shift : Int) {text : Bytes} (h : EndText text) :
    Settled (exponentOrEnd negative significand shift) text := by
  rcases h with rfl | h
  · refine (settled_double negative significand shift).of_step fun c rest hr hc => ⟨c, ?_, hc⟩
    have hat : atExponent c = false := atExponent_of_extends (c := ⟨[], 0, 0⟩) hr hc
    rw [exponentOrEnd, hat]
    rfl
  · refine (settled_exponent negative significand shift h).of_step fun c rest hr hc => ⟨c, ?_, hc⟩
    obtain @⟨sign, ds, -, -⟩ := h
    rw [exponentOrEnd, atExponent_of_rest hc]
    rfl

/-- A fraction, whose point is next. -/
theorem settled_fraction (negative : Bool) (significand k : Nat) (hd : Digits ds) (he : EndText tail) :
    Settled (fraction negative significand k) (46 :: (ds ++ tail)) := by
  obtain ⟨v, count, left, hleft, hdigits⟩ := digits_of_digits hd.all significandBound significand
  have hstep : ∀ c rest, EndsNumeral rest → c.rest = 46 :: (ds ++ tail) ++ rest → ∃ d, d.rest = left ++ (tail ++ rest) ∧
      fraction negative significand k c =
        if atDigit d then exponentOrEnd negative v ((k : Int) - count) (skipDigits d).2
        else if count = 0 then .error (d.faultNext (if d.peek.isSome then .invalidNumber else .eofValue))
        else exponentOrEnd negative v ((k : Int) - count) d := by
    intro c rest hr hc
    have hadvance : c.advance.rest = ds ++ (tail ++ rest) := (Cursor.rest_advance hc).trans (List.append_assoc ..)
    obtain ⟨d, hd', hrest⟩ := hdigits c.advance _ (he.endsDigits hr) hadvance
    refine ⟨d, hrest, ?_⟩
    unfold fraction
    cases hpeek : d.peek <;> simp only [hd', hpeek, Option.isSome, if_true, Bool.false_eq_true, if_false]
  cases left with
  | nil =>
      by_cases hcount : count = 0
      · refine .of_error fun c rest hr hc => ?_
        obtain ⟨d, hrest, heq⟩ := hstep c rest hr hc
        rw [atDigit_of_digits hleft (he.endsDigits hr) hrest, if_neg (by simp), if_pos hcount] at heq
        exact ⟨_, heq⟩
      · refine (settled_exponentOrEnd negative v ((k : Int) - count) he).of_step fun c rest hr hc => ?_
        obtain ⟨d, hrest, heq⟩ := hstep c rest hr hc
        rw [atDigit_of_digits hleft (he.endsDigits hr) hrest, if_neg (by simp), if_neg hcount] at heq
        exact ⟨d, heq, hrest⟩
  | cons b left =>
      refine (settled_exponentOrEnd negative v ((k : Int) - count) he).of_step fun c rest hr hc => ?_
      obtain ⟨d, hrest, heq⟩ := hstep c rest hr hc
      rw [atDigit_of_digits hleft (he.endsDigits hr) hrest, if_pos (by simp)] at heq
      exact ⟨_, heq, (skipDigits_of_digits hleft (he.endsDigits hr) hrest).2⟩

theorem settled_afterWhole (negative : Bool) (significand : Nat) (ht : TailText tail) :
    Settled (afterWhole negative significand) tail := by
  cases ht with
  | fraction hd he =>
      refine (settled_fraction negative significand 0 hd he).of_step fun c rest hr hc => ⟨c, ?_, hc⟩
      rw [afterWhole, Cursor.peek_of_rest hc]
      rfl
  | exponent he =>
      refine (settled_exponent negative significand 0 he).of_step fun c rest hr hc => ⟨c, ?_, hc⟩
      obtain @⟨sign, ds, -, -⟩ := he
      rw [afterWhole, Cursor.peek_of_rest hc, atExponent_of_rest hc]
      rfl

/-- What stands behind digits that are too many for the significand. -/
theorem settled_afterLong (negative : Bool) (significand : Nat) (hd : ∀ b ∈ ds, Bytes.isDigit b = true)
    (ht : TailText tail) : Settled (afterLong negative significand) (ds ++ tail) := by
  have hskip : ∀ c rest, EndsNumeral rest → c.rest = ds ++ tail ++ rest →
      (skipDigits c).1 = ds.length ∧ (skipDigits c).2.rest = tail ++ rest := fun c rest hr hc =>
    skipDigits_of_digits hd (ht.endsDigits hr) (hc.trans (List.append_assoc ..))
  cases ht with
  | fraction hd' he =>
      refine (settled_fraction negative significand ds.length hd' he).of_step fun c rest hr hc => ?_
      obtain ⟨hcount, hrest⟩ := hskip c rest hr hc
      refine ⟨_, ?_, hrest⟩
      unfold afterLong
      simp only [hcount, Cursor.peek_of_rest hrest]
      rfl
  | exponent he =>
      refine (settled_exponentOrEnd negative significand ds.length (.inr he)).of_step fun c rest hr hc => ?_
      obtain ⟨hcount, hrest⟩ := hskip c rest hr hc
      refine ⟨_, ?_, hrest⟩
      obtain @⟨sign, ds', -, -⟩ := he
      unfold afterLong
      simp only [hcount, Cursor.peek_of_rest hrest]
      rfl

/-- What a written double is read as is settled by its text. -/
theorem settled_read (negative : Bool) {text : Bytes} (h : DoubleText text) : Settled (read negative) text := by
  obtain @⟨ds, tail, hd, ht⟩ := h
  cases ds with
  | nil => exact absurd rfl hd.some
  | cons b ds =>
      have hb : Bytes.isDigit b = true := hd.all b (List.mem_cons_self ..)
      have hds : ∀ x ∈ ds, Bytes.isDigit x = true := fun x hx => hd.all x (List.mem_cons_of_mem _ hx)
      by_cases hzero : b = 48
      · have hstep : ∀ c rest, EndsNumeral rest → c.rest = b :: ds ++ tail ++ rest →
            c.advance.rest = ds ++ (tail ++ rest) ∧ read negative c =
              if !ds.isEmpty then .error (c.advance.faultNext .invalidNumber) else afterWhole negative 0 c.advance := by
          intro c rest hr hc
          have hadvance : c.advance.rest = ds ++ (tail ++ rest) :=
            (Cursor.rest_advance hc).trans (List.append_assoc ..)
          refine ⟨hadvance, ?_⟩
          rw [← atDigit_of_digits hds (ht.endsDigits hr) hadvance, read, Cursor.peek_of_rest hc]
          simp only [if_pos hzero]
        cases ds with
        | nil =>
            refine (settled_afterWhole negative 0 ht).of_step fun c rest hr hc => ?_
            obtain ⟨hadvance, heq⟩ := hstep c rest hr hc
            exact ⟨c.advance, heq, hadvance⟩
        | cons b' ds =>
            -- a zero in front of other digits is not a number
            exact .of_error fun c rest hr hc => ⟨_, (hstep c rest hr hc).2⟩
      · obtain ⟨v, k, left, hleft, hdigits⟩ := digits_of_digits hd.all significandBound 0
        have hstep : ∀ c rest, EndsNumeral rest → c.rest = b :: ds ++ tail ++ rest → ∃ d,
            d.rest = left ++ (tail ++ rest) ∧ read negative c =
              if !left.isEmpty then afterLong negative v d else afterWhole negative v d := by
          intro c rest hr hc
          obtain ⟨d, hd', hrest⟩ := hdigits c _ (ht.endsDigits hr) (hc.trans (List.append_assoc ..))
          refine ⟨d, hrest, ?_⟩
          rw [← atDigit_of_digits hleft (ht.endsDigits hr) hrest, read, Cursor.peek_of_rest hc]
          simp only [if_neg hzero, if_pos hb, hd']
        cases left with
        | nil =>
            refine (settled_afterWhole negative v ht).of_step fun c rest hr hc => ?_
            obtain ⟨d, hrest, heq⟩ := hstep c rest hr hc
            exact ⟨d, heq, hrest⟩
        | cons b' left =>
            refine (settled_afterLong negative v hleft ht).of_step fun c rest hr hc => ?_
            obtain ⟨d, hrest, heq⟩ := hstep c rest hr hc
            exact ⟨d, heq, hrest.trans (List.append_assoc ..).symm⟩

end Numeral

end Json
end Courier
