import Courier.Json.Document
import Courier.Proofs.Json.Numeral
import Courier.Proofs.Result

/-!
# Extension — values with something behind them

What a reader finds in a document it finds as well with more behind the document, as long as a numeral that ends the
document is not continued, with more room for nesting and with more fuel.

1. `Extends` compares two readings, the second with more behind the text,
2. `Text.extends_read` holds of the reader of strings,
3. `extends_elements` and `extends_members` lift it to the insides of arrays and objects,
4. `extends_value`, by induction on the depth.
-/

namespace Courier
namespace Json

/-! ## Cursors -/

namespace Cursor

variable {c d : Cursor} {b : UInt8} {more : Bytes}

theorem rest_of_peek (h : c.peek = some b) : c.rest = b :: c.advance.rest := by
  cases hc : c.rest with
  | nil => simp [peek, hc] at h
  | cons b' rest =>
      obtain rfl : b' = b := by simpa [peek, hc] using h
      rw [rest_advance hc]

theorem peek_of_extends (h : c.peek = some b) (he : d.rest = c.rest ++ more) :
    d.peek = some b ∧ d.advance.rest = c.advance.rest ++ more := by
  have hd : d.rest = b :: (c.advance.rest ++ more) := by
    rw [he, rest_of_peek h]
    rfl
  exact ⟨peek_of_rest hd, rest_advance hd⟩

theorem rest_skipBlank (c : Cursor) : c.skipBlank.rest = c.rest.dropWhile isBlank := by
  have hskip : ∀ (bytes : Bytes) (line column : Nat),
      (skipFrom isBlank line column bytes).rest = bytes.dropWhile isBlank := by
    intro bytes
    induction bytes with
    | nil => exact fun _ _ => rfl
    | cons b bytes ih =>
        intro line column
        rw [skipFrom, List.dropWhile_cons]
        by_cases hb : isBlank b = true
        · rw [if_pos hb, if_pos hb]
          split
          · exact ih _ _
          · exact ih _ _
        · rw [if_neg hb, if_neg hb]
  exact hskip c.rest c.line c.column

theorem skipBlank_of_extends (h : c.skipBlank.peek = some b) (he : d.rest = c.rest ++ more) :
    d.skipBlank.rest = c.skipBlank.rest ++ more := by
  have hne : c.rest.dropWhile isBlank ≠ [] := by
    rw [← rest_skipBlank, rest_of_peek h]
    exact List.cons_ne_nil _ _
  rw [rest_skipBlank, rest_skipBlank, he, List.dropWhile_append, if_neg (by simpa using hne)]

end Cursor

/-! ## More behind the text -/

/-- What the first reading finds, the second one finds with more behind it. -/
def Extends {α : Type} (more : Bytes) (r r' : Read α) : Prop :=
  ∀ x c, r = .ok (x, c) → ∃ d, r' = .ok (x, d) ∧ d.rest = c.rest ++ more

/-- Where the first reading comes to, the second one comes to with more behind it. -/
def Reaches (more : Bytes) (r r' : Except Fault Cursor) : Prop :=
  ∀ c, r = .ok c → ∃ d, r' = .ok d ∧ d.rest = c.rest ++ more

variable {α β : Type} {more : Bytes} {c d : Cursor} {b : UInt8} {fuel fuel' depth depth' steps steps' : Nat}

/-- What is read when one byte is wanted and all others are faults. -/
theorem byte_iff {wanted : UInt8} {e : Fault} {other : UInt8 → Except Fault Cursor} {c' : Cursor}
    (ho : ∀ b, other b ≠ .ok c') :
    (match c.peek with
      | none => (.error e : Except Fault Cursor)
      | some b => if b = wanted then .ok c.advance else other b) = .ok c' ↔ c.peek = some wanted ∧ c.advance = c' := by
  constructor
  · intro h
    split at h
    · cases h
    · next b hp =>
      split at h
      · next hb =>
        subst hb
        exact ⟨hp, Except.ok.inj h⟩
      · exact absurd h (ho b)
  · rintro ⟨hp, rfl⟩
    simp only [hp, if_true]

theorem reaches_word (letters : Bytes) (he : d.rest = c.rest ++ more) :
    Reaches more (word letters c) (word letters d) := by
  induction letters generalizing c d with
  | nil =>
      intro c' h
      obtain rfl := Except.ok.inj h
      exact ⟨d, rfl, he⟩
  | cons expected letters ih =>
      intro c' h
      rw [word] at h ⊢
      split at h
      · cases h
      · next b hb =>
        obtain ⟨hpeek, hadvance⟩ := Cursor.peek_of_extends hb he
        rw [hpeek]
        by_cases hexpected : b = expected
        · simp only [if_pos hexpected] at h ⊢
          exact ih hadvance c' h
        · rw [if_neg hexpected] at h
          cases h

/-! ## Strings -/

namespace Text

theorem extends_hexEscape (he : d.rest = c.rest ++ more) : Extends more (hexEscape c) (hexEscape d) := by
  intro n c' h
  unfold hexEscape at h
  split at h
  · next b₁ b₂ b₃ b₄ tail hc =>
    have hd : d.rest = b₁ :: b₂ :: b₃ :: b₄ :: (tail ++ more) := by
      rw [he, hc]
      rfl
    have hafter : d.advance.advance.advance.advance.rest = c.advance.advance.advance.advance.rest ++ more := by
      rw [Cursor.rest_advance (Cursor.rest_advance (Cursor.rest_advance (Cursor.rest_advance hd))),
        Cursor.rest_advance (Cursor.rest_advance (Cursor.rest_advance (Cursor.rest_advance hc)))]
    split at h
    · next h₁ h₂ h₃ h₄ =>
      obtain ⟨rfl, rfl⟩ := Prod.mk.inj (Except.ok.inj h)
      exact ⟨d.advance.advance.advance.advance, by simp only [hexEscape, hd, h₁, h₂, h₃, h₄], hafter⟩
    · cases h
  · cases h

theorem pairByte_iff {wanted : UInt8} {c' : Cursor} :
    pairByte wanted c = .ok c' ↔ c.peek = some wanted ∧ c.advance = c' :=
  byte_iff fun _ => nofun

theorem reaches_pairByte (expected : UInt8) (he : d.rest = c.rest ++ more) :
    Reaches more (pairByte expected c) (pairByte expected d) := by
  intro c' h
  obtain ⟨hp, rfl⟩ := pairByte_iff.1 h
  obtain ⟨hpeek, hadvance⟩ := Cursor.peek_of_extends hp he
  exact ⟨d.advance, pairByte_iff.2 ⟨hpeek, rfl⟩, hadvance⟩

/-- What a `\u` escape comes to when it is one: a unit by itself, or two halves of a pair. -/
inductive Unicode (c : Cursor) : Char → Cursor → Prop where
  | single {unit : Nat} {c' : Cursor} (hh : hexEscape c = .ok (unit, c')) (ht : isTrailing unit = false)
      (hl : isLeading unit = false) : Unicode c (Char.ofNat unit) c'
  | pair {unit second : Nat} {c₁ c₂ c₃ c' : Cursor} (hh : hexEscape c = .ok (unit, c₁)) (ht : isTrailing unit = false)
      (hl : isLeading unit = true) (hs : pairByte 92 c₁ = .ok c₂) (hu : pairByte 117 c₂ = .ok c₃)
      (hh' : hexEscape c₃ = .ok (second, c')) (ht' : isTrailing second = true) :
      Unicode c (Char.ofNat ((unit - 0xD800) * 1024 + (second - 0xDC00) + 0x10000)) c'

theorem unicode_iff {ch : Char} {c' : Cursor} : unicodeEscape c = .ok (ch, c') ↔ Unicode c ch c' := by
  unfold unicodeEscape
  simp only [bind, Except.bind]
  constructor
  · intro h
    split at h
    · cases h
    · next hh =>
      -- behind the first half of a pair stands the second, and neither stands anywhere else
      split at h
      · cases h
      · next ht =>
        split at h
        · next hl =>
          split at h
          · cases h
          · next hs =>
            split at h
            · cases h
            · next hu =>
              split at h
              · cases h
              · next hh' =>
                split at h
                · next ht' =>
                  obtain ⟨rfl, rfl⟩ := Prod.mk.inj (Except.ok.inj h)
                  exact .pair hh (by simpa using ht) hl hs hu hh' ht'
                · cases h
        · next hl =>
          obtain ⟨rfl, rfl⟩ := Prod.mk.inj (Except.ok.inj h)
          exact .single hh (by simpa using ht) (by simpa using hl)
  · intro h
    cases h with
    | single hh ht hl => simp only [hh, ht, hl, Bool.false_eq_true, if_false]
    | pair hh ht hl hs hu hh' ht' => simp only [hh, ht, hl, hs, hu, hh', ht', Bool.false_eq_true, if_false, if_true]

theorem extends_unicodeEscape (he : d.rest = c.rest ++ more) : Extends more (unicodeEscape c) (unicodeEscape d) := by
  intro ch c' h
  cases unicode_iff.1 h with
  | single hh ht hl =>
      obtain ⟨d', hh', hd'⟩ := extends_hexEscape he _ _ hh
      exact ⟨d', unicode_iff.2 (.single hh' ht hl), hd'⟩
  | pair hh ht hl hs hu hh₂ ht₂ =>
      obtain ⟨d₁, hd₁, he₁⟩ := extends_hexEscape he _ _ hh
      obtain ⟨d₂, hd₂, he₂⟩ := reaches_pairByte 92 he₁ _ hs
      obtain ⟨d₃, hd₃, he₃⟩ := reaches_pairByte 117 he₂ _ hu
      obtain ⟨d', hd', he'⟩ := extends_hexEscape he₃ _ _ hh₂
      exact ⟨d', unicode_iff.2 (.pair hd₁ ht hl hd₂ hd₃ hd' ht₂), he'⟩

/-- What an escape comes to when it is one. -/
inductive Escaped (c : Cursor) : Bytes → Cursor → Prop where
  | short {b x : UInt8} (hp : c.peek = some b) (hs : shortEscape? b = some x) : Escaped c [x] c.advance
  | unicode {ch : Char} {c' : Cursor} (hp : c.peek = some 117) (hu : unicodeEscape c.advance = .ok (ch, c')) :
      Escaped c (String.utf8EncodeChar ch) c'

theorem escaped_iff {bytes : Bytes} {c' : Cursor} : escape c = .ok (bytes, c') ↔ Escaped c bytes c' := by
  unfold escape
  constructor
  · intro h
    split at h
    · cases h
    · next b hp =>
      split at h
      · next hs =>
        obtain ⟨rfl, rfl⟩ := Prod.mk.inj (Except.ok.inj h)
        exact .short hp hs
      · split at h
        · next hb =>
          subst hb
          obtain ⟨ch, hu, rfl⟩ := Result.of_map h
          exact .unicode hp hu
        · cases h
  · intro h
    cases h with
    | short hp hs => simp only [hp, hs]
    | unicode hp hu =>
        have hshort : shortEscape? 117 = none := rfl
        simp only [hp, hshort, if_true, hu, Except.map]

theorem extends_escape (he : d.rest = c.rest ++ more) : Extends more (escape c) (escape d) := by
  intro bytes c' h
  cases escaped_iff.1 h with
  | short hp hs =>
      obtain ⟨hpeek, hadvance⟩ := Cursor.peek_of_extends hp he
      exact ⟨d.advance, escaped_iff.2 (.short hpeek hs), hadvance⟩
  | unicode hp hu =>
      obtain ⟨hpeek, hadvance⟩ := Cursor.peek_of_extends hp he
      obtain ⟨d', hu', hd'⟩ := extends_unicodeEscape hadvance _ _ hu
      exact ⟨d', escaped_iff.2 (.unicode hpeek hu'), hd'⟩

/-- What a reader of strings meets: the closing quote, or something that stands for bytes. -/
inductive Piece (c : Cursor) : Option Bytes → Cursor → Prop where
  | closing (hp : c.peek = some 34) : Piece c none c.advance
  | escaped {bytes : Bytes} {c' : Cursor} (hp : c.peek = some 92) (he : escape c.advance = .ok (bytes, c')) :
      Piece c (some bytes) c'
  | plain {b : UInt8} (hp : c.peek = some b) (hb : IsPlain b) : Piece c (some [b]) c.advance

theorem readBytes_succ {done text : Bytes} {c' : Cursor} : readBytes (fuel + 1) done c = .ok (text, c') ↔
    (Piece c none c' ∧ done.reverse = text) ∨
      ∃ bytes c₁, Piece c (some bytes) c₁ ∧ readBytes fuel (bytes.reverse ++ done) c₁ = .ok (text, c') := by
  rw [readBytes]
  constructor
  · intro h
    split at h
    · cases h
    · next b hp =>
      -- a quote ends the string, a backslash begins an escape, and control characters may not stand there
      split at h
      · next hb =>
        subst hb
        obtain ⟨rfl, rfl⟩ := Prod.mk.inj (Except.ok.inj h)
        exact .inl ⟨.closing hp, rfl⟩
      · next hquote =>
        split at h
        · next hb =>
          subst hb
          split at h
          · next he => exact .inr ⟨_, _, .escaped hp he, h⟩
          · cases h
        · next hslash =>
          split at h
          · cases h
          · next hcontrol => exact .inr ⟨[b], c.advance, .plain hp ⟨hquote, hslash, hcontrol⟩, h⟩
  · rintro (⟨hpiece, rfl⟩ | ⟨bytes, c₁, hpiece, h⟩)
    · cases hpiece with
      | closing hp => simp only [hp, if_true]
    · cases hpiece with
      | escaped hp he =>
          have hquote : ¬ (92 : UInt8) = 34 := by decide
          simp only [hp, if_neg hquote, if_true, he, h]
      | plain hp hb =>
          obtain ⟨hquote, hslash, hcontrol⟩ := hb
          simp only [hp, if_neg hquote, if_neg hslash, if_neg hcontrol]
          exact h

theorem Piece.extends {bytes : Option Bytes} {c' : Cursor} (h : Piece c bytes c') (he : d.rest = c.rest ++ more) :
    ∃ d', Piece d bytes d' ∧ d'.rest = c'.rest ++ more := by
  cases h with
  | closing hp =>
      obtain ⟨hpeek, hadvance⟩ := Cursor.peek_of_extends hp he
      exact ⟨d.advance, .closing hpeek, hadvance⟩
  | escaped hp hescape =>
      obtain ⟨hpeek, hadvance⟩ := Cursor.peek_of_extends hp he
      obtain ⟨d', hd', he'⟩ := extends_escape hadvance _ _ hescape
      exact ⟨d', .escaped hpeek hd', he'⟩
  | plain hp hb =>
      obtain ⟨hpeek, hadvance⟩ := Cursor.peek_of_extends hp he
      exact ⟨d.advance, .plain hpeek hb, hadvance⟩

theorem extends_readBytes (hf : fuel ≤ fuel') (done : Bytes) (he : d.rest = c.rest ++ more) :
    Extends more (readBytes fuel done c) (readBytes fuel' done d) := by
  induction fuel generalizing fuel' done c d with
  | zero =>
      intro text c' h
      cases h
  | succ fuel ih =>
      intro text c' h
      obtain ⟨fuel', rfl⟩ : ∃ k, fuel' = k + 1 := ⟨fuel' - 1, by omega⟩
      rcases readBytes_succ.1 h with ⟨hpiece, rfl⟩ | ⟨bytes, c₁, hpiece, hread⟩
      · obtain ⟨d', hd', he'⟩ := hpiece.extends he
        exact ⟨d', readBytes_succ.2 (.inl ⟨hd', rfl⟩), he'⟩
      · obtain ⟨d₁, hd₁, he₁⟩ := hpiece.extends he
        obtain ⟨d', hd', he'⟩ := ih (Nat.le_of_succ_le_succ hf) (bytes.reverse ++ done) he₁ _ _ hread
        exact ⟨d', readBytes_succ.2 (.inr ⟨bytes, d₁, hd₁, hd'⟩), he'⟩

theorem read_iff {s : String} {c' : Cursor} :
    read fuel c = .ok (s, c') ↔ ∃ text, readBytes fuel [] c = .ok (text, c') ∧ Utf8.decode text = .ok s := by
  unfold read
  constructor
  · intro h
    split at h
    · next hread =>
      split at h
      · next hs =>
        obtain ⟨rfl, rfl⟩ := Prod.mk.inj (Except.ok.inj h)
        exact ⟨_, hread, hs⟩
      · cases h
    · cases h
  · rintro ⟨text, hread, hs⟩
    simp only [hread, hs]

/-- A string is read with something behind its closing quote as it is read alone. -/
theorem extends_read (hf : fuel ≤ fuel') (he : d.rest = c.rest ++ more) :
    Extends more (read fuel c) (read fuel' d) := by
  intro s c' h
  obtain ⟨text, hread, hs⟩ := read_iff.1 h
  obtain ⟨d', hread', he'⟩ := extends_readBytes hf [] he _ _ hread
  exact ⟨d', read_iff.2 ⟨text, hread', hs⟩, he'⟩

end Text

/-! ## Tokens -/

/-- The element that a reader of elements goes on to: the first one, or the one behind a comma. -/
inductive NextElement (c : Cursor) : Bool → Cursor → Prop where
  | first {b : UInt8} (hp : c.skipBlank.peek = some b) (hb : b ≠ 93) : NextElement c true c.skipBlank
  | comma {b : UInt8} (hp : c.skipBlank.peek = some 44) (hq : c.skipBlank.advance.skipBlank.peek = some b)
      (hb : b ≠ 93) :
      NextElement c false c.skipBlank.advance.skipBlank

theorem nextElement_none {first : Bool} (hp : c.skipBlank.peek = some 93) : nextElement first c = .ok none := by
  simp only [nextElement, hp, if_true]

theorem nextElement_some {first : Bool} {c₁ : Cursor} (h : NextElement c first c₁) :
    nextElement first c = .ok (some c₁) := by
  cases h with
  | first hp hb => simp only [nextElement, hp, if_neg hb, if_true]
  | comma hp hq hb =>
      have hclose : ¬ (44 : UInt8) = 93 := by decide
      simp only [nextElement, hp, if_neg hclose, Bool.false_eq_true, if_false, if_true, hq, if_neg hb]

theorem nextElement_cases {first : Bool} {next : Option Cursor} (h : nextElement first c = .ok next) :
    (next = none ∧ c.skipBlank.peek = some 93) ∨ ∃ c₁, next = some c₁ ∧ NextElement c first c₁ := by
  unfold nextElement at h
  simp only at h
  split at h
  · cases h
  · next b hp =>
    split at h
    · next hb => exact .inl ⟨(Except.ok.inj h).symm, hb ▸ hp⟩
    · next hb =>
      split at h
      · next hfirst => exact .inr ⟨_, (Except.ok.inj h).symm, hfirst ▸ .first hp hb⟩
      · next hfirst =>
        obtain rfl : first = false := by simpa using hfirst
        split at h
        · next hcomma =>
          split at h
          · cases h
          · next hq =>
            obtain ⟨hb', h⟩ := Result.of_guard h
            exact .inr ⟨_, (Except.ok.inj h).symm, .comma (hcomma ▸ hp) hq hb'⟩
        · cases h

theorem NextElement.extends {first : Bool} {c₁ : Cursor} (h : NextElement c first c₁) (he : d.rest = c.rest ++ more) :
    ∃ d₁, NextElement d first d₁ ∧ d₁.rest = c₁.rest ++ more := by
  cases h with
  | first hp hb =>
      have hskip := Cursor.skipBlank_of_extends hp he
      exact ⟨_, .first (Cursor.peek_of_extends hp hskip).1 hb, hskip⟩
  | comma hp hq hb =>
      obtain ⟨hpeek, hadvance⟩ := Cursor.peek_of_extends hp (Cursor.skipBlank_of_extends hp he)
      have hskip := Cursor.skipBlank_of_extends hq hadvance
      exact ⟨_, .comma hpeek (Cursor.peek_of_extends hq hskip).1 hb, hskip⟩

/-- The key that a reader of entries goes on to. -/
inductive NextKey (c : Cursor) : Bool → Cursor → Prop where
  | first (hp : c.skipBlank.peek = some 34) : NextKey c true c.skipBlank
  | comma (hp : c.skipBlank.peek = some 44) (hq : c.skipBlank.advance.skipBlank.peek = some 34) :
      NextKey c false c.skipBlank.advance.skipBlank

theorem nextKey_none {first : Bool} (hp : c.skipBlank.peek = some 125) : nextKey first c = .ok none := by
  simp only [nextKey, hp, if_true]

theorem nextKey_some {first : Bool} {c₁ : Cursor} (h : NextKey c first c₁) : nextKey first c = .ok (some c₁) := by
  have hquote : ¬ (34 : UInt8) = 125 := by decide
  have hcomma : ¬ (44 : UInt8) = 125 := by decide
  cases h with
  | first hp => simp only [nextKey, hp, if_neg hquote, if_true]
  | comma hp hq => simp only [nextKey, hp, if_neg hcomma, Bool.false_eq_true, if_false, if_true, hq]

theorem nextKey_cases {first : Bool} {next : Option Cursor} (h : nextKey first c = .ok next) :
    (next = none ∧ c.skipBlank.peek = some 125) ∨ ∃ c₁, next = some c₁ ∧ NextKey c first c₁ := by
  unfold nextKey at h
  simp only at h
  split at h
  · cases h
  · next b hp =>
    split at h
    · next hb => exact .inl ⟨(Except.ok.inj h).symm, hb ▸ hp⟩
    · split at h
      · next hfirst =>
        split at h
        · next hb => exact .inr ⟨_, (Except.ok.inj h).symm, hfirst ▸ .first (hb ▸ hp)⟩
        · cases h
      · next hfirst =>
        obtain rfl : first = false := by simpa using hfirst
        split at h
        · next hcomma =>
          split at h
          · cases h
          · next hq =>
            split at h
            · next hb => exact .inr ⟨_, (Except.ok.inj h).symm, .comma (hcomma ▸ hp) (hb ▸ hq)⟩
            · cases (Result.of_guard h).2
        · cases h

theorem NextKey.extends {first : Bool} {c₁ : Cursor} (h : NextKey c first c₁) (he : d.rest = c.rest ++ more) :
    ∃ d₁, NextKey d first d₁ ∧ d₁.rest = c₁.rest ++ more := by
  cases h with
  | first hp =>
      have hskip := Cursor.skipBlank_of_extends hp he
      exact ⟨_, .first (Cursor.peek_of_extends hp hskip).1, hskip⟩
  | comma hp hq =>
      obtain ⟨hpeek, hadvance⟩ := Cursor.peek_of_extends hp (Cursor.skipBlank_of_extends hp he)
      have hskip := Cursor.skipBlank_of_extends hq hadvance
      exact ⟨_, .comma hpeek (Cursor.peek_of_extends hq hskip).1, hskip⟩

/-- A token that is one byte. -/
def Token (wanted : UInt8) (c c' : Cursor) : Prop :=
  c.skipBlank.peek = some wanted ∧ c.skipBlank.advance = c'

theorem colon_iff {c' : Cursor} : colon c = .ok c' ↔ Token 58 c c' :=
  byte_iff fun _ => nofun

theorem closeArray_iff {c' : Cursor} : closeArray c = .ok c' ↔ Token 93 c c' := by
  refine byte_iff fun b h => ?_
  split at h
  · cases (Result.of_guard h).2
  · cases h

theorem closeObject_iff {c' : Cursor} : closeObject c = .ok c' ↔ Token 125 c c' :=
  byte_iff fun _ h => nomatch (Result.of_guard h).2

theorem Token.extends {wanted : UInt8} {c' : Cursor} (h : Token wanted c c') (he : d.rest = c.rest ++ more) :
    ∃ d', Token wanted d d' ∧ d'.rest = c'.rest ++ more := by
  obtain ⟨hp, rfl⟩ := h
  obtain ⟨hpeek, hadvance⟩ := Cursor.peek_of_extends hp (Cursor.skipBlank_of_extends hp he)
  exact ⟨d.skipBlank.advance, ⟨hpeek, rfl⟩, hadvance⟩

/-- A key with its colon. -/
structure Keyed (fuel : Nat) (c : Cursor) (key : String) (c' : Cursor) : Prop where
  intro ::
  text : ∃ c₁, Text.read fuel c.advance = .ok (key, c₁) ∧ Token 58 c₁ c'

theorem Keyed.extends {key : String} {c' : Cursor} (h : Keyed fuel c key c') (hf : fuel ≤ fuel')
    (hp : c.peek = some b) (he : d.rest = c.rest ++ more) : ∃ d', Keyed fuel' d key d' ∧ d'.rest = c'.rest ++ more := by
  obtain ⟨c₁, hread, hcolon⟩ := h.text
  obtain ⟨-, hadvance⟩ := Cursor.peek_of_extends hp he
  obtain ⟨d₁, hread', he₁⟩ := Text.extends_read hf hadvance _ _ hread
  obtain ⟨d', hcolon', he'⟩ := hcolon.extends he₁
  exact ⟨d', ⟨d₁, hread', hcolon'⟩, he'⟩

/-! ## Insides of arrays and objects -/

section

variable {item item' : Cursor → Read α} {xs done : List α} {c' : Cursor} {first : Bool}

/-- What reading elements comes to when it succeeds: to the closing bracket, or over one more element. -/
theorem elementsFrom_succ : elementsFrom item (steps + 1) first done c = .ok (xs, c') ↔
    (c.skipBlank.peek = some 93 ∧ done.reverse = xs ∧ c = c') ∨
      ∃ c₁ x c₂, NextElement c first c₁ ∧ item c₁ = .ok (x, c₂) ∧
        elementsFrom item steps false (x :: done) c₂ = .ok (xs, c') := by
  rw [elementsFrom]
  constructor
  · intro h
    split at h
    · cases h
    · next hnext =>
      rcases nextElement_cases hnext with ⟨-, hp⟩ | ⟨_, hsome, -⟩
      · obtain ⟨rfl, rfl⟩ := Prod.mk.inj (Except.ok.inj h)
        exact .inl ⟨hp, rfl, rfl⟩
      · cases hsome
    · next c₁ hnext =>
      rcases nextElement_cases hnext with ⟨hnone, -⟩ | ⟨_, hsome, hmove⟩
      · cases hnone
      · obtain rfl := Option.some.inj hsome
        split at h
        · cases h
        · next hitem => exact .inr ⟨c₁, _, _, hmove, hitem, h⟩
  · rintro (⟨hp, rfl, rfl⟩ | ⟨c₁, x, c₂, hmove, hitem, h⟩)
    · simp only [nextElement_none hp]
    · simp only [nextElement_some hmove, hitem, h]

theorem extends_elementsFrom (hitem : ∀ c d, d.rest = c.rest ++ more → Extends more (item c) (item' d))
    (hs : steps ≤ steps') (first : Bool) (done : List α) (he : d.rest = c.rest ++ more) :
    Extends more (elementsFrom item steps first done c) (elementsFrom item' steps' first done d) := by
  induction steps generalizing steps' first done c d with
  | zero =>
      intro xs c' h
      cases h
  | succ steps ih =>
      intro xs c' h
      obtain ⟨steps', rfl⟩ : ∃ k, steps' = k + 1 := ⟨steps' - 1, by omega⟩
      rcases elementsFrom_succ.1 h with ⟨hp, rfl, rfl⟩ | ⟨c₁, x, c₂, hmove, hread, hrest⟩
      · obtain ⟨hpeek, -⟩ := Cursor.peek_of_extends hp (Cursor.skipBlank_of_extends hp he)
        exact ⟨d, elementsFrom_succ.2 (.inl ⟨hpeek, rfl, rfl⟩), he⟩
      · obtain ⟨d₁, hmove', he₁⟩ := hmove.extends he
        obtain ⟨d₂, hread', he₂⟩ := hitem c₁ d₁ he₁ _ _ hread
        obtain ⟨d', hrest', he'⟩ := ih (Nat.le_of_succ_le_succ hs) false (x :: done) he₂ _ _ hrest
        exact ⟨d', elementsFrom_succ.2 (.inr ⟨d₁, x, d₂, hmove', hread', hrest'⟩), he'⟩

theorem elements_iff : elements fuel item c = .ok (xs, c') ↔
    ∃ c₁, elementsFrom item fuel true [] c = .ok (xs, c₁) ∧ Token 93 c₁ c' := by
  unfold elements
  constructor
  · intro h
    split at h
    · cases h
    · next hread =>
      obtain ⟨hclose, rfl⟩ := Result.of_mapRest h
      exact ⟨_, hread, closeArray_iff.1 hclose⟩
  · rintro ⟨c₁, hread, hclose⟩
    simp only [hread, closeArray_iff.2 hclose, Except.map]

theorem extends_elements (hitem : ∀ c d, d.rest = c.rest ++ more → Extends more (item c) (item' d)) (hf : fuel ≤ fuel')
    (he : d.rest = c.rest ++ more) : Extends more (elements fuel item c) (elements fuel' item' d) := by
  intro xs c' h
  obtain ⟨c₁, hread, hclose⟩ := elements_iff.1 h
  obtain ⟨d₁, hread', he₁⟩ := extends_elementsFrom hitem hf true [] he _ _ hread
  obtain ⟨d', hclose', he'⟩ := hclose.extends he₁
  exact ⟨d', elements_iff.2 ⟨d₁, hread', hclose'⟩, he'⟩

end

section

variable {item item' : Cursor → Read Value} {es done : Entries} {c' : Cursor} {first : Bool}

/-- What reading entries comes to when it succeeds. -/
theorem membersFrom_succ : membersFrom fuel item (steps + 1) first done c = .ok (es, c') ↔
    (c.skipBlank.peek = some 125 ∧ done = es ∧ c = c') ∨
      ∃ c₁ key c₂ v c₃, NextKey c first c₁ ∧ Keyed fuel c₁ key c₂ ∧ item c₂ = .ok (v, c₃) ∧
        membersFrom fuel item steps false (Entries.insert key v done) c₃ = .ok (es, c') := by
  rw [membersFrom]
  constructor
  · intro h
    split at h
    · cases h
    · next hnext =>
      rcases nextKey_cases hnext with ⟨-, hp⟩ | ⟨_, hsome, -⟩
      · obtain ⟨rfl, rfl⟩ := Prod.mk.inj (Except.ok.inj h)
        exact .inl ⟨hp, rfl, rfl⟩
      · cases hsome
    · next c₁ hnext =>
      rcases nextKey_cases hnext with ⟨hnone, -⟩ | ⟨_, hsome, hmove⟩
      · cases hnone
      · obtain rfl := Option.some.inj hsome
        -- the key, the colon and the value behind it: what fails first ends the reading
        split at h
        · cases h
        · next hread =>
          split at h
          · cases h
          · next hcolon =>
            split at h
            · cases h
            · next hitem => exact .inr ⟨c₁, _, _, _, _, hmove, ⟨_, hread, colon_iff.1 hcolon⟩, hitem, h⟩
  · rintro (⟨hp, rfl, rfl⟩ | ⟨c₁, key, c₂, v, c₃, hmove, ⟨c₄, hread, hcolon⟩, hitem, h⟩)
    · simp only [nextKey_none hp]
    · simp only [nextKey_some hmove, hread, colon_iff.2 hcolon, hitem, h]

theorem NextKey.peek {c₁ : Cursor} (h : NextKey c first c₁) : c₁.peek = some 34 := by
  cases h with
  | first hp => exact hp
  | comma _ hq => exact hq

theorem extends_membersFrom (hitem : ∀ c d, d.rest = c.rest ++ more → Extends more (item c) (item' d))
    (hf : fuel ≤ fuel') (hs : steps ≤ steps') (first : Bool) (done : Entries) (he : d.rest = c.rest ++ more) :
    Extends more (membersFrom fuel item steps first done c) (membersFrom fuel' item' steps' first done d) := by
  induction steps generalizing steps' first done c d with
  | zero =>
      intro es c' h
      cases h
  | succ steps ih =>
      intro es c' h
      obtain ⟨steps', rfl⟩ : ∃ k, steps' = k + 1 := ⟨steps' - 1, by omega⟩
      rcases membersFrom_succ.1 h with ⟨hp, rfl, rfl⟩ | ⟨c₁, key, c₂, v, c₃, hmove, hkey, hread, hrest⟩
      · obtain ⟨hpeek, -⟩ := Cursor.peek_of_extends hp (Cursor.skipBlank_of_extends hp he)
        exact ⟨d, membersFrom_succ.2 (.inl ⟨hpeek, rfl, rfl⟩), he⟩
      · obtain ⟨d₁, hmove', he₁⟩ := hmove.extends he
        obtain ⟨d₂, hkey', he₂⟩ := hkey.extends hf hmove.peek he₁
        obtain ⟨d₃, hread', he₃⟩ := hitem c₂ d₂ he₂ _ _ hread
        obtain ⟨d', hrest', he'⟩ := ih (Nat.le_of_succ_le_succ hs) false (Entries.insert key v done) he₃ _ _ hrest
        exact ⟨d', membersFrom_succ.2 (.inr ⟨d₁, key, d₂, v, d₃, hmove', hkey', hread', hrest'⟩), he'⟩

theorem members_iff : members fuel item c = .ok (es, c') ↔
    ∃ c₁, membersFrom fuel item fuel true [] c = .ok (es, c₁) ∧ Token 125 c₁ c' := by
  unfold members
  constructor
  · intro h
    split at h
    · cases h
    · next hread =>
      obtain ⟨hclose, rfl⟩ := Result.of_mapRest h
      exact ⟨_, hread, closeObject_iff.1 hclose⟩
  · rintro ⟨c₁, hread, hclose⟩
    simp only [hread, closeObject_iff.2 hclose, Except.map]

theorem extends_members (hitem : ∀ c d, d.rest = c.rest ++ more → Extends more (item c) (item' d)) (hf : fuel ≤ fuel')
    (he : d.rest = c.rest ++ more) : Extends more (members fuel item c) (members fuel' item' d) := by
  intro es c' h
  obtain ⟨c₁, hread, hclose⟩ := members_iff.1 h
  obtain ⟨d₁, hread', he₁⟩ := extends_membersFrom hitem hf hf true [] he _ _ hread
  obtain ⟨d', hclose', he'⟩ := hclose.extends he₁
  exact ⟨d', members_iff.2 ⟨d₁, hread', hclose'⟩, he'⟩

end

/-! ## Values -/

/-- The letters behind the first one of a word, and the value that it is. -/
def wordOf? (b : UInt8) : Option (Bytes × Value) :=
  if b = 110 then some (nullTail, .null)
  else if b = 116 then some (trueTail, .bool true)
  else if b = 102 then some (falseTail, .bool false)
  else none

theorem wordOf?_cases {letters : Bytes} {v : Value} (h : wordOf? b = some (letters, v)) :
    (b = 110 ∧ letters = nullTail ∧ v = .null) ∨ (b = 116 ∧ letters = trueTail ∧ v = .bool true) ∨
      b = 102 ∧ letters = falseTail ∧ v = .bool false := by
  unfold wordOf? at h
  split at h
  · next hb =>
    obtain ⟨rfl, rfl⟩ := Prod.mk.inj (Option.some.inj h)
    exact .inl ⟨hb, rfl, rfl⟩
  · split at h
    · next hb =>
      obtain ⟨rfl, rfl⟩ := Prod.mk.inj (Option.some.inj h)
      exact .inr (.inl ⟨hb, rfl, rfl⟩)
    · split at h
      · next hb =>
        obtain ⟨rfl, rfl⟩ := Prod.mk.inj (Option.some.inj h)
        exact .inr (.inr ⟨hb, rfl, rfl⟩)
      · cases h

/-- A digit begins neither a word nor a sign. -/
theorem ne_of_isDigit (h : Bytes.isDigit b = true) : b ≠ 110 ∧ b ≠ 116 ∧ b ≠ 102 ∧ b ≠ 45 := by
  refine ⟨?_, ?_, ?_, ?_⟩
  all_goals
    rintro rfl
    cases h

/-- What reading a value comes to when it succeeds, behind white space. -/
inductive Found (fuel depth : Nat) (c : Cursor) : Value → Cursor → Prop where
  | word {b : UInt8} {letters : Bytes} {v : Value} {c' : Cursor} (hp : c.peek = some b)
      (hw : wordOf? b = some (letters, v))
      (h : word letters c.advance = .ok c') : Found fuel depth c v c'
  | negative {n : Number} {c' : Cursor} (hp : c.peek = some 45) (h : Numeral.read true c.advance = .ok (n, c')) :
      Found fuel depth c n.toValue c'
  | number {b : UInt8} {n : Number} {c' : Cursor} (hp : c.peek = some b) (hb : Bytes.isDigit b = true)
      (h : Numeral.read false c = .ok (n, c')) : Found fuel depth c n.toValue c'
  | text {s : String} {c' : Cursor} (hp : c.peek = some 34) (h : Text.read fuel c.advance = .ok (s, c')) :
      Found fuel depth c (.str s) c'
  | array {xs : List Value} {c' : Cursor} (hp : c.peek = some 91) (hd : depth ≠ 0)
      (h : elements fuel (value fuel depth) c.advance = .ok (xs, c')) : Found fuel depth c (.arr xs) c'
  | object {es : Entries} {c' : Cursor} (hp : c.peek = some 123) (hd : depth ≠ 0)
      (h : members fuel (value fuel depth) c.advance = .ok (es, c')) : Found fuel depth c (.obj es) c'

theorem found_of_value {v : Value} {c' : Cursor} (h : value fuel (depth + 1) c = .ok (v, c')) :
    Found fuel depth c.skipBlank v c' := by
  rw [value] at h
  simp only at h
  -- the byte behind the white space decides, compared in the order of the reader
  split at h
  · cases h
  · next b hp =>
    by_cases hb : b = 110
    · simp only [if_pos hb] at h
      obtain ⟨hword, rfl⟩ := Result.of_mapRest h
      exact .word hp (if_pos hb) hword
    by_cases hb₁ : b = 116
    · simp only [if_neg hb, if_pos hb₁] at h
      obtain ⟨hword, rfl⟩ := Result.of_mapRest h
      exact .word hp (by rw [wordOf?, if_neg hb, if_pos hb₁]) hword
    by_cases hb₂ : b = 102
    · simp only [if_neg hb, if_neg hb₁, if_pos hb₂] at h
      obtain ⟨hword, rfl⟩ := Result.of_mapRest h
      exact .word hp (by rw [wordOf?, if_neg hb, if_neg hb₁, if_pos hb₂]) hword
    simp only [if_neg hb, if_neg hb₁, if_neg hb₂] at h
    split at h
    · next hb =>
      obtain ⟨n, hn, rfl⟩ := Result.of_map h
      exact .negative (hb ▸ hp) hn
    · split at h
      · next hb =>
        obtain ⟨n, hn, rfl⟩ := Result.of_map h
        exact .number hp hb hn
      · split at h
        · next hb =>
          obtain ⟨s, hs, rfl⟩ := Result.of_map h
          exact .text (hb ▸ hp) hs
        · split at h
          · next hb =>
            obtain ⟨hd, h⟩ := Result.of_guard h
            obtain ⟨xs, hx, rfl⟩ := Result.of_map h
            exact .array (hb ▸ hp) hd hx
          · split at h
            · next hb =>
              obtain ⟨hd, h⟩ := Result.of_guard h
              obtain ⟨es, he, rfl⟩ := Result.of_map h
              exact .object (hb ▸ hp) hd he
            · cases h

theorem value_of_found {v : Value} {c' : Cursor} (h : Found fuel depth c.skipBlank v c') :
    value fuel (depth + 1) c = .ok (v, c') := by
  rw [value]
  simp only
  cases h with
  | word hp hw h =>
      rcases wordOf?_cases hw with ⟨rfl, rfl, rfl⟩ | ⟨rfl, rfl, rfl⟩ | ⟨rfl, rfl, rfl⟩
      · simp only [hp, h]
        rfl
      · simp only [hp, h]
        rfl
      · simp only [hp, h]
        rfl
  | negative hp h =>
      simp only [hp, h]
      rfl
  | number hp hb h =>
      obtain ⟨hn, ht, hf, hm⟩ := ne_of_isDigit hb
      simp only [hp, if_neg hn, if_neg ht, if_neg hf, if_neg hm, if_pos hb, h]
      rfl
  | text hp h =>
      simp only [hp, h]
      rfl
  | array hp hd h =>
      simp only [hp, h, if_neg hd]
      rfl
  | object hp hd h =>
      simp only [hp, h, if_neg hd]
      rfl

theorem found_iff {v : Value} {c' : Cursor} :
    value fuel (depth + 1) c = .ok (v, c') ↔ Found fuel depth c.skipBlank v c' :=
  ⟨found_of_value, value_of_found⟩

/-- A value is read with something behind it as it is read alone, and no less so with more room and fuel. -/
theorem extends_value (hm : EndsNumeral more) (hf : fuel ≤ fuel') (hd : depth ≤ depth') (he : d.rest = c.rest ++ more) :
    Extends more (value fuel depth c) (value fuel' depth' d) := by
  induction depth generalizing depth' c d with
  | zero =>
      intro v c' h
      cases h
  | succ depth ih =>
      intro v c' h
      obtain ⟨depth', rfl⟩ : ∃ k, depth' = k + 1 := ⟨depth' - 1, by omega⟩
      have hd' : depth ≤ depth' := Nat.le_of_succ_le_succ hd
      have hvalue : ∀ c d, d.rest = c.rest ++ more → Extends more (value fuel depth c) (value fuel' depth' d) :=
        fun _ _ he => ih hd' he
      -- what stands at a byte stands there with more behind it
      have hat : ∀ b, c.skipBlank.peek = some b →
          d.skipBlank.rest = c.skipBlank.rest ++ more ∧ d.skipBlank.peek = some b ∧
            d.skipBlank.advance.rest = c.skipBlank.advance.rest ++ more := by
        intro b hb
        have hskip := Cursor.skipBlank_of_extends hb he
        exact ⟨hskip, Cursor.peek_of_extends hb hskip⟩
      cases found_iff.1 h with
      | word hp hw hword =>
          obtain ⟨-, hpeek, hadvance⟩ := hat _ hp
          obtain ⟨d', hword', he'⟩ := reaches_word _ hadvance _ hword
          exact ⟨d', found_iff.2 (.word hpeek hw hword'), he'⟩
      | negative hp hn =>
          obtain ⟨-, hpeek, hadvance⟩ := hat _ hp
          obtain ⟨-, d', hn', he'⟩ := Numeral.transfers_read hm hadvance _ _ hn
          exact ⟨d', found_iff.2 (.negative hpeek hn'), he'⟩
      | number hp hb hn =>
          obtain ⟨hskip, hpeek, -⟩ := hat _ hp
          obtain ⟨-, d', hn', he'⟩ := Numeral.transfers_read hm hskip _ _ hn
          exact ⟨d', found_iff.2 (.number hpeek hb hn'), he'⟩
      | text hp hs =>
          obtain ⟨-, hpeek, hadvance⟩ := hat _ hp
          obtain ⟨d', hs', he'⟩ := Text.extends_read hf hadvance _ _ hs
          exact ⟨d', found_iff.2 (.text hpeek hs'), he'⟩
      | array hp hne hx =>
          obtain ⟨-, hpeek, hadvance⟩ := hat _ hp
          obtain ⟨d', hx', he'⟩ := extends_elements hvalue hf hadvance _ _ hx
          exact ⟨d', found_iff.2 (.array hpeek (by omega) hx'), he'⟩
      | object hp hne hes =>
          obtain ⟨-, hpeek, hadvance⟩ := hat _ hp
          obtain ⟨d', hes', he'⟩ := extends_members hvalue hf hadvance _ _ hes
          exact ⟨d', found_iff.2 (.object hpeek (by omega) hes'), he'⟩

end Json
end Courier
