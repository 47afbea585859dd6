import Courier.Proofs.Json.RoundTrip
import Courier.Proofs.Json.Skim
import Courier.Proofs.Shape

/-!
# Form — forms of a message in text

1. `value_of_value?` and `text_of_value` put a document in its place,
2. `readField_of_value` and `value_of_readField` — a field is read as the value that it is,
3. `nextElement_of_listed` and `nextKey_of_listed` go over one part of a list,
4. `namedFields_of_form` and `fills_of_namedFields` follow the fields of an object,
5. `positionalFields_of_form` follows those of an array,
6. `value?_of_map` reads an object.
-/

namespace Courier
namespace Json

variable {α : Type} {maximum : UInt64} {fuel depth depth' steps : Nat} {c c' c₁ : Cursor} {b : UInt8} {first : Bool}
  {blank body behind rest more doc : Bytes} {v : Value} {s : String} {m : Message} {f : Field} {d d' : Draft}
  {p : Bytes × Bytes} {parts : List (Bytes × Bytes)} {docs : List Bytes}

/-! ## White space -/

theorem Blank.append {blank' : Bytes} (h : Blank blank) (h' : Blank blank') : Blank (blank ++ blank') :=
  fun b hb => (List.mem_append.1 hb).elim (h b) (h' b)

theorem skipBlank_of_blank (h : Blank blank) (hc : c.rest = blank ++ b :: rest) (hb : Cursor.isBlank b = false) :
    c.skipBlank.rest = b :: rest := by
  rw [Cursor.rest_skipBlank, hc, List.dropWhile_append_of_pos h, List.dropWhile_cons_of_neg (by simp [hb])]

theorem token_of_blank (h : Blank blank) (hc : c.rest = blank ++ b :: rest) (hb : Cursor.isBlank b = false) :
    Token b c c.skipBlank.advance ∧ c.skipBlank.advance.rest = rest :=
  have hskip := skipBlank_of_blank h hc hb
  ⟨⟨Cursor.peek_of_rest hskip, rfl⟩, Cursor.rest_advance hskip⟩

/-- White space does not continue a numeral. -/
theorem Blank.endsNumeral (h : Blank blank) (hm : EndsNumeral more) : EndsNumeral (blank ++ more) := by
  cases blank with
  | nil => exact hm
  | cons b blank =>
      intro b' hb'
      obtain rfl : b = b' := by simpa using hb'
      have hblank := h b (List.mem_cons_self ..)
      simp only [Cursor.isBlank, Bool.or_eq_true, decide_eq_true_eq] at hblank
      rcases hblank with ((rfl | rfl) | rfl) | rfl
      all_goals exact ⟨rfl, by decide, by decide, by decide⟩

theorem blank_iff {bytes : Bytes} : Blank bytes ↔ bytes.dropWhile Cursor.isBlank = [] := by
  unfold Blank
  induction bytes with
  | nil => simp
  | cons b bytes ih =>
      rw [List.forall_mem_cons, List.dropWhile_cons, ih]
      split
      · next hb => simp [hb]
      · next hb => simp [hb]

/-- A document has been read when nothing but white space is left. -/
theorem finish_iff {r : Read α} {x : α} : finish r = .ok x ↔ ∃ c, r = .ok (x, c) ∧ Blank c.rest := by
  constructor
  · intro h
    cases r with
    | error e => cases h
    | ok found =>
        obtain ⟨y, c⟩ := found
        unfold finish at h
        simp only at h
        split at h
        · next hp =>
          obtain rfl := Except.ok.inj h
          refine ⟨c, rfl, ?_⟩
          have hrest : c.skipBlank.rest = [] := List.head?_eq_none_iff.1 hp
          rwa [Cursor.rest_skipBlank, ← blank_iff] at hrest
        · cases h
  · rintro ⟨c, rfl, hblank⟩
    have hrest : c.skipBlank.rest = [] := by rwa [Cursor.rest_skipBlank, ← blank_iff]
    have hp : c.skipBlank.peek = none := by rw [Cursor.peek, hrest]; rfl
    simp only [finish, hp]

/-! ## Documents in their places -/

theorem value?_eq_some :
    value? depth doc = some v ↔ ∃ c, value (fuelFor doc) depth (.start doc) = .ok (v, c) ∧ Blank c.rest := by
  unfold value?
  rw [← finish_iff]
  constructor
  · intro h
    cases hr : finish (value (fuelFor doc) depth (.start doc)) with
    | error e => simp [hr, Except.toOption] at h
    | ok w =>
        obtain rfl : w = v := by simpa [hr, Except.toOption] using h
        rfl
  · intro h
    rw [h]
    rfl

/-- A document is read in its place, and the white space at its end is left. -/
theorem value_of_value? (h : value? depth doc = some v) (hd : depth ≤ depth') (hc : c.rest = doc ++ more)
    (hm : EndsNumeral more) (hf : doc.length < fuel) :
    ∃ c' blank, value fuel depth' c = .ok (v, c') ∧ c'.rest = blank ++ more ∧ Blank blank := by
  obtain ⟨e, hvalue, hblank⟩ := value?_eq_some.1 h
  have hle : fuelFor doc ≤ fuel := hf
  obtain ⟨c', hvalue', hrest⟩ := extends_value hm hle hd (c := .start doc) (d := c) hc v e hvalue
  exact ⟨c', e.rest, hvalue', hrest, hblank⟩

/-- A text, an array or an object is what its first byte opens. -/
theorem Found.opened (h : Found fuel depth c v c') :
    match v with
    | .str s => c.peek = some 34 ∧ Text.read fuel c.advance = .ok (s, c')
    | .arr xs => c.peek = some 91 ∧ elements fuel (value fuel depth) c.advance = .ok (xs, c')
    | .obj es => c.peek = some 123 ∧ members fuel (value fuel depth) c.advance = .ok (es, c')
    | _ => True := by
  cases h with
  | word _ hw _ => rcases wordOf?_cases hw with ⟨-, -, rfl⟩ | ⟨-, -, rfl⟩ | ⟨-, -, rfl⟩ <;> trivial
  | @negative n => cases n <;> trivial
  | @number _ n => cases n <;> trivial
  | text hp hs => exact ⟨hp, hs⟩
  | array hp _ hx => exact ⟨hp, hx⟩
  | object hp _ hes => exact ⟨hp, hes⟩

theorem text_of_value (h : value fuel (depth + 1) c = .ok (.str s, c')) :
    c.skipBlank.peek = some 34 ∧ Text.read fuel c.skipBlank.advance = .ok (s, c') :=
  (found_iff.1 h).opened

/-- A value does not begin with a closing bracket. -/
theorem peek_of_value (h : value fuel (depth + 1) c = .ok (v, c')) : ∃ b, c.skipBlank.peek = some b ∧ b ≠ 93 := by
  cases found_iff.1 h with
  | word hp hw _ =>
      refine ⟨_, hp, ?_⟩
      rcases wordOf?_cases hw with ⟨rfl, -, -⟩ | ⟨rfl, -, -⟩ | ⟨rfl, -, -⟩ <;> decide
  | negative hp => exact ⟨45, hp, by decide⟩
  | number hp hb =>
      refine ⟨_, hp, ?_⟩
      rintro rfl
      cases hb
  | text hp => exact ⟨34, hp, by decide⟩
  | array hp => exact ⟨91, hp, by decide⟩
  | object hp => exact ⟨123, hp, by decide⟩

theorem value_skipBlank (fuel depth : Nat) (c : Cursor) :
    value fuel (depth + 1) c.skipBlank = value fuel (depth + 1) c := by
  rw [value, value, Cursor.skipBlank_skipBlank]

/-! ## Fields -/

theorem opening_iff {wanted : Wanted} : opening fuel wanted b c = .ok c' ↔ Token b c c' :=
  byte_iff fun _ => nofun

/-- A field that holds what a message does is read as it is. -/
theorem readField_of_value (d : Draft) (h : value fuel (depth + 1) c = .ok (m.valueOf f, c')) :
    readField fuel depth f d c = .ok (d.take m f, c') := by
  have hopened := (found_iff.1 h).opened
  cases f with
  | command =>
      obtain ⟨hp, hs⟩ := hopened
      have hopening : opening fuel .string 34 c = .ok c.skipBlank.advance := opening_iff.2 ⟨hp, rfl⟩
      simp only [readField, readCommand, hopening, hs, Except.map, Draft.take]
  | args =>
      obtain ⟨hp, hx⟩ := hopened
      have hopening : opening fuel .sequence 91 c = .ok c.skipBlank.advance := opening_iff.2 ⟨hp, rfl⟩
      simp only [readField, readArgs, hopening, hx, Except.map, Draft.take]
  | kwargs =>
      obtain ⟨hp, hes⟩ := hopened
      have hopening : opening fuel .map 123 c = .ok c.skipBlank.advance := opening_iff.2 ⟨hp, rfl⟩
      simp only [readField, readKwargs, hopening, hes, Except.map, Draft.take]

/-- What is read behind an opening byte. -/
theorem of_opening {wanted : Wanted} {r : Cursor → Read α} {x : α}
    (h : (match opening fuel wanted b c with
      | .error e => (.error e : Read α)
      | .ok c => r c) = .ok (x, c')) : c.skipBlank.peek = some b ∧ r c.skipBlank.advance = .ok (x, c') := by
  split at h
  · cases h
  · next hopening =>
    obtain ⟨hp, rfl⟩ := opening_iff.1 hopening
    exact ⟨hp, h⟩

/-- A field that is read holds a value, and is one more of those that the draft has. -/
theorem value_of_readField (h : readField fuel (depth + 1) f d c = .ok (d', c')) :
    (∃ v, value fuel (depth + 2) c = .ok (v, c')) ∧ ∀ g, d'.has g = true ↔ d.has g = true ∨ g = f := by
  cases f with
  | command =>
      rw [readField] at h
      obtain ⟨s, hs, rfl⟩ := Result.of_map (f := fun s => { d with command := some s }) h
      obtain ⟨hp, hs⟩ := of_opening (r := Text.read fuel) hs
      exact ⟨⟨_, found_iff.2 (.text hp hs)⟩, Draft.has_command d s⟩
  | args =>
      rw [readField] at h
      obtain ⟨xs, hx, rfl⟩ := Result.of_map (f := fun xs => { d with args := some xs }) h
      obtain ⟨hp, hx⟩ := of_opening (r := elements fuel (value fuel (depth + 1))) hx
      exact ⟨⟨_, found_iff.2 (.array hp (Nat.succ_ne_zero _) hx)⟩, Draft.has_args d xs⟩
  | kwargs =>
      rw [readField] at h
      obtain ⟨es, hes, rfl⟩ := Result.of_map (f := fun es => { d with kwargs := some es }) h
      obtain ⟨hp, hes⟩ := of_opening (r := members fuel (value fuel (depth + 1))) hes
      exact ⟨⟨_, found_iff.2 (.object hp (Nat.succ_ne_zero _) hes)⟩, Draft.has_kwargs d es⟩

/-- Where there is a value, a field is read up to its end. -/
theorem rest_of_readField (h : readField fuel (depth + 1) f d c = .ok (d', c'))
    (hv : value fuel (depth + 3) c = .ok (v, c₁)) : c'.rest = c₁.rest := by
  obtain ⟨w, hw⟩ := (value_of_readField h).1
  -- the same value is read with one level more, and there is no other
  have hnone : EndsNumeral [] := fun b hb => by cases hb
  obtain ⟨e, he, hrest⟩ :=
    extends_value hnone (Nat.le_refl fuel) (Nat.le_succ (depth + 2)) (List.append_nil _).symm _ _ hw
  obtain ⟨-, rfl⟩ := Prod.mk.inj (Except.ok.inj (hv.symm.trans he))
  rw [hrest, List.append_nil]

/-! ## Lists -/

section

variable {close : UInt8}

theorem Listed.blank_append (h : Listed false docs rest) (hb : Blank blank) : Listed false docs (blank ++ rest) := by
  cases h with
  | done hb' => exact .done (hb.append hb')
  | next hb' h =>
      rw [← List.append_assoc]
      exact .next (hb.append hb') h

theorem Listed.endsNumeral (h : Listed false docs rest) (hclose : close = 93 ∨ close = 125) :
    EndsNumeral (rest ++ close :: behind) := by
  cases h with
  | done hb => exact hb.endsNumeral (delimits_cons (.inr hclose) behind).endsNumeral
  | next hb h =>
      rw [List.append_assoc]
      exact hb.endsNumeral (delimits_cons (.inl rfl) _).endsNumeral

/-- What stands behind the last part closes the list. -/
theorem token_of_listed (h : Listed first [] body) (hclose : close = 93 ∨ close = 125)
    (hc : c.rest = body ++ close :: behind) :
    Token close c c.skipBlank.advance ∧ c.skipBlank.advance.rest = behind := by
  cases h with
  | done hb =>
      rcases hclose with rfl | rfl
      · exact token_of_blank hb hc rfl
      · exact token_of_blank hb hc rfl

theorem Listed.length_le (h : Listed first docs body) (hne : ∀ doc ∈ docs, doc ≠ []) : docs.length ≤ body.length := by
  induction h with
  | done => exact Nat.zero_le _
  | first h ih =>
      have hpart := List.length_pos_iff.2 (hne _ (List.mem_cons_self ..))
      have hparts := ih fun doc hdoc => hne doc (List.mem_cons_of_mem _ hdoc)
      rw [List.length_cons, List.length_append]
      omega
  | next hb h ih =>
      have hparts := ih fun doc hdoc => hne doc (List.mem_cons_of_mem _ hdoc)
      simp only [List.length_cons, List.length_append]
      omega

theorem length_of_value (h : value fuel depth c = .ok (v, c')) : c'.rest.length < c.rest.length := by
  obtain ⟨k, hk, -⟩ := Skim.passes_of_value h (Nat.le_refl _)
  omega

/-- A part of a list is read in its place.  The white space at its end is that in front of what follows. -/
theorem value_of_listed (h : Listed false docs rest) (hclose : close = 93 ∨ close = 125)
    (hv : value? depth doc = some v)
    (hd : depth ≤ depth') (hc : c.rest = doc ++ (rest ++ close :: behind)) (hf : c.rest.length ≤ fuel) :
    ∃ c' rest', value fuel depth' c = .ok (v, c') ∧ Listed false docs rest' ∧ c'.rest = rest' ++ close :: behind := by
  have hlt : doc.length < fuel := by
    rw [hc] at hf
    simp only [List.length_append, List.length_cons] at hf
    omega
  obtain ⟨c', blank, hvalue, hrest, hblank⟩ := value_of_value? hv hd hc (h.endsNumeral hclose) hlt
  exact ⟨c', blank ++ rest, hvalue, h.blank_append hblank, by rw [hrest, List.append_assoc]⟩

/-- The next element of an array is the next part. -/
theorem nextElement_of_listed (h : Listed first (doc :: docs) body) (hv : value? (depth + 1) doc = some v)
    (hd : depth ≤ depth') (hc : c.rest = body ++ 93 :: behind) (hf : c.rest.length ≤ fuel) :
    ∃ c₁ c' rest, NextElement c first c₁ ∧ value fuel (depth' + 1) c₁ = .ok (v, c') ∧ Listed false docs rest ∧
      c'.rest = rest ++ 93 :: behind := by
  have hd' : depth + 1 ≤ depth' + 1 := Nat.succ_le_succ hd
  cases h with
  | first h =>
      rw [List.append_assoc] at hc
      obtain ⟨c', rest, hvalue, hrest⟩ := value_of_listed h (.inl rfl) hv hd' hc hf
      obtain ⟨b, hp, hb⟩ := peek_of_value hvalue
      exact ⟨_, c', rest, .first hp hb, by rw [value_skipBlank, hvalue], hrest⟩
  | next hb h =>
      rw [List.append_assoc, List.cons_append, List.append_assoc] at hc
      obtain ⟨hcomma, hc'⟩ := token_of_blank hb hc rfl
      obtain ⟨c', rest, hvalue, hrest⟩ :=
        value_of_listed h (.inl rfl) hv hd' hc' (Nat.le_trans (Nat.le_of_lt hcomma.length) hf)
      obtain ⟨b, hp, hb⟩ := peek_of_value hvalue
      exact ⟨_, c', rest, .comma hcomma.1 hp hb, by rw [value_skipBlank, hvalue], hrest⟩

/-- A key that is a text is read in its place, with its colon. -/
theorem keyed_of_text? {key : Bytes} (hk : (Codec.lines maximum).text? key = some s) (hc : c.rest = key ++ 58 :: rest)
    (hf : c.rest.length ≤ fuel) :
    c.skipBlank.peek = some 34 ∧ ∃ c', Keyed fuel c.skipBlank s c' ∧ c'.rest = rest := by
  have hcolon : EndsNumeral (58 :: rest) := by
    intro b hb
    obtain rfl : 58 = b := by simpa using hb
    exact ⟨rfl, by decide, by decide, by decide⟩
  have hlt : key.length < fuel := by
    rw [hc] at hf
    simp only [List.length_append, List.length_cons] at hf
    omega
  obtain ⟨c₁, blank, hvalue, hrest, hblank⟩ :=
    value_of_value? (Codec.value?_of_text? hk) (Nat.le_refl maxDepth) hc hcolon hlt
  obtain ⟨hp, hread⟩ := text_of_value hvalue
  obtain ⟨htoken, hrest'⟩ := token_of_blank hblank hrest rfl
  exact ⟨hp, _, ⟨c₁, hread, htoken⟩, hrest'⟩

/-- The next key of an object is that of the next part. -/
theorem nextKey_of_listed (h : Listed first (entry p :: docs) body) (hk : (Codec.lines maximum).text? p.1 = some s)
    (hc : c.rest = body ++ 125 :: behind) (hf : c.rest.length ≤ fuel) :
    ∃ c₁ c' rest, NextKey c first c₁ ∧ Keyed fuel c₁ s c' ∧ Listed false docs rest ∧
      c'.rest = p.2 ++ (rest ++ 125 :: behind) := by
  cases h with
  | first h =>
      rw [entry, List.append_assoc, List.append_assoc, List.cons_append] at hc
      obtain ⟨hp, c', hkeyed, hrest⟩ := keyed_of_text? hk hc hf
      exact ⟨_, c', _, .first hp, hkeyed, h, hrest⟩
  | next hb h =>
      rw [entry, List.append_assoc, List.cons_append, List.append_assoc, List.append_assoc, List.cons_append] at hc
      obtain ⟨hcomma, hc'⟩ := token_of_blank hb hc rfl
      obtain ⟨hp, c', hkeyed, hrest⟩ := keyed_of_text? hk hc' (Nat.le_trans (Nat.le_of_lt hcomma.length) hf)
      exact ⟨_, c', _, .comma hcomma.1 hp, hkeyed, h, hrest⟩

/-- The next entry of an object is the next part. -/
theorem entry_of_listed (h : Listed first (entry p :: docs) body) (hk : (Codec.lines maximum).text? p.1 = some s)
    (hv : value? depth p.2 = some v) (hd : depth ≤ depth') (hc : c.rest = body ++ 125 :: behind)
    (hf : c.rest.length ≤ fuel) :
    ∃ c₁ c₂ c' rest, NextKey c first c₁ ∧ Keyed fuel c₁ s c₂ ∧ c₂.rest.length ≤ fuel ∧
      value fuel depth' c₂ = .ok (v, c') ∧ Listed false docs rest ∧ c'.rest = rest ++ 125 :: behind ∧
      c'.rest.length ≤ fuel := by
  obtain ⟨c₁, c₂, rest, hnext, hkeyed, hlisted, hc₂⟩ := nextKey_of_listed h hk hc hf
  have hf₂ : c₂.rest.length ≤ fuel := Nat.le_trans (Nat.le_of_lt hkeyed.length) (Nat.le_trans hnext.length hf)
  obtain ⟨c', rest', hvalue, hlisted', hc'⟩ := value_of_listed hlisted (.inr rfl) hv hd hc₂ hf₂
  have hf' : c'.rest.length ≤ fuel := Nat.le_trans (Nat.le_of_lt (length_of_value hvalue)) hf₂
  exact ⟨c₁, c₂, c', rest', hnext, hkeyed, hf₂, hvalue, hlisted', hc', hf'⟩

end

/-! ## Objects of fields -/

/-- A field that is read as the known one that it is. -/
theorem namedFields_known {c₂ c₃ : Cursor} (hn : NextKey c first c₁) (hk : Keyed fuel c₁ s c₂)
    (hf : Field.ofName? s = some f) (hd : d.has f = false) (hr : readField fuel depth f d c₂ = .ok (d', c₃)) :
    namedFields fuel depth (steps + 1) first d c = namedFields fuel depth steps false d' c₃ := by
  obtain ⟨c₄, hread, hcolon⟩ := hk.text
  simp only [namedFields, nextKey_some hn, hread, hf, hd, colon_iff.2 hcolon, hr, Bool.false_eq_true, if_false]

/-- An unknown field is passed over. -/
theorem namedFields_unknown {c₂ c₃ : Cursor} (hn : NextKey c first c₁) (hk : Keyed fuel c₁ s c₂)
    (hf : Field.ofName? s = none) (hs : skip fuel c₂ = .ok c₃) :
    namedFields fuel depth (steps + 1) first d c = namedFields fuel depth steps false d c₃ := by
  obtain ⟨c₄, hread, hcolon⟩ := hk.text
  simp only [namedFields, nextKey_some hn, hread, hf, colon_iff.2 hcolon, hs]

/-- A known field that is read has not been read before. -/
theorem fresh_of_namedFields {c₂ : Cursor} (hn : NextKey c first c₁) (hk : Keyed fuel c₁ s c₂)
    (hf : Field.ofName? s = some f) (h : namedFields fuel depth (steps + 1) first d c = .ok (d', c')) :
    d.has f = false ∧ ∃ e c₃, readField fuel depth f d c₂ = .ok (e, c₃) ∧
      namedFields fuel depth steps false e c₃ = .ok (d', c') := by
  obtain ⟨c₄, hread, hcolon⟩ := hk.text
  simp only [namedFields, nextKey_some hn, hread, hf, colon_iff.2 hcolon] at h
  obtain ⟨hd, h⟩ := Result.of_guard h
  refine ⟨by simpa using hd, ?_⟩
  split at h
  · cases h
  · next hr => exact ⟨_, _, hr, h⟩

/-- Fields that stand for those of a message are taken into the draft. -/
theorem namedFields_of_form (h : ∀ p ∈ parts, (Codec.lines maximum).Stands m p)
    (ho : ((Codec.lines maximum).fields parts).Nodup) (hd : ∀ f ∈ (Codec.lines maximum).fields parts, d.has f = false)
    (hl : Listed first (parts.map entry) body) (hc : c.rest = body ++ 125 :: behind) (hf : c.rest.length ≤ fuel)
    (hs : parts.length < steps) :
    ∃ c₁ c',
      namedFields fuel (maxDepth - 2) steps first d c = .ok (d.takeAll m ((Codec.lines maximum).fields parts), c₁) ∧
      Token 125 c₁ c' ∧ c'.rest = behind := by
  induction parts generalizing d first body c steps with
  | nil =>
      obtain ⟨steps, rfl⟩ : ∃ k, steps = k + 1 := ⟨steps - 1, by omega⟩
      obtain ⟨htoken, hrest⟩ := token_of_listed hl (.inr rfl) hc
      refine ⟨c, _, ?_, htoken, hrest⟩
      simp only [namedFields, nextKey_none htoken.1]
      rfl
  | cons p parts ih =>
      obtain ⟨steps, rfl⟩ : ∃ k, steps = k + 1 := ⟨steps - 1, by omega⟩
      have hs' : parts.length < steps := by
        rw [List.length_cons] at hs
        omega
      have htail : ∀ p ∈ parts, (Codec.lines maximum).Stands m p := fun q hq => h q (List.mem_cons_of_mem _ hq)
      cases h p (List.mem_cons_self ..) with
      | @known s f hk hname hv =>
          have hfield : (Codec.lines maximum).field? p.1 = some f := (Codec.field?_of_text? hk).trans hname
          rw [Codec.fields_cons_known hfield] at ho hd ⊢
          obtain ⟨hfresh, ho'⟩ := List.nodup_cons.1 ho
          obtain ⟨c₁, c₂, c₃, rest, hnext, hkeyed, -, hvalue, hlisted, hc₃, hf₃⟩ :=
            entry_of_listed hl hk hv (Nat.le_refl _) hc hf
          -- the draft has the field from here on, and the fields behind it are others
          have hread : readField fuel (maxDepth - 2) f d c₂ = .ok (d.take m f, c₃) := readField_of_value d hvalue
          rw [namedFields_known hnext hkeyed hname (hd f (List.mem_cons_self ..)) hread]
          exact ih htail ho' (Draft.has_take_of_fresh hfresh hd) hlisted hc₃ hf₃ hs'
      | @unknown s v hk hname hv =>
          have hfield : (Codec.lines maximum).field? p.1 = none := (Codec.field?_of_text? hk).trans hname
          rw [Codec.fields_cons_unknown hfield] at ho hd ⊢
          obtain ⟨c₁, c₂, c₃, rest, hnext, hkeyed, hf₂, hvalue, hlisted, hc₃, hf₃⟩ :=
            entry_of_listed hl hk hv (Nat.le_refl _) hc hf
          rw [namedFields_unknown hnext hkeyed hname (skip_of_value hvalue hf₂)]
          exact ih htail ho hd hlisted hc₃ hf₃ hs'

/-- Fields that are read are different ones. -/
theorem fills_of_namedFields (hr : (Codec.lines maximum).Readable parts) (hl : Listed first (parts.map entry) body)
    (hc : c.rest = body ++ 125 :: behind) (hf : c.rest.length ≤ fuel)
    (h : namedFields fuel (maxDepth - 2) steps first d c = .ok (d', c')) : (Codec.lines maximum).Fills parts d d' := by
  induction parts generalizing d first body c steps with
  | nil =>
      cases steps with
      | zero => cases h
      | succ steps =>
          obtain ⟨htoken, -⟩ := token_of_listed hl (.inr rfl) hc
          simp only [namedFields, nextKey_none htoken.1] at h
          obtain ⟨rfl, -⟩ := Prod.mk.inj (Except.ok.inj h)
          exact .nil _ d
  | cons p parts ih =>
      cases steps with
      | zero => cases h
      | succ steps =>
          have htail : (Codec.lines maximum).Readable parts := fun q hq => hr q (List.mem_cons_of_mem _ hq)
          obtain ⟨hkey, hunknown⟩ := hr p (List.mem_cons_self ..)
          obtain ⟨s, hk⟩ := Option.isSome_iff_exists.1 hkey
          obtain ⟨v, hv⟩ := Option.isSome_iff_exists.1 hunknown
          have hfield : (Codec.lines maximum).field? p.1 = Field.ofName? s := Codec.field?_of_text? hk
          obtain ⟨c₁, c₂, c₃, rest, hnext, hkeyed, hf₂, hvalue, hlisted, hc₃, hf₃⟩ :=
            entry_of_listed hl hk hv (Nat.le_refl maxDepth) hc hf
          cases hname : Field.ofName? s with
          | some f =>
              obtain ⟨hd, e, c₄, hread, h⟩ := fresh_of_namedFields hnext hkeyed hname h
              have hrest : c₄.rest = c₃.rest := rest_of_readField hread hvalue
              rw [← hrest] at hc₃ hf₃
              exact .known (hfield.trans hname) hd (value_of_readField hread).2 (ih htail hlisted hc₃ hf₃ h)
          | none =>
              -- passing over has no bound for the nesting, so what can be read is passed over
              rw [namedFields_unknown hnext hkeyed hname (skip_of_value hvalue hf₂)] at h
              exact .skipped (hfield.trans hname) hunknown (ih htail hlisted hc₃ hf₃ h)

/-! ## Arrays of fields -/

theorem positionalFields_of_form {fields : List Field} (hl : Listed first docs body)
    (h : docs.map (value? (maxDepth - 1)) = (fields.take docs.length).map fun f => some (m.valueOf f)) (d : Draft)
    (hc : c.rest = body ++ 93 :: behind) (hf : c.rest.length ≤ fuel) :
    ∃ c₁ c', positionalFields fuel (maxDepth - 2) fields first d c = .ok (d.takeAll m (fields.take docs.length), c₁) ∧
      Token 93 c₁ c' ∧ c'.rest = behind := by
  induction fields generalizing docs first body c d with
  | nil =>
      -- all fields are filled, and a part more would have stood for none
      obtain rfl : docs = [] := by simpa using h
      obtain ⟨htoken, hrest⟩ := token_of_listed hl (.inl rfl) hc
      exact ⟨c, _, rfl, htoken, hrest⟩
  | cons f fields ih =>
      cases docs with
      | nil =>
          obtain ⟨htoken, hrest⟩ := token_of_listed hl (.inl rfl) hc
          refine ⟨c, _, ?_, htoken, hrest⟩
          simp only [positionalFields, nextElement_none htoken.1]
          rfl
      | cons doc docs =>
          rw [List.map_cons, List.length_cons, List.take_succ_cons, List.map_cons, List.cons.injEq] at h
          have hv : value? (maxDepth - 2 + 1) doc = some (m.valueOf f) := h.1
          obtain ⟨c₁, c₂, rest, hnext, hvalue, hlisted, hc₂⟩ := nextElement_of_listed hl hv (Nat.le_refl _) hc hf
          have hf₂ : c₂.rest.length ≤ fuel :=
            Nat.le_trans (Nat.le_of_lt (length_of_value hvalue)) (Nat.le_trans hnext.length hf)
          have hread : readField fuel (maxDepth - 2) f d c₁ = .ok (d.take m f, c₂) := readField_of_value d hvalue
          rw [List.length_cons, List.take_succ_cons]
          simp only [positionalFields, nextElement_some hnext, hread]
          exact ih hlisted h.2 (d.take m f) hc₂ hf₂

/-! ## Whole documents -/

section

variable {before : Bytes}

/-- The inside of a document whose first token has been read. -/
theorem token_of_document (opener : UInt8) (rest : Bytes) (hb : Blank before) (ho : Cursor.isBlank opener = false) :
    ∃ c, Token opener (.start (before ++ opener :: rest)) c ∧ c.rest = rest ∧
      c.rest.length ≤ fuelFor (before ++ opener :: rest) := by
  obtain ⟨htoken, hrest⟩ := token_of_blank (c := .start (before ++ opener :: rest)) hb rfl ho
  refine ⟨_, htoken, hrest, ?_⟩
  rw [hrest, fuelFor, List.length_append, List.length_cons]
  omega

/-- There are no more parts than bytes. -/
theorem length_lt_of_listed (before behind : Bytes) (h : Listed true (parts.map entry) body) :
    parts.length < fuelFor (before ++ 123 :: (body ++ behind)) := by
  have hle := h.length_le fun doc hdoc => by
    obtain ⟨p, -, rfl⟩ := List.mem_map.1 hdoc
    simp [entry]
  rw [List.length_map] at hle
  simp only [fuelFor, List.length_append, List.length_cons]
  omega

theorem readMessage_of_stands (hb : Blank before) (hl : Listed true (parts.map entry) body) (ha : Blank behind)
    (h : ∀ p ∈ parts, (Codec.lines maximum).Stands m p) (ho : ((Codec.lines maximum).fields parts).Nodup)
    (hm : ∀ f, f ∉ (Codec.lines maximum).fields parts → m.Lacks f) :
    readMessage (before ++ 123 :: (body ++ 125 :: behind)) = .ok m := by
  obtain ⟨c, ⟨hp, rfl⟩, hc, hf⟩ := token_of_document 123 (body ++ 125 :: behind) hb rfl
  obtain ⟨c₁, c', hfields, htoken, hc'⟩ :=
    namedFields_of_form (d := .empty) h ho (fun f _ => by cases f <;> rfl) hl hc hf
        (length_lt_of_listed before (125 :: behind) hl)
  refine finish_iff.2 ⟨c', ?_, hc' ▸ ha⟩
  have hbracket : ¬ (123 : UInt8) = 91 := by decide
  simp only [message, hp, if_neg hbracket, if_true, namedMessage, hfields, Draft.message?_takeAll hm,
    closeObject_iff.2 htoken, Except.map]

theorem readMessage_of_namedFields (hb : Blank before) (hl : Listed true (parts.map entry) body)
    (hr : (Codec.lines maximum).Readable parts) (h : readMessage (before ++ 123 :: (body ++ 125 :: behind)) = .ok m) :
    ∃ d, (Codec.lines maximum).Fills parts .empty d ∧ d.message? = some m := by
  obtain ⟨c, ⟨hp, rfl⟩, hc, hf⟩ := token_of_document 123 (body ++ 125 :: behind) hb rfl
  obtain ⟨c', hmessage, -⟩ := finish_iff.1 h
  have hbracket : ¬ (123 : UInt8) = 91 := by decide
  simp only [message, hp, if_neg hbracket, if_true, namedMessage] at hmessage
  split at hmessage
  · cases hmessage
  · cases hmessage
  · next hfields =>
    split at hmessage
    · cases hmessage
    · next hm =>
      obtain ⟨-, rfl⟩ := Result.of_mapRest hmessage
      exact ⟨_, fills_of_namedFields hr hl hc hf hfields, hm⟩

theorem readMessage_of_array (hb : Blank before) (hl : Listed true docs body) (ha : Blank behind)
    (h : (Codec.lines maximum).ArrayForm m docs) : readMessage (before ++ 91 :: (body ++ 93 :: behind)) = .ok m := by
  obtain ⟨c, ⟨hp, rfl⟩, hc, hf⟩ := token_of_document 91 (body ++ 93 :: behind) hb rfl
  obtain ⟨c₁, c', hfields, htoken, hc'⟩ := positionalFields_of_form hl h.holds .empty hc hf
  have hmessage : (Draft.empty.takeAll m (Field.all.take docs.length)).message? = some m :=
    Draft.message?_takeAll h.lacks_of_not_mem
  rw [Field.all] at hfields hmessage
  refine finish_iff.2 ⟨c', ?_, hc' ▸ ha⟩
  simp only [message, hp, if_true, positionalMessage, hfields, hmessage, closeArray_iff.2 htoken, Except.map]

/-! ## Objects -/

theorem membersFrom_of_spells {pairs : List (String × Value)} (h : (Codec.lines maximum).Spells depth parts pairs)
    (hl : Listed first (parts.map entry) body) (done : Entries) (hc : c.rest = body ++ 125 :: behind)
    (hf : c.rest.length ≤ fuel) (hs : parts.length < steps) :
    ∃ c₁ c', membersFrom fuel (value fuel depth) steps first done c =
        .ok (pairs.foldl (fun entries (k, v) => Entries.insert k v entries) done, c₁) ∧
      Token 125 c₁ c' ∧ c'.rest = behind := by
  induction parts generalizing pairs first done body c steps with
  | nil =>
      obtain ⟨steps, rfl⟩ : ∃ k, steps = k + 1 := ⟨steps - 1, by omega⟩
      obtain rfl : pairs = [] := by simpa [Codec.Spells] using h.symm
      obtain ⟨htoken, hrest⟩ := token_of_listed hl (.inr rfl) hc
      exact ⟨c, _, membersFrom_succ.2 (.inl ⟨htoken.1, rfl, rfl⟩), htoken, hrest⟩
  | cons p parts ih =>
      obtain ⟨steps, rfl⟩ : ∃ k, steps = k + 1 := ⟨steps - 1, by omega⟩
      have hs' : parts.length < steps := by
        rw [List.length_cons] at hs
        omega
      obtain ⟨k, v, rest, rfl, hk, hv, hrest⟩ := Codec.spells_cons h
      obtain ⟨c₁, c₂, c₃, behind', hnext, hkeyed, -, hvalue, hlisted, hc₃, hf₃⟩ :=
        entry_of_listed hl hk hv (Nat.le_refl _) hc hf
      obtain ⟨c₄, c', hmembers, hclose⟩ := ih hrest hlisted (Entries.insert k v done) hc₃ hf₃ hs'
      exact ⟨c₄, c', membersFrom_succ.2 (.inr ⟨c₁, k, c₂, v, c₃, hnext, hkeyed, hvalue, hmembers⟩), hclose⟩

/-- An object whose keys are texts is read with the last value of each of them. -/
theorem value?_of_map {pairs : List (String × Value)} (hb : Blank before) (hl : Listed true (parts.map entry) body)
    (ha : Blank behind) (h : (Codec.lines maximum).Spells depth parts pairs) (hd : depth ≠ 0) :
    value? (depth + 1) (before ++ 123 :: (body ++ 125 :: behind)) = some (.obj (Entries.ofList pairs)) := by
  obtain ⟨c, ⟨hp, rfl⟩, hc, hf⟩ := token_of_document 123 (body ++ 125 :: behind) hb rfl
  obtain ⟨c₁, c', hmembers, htoken, hc'⟩ :=
    membersFrom_of_spells h hl [] hc hf (length_lt_of_listed before (125 :: behind) hl)
  exact value?_eq_some.2 ⟨c', found_iff.2 (.object hp hd (members_iff.2 ⟨c₁, hmembers, htoken⟩)), hc' ▸ ha⟩

end

end Json
end Courier
