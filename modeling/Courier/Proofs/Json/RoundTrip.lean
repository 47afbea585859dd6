import Courier.Json.Writer
import Courier.Proofs.Json.Double
import Courier.Proofs.Value

/-!
# Round trip — written values and messages read back

Each part of a written document is read back wherever it stands, as long as what stands behind it is a comma, a
closing bracket or brace, or nothing.

1. `Finds` says that a reader finds a value in a text,
2. `elements_write` and `members_write` lift it to the insides of arrays and objects,
3. `value_write`, by induction on the value,
4. `readMessage_write`.
-/

namespace Courier
namespace Json

/-! ## Texts and their readers -/

/-- What stands behind a part of a document. -/
def Delimits (rest : Bytes) : Prop :=
  ∀ b, rest.head? = some b → b = 44 ∨ b = 93 ∨ b = 125

/-- The reader finds a value in its text, wherever the text stands in a document of a given length. -/
def Finds {α : Type} (fuel : Nat) (item : Cursor → Read α) (text : Bytes) (x : α) : Prop :=
  ∀ c rest, Delimits rest → c.rest = text ++ rest → c.rest.length < fuel →
    ∃ c', item c = .ok (x, c') ∧ c'.rest = rest

/-- A text that begins neither with white space nor with the end of an array. -/
def Opens (text : Bytes) : Prop :=
  ∃ b tail, text = b :: tail ∧ Cursor.isBlank b = false ∧ b ≠ 93

variable {α : Type} {c : Cursor} {b : UInt8} {text rest : Bytes} {fuel steps depth n : Nat}

theorem Delimits.endsNumeral (h : Delimits rest) : EndsNumeral rest := by
  intro b hb
  rcases h b hb with rfl | rfl | rfl
  · exact ⟨rfl, by decide, by decide, by decide⟩
  · exact ⟨rfl, by decide, by decide, by decide⟩
  · exact ⟨rfl, by decide, by decide, by decide⟩

theorem delimits_cons (h : b = 44 ∨ b = 93 ∨ b = 125) (rest : Bytes) : Delimits (b :: rest) := by
  intro b' hb'
  obtain rfl : b = b' := by simpa using hb'
  exact h

theorem separated_cons (part : Bytes) (parts : List Bytes) :
    separated (part :: parts) = part ++ parts.flatMap (44 :: ·) := by
  unfold separated
  induction parts generalizing part with
  | nil => simp [List.intercalate]
  | cons next parts ih =>
      have hnext := ih next
      simp only [List.intercalate, List.intersperse] at hnext ⊢
      simp [hnext]

theorem writeElements_eq (done : List Bytes) (xs : List Value) :
    writeElements done xs = done.reverse ++ xs.map write := by
  induction xs generalizing done with
  | nil => simp [writeElements]
  | cons x xs ih => simp [writeElements, ih]

theorem writeEntries_eq (done : List Bytes) (es : List (String × Value)) :
    writeEntries done es = done.reverse ++ es.map writeEntry := by
  induction es generalizing done with
  | nil => simp [writeEntries]
  | cons e es ih => simp [writeEntries, ih]

theorem write_arr (xs : List Value) :
    write (.arr xs) = 91 :: (separated (xs.map write) ++ [93]) := by
  rw [write, writeElements_eq]
  rfl

theorem write_obj (es : List (String × Value)) :
    write (.obj es) = 123 :: (separated (es.map writeEntry) ++ [125]) := by
  rw [write, writeEntries_eq]
  rfl

/-! ## Tokens -/

theorem word_of_rest {letters : Bytes} (h : c.rest = letters ++ rest) :
    ∃ c', word letters c = .ok c' ∧ c'.rest = rest := by
  induction letters generalizing c with
  | nil => exact ⟨c, rfl, h⟩
  | cons b letters ih =>
      obtain ⟨c', hword, hrest⟩ := ih (Cursor.rest_advance h)
      refine ⟨c', ?_, hrest⟩
      rw [word, Cursor.peek_of_rest h]
      simp only [if_true, hword]

theorem nextElement_first (h : c.rest = text) (ho : Opens text) :
    nextElement true c = .ok (some c) := by
  obtain ⟨b, tail, rfl, hb, hne⟩ := ho
  unfold nextElement
  simp only [Cursor.skipBlank_of_rest h hb, Cursor.peek_of_rest h, if_neg hne, if_true]

theorem nextElement_comma (h : c.rest = 44 :: text) (ho : Opens text) :
    nextElement false c = .ok (some c.advance) := by
  obtain ⟨b, tail, rfl, hb, hne⟩ := ho
  have hadvance : c.advance.rest = b :: tail := Cursor.rest_advance h
  have hcomma : ¬ (44 : UInt8) = 93 := by decide
  unfold nextElement
  simp only [Cursor.skipBlank_of_rest h rfl, Cursor.peek_of_rest h, if_neg hcomma,
    Bool.false_eq_true, if_false, if_true, Cursor.skipBlank_of_rest hadvance hb,
    Cursor.peek_of_rest hadvance, if_neg hne]

theorem nextElement_close (first : Bool) (h : c.rest = 93 :: rest) :
    nextElement first c = .ok none := by
  unfold nextElement
  simp only [Cursor.skipBlank_of_rest h rfl, Cursor.peek_of_rest h, if_true]

theorem nextKey_first {rest : Bytes} (h : c.rest = 34 :: rest) : nextKey true c = .ok (some c) := by
  have hne : ¬ (34 : UInt8) = 125 := by decide
  unfold nextKey
  simp only [Cursor.skipBlank_of_rest h rfl, Cursor.peek_of_rest h, if_neg hne, if_true]

theorem nextKey_comma (h : c.rest = 44 :: 34 :: rest) : nextKey false c = .ok (some c.advance) := by
  have hadvance : c.advance.rest = 34 :: rest := Cursor.rest_advance h
  have hne : ¬ (44 : UInt8) = 125 := by decide
  unfold nextKey
  simp only [Cursor.skipBlank_of_rest h rfl, Cursor.peek_of_rest h, if_neg hne, Bool.false_eq_true,
    if_false, if_true, Cursor.skipBlank_of_rest hadvance rfl, Cursor.peek_of_rest hadvance]

theorem nextKey_close (first : Bool) (h : c.rest = 125 :: rest) : nextKey first c = .ok none := by
  unfold nextKey
  simp only [Cursor.skipBlank_of_rest h rfl, Cursor.peek_of_rest h, if_true]

theorem colon_of_rest (h : c.rest = 58 :: rest) : colon c = .ok c.advance := by
  unfold colon
  simp only [Cursor.skipBlank_of_rest h rfl, Cursor.peek_of_rest h, if_true]

theorem closeArray_of_rest (h : c.rest = 93 :: rest) : closeArray c = .ok c.advance := by
  unfold closeArray
  simp only [Cursor.skipBlank_of_rest h rfl, Cursor.peek_of_rest h, if_true]

theorem closeObject_of_rest (h : c.rest = 125 :: rest) : closeObject c = .ok c.advance := by
  unfold closeObject
  simp only [Cursor.skipBlank_of_rest h rfl, Cursor.peek_of_rest h, if_true]

/-! ## Insides of arrays -/

variable {item : Cursor → Read Value}

/-- The parts that are left of an array or an object: a comma stands in front of each, except in front of the first
part of all. -/
def listing (first : Bool) (parts : List Bytes) : Bytes :=
  if first then separated parts else parts.flatMap (44 :: ·)

theorem listing_nil (first : Bool) : listing first [] = [] := by
  cases first <;> rfl

theorem listing_first (part : Bytes) (parts : List Bytes) :
    listing true (part :: parts) = part ++ listing false parts :=
  separated_cons part parts

theorem listing_later (part : Bytes) (parts : List Bytes) :
    listing false (part :: parts) = 44 :: (part ++ listing false parts) :=
  rfl

theorem delimits_tail {f : α → Bytes} {close : UInt8} (xs : List α) (h : close = 93 ∨ close = 125)
    (rest : Bytes) : Delimits (listing false (xs.map f) ++ close :: rest) := by
  cases xs with
  | nil => exact delimits_cons (.inr h) rest
  | cons x xs => exact delimits_cons (.inl rfl) _

theorem Opens.append (h : Opens text) (rest : Bytes) : Opens (text ++ rest) := by
  obtain ⟨b, tail, rfl, hb, hne⟩ := h
  exact ⟨b, tail ++ rest, rfl, hb, hne⟩

/-- A reader of elements goes on to the next one. -/
theorem nextElement_listing {first : Bool} {x : Value} {xs : List Value} (ho : Opens (write x))
    (hc : c.rest = listing first ((x :: xs).map write) ++ 93 :: rest) :
    ∃ d, nextElement first c = .ok (some d) ∧ d.rest.length ≤ c.rest.length ∧
      d.rest = write x ++ (listing false (xs.map write) ++ 93 :: rest) := by
  cases first with
  | true =>
      have hc' : c.rest = write x ++ (listing false (xs.map write) ++ 93 :: rest) := by
        rw [hc, List.map_cons, listing_first, List.append_assoc]
      exact ⟨c, nextElement_first hc' (ho.append _), Nat.le_refl _, hc'⟩
  | false =>
      have hc' : c.rest = 44 :: (write x ++ (listing false (xs.map write) ++ 93 :: rest)) := by
        rw [hc, List.map_cons, listing_later, List.cons_append, List.append_assoc]
      have hadvance := Cursor.rest_advance hc'
      exact ⟨c.advance, nextElement_comma hc' (ho.append _), by simp [hadvance, hc'], hadvance⟩

/-- The elements of an array from one of them on. -/
theorem elementsFrom_write (first : Bool) (steps : Nat) {xs : List Value} (done : List Value)
    (hf : ∀ x ∈ xs, Finds fuel item (write x) x) (ho : ∀ x ∈ xs, Opens (write x))
    (hc : c.rest = listing first (xs.map write) ++ 93 :: rest) (hfuel : c.rest.length < fuel)
    (hsteps : xs.length < steps) :
    ∃ c', elementsFrom item steps first done c = .ok (done.reverse ++ xs, c') ∧
      c'.rest = 93 :: rest := by
  induction xs generalizing c first done steps with
  | nil =>
      obtain ⟨steps, rfl⟩ : ∃ s, steps = s + 1 := ⟨steps - 1, by simp at hsteps; omega⟩
      have hc' : c.rest = 93 :: rest := by rw [hc, List.map_nil, listing_nil, List.nil_append]
      refine ⟨c, ?_, hc'⟩
      rw [elementsFrom, nextElement_close first hc']
      simp
  | cons x xs ih =>
      obtain ⟨steps, rfl⟩ : ∃ s, steps = s + 1 := ⟨steps - 1, by simp at hsteps; omega⟩
      obtain ⟨d, hnext, hle, hd⟩ := nextElement_listing (ho x (List.mem_cons_self ..)) hc
      obtain ⟨c', hitem, hrest⟩ := hf x (List.mem_cons_self ..) d _
        (delimits_tail xs (.inl rfl) rest) hd (by omega)
      rw [hd, List.length_append] at hle
      obtain ⟨c'', helements, hrest'⟩ := ih false steps (x :: done)
        (fun y hy => hf y (List.mem_cons_of_mem _ hy)) (fun y hy => ho y (List.mem_cons_of_mem _ hy))
        hrest (by rw [hrest]; omega) (by simpa using hsteps)
      refine ⟨c'', ?_, hrest'⟩
      rw [elementsFrom, hnext]
      simp only [hitem, helements]
      simp

theorem length_le_separated {f : α → Bytes} {xs : List α} (hf : ∀ x ∈ xs, f x ≠ []) :
    xs.length ≤ (separated (xs.map f)).length := by
  cases xs with
  | nil => exact Nat.zero_le _
  | cons x xs =>
      have hx : 0 < (f x).length := List.length_pos_iff.2 (hf x (List.mem_cons_self ..))
      have hxs : xs.length ≤ ((xs.map f).flatMap (44 :: ·)).length := by
        induction xs with
        | nil => exact Nat.zero_le _
        | cons y ys ih =>
            have hys := ih fun z hz => hf z (by
              rcases List.mem_cons.1 hz with rfl | hz
              · exact List.mem_cons_self ..
              · exact List.mem_cons_of_mem _ (List.mem_cons_of_mem _ hz))
            simp only [List.map_cons, List.flatMap_cons, List.length_append, List.length_cons]
            omega
      rw [List.map_cons, separated_cons, List.length_append, List.length_cons]
      omega

theorem Opens.ne_nil (h : Opens text) : text ≠ [] := by
  obtain ⟨b, tail, rfl, -, -⟩ := h
  simp

/-- The elements of an array, whose opening bracket has been read. -/
theorem elements_write (fuel : Nat) (item : Cursor → Read Value) {xs : List Value}
    (hf : ∀ x ∈ xs, Finds fuel item (write x) x) (ho : ∀ x ∈ xs, Opens (write x))
    (hc : c.rest = separated (xs.map write) ++ 93 :: rest) (hfuel : c.rest.length < fuel) :
    ∃ c', elements fuel item c = .ok (xs, c') ∧ c'.rest = rest := by
  have hcount : xs.length ≤ (separated (xs.map write)).length :=
    length_le_separated fun x hx => (ho x hx).ne_nil
  have hlength : (separated (xs.map write)).length < c.rest.length := by
    rw [hc, List.length_append, List.length_cons]
    omega
  obtain ⟨c', helements, hrest⟩ := elementsFrom_write true fuel [] hf ho hc hfuel (by omega)
  refine ⟨c'.advance, ?_, Cursor.rest_advance hrest⟩
  unfold elements
  simp only [helements, closeArray_of_rest hrest, Except.map, List.reverse_nil, List.nil_append]

theorem rest_of_arr {xs : List Value} (hc : c.rest = write (.arr xs) ++ rest) :
    c.rest = 91 :: c.advance.rest ∧ c.advance.rest = separated (xs.map write) ++ 93 :: rest := by
  have hc' : c.rest = 91 :: (separated (xs.map write) ++ 93 :: rest) := by
    rw [hc, write_arr]
    simp
  have hadvance := Cursor.rest_advance hc'
  exact ⟨by rw [hadvance, hc'], hadvance⟩

/-- A reader of arrays that is at one. -/
theorem elements_of_arr (item : Cursor → Read Value) {xs : List Value}
    (hf : ∀ x ∈ xs, Finds fuel item (write x) x) (ho : ∀ x ∈ xs, Opens (write x))
    (hc : c.rest = write (.arr xs) ++ rest) (hfuel : c.rest.length < fuel) :
    (∃ tail, c.rest = 91 :: tail) ∧
      ∃ c', elements fuel item c.advance = .ok (xs, c') ∧ c'.rest = rest := by
  obtain ⟨hopening, hadvance⟩ := rest_of_arr hc
  refine ⟨⟨_, hopening⟩, elements_write fuel item hf ho hadvance ?_⟩
  rw [hopening, List.length_cons] at hfuel
  omega

/-! ## Insides of objects -/

theorem writeEntry_eq (e : String × Value) : writeEntry e = Text.write e.1 ++ 58 :: write e.2 := by
  obtain ⟨k, v⟩ := e
  rw [writeEntry]

theorem text_write_eq (s : String) :
    ∃ tail, Text.write s = 34 :: tail :=
  ⟨_, Text.write_eq s⟩

/-- A key with its colon. -/
theorem key_write (fuel : Nat) {s : String} (hc : c.rest = Text.write s ++ 58 :: rest)
    (hfuel : c.rest.length < fuel) :
    ∃ c', Text.read fuel c.advance = .ok (s, c') ∧ c'.rest = 58 :: rest ∧
      colon c' = .ok c'.advance ∧ c'.advance.rest = rest := by
  obtain ⟨c', hread, hrest⟩ := Text.read_write hc (Nat.le_of_lt hfuel)
  exact ⟨c', hread, hrest, colon_of_rest hrest, Cursor.rest_advance hrest⟩

/-- A reader of entries goes on to the key of the next one. -/
theorem nextKey_listing {first : Bool} {e : String × Value} {es : List (String × Value)}
    (hc : c.rest = listing first ((e :: es).map writeEntry) ++ 125 :: rest) :
    ∃ d, nextKey first c = .ok (some d) ∧ d.rest.length ≤ c.rest.length ∧
      d.rest = Text.write e.1 ++ 58 :: (write e.2 ++ (listing false (es.map writeEntry) ++ 125 :: rest)) := by
  obtain ⟨tail, hquote⟩ := text_write_eq e.1
  cases first with
  | true =>
      have hc' : c.rest = Text.write e.1 ++ 58 :: (write e.2 ++
          (listing false (es.map writeEntry) ++ 125 :: rest)) := by
        rw [hc, List.map_cons, listing_first, writeEntry_eq]
        simp
      exact ⟨c, nextKey_first (by rw [hc', hquote]; rfl), Nat.le_refl _, hc'⟩
  | false =>
      have hc' : c.rest = 44 :: (Text.write e.1 ++ 58 :: (write e.2 ++
          (listing false (es.map writeEntry) ++ 125 :: rest))) := by
        rw [hc, List.map_cons, listing_later, writeEntry_eq]
        simp
      have hadvance := Cursor.rest_advance hc'
      exact ⟨c.advance, nextKey_comma (by rw [hc', hquote]; rfl), by simp [hadvance, hc'], hadvance⟩

/-- The entries of an object from one of them on. -/
theorem membersFrom_write (first : Bool) (steps : Nat) {es : List (String × Value)} (done : Entries)
    (hf : ∀ e ∈ es, Finds fuel item (write e.2) e.2)
    (hc : c.rest = listing first (es.map writeEntry) ++ 125 :: rest) (hfuel : c.rest.length < fuel)
    (hsteps : es.length < steps) :
    ∃ c', membersFrom fuel item steps first done c =
        .ok (es.foldl (fun entries (k, v) => Entries.insert k v entries) done, c') ∧
      c'.rest = 125 :: rest := by
  induction es generalizing c first done steps with
  | nil =>
      obtain ⟨steps, rfl⟩ : ∃ s, steps = s + 1 := ⟨steps - 1, by simp at hsteps; omega⟩
      have hc' : c.rest = 125 :: rest := by rw [hc, List.map_nil, listing_nil, List.nil_append]
      refine ⟨c, ?_, hc'⟩
      rw [membersFrom, nextKey_close first hc']
      rfl
  | cons e es ih =>
      obtain ⟨steps, rfl⟩ : ∃ s, steps = s + 1 := ⟨steps - 1, by simp at hsteps; omega⟩
      obtain ⟨k, hkey, hle, hk⟩ := nextKey_listing hc
      obtain ⟨d, hread, -, hcolon, hd⟩ := key_write fuel hk (by omega)
      rw [hk, List.length_append, List.length_cons] at hle
      obtain ⟨c', hitem, hrest⟩ := hf e (List.mem_cons_self ..) d.advance _
        (delimits_tail es (.inr rfl) rest) hd (by rw [hd]; omega)
      rw [List.length_append] at hle
      obtain ⟨c'', hmembers, hrest'⟩ := ih false steps (Entries.insert e.1 e.2 done)
        (fun y hy => hf y (List.mem_cons_of_mem _ hy)) hrest (by rw [hrest]; omega)
        (by simpa using hsteps)
      refine ⟨c'', ?_, hrest'⟩
      rw [membersFrom, hkey]
      simp only [hread, hcolon, hitem, hmembers, List.foldl_cons]

theorem writeEntry_ne_nil (e : String × Value) : writeEntry e ≠ [] := by
  obtain ⟨tail, hquote⟩ := text_write_eq e.1
  rw [writeEntry_eq, hquote]
  simp

/-- The entries of an object, whose opening brace has been read. -/
theorem members_write (fuel : Nat) (item : Cursor → Read Value) {es : List (String × Value)}
    (hf : ∀ e ∈ es, Finds fuel item (write e.2) e.2)
    (hc : c.rest = separated (es.map writeEntry) ++ 125 :: rest) (hfuel : c.rest.length < fuel) :
    ∃ c', members fuel item c = .ok (Entries.ofList es, c') ∧ c'.rest = rest := by
  have hcount : es.length ≤ (separated (es.map writeEntry)).length :=
    length_le_separated fun e _ => writeEntry_ne_nil e
  have hlength : (separated (es.map writeEntry)).length < c.rest.length := by
    rw [hc, List.length_append, List.length_cons]
    omega
  obtain ⟨c', hmembers, hrest⟩ := membersFrom_write true fuel [] hf hc hfuel (by omega)
  refine ⟨c'.advance, ?_, Cursor.rest_advance hrest⟩
  unfold members
  simp only [hmembers, closeObject_of_rest hrest, Except.map, Entries.ofList]

theorem rest_of_obj {es : List (String × Value)} (hc : c.rest = write (.obj es) ++ rest) :
    c.rest = 123 :: c.advance.rest ∧ c.advance.rest = separated (es.map writeEntry) ++ 125 :: rest := by
  have hc' : c.rest = 123 :: (separated (es.map writeEntry) ++ 125 :: rest) := by
    rw [hc, write_obj]
    simp
  have hadvance := Cursor.rest_advance hc'
  exact ⟨by rw [hadvance, hc'], hadvance⟩

/-- A reader of objects that is at one. -/
theorem members_of_obj (item : Cursor → Read Value) {es : List (String × Value)}
    (hf : ∀ e ∈ es, Finds fuel item (write e.2) e.2) (hc : c.rest = write (.obj es) ++ rest)
    (hfuel : c.rest.length < fuel) :
    (∃ tail, c.rest = 123 :: tail) ∧
      ∃ c', members fuel item c.advance = .ok (Entries.ofList es, c') ∧ c'.rest = rest := by
  obtain ⟨hopening, hadvance⟩ := rest_of_obj hc
  refine ⟨⟨_, hopening⟩, members_write fuel item hf hadvance ?_⟩
  rw [hopening, List.length_cons] at hfuel
  omega

/-! ## Atoms -/

/-- A reader of values that is at a byte that is not white space. -/
theorem value_of_rest (hc : c.rest = b :: rest) (hb : Cursor.isBlank b = false) :
    value fuel (depth + 1) c =
      if b = 110 then (word nullTail c.advance).map (Value.null, ·)
      else if b = 116 then (word trueTail c.advance).map (Value.bool true, ·)
      else if b = 102 then (word falseTail c.advance).map (Value.bool false, ·)
      else if b = 45 then (Numeral.read true c.advance).map fun (n, c) => (n.toValue, c)
      else if Bytes.isDigit b then (Numeral.read false c).map fun (n, c) => (n.toValue, c)
      else if b = 34 then (Text.read fuel c.advance).map fun (s, c) => (Value.str s, c)
      else if b = 91 then
        if depth = 0 then .error (c.faultNext .nestedTooDeep)
        else (elements fuel (value fuel depth) c.advance).map fun (xs, c) => (Value.arr xs, c)
      else if b = 123 then
        if depth = 0 then .error (c.faultNext .nestedTooDeep)
        else (members fuel (value fuel depth) c.advance).map fun (es, c) => (Value.obj es, c)
      else .error (c.faultNext .expectedValue) := by
  unfold value
  simp only [Cursor.skipBlank_of_rest hc hb, Cursor.peek_of_rest hc]

/-- A reader of values at a digit. -/
theorem value_of_digit (hc : c.rest = b :: rest) (hb : Bytes.isDigit b = true) :
    value fuel (depth + 1) c = (Numeral.read false c).map fun (n, c) => (n.toValue, c) := by
  have hne : ∀ x, Bytes.isDigit x = false → b ≠ x := by
    rintro x hx rfl
    simp [hx] at hb
  have hblank : Cursor.isBlank b = false := (IsNumeric.isBlank (.inl hb))
  rw [value_of_rest hc hblank, if_neg (hne 110 rfl), if_neg (hne 116 rfl), if_neg (hne 102 rfl),
    if_neg (hne 45 rfl), if_pos hb]

/-- A reader of values at a minus sign. -/
theorem value_of_minus (hc : c.rest = 45 :: rest) :
    value fuel (depth + 1) c = (Numeral.read true c.advance).map fun (n, c) => (n.toValue, c) := by
  rw [value_of_rest hc rfl, if_neg (by decide), if_neg (by decide), if_neg (by decide), if_pos rfl]

theorem word_write {letters : Bytes} {v : Value} (hc : c.rest = b :: (letters ++ rest)) :
    ∃ c', (word letters c.advance).map (v, ·) = .ok (v, c') ∧ c'.rest = rest := by
  obtain ⟨c', hword, hrest⟩ := word_of_rest (Cursor.rest_advance hc)
  exact ⟨c', by rw [hword]; rfl, hrest⟩

theorem int_write (i : WireInt) : Finds fuel (value fuel (depth + 1)) (writeInt i) (.int i) := by
  intro c rest hr hc _
  unfold writeInt at hc
  cases hi : i.val with
  | ofNat k =>
      have hupper : i.val < 2 ^ 64 := i.upper
      have hk : k < Numeral.significandBound := by
        rw [hi] at hupper
        simp only [Numeral.significandBound, Int.ofNat_eq_natCast] at hupper ⊢
        omega
      simp only [hi] at hc
      obtain ⟨b, tail, hhead, hb, -⟩ := Numeral.numeralOnto_head (Nat.le_refl k) []
      have hc' : c.rest = b :: (tail ++ rest) := by
        rw [hc, Bytes.numeral, hhead]
        rfl
      obtain ⟨c', hread, hrest⟩ := Numeral.read_numeral false hk hr.endsNumeral hc
      refine ⟨c', ?_, hrest⟩
      rw [value_of_digit hc' hb, hread, Numeral.whole_of_nonneg hi]
      rfl
  | negSucc k =>
      have hlower : -2 ^ 63 ≤ i.val := i.lower
      have hk : k + 1 < Numeral.significandBound := by
        rw [hi] at hlower
        simp only [Numeral.significandBound]
        omega
      simp only [hi] at hc
      have hadvance : c.advance.rest = Bytes.numeral (k + 1) ++ rest := Cursor.rest_advance hc
      obtain ⟨c', hread, hrest⟩ := Numeral.read_numeral true hk hr.endsNumeral hadvance
      refine ⟨c', ?_, hrest⟩
      rw [value_of_minus hc, hread, Numeral.whole_of_neg hi]
      rfl

/-! ## Doubles -/

/-- What is left of a document that is one value is white space. -/
theorem rest_of_finish {r : Read α} {x : α} (h : finish r = .ok x) :
    ∃ c, r = .ok (x, c) ∧ ∀ b tail, c.rest = b :: tail → Cursor.isBlank b = true := by
  unfold finish at h
  cases r with
  | error e => simp at h
  | ok found =>
      obtain ⟨y, c⟩ := found
      simp only at h
      cases hpeek : c.skipBlank.peek with
      | some b => simp [hpeek] at h
      | none =>
          obtain rfl : y = x := by simpa [hpeek] using h
          refine ⟨c, rfl, fun b tail hc => ?_⟩
          by_cases hb : Cursor.isBlank b = true
          · exact hb
          · rw [Cursor.skipBlank_of_rest hc (by simpa using hb), Cursor.peek_of_rest hc] at hpeek
            simp at hpeek

/-- A double comes of a numeral that is read as one. -/
theorem read_of_float {r : Read Number} {x : Double} (h : (r.map fun (n, c) => (n.toValue, c)) = .ok (.float x, c)) :
    r = .ok (.float x, c) := by
  cases r with
  | error e => simp [Except.map] at h
  | ok found =>
      obtain ⟨n, d⟩ := found
      obtain ⟨hn, rfl⟩ : n.toValue = .float x ∧ d = c := by simpa [Except.map] using h
      cases n with
      | int i => simp [Number.toValue] at hn
      | float y => simpa [Number.toValue] using hn

/-- A double that reads back begins like a number, and the whole text is one numeral. -/
theorem numeral_of_readsBack {x : Double} (h : ReadsBack x) :
    (∃ b tail, x.text numberLayout = b :: tail ∧ Bytes.isDigit b = true ∧
        ∃ c, Numeral.read false (.start (x.text numberLayout)) = .ok (.float x, c) ∧ c.rest = []) ∨
      ∃ tail, x.text numberLayout = 45 :: tail ∧
        ∃ c, Numeral.read true ⟨tail, 1, 1⟩ = .ok (.float x, c) ∧ c.rest = [] := by
  have htext : ∀ b ∈ x.text numberLayout, IsNumeric b := fun b hb => isNumeric_of_mem_text hb
  obtain ⟨c, hvalue, hblank⟩ := rest_of_finish h
  -- Nothing of the numeral is white space, so nothing of it is left.
  have hnil : c.rest <:+ x.text numberLayout → c.rest = [] := by
    intro hsuffix
    cases hc : c.rest with
    | nil => rfl
    | cons b tail =>
        have hb : b ∈ x.text numberLayout := hsuffix.subset (by rw [hc]; exact List.mem_cons_self ..)
        have hnot := (htext b hb).isBlank
        simp [hblank b tail hc] at hnot
  have hends : EndsNumeral [] := by
    intro b hb
    simp at hb
  generalize x.text numberLayout = text at htext hvalue hnil
  cases text with
  | nil => simp [value, Cursor.skipBlank, Cursor.skipWhile, Cursor.skipFrom, Cursor.start, Cursor.peek,
      maxDepth] at hvalue
  | cons b tail =>
      have hstart : (Cursor.start (b :: tail)).rest = b :: tail := rfl
      rcases htext b (List.mem_cons_self ..) with hdigit | rfl | rfl | rfl | rfl
      · refine .inl ⟨b, tail, rfl, hdigit, c, ?_⟩
        rw [maxDepth, value_of_digit hstart hdigit] at hvalue
        have hread := read_of_float hvalue
        obtain ⟨hsuffix, -⟩ := Numeral.transfers_read hends (d := .start (b :: tail))
          (List.append_nil _).symm _ _ hread
        exact ⟨hread, hnil hsuffix⟩
      · simp [maxDepth, value_of_rest hstart rfl, Bytes.isDigit] at hvalue
      · refine .inr ⟨tail, rfl, c, ?_⟩
        have hadvance : (Cursor.start (45 :: tail)).advance = ⟨tail, 1, 1⟩ := rfl
        rw [maxDepth, value_of_minus hstart, hadvance] at hvalue
        have hread := read_of_float hvalue
        obtain ⟨hsuffix, -⟩ := Numeral.transfers_read hends (d := ⟨tail, 1, 1⟩)
          (List.append_nil _).symm _ _ hread
        exact ⟨hread, hnil (hsuffix.trans (List.suffix_cons 45 tail))⟩
      · simp [maxDepth, value_of_rest hstart rfl, Bytes.isDigit] at hvalue
      · simp [maxDepth, value_of_rest hstart rfl, Bytes.isDigit] at hvalue

/-- A double that reads back as a document reads back inside one. -/
theorem float_write {x : Double} (h : ReadsBack x) :
    Finds fuel (value fuel (depth + 1)) (x.text numberLayout) (.float x) := by
  intro c rest hr hc _
  rcases numeral_of_readsBack h with ⟨b, tail, htext, hb, d, hread, hd⟩ | ⟨tail, htext, d, hread, hd⟩
  · have hc' : c.rest = b :: (tail ++ rest) := by
      rw [hc, htext]
      rfl
    obtain ⟨-, c', hread', hrest⟩ := Numeral.transfers_read hr.endsNumeral (d := c) hc _ _ hread
    refine ⟨c', ?_, by rw [hrest, hd]; rfl⟩
    rw [value_of_digit hc' hb, hread']
    rfl
  · have hc' : c.rest = 45 :: (tail ++ rest) := by
      rw [hc, htext]
      rfl
    obtain ⟨-, c', hread', hrest⟩ := Numeral.transfers_read hr.endsNumeral (d := c.advance)
      (Cursor.rest_advance hc') _ _ hread
    refine ⟨c', ?_, by rw [hrest, hd]; rfl⟩
    rw [value_of_minus hc', hread']
    rfl

/-! ## Values -/

variable {v : Value}

theorem opens_cons (tail : Bytes) (hb : Cursor.isBlank b = false) (hne : b ≠ 93) :
    Opens (b :: tail) :=
  ⟨b, tail, rfl, hb, hne⟩

theorem opens_of_digit (tail : Bytes) (hb : Bytes.isDigit b = true) : Opens (b :: tail) := by
  refine opens_cons tail (IsNumeric.isBlank (.inl hb)) ?_
  rintro rfl
  simp [Bytes.isDigit] at hb

theorem opens_write {kind : Double → Prop} (hv : v.Sendable kind n) : Opens (write v) := by
  -- the first byte tells the kind of a value, and none of them closes an array
  cases hv with
  | null => exact opens_cons (b := 110) _ rfl (by decide)
  | bool _ b =>
      cases b with
      | false => exact opens_cons (b := 102) _ rfl (by decide)
      | true => exact opens_cons (b := 116) _ rfl (by decide)
  | int _ i =>
      rw [write, writeInt]
      cases hi : i.val with
      | ofNat k =>
          obtain ⟨b, tail, hhead, hb, -⟩ := Numeral.numeralOnto_head (Nat.le_refl k) []
          have hnumeral : Bytes.numeral k = b :: tail := hhead
          simp only [hnumeral]
          exact opens_of_digit tail hb
      | negSucc k => exact opens_cons _ rfl (by decide)
  | @float _ x _ =>
      obtain ⟨text, @⟨ds, tail, hd, -⟩, htext⟩ := doubleText x
      rw [write, htext]
      by_cases hx : x.isNegative = true
      · rw [if_pos hx]
        exact opens_cons _ rfl (by decide)
      · rw [if_neg hx]
        cases ds with
        | nil => exact absurd rfl hd.some
        | cons b ds => exact opens_of_digit _ (hd.all b (List.mem_cons_self ..))
  | str _ s =>
      rw [write, Text.write_eq]
      exact opens_cons _ rfl (by decide)
  | arr _ =>
      rw [write_arr]
      exact opens_cons _ rfl (by decide)
  | obj _ _ =>
      rw [write_obj]
      exact opens_cons _ rfl (by decide)

/-- A written value is read as it was, within the nesting that the reader allows. -/
theorem value_write (hv : v.Sendable ReadsBack n) (hd : n < depth) :
    Finds fuel (value fuel depth) (write v) v := by
  -- the induction is on the value, and one level of nesting is used up by each array or object
  induction hv generalizing depth with
  | null n =>
      obtain ⟨d, rfl⟩ : ∃ d, depth = d + 1 := ⟨depth - 1, by omega⟩
      intro c rest _ hc _
      have hc' : c.rest = 110 :: (nullTail ++ rest) := hc
      rw [value_of_rest hc' rfl]
      exact word_write hc'
  | bool n b =>
      obtain ⟨d, rfl⟩ : ∃ d, depth = d + 1 := ⟨depth - 1, by omega⟩
      intro c rest _ hc _
      cases b with
      | false =>
          have hc' : c.rest = 102 :: (falseTail ++ rest) := hc
          rw [value_of_rest hc' rfl]
          exact word_write hc'
      | true =>
          have hc' : c.rest = 116 :: (trueTail ++ rest) := hc
          rw [value_of_rest hc' rfl]
          exact word_write hc'
  | int n i =>
      obtain ⟨d, rfl⟩ : ∃ d, depth = d + 1 := ⟨depth - 1, by omega⟩
      rw [write]
      exact int_write i
  | float n hx =>
      obtain ⟨d, rfl⟩ : ∃ d, depth = d + 1 := ⟨depth - 1, by omega⟩
      rw [write]
      exact float_write hx
  | str n s =>
      obtain ⟨d, rfl⟩ : ∃ d, depth = d + 1 := ⟨depth - 1, by omega⟩
      intro c rest _ hc hfuel
      rw [write] at hc
      obtain ⟨c', hread, hrest⟩ := Text.read_write hc (Nat.le_of_lt hfuel)
      obtain ⟨tail, hquote⟩ := text_write_eq s
      have hc' : c.rest = 34 :: (tail ++ rest) := by
        rw [hc, hquote]
        rfl
      refine ⟨c', ?_, hrest⟩
      rw [value_of_rest hc' rfl, hread]
      rfl
  | @arr n xs hxs ih =>
      obtain ⟨d, rfl⟩ : ∃ d, depth = d + 1 := ⟨depth - 1, by omega⟩
      intro c rest _ hc hfuel
      obtain ⟨⟨tail, hc'⟩, c', helements, hrest⟩ := elements_of_arr (value fuel d)
        (fun x hx => ih x hx (by omega)) (fun x hx => opens_write (hxs x hx)) hc hfuel
      refine ⟨c', ?_, hrest⟩
      rw [value_of_rest hc' rfl, helements]
      have hd' : d ≠ 0 := by omega
      simp [Bytes.isDigit, hd', Except.map]
  | @obj n es ho hes ih =>
      obtain ⟨d, rfl⟩ : ∃ d, depth = d + 1 := ⟨depth - 1, by omega⟩
      intro c rest _ hc hfuel
      obtain ⟨⟨tail, hc'⟩, c', hmembers, hrest⟩ := members_of_obj (value fuel d)
        (fun e he => ih e he (by omega)) hc hfuel
      refine ⟨c', ?_, hrest⟩
      rw [value_of_rest hc' rfl, hmembers, Entries.ofList_of_ascending ho]
      have hd' : d ≠ 0 := by omega
      simp [Bytes.isDigit, hd', Except.map]

/-! ## Messages -/

theorem opening_of_rest {wanted : Wanted} (hc : c.rest = b :: rest) (hb : Cursor.isBlank b = false) :
    opening fuel wanted b c = .ok c.advance := by
  unfold opening
  simp only [Cursor.skipBlank_of_rest hc hb, Cursor.peek_of_rest hc, if_true]

theorem readCommand_write (s : String) : Finds fuel (readCommand fuel) (Text.write s) s := by
  intro c rest _ hc hfuel
  obtain ⟨tail, hquote⟩ := text_write_eq s
  have hc' : c.rest = 34 :: (tail ++ rest) := by
    rw [hc, hquote]
    rfl
  obtain ⟨c', hread, hrest⟩ := Text.read_write hc (Nat.le_of_lt hfuel)
  refine ⟨c', ?_, hrest⟩
  unfold readCommand
  simp only [opening_of_rest hc' rfl, hread]

theorem readArgs_write {args : List Value} (hargs : ∀ x ∈ args, x.Sendable ReadsBack n)
    (hd : n < depth) : Finds fuel (readArgs fuel depth) (write (.arr args)) args := by
  intro c rest _ hc hfuel
  obtain ⟨⟨tail, hc'⟩, c', helements, hrest⟩ := elements_of_arr (value fuel depth)
    (fun x hx => value_write (hargs x hx) hd) (fun x hx => opens_write (hargs x hx)) hc hfuel
  refine ⟨c', ?_, hrest⟩
  unfold readArgs
  simp only [opening_of_rest hc' rfl, helements]

theorem readKwargs_write {kwargs : List (String × Value)}
    (hkwargs : ∀ e ∈ kwargs, e.2.Sendable ReadsBack n) (hd : n < depth) :
    Finds fuel (readKwargs fuel depth) (write (.obj kwargs)) (Entries.ofList kwargs) := by
  intro c rest _ hc hfuel
  obtain ⟨⟨tail, hc'⟩, c', hmembers, hrest⟩ := members_of_obj (value fuel depth)
    (fun e he => value_write (hkwargs e he) hd) hc hfuel
  refine ⟨c', ?_, hrest⟩
  unfold readKwargs
  simp only [opening_of_rest hc' rfl, hmembers]

/-- A field that is not there yet is read into the draft. -/
theorem namedFields_field (steps : Nat) {field : Field} {d d' : Draft} {first : Bool} {k : Cursor}
    (hk : nextKey first c = .ok (some k)) (hd : d.has field = false)
    (hf : Finds fuel (readField fuel depth field d) text d') (hr : Delimits rest)
    (hc : k.rest = writeField field text ++ rest) (hfuel : k.rest.length < fuel) :
    ∃ c', namedFields fuel depth (steps + 1) first d c = namedFields fuel depth steps false d' c' ∧
      c'.rest = rest ∧ c'.rest.length < fuel := by
  have hc' : k.rest = Text.write field.name ++ 58 :: (text ++ rest) := by
    rw [hc, writeField]
    simp
  obtain ⟨e, hread, -, hcolon, he⟩ := key_write fuel hc' hfuel
  rw [hc', List.length_append, List.length_cons] at hfuel
  obtain ⟨c', hfield, hrest⟩ := hf e.advance rest hr he (by rw [he]; omega)
  rw [List.length_append] at hfuel
  refine ⟨c', ?_, hrest, by rw [hrest]; omega⟩
  rw [namedFields, hk]
  simp only [hread, Field.ofName?_name, hd, Bool.false_eq_true, if_false, hcolon, hfield]

theorem nextKey_first_field {field : Field} (hc : c.rest = writeField field text ++ rest) :
    nextKey true c = .ok (some c) := by
  obtain ⟨tail, hquote⟩ := text_write_eq field.name
  have hc' : c.rest = 34 :: (tail ++ 58 :: text ++ rest) := by
    rw [hc, writeField, hquote]
    rfl
  exact nextKey_first hc'

theorem nextKey_comma_field {field : Field} (hc : c.rest = 44 :: (writeField field text ++ rest)) :
    nextKey false c = .ok (some c.advance) := by
  obtain ⟨tail, hquote⟩ := text_write_eq field.name
  have hc' : c.rest = 44 :: 34 :: (tail ++ 58 :: text ++ rest) := by
    rw [hc, writeField, hquote]
    rfl
  exact nextKey_comma hc'

theorem writeMessage_eq (command : String) (args : List Value) (kwargs : List (String × Value)) :
    writeMessage command args kwargs =
      123 :: (writeField .command (Text.write command) ++
        (44 :: (writeField .args (write (.arr args)) ++
          (44 :: (writeField .kwargs (write (.obj kwargs)) ++ [125]))))) := by
  rw [writeMessage, separated_cons]
  simp

/-- A document that opens with a brace is read as the named form of a message. -/
theorem message_of_object (h : c.rest = 123 :: rest) :
    message fuel c = namedMessage fuel (maxDepth - 2) c.advance := by
  unfold message
  simp only [Cursor.skipBlank_of_rest h rfl, Cursor.peek_of_rest h]
  rw [if_neg (by decide), if_pos trivial]

/-- The fuel for a document lasts for what is behind its first byte. -/
theorem advance_lt_fuelFor {document : Bytes} (h : (Cursor.start document).rest = b :: rest) :
    (Cursor.start document).advance.rest.length < fuelFor document := by
  have hlength : document.length = rest.length + 1 := congrArg List.length h
  rw [Cursor.rest_advance h, fuelFor]
  omega

/-- A written message is read as it was, within the nesting that the reader allows. -/
theorem readMessage_write {command : String} {args : List Value} {kwargs : List (String × Value)}
    (hargs : ∀ x ∈ args, x.Sendable ReadsBack n) (hkwargs : ∀ e ∈ kwargs, e.2.Sendable ReadsBack n)
    (hd : n + 2 < maxDepth) :
    readMessage (writeMessage command args kwargs) = .ok ⟨command, args, Entries.ofList kwargs⟩ := by
  have hdepth : n < maxDepth - 2 := by omega
  have heq := writeMessage_eq command args kwargs
  generalize hdoc : writeMessage command args kwargs = document at heq
  have hstart : (Cursor.start document).rest = 123 :: _ := heq
  have hadvance := Cursor.rest_advance hstart
  have hlength₀ := advance_lt_fuelFor hstart
  obtain ⟨fuel, hfuel⟩ : ∃ fuel, fuelFor document = fuel := ⟨_, rfl⟩
  rw [hfuel] at hlength₀
  obtain ⟨steps, hsteps⟩ : ∃ steps, fuel = steps + 4 := by
    refine ⟨fuel - 4, ?_⟩
    rw [hadvance] at hlength₀
    simp only [List.length_cons, List.length_append] at hlength₀
    omega
  -- The cursor stands in front of the first field, then behind one field after the other.
  have hcommand : Finds fuel (readField fuel (maxDepth - 2) .command .empty) (Text.write command)
      ⟨some command, none, none⟩ := by
    intro c rest hr hc hf
    obtain ⟨c', hread, hrest⟩ := readCommand_write command c rest hr hc hf
    exact ⟨c', by rw [readField, hread]; rfl, hrest⟩
  have hargs' : Finds fuel (readField fuel (maxDepth - 2) .args ⟨some command, none, none⟩)
      (write (.arr args)) ⟨some command, some args, none⟩ := by
    intro c rest hr hc hf
    obtain ⟨c', hread, hrest⟩ := readArgs_write hargs hdepth c rest hr hc hf
    exact ⟨c', by rw [readField, hread]; rfl, hrest⟩
  have hkwargs' : Finds fuel (readField fuel (maxDepth - 2) .kwargs ⟨some command, some args, none⟩)
      (write (.obj kwargs)) ⟨some command, some args, some (Entries.ofList kwargs)⟩ := by
    intro c rest hr hc hf
    obtain ⟨c', hread, hrest⟩ := readKwargs_write hkwargs hdepth c rest hr hc hf
    exact ⟨c', by rw [readField, hread]; rfl, hrest⟩
  obtain ⟨c₁, hfields₁, hrest₁, hlength₁⟩ := namedFields_field (steps + 3)
    (nextKey_first_field hadvance) rfl hcommand (delimits_cons (.inl rfl) _) hadvance hlength₀
  have hadvance₁ := Cursor.rest_advance hrest₁
  obtain ⟨c₂, hfields₂, hrest₂, hlength₂⟩ := namedFields_field (steps + 2)
    (nextKey_comma_field hrest₁) rfl hargs' (delimits_cons (.inl rfl) _) hadvance₁
    (by rw [hadvance₁]; rw [hrest₁, List.length_cons] at hlength₁; omega)
  have hadvance₂ := Cursor.rest_advance hrest₂
  obtain ⟨c₃, hfields₃, hrest₃, -⟩ := namedFields_field (steps + 1)
    (nextKey_comma_field hrest₂) rfl hkwargs' (delimits_cons (.inr (.inr rfl)) _) hadvance₂
    (by rw [hadvance₂]; rw [hrest₂, List.length_cons] at hlength₂; omega)
  have hfields : namedFields fuel (maxDepth - 2) fuel true .empty (Cursor.start document).advance =
      .ok (⟨some command, some args, some (Entries.ofList kwargs)⟩, c₃) := by
    calc namedFields fuel (maxDepth - 2) fuel true .empty (Cursor.start document).advance
        = namedFields fuel (maxDepth - 2) (steps + 1 + 3) true .empty
            (Cursor.start document).advance := by rw [← hsteps]
      _ = namedFields fuel (maxDepth - 2) (steps + 1) false
            ⟨some command, some args, some (Entries.ofList kwargs)⟩ c₃ :=
          hfields₁.trans (hfields₂.trans hfields₃)
      _ = .ok (⟨some command, some args, some (Entries.ofList kwargs)⟩, c₃) := by
          rw [namedFields, nextKey_close false hrest₃]
  have hend : c₃.advance.rest = [] := Cursor.rest_advance hrest₃
  have hmessage : message fuel (.start document) =
      .ok (⟨command, args, Entries.ofList kwargs⟩, c₃.advance) := by
    rw [message_of_object hstart, namedMessage, hfields]
    simp only [Draft.message?, Option.map_some, Option.getD_some, closeObject_of_rest hrest₃, Except.map]
  unfold readMessage
  rw [hfuel, hmessage]
  simp [finish, Cursor.skipBlank, Cursor.skipWhile, Cursor.skipFrom, Cursor.peek, hend]

end Json
end Courier
