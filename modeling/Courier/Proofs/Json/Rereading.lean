import Courier.Proofs.Json.RoundTrip
import Courier.Proofs.Result

/-!
# Rereading — what a written message is read as when its doubles are not

Nothing is assumed of the doubles here.  Whatever is read of a written message, it is the same message only if every
double in it reads back.

1. `readsBack_of_same` is about one double, wherever it stands,
2. `Vouches` says the like of any value, and is lifted to the insides of arrays and objects,
3. `sendable_of_same`, by induction on the value,
4. `sendable_of_readMessage`.
-/

namespace Courier
namespace Json

variable {c c' : Cursor} {rest text : Bytes} {fuel steps depth n : Nat} {x : Double} {v w : Value} {first : Bool}

/-! ## Doubles -/

/-- What a written double is read as is the same everywhere. -/
theorem settled_value (x : Double) :
    ∃ outcome : Option Number, ∀ fuel depth c rest, EndsNumeral rest → c.rest = x.text numberLayout ++ rest →
      ∃ found, ComesTo outcome rest found ∧
        value fuel (depth + 1) c = found.map fun (n, c) => (n.toValue, c) := by
  obtain ⟨text, hform, htext⟩ := doubleText x
  obtain ⟨outcome, hread⟩ := Numeral.settled_read x.isNegative hform
  refine ⟨outcome, fun fuel depth c rest hr hc => ?_⟩
  rw [htext] at hc
  cases hx : x.isNegative with
  | true =>
      rw [hx, if_pos rfl] at hc
      rw [hx] at hread
      exact ⟨_, hread c.advance rest hr (Cursor.rest_advance hc), value_of_minus hc⟩
  | false =>
      rw [hx, if_neg (by decide)] at hc
      rw [hx] at hread
      refine ⟨_, hread c rest hr hc, ?_⟩
      obtain @⟨ds, tail, hd, -⟩ := hform
      cases ds with
      | nil => exact absurd rfl hd.some
      | cons b ds => exact value_of_digit hc (hd.all b (List.mem_cons_self ..))

theorem finish_of_rest {α : Type} (y : α) (hc : c.rest = []) : finish (.ok (y, c)) = .ok y := by
  simp [finish, Cursor.skipBlank, Cursor.skipWhile, Cursor.skipFrom, Cursor.peek, hc]

theorem eq_zero_of_isZero (h : x.isZero = true) : x = .zero false ∨ x = .zero true := by
  have hbits : x.bits.toNat = 0 ∨ x.bits.toNat = 2 ^ 63 := by
    have hlt := x.bits.toNat_lt
    have hsignificand : x.significand = 0 := by simpa [Double.isZero] using h
    unfold Double.significand Double.fraction exponentField at hsignificand
    split at hsignificand <;> omega
  obtain ⟨bits, finite⟩ := x
  rcases hbits with hbits | hbits
  · obtain rfl : bits = 0 := UInt64.toNat_inj.1 hbits
    exact .inl rfl
  · obtain rfl : bits = 0x8000000000000000 := UInt64.toNat_inj.1 hbits
    exact .inr rfl

theorem readsBack_of_isZero (h : x.isZero = true) : ReadsBack x := by
  rcases eq_zero_of_isZero h with rfl | rfl
  · decide +kernel
  · decide +kernel

/-- What is read of a written double is the same double only if the double reads back. -/
theorem readsBack_of_same (hr : Delimits rest) (hc : c.rest = x.text numberLayout ++ rest)
    (h : value fuel depth c = .ok (w, c')) : c'.rest = rest ∧ (w.same (.float x) = true → ReadsBack x) := by
  cases depth with
  | zero => simp [value] at h
  | succ depth =>
      obtain ⟨outcome, hsettled⟩ := settled_value x
      obtain ⟨found, hfound, hvalue⟩ := hsettled fuel depth c rest hr.endsNumeral hc
      rw [h] at hvalue
      obtain ⟨n, d, rfl⟩ : ∃ n d, found = .ok (n, d) := by
        cases found with
        | error f => simp [Except.map] at hvalue
        | ok r => exact ⟨r.1, r.2, rfl⟩
      obtain ⟨rfl, hd⟩ := hfound
      obtain ⟨rfl, rfl⟩ : w = n.toValue ∧ c' = d := by simpa [Except.map] using hvalue
      refine ⟨hd, fun hsame => ?_⟩
      cases n with
      | int i => simp [Number.toValue, Value.same] at hsame
      | float y =>
          have hsame' : y.same x = true := by simpa [Number.toValue, Value.same] using hsame
          by_cases hzero : x.isZero = true
          · exact readsBack_of_isZero hzero
          · obtain rfl : y = x := by
              have hbits : y.bits = x.bits := by simpa [Double.same, hzero] using hsame'
              cases y
              cases x
              simpa using hbits
            -- the whole text is read in the same way
            have hends : EndsNumeral [] := by
              intro b hb
              simp at hb
            obtain ⟨found, hfound, hvalue⟩ := hsettled (fuelFor (y.text numberLayout)) 127
              (.start (y.text numberLayout)) [] hends (List.append_nil _).symm
            unfold ReadsBack readValue
            rw [maxDepth, hvalue]
            cases found with
            | error f => simp [ComesTo] at hfound
            | ok r =>
                obtain ⟨m, e⟩ := r
                obtain ⟨hm, he⟩ := hfound
                obtain rfl := Option.some.inj hm
                exact finish_of_rest _ he

/-! ## Insides of arrays -/

/-- Where a value is written, a reader that finds any value uses the text up, and finds the same value only if a
condition is met. -/
def Vouches (fuel : Nat) (item : Cursor → Read Value) (v : Value) (P : Prop) : Prop :=
  ∀ c rest w c', Delimits rest → c.rest = write v ++ rest → c.rest.length < fuel → item c = .ok (w, c') →
    c'.rest = rest ∧ (w.same v = true → P)

theorem Finds.vouches {item : Cursor → Read Value} {P : Prop} (h : Finds fuel item (write v) v) (hp : P) :
    Vouches fuel item v P := by
  intro c rest w c' hr hc hfuel hw
  obtain ⟨d, hitem, hd⟩ := h c rest hr hc hfuel
  rw [hitem] at hw
  obtain ⟨rfl, rfl⟩ : v = w ∧ d = c' := by simpa using hw
  exact ⟨hd, fun _ => hp⟩

variable {item : Cursor → Read Value} {P : Value → Prop} {done xs ys : List Value}

/-- The reader of elements has read one more. -/
theorem elementsFrom_of_ok {d : Cursor} (hn : nextElement first c = .ok (some d))
    (h : elementsFrom item steps first done c = .ok (ys, c')) :
    ∃ steps' w e, item d = .ok (w, e) ∧ elementsFrom item steps' false (w :: done) e = .ok (ys, c') := by
  cases steps with
  | zero => simp [elementsFrom] at h
  | succ steps =>
      rw [elementsFrom, hn] at h
      simp only at h
      cases hi : item d with
      | error f => simp [hi] at h
      | ok found =>
          obtain ⟨w, e⟩ := found
          rw [hi] at h
          exact ⟨steps, w, e, rfl, h⟩

theorem elementsFrom_of_close (hc : c.rest = 93 :: rest) (h : elementsFrom item steps first done c = .ok (ys, c')) :
    ys = done.reverse ∧ c' = c := by
  cases steps with
  | zero => simp [elementsFrom] at h
  | succ steps =>
      rw [elementsFrom, nextElement_close first hc] at h
      obtain ⟨rfl, rfl⟩ : done.reverse = ys ∧ c = c' := by simpa using h
      exact ⟨rfl, rfl⟩

/-- The elements from one of them on.  The induction is on what has been written. -/
theorem elementsFrom_listing_of_ok (hv : ∀ x ∈ xs, Vouches fuel item x (P x)) (ho : ∀ x ∈ xs, Opens (write x))
    (hc : c.rest = listing first (xs.map write) ++ 93 :: rest) (hfuel : c.rest.length < fuel)
    (h : elementsFrom item steps first done c = .ok (ys, c')) :
    ∃ ws, ys = done.reverse ++ ws ∧ c'.rest = 93 :: rest ∧
      (Value.sameElements ws xs = true → ∀ x ∈ xs, P x) := by
  induction xs generalizing c first done steps with
  | nil =>
      have hc' : c.rest = 93 :: rest := by rw [hc, List.map_nil, listing_nil, List.nil_append]
      obtain ⟨rfl, rfl⟩ := elementsFrom_of_close hc' h
      exact ⟨[], (List.append_nil _).symm, hc', by simp⟩
  | cons x xs ih =>
      obtain ⟨d, hnext, hle, hd⟩ := nextElement_listing (ho x (List.mem_cons_self ..)) hc
      obtain ⟨steps', w, e, hitem, htail⟩ := elementsFrom_of_ok hnext h
      obtain ⟨he, hw⟩ := hv x (List.mem_cons_self ..) d _ w e (delimits_tail xs (.inl rfl) rest) hd
        (by omega) hitem
      rw [hd, List.length_append] at hle
      obtain ⟨ws, rfl, hrest, hws⟩ := ih (fun y hy => hv y (List.mem_cons_of_mem _ hy))
        (fun y hy => ho y (List.mem_cons_of_mem _ hy)) he (by rw [he]; omega) htail
      refine ⟨w :: ws, by simp, hrest, fun hsame y hy => ?_⟩
      rw [Value.sameElements, Bool.and_eq_true] at hsame
      rcases List.mem_cons.1 hy with rfl | hy
      · exact hw hsame.1
      · exact hws hsame.2 y hy

/-- The elements of an array, whose opening bracket has been read. -/
theorem elements_of_ok (hv : ∀ x ∈ xs, Vouches fuel item x (P x)) (ho : ∀ x ∈ xs, Opens (write x))
    (hc : c.rest = separated (xs.map write) ++ 93 :: rest) (hfuel : c.rest.length < fuel)
    (h : elements fuel item c = .ok (ys, c')) :
    c'.rest = rest ∧ (Value.sameElements ys xs = true → ∀ x ∈ xs, P x) := by
  unfold elements at h
  cases hfrom : elementsFrom item fuel true [] c with
  | error f => simp [hfrom] at h
  | ok found =>
      obtain ⟨ws, d⟩ := found
      have hlisting : c.rest = listing true (xs.map write) ++ 93 :: rest := hc
      obtain ⟨ws, rfl, hrest, hws⟩ := elementsFrom_listing_of_ok hv ho hlisting hfuel hfrom
      rw [hfrom] at h
      simp only [closeArray_of_rest hrest, Except.map, Except.ok.injEq, Prod.mk.injEq] at h
      obtain ⟨rfl, rfl⟩ := h
      exact ⟨Cursor.rest_advance hrest, hws⟩

/-! ## Insides of objects -/

variable {es pairs : List (String × Value)} {entries stored : Entries} {key : String}

/-- Pairs have the keys of the entries, and the same value under a key only if a condition is met. -/
structure Resembles (P : Value → Prop) (pairs es : List (String × Value)) : Prop where
  keys : pairs.map (·.1) = es.map (·.1)
  values : ∀ e ∈ es, ∃ w, (e.1, w) ∈ pairs ∧ (w.same e.2 = true → P e.2)

theorem Resembles.cons {e : String × Value} (h : Resembles P pairs es) (hw : w.same e.2 = true → P e.2) :
    Resembles P ((e.1, w) :: pairs) (e :: es) := by
  refine ⟨by rw [List.map_cons, List.map_cons, h.keys], fun f hf => ?_⟩
  rcases List.mem_cons.1 hf with rfl | hf
  · exact ⟨w, List.mem_cons_self .., hw⟩
  · obtain ⟨w', hmem, hsame⟩ := h.values f hf
    exact ⟨w', List.mem_cons_of_mem _ hmem, hsame⟩

/-- Where entries that are built from such pairs are the same as the given ones in order, every condition is met. -/
theorem Resembles.of_same (h : Resembles P pairs es) (ho : Entries.Ascending entries) (hp : es.Perm entries)
    (hs : Value.sameEntries (Entries.ofList pairs) entries = true) : ∀ e ∈ es, P e.2 := by
  intro e he
  have hdistinct : (pairs.map (·.1)).Nodup := by
    rw [h.keys, (hp.map _).nodup_iff]
    exact List.Pairwise.map _ (fun a b hlt => String.ne_of_lt hlt) ho
  obtain ⟨w, hmem, hw⟩ := h.values e he
  obtain ⟨w', hmem', hsame⟩ := Value.exists_of_sameEntries hs (hp.mem_iff.1 he)
  have heq := (Entries.ascending_ofList pairs).eq_of_key (Entries.mem_ofList hdistinct hmem) hmem' rfl
  obtain rfl : w = w' := congrArg (·.2) heq
  exact hw hsame

/-- The reader of entries has read one more. -/
theorem membersFrom_of_ok {k : Cursor} (hk : nextKey first c = .ok (some k))
    (hc : k.rest = Text.write key ++ 58 :: rest)
    (hfuel : k.rest.length < fuel) (h : membersFrom fuel item steps first stored c = .ok (entries, c')) :
    ∃ steps' d w e, d.rest = rest ∧ item d = .ok (w, e) ∧
      membersFrom fuel item steps' false (Entries.insert key w stored) e = .ok (entries, c') := by
  obtain ⟨d, hread, -, hcolon, hd⟩ := key_write fuel hc hfuel
  cases steps with
  | zero => simp [membersFrom] at h
  | succ steps =>
      rw [membersFrom, hk] at h
      simp only [hread, hcolon] at h
      cases hi : item d.advance with
      | error f => simp [hi] at h
      | ok found =>
          obtain ⟨w, e⟩ := found
          rw [hi] at h
          exact ⟨steps, d.advance, w, e, hd, hi, h⟩

theorem membersFrom_of_close (hc : c.rest = 125 :: rest)
    (h : membersFrom fuel item steps first stored c = .ok (entries, c')) : entries = stored ∧ c' = c := by
  cases steps with
  | zero => simp [membersFrom] at h
  | succ steps =>
      rw [membersFrom, nextKey_close first hc] at h
      obtain ⟨rfl, rfl⟩ : stored = entries ∧ c = c' := by simpa using h
      exact ⟨rfl, rfl⟩

/-- The entries from one of them on.  The induction is on what has been written. -/
theorem membersFrom_listing_of_ok (hv : ∀ e ∈ es, Vouches fuel item e.2 (P e.2))
    (hc : c.rest = listing first (es.map writeEntry) ++ 125 :: rest) (hfuel : c.rest.length < fuel)
    (h : membersFrom fuel item steps first stored c = .ok (entries, c')) :
    ∃ pairs, entries = pairs.foldl (fun entries (k, v) => Entries.insert k v entries) stored ∧
      c'.rest = 125 :: rest ∧ Resembles P pairs es := by
  induction es generalizing c first stored steps with
  | nil =>
      have hc' : c.rest = 125 :: rest := by rw [hc, List.map_nil, listing_nil, List.nil_append]
      obtain ⟨rfl, rfl⟩ := membersFrom_of_close hc' h
      exact ⟨[], rfl, hc', rfl, by simp⟩
  | cons e es ih =>
      obtain ⟨k, hkey, hle, hk⟩ := nextKey_listing hc
      obtain ⟨steps', d, w, e', hd, hitem, htail⟩ := membersFrom_of_ok hkey hk (by omega) h
      rw [hk, List.length_append, List.length_cons] at hle
      obtain ⟨he', hw⟩ := hv e (List.mem_cons_self ..) d _ w e' (delimits_tail es (.inr rfl) rest) hd
        (by rw [hd]; omega) hitem
      rw [List.length_append] at hle
      obtain ⟨pairs, rfl, hrest, hpairs⟩ := ih (fun y hy => hv y (List.mem_cons_of_mem _ hy)) he'
        (by rw [he']; omega) htail
      exact ⟨(e.1, w) :: pairs, rfl, hrest, hpairs.cons hw⟩

/-- The entries of an object, whose opening brace has been read. -/
theorem members_of_ok (hv : ∀ e ∈ es, Vouches fuel item e.2 (P e.2))
    (hc : c.rest = separated (es.map writeEntry) ++ 125 :: rest) (hfuel : c.rest.length < fuel)
    (h : members fuel item c = .ok (entries, c')) :
    c'.rest = rest ∧ ∃ pairs, entries = Entries.ofList pairs ∧ Resembles P pairs es := by
  unfold members at h
  cases hfrom : membersFrom fuel item fuel true [] c with
  | error f => simp [hfrom] at h
  | ok found =>
      obtain ⟨ws, d⟩ := found
      have hlisting : c.rest = listing true (es.map writeEntry) ++ 125 :: rest := hc
      obtain ⟨pairs, rfl, hrest, hpairs⟩ := membersFrom_listing_of_ok hv hlisting hfuel hfrom
      rw [hfrom] at h
      simp only [closeObject_of_rest hrest, Except.map, Except.ok.injEq, Prod.mk.injEq] at h
      obtain ⟨rfl, rfl⟩ := h
      exact ⟨Cursor.rest_advance hrest, pairs, rfl, hpairs⟩

/-! ## Values -/

/-- What is read of a written value is the same value only if every double in it reads back. -/
theorem sendable_of_same {kind : Double → Prop} (hv : v.Sendable kind n) (hd : n < depth) :
    Vouches fuel (value fuel depth) v (v.Sendable ReadsBack n) := by
  induction hv generalizing depth with
  | null n => exact (value_write (.null n) hd).vouches (.null n)
  | bool n b => exact (value_write (.bool n b) hd).vouches (.bool n b)
  | int n i => exact (value_write (.int n i) hd).vouches (.int n i)
  | str n s => exact (value_write (.str n s) hd).vouches (.str n s)
  | float n _ =>
      -- a double is the only value that may be read back as another one
      intro c rest w c' hr hc _ h
      rw [write] at hc
      obtain ⟨hrest, hw⟩ := readsBack_of_same hr hc h
      exact ⟨hrest, fun hsame => .float n (hw hsame)⟩
  | @arr n xs hxs ih =>
      obtain ⟨d, rfl⟩ : ∃ d, depth = d + 1 := ⟨depth - 1, by omega⟩
      intro c rest w c' _ hc hfuel h
      obtain ⟨hopening, hadvance⟩ := rest_of_arr hc
      have hd' : d ≠ 0 := by omega
      rw [value_of_rest hopening rfl] at h
      obtain ⟨ys, helements, rfl⟩ := Result.of_map (f := Value.arr) (by simpa [Bytes.isDigit, hd'] using h)
      rw [hopening, List.length_cons] at hfuel
      obtain ⟨hrest, hys⟩ := elements_of_ok (fun x hx => ih x hx (by omega)) (fun x hx => opens_write (hxs x hx))
        hadvance (by omega) helements
      exact ⟨hrest, fun hsame => .arr (hys (by simpa [Value.same] using hsame))⟩
  | @obj n es ho hes ih =>
      obtain ⟨d, rfl⟩ : ∃ d, depth = d + 1 := ⟨depth - 1, by omega⟩
      intro c rest w c' _ hc hfuel h
      obtain ⟨hopening, hadvance⟩ := rest_of_obj hc
      have hd' : d ≠ 0 := by omega
      rw [value_of_rest hopening rfl] at h
      obtain ⟨entries, hmembers, rfl⟩ := Result.of_map (f := Value.obj) (by simpa [Bytes.isDigit, hd'] using h)
      rw [hopening, List.length_cons] at hfuel
      obtain ⟨hrest, pairs, rfl, hpairs⟩ := members_of_ok (fun e he => ih e he (by omega))
        hadvance (by omega) hmembers
      exact ⟨hrest, fun hsame => .obj ho (hpairs.of_same ho (.refl es) (by simpa [Value.same] using hsame))⟩

/-! ## Messages -/

theorem readArgs_of_ok {kind : Double → Prop} {args : List Value} (hargs : ∀ x ∈ args, x.Sendable kind n)
    (hd : n < depth) (hc : c.rest = write (.arr args) ++ rest) (hfuel : c.rest.length < fuel)
    (h : readArgs fuel depth c = .ok (ys, c')) :
    c'.rest = rest ∧ (Value.sameElements ys args = true → ∀ x ∈ args, x.Sendable ReadsBack n) := by
  obtain ⟨hopening, hadvance⟩ := rest_of_arr hc
  unfold readArgs at h
  simp only [opening_of_rest hopening rfl] at h
  rw [hopening, List.length_cons] at hfuel
  exact elements_of_ok (fun x hx => sendable_of_same (hargs x hx) hd) (fun x hx => opens_write (hargs x hx)) hadvance
    (by omega) h

theorem readKwargs_of_ok {kind : Double → Prop} (hes : ∀ e ∈ es, e.2.Sendable kind n) (hd : n < depth)
    (hc : c.rest = write (.obj es) ++ rest) (hfuel : c.rest.length < fuel)
    (h : readKwargs fuel depth c = .ok (entries, c')) :
    c'.rest = rest ∧ ∃ pairs, entries = Entries.ofList pairs ∧ Resembles (·.Sendable ReadsBack n) pairs es := by
  obtain ⟨hopening, hadvance⟩ := rest_of_obj hc
  unfold readKwargs at h
  simp only [opening_of_rest hopening rfl] at h
  rw [hopening, List.length_cons] at hfuel
  exact members_of_ok (fun e he => sendable_of_same (hes e he) hd) hadvance (by omega) h

/-- The reader of fields has read one more. -/
theorem namedFields_of_ok {field : Field} {d d'' : Draft} {k : Cursor} (hk : nextKey first c = .ok (some k))
    (hd : d.has field = false) (hc : k.rest = writeField field text ++ rest) (hfuel : k.rest.length < fuel)
    (h : namedFields fuel depth steps first d c = .ok (d'', c')) :
    ∃ steps' e d' e', e.rest = text ++ rest ∧ e.rest.length < fuel ∧ readField fuel depth field d e = .ok (d', e') ∧
      namedFields fuel depth steps' false d' e' = .ok (d'', c') := by
  have hc' : k.rest = Text.write field.name ++ 58 :: (text ++ rest) := by
    rw [hc, writeField]
    simp
  obtain ⟨e, hread, -, hcolon, he⟩ := key_write fuel hc' hfuel
  rw [hc', List.length_append, List.length_cons] at hfuel
  cases steps with
  | zero => simp [namedFields] at h
  | succ steps =>
      rw [namedFields, hk] at h
      simp only [hread, Field.ofName?_name, hd, Bool.false_eq_true, if_false, hcolon] at h
      cases hfield : readField fuel depth field d e.advance with
      | error f => simp [hfield] at h
      | ok found =>
          obtain ⟨d', e'⟩ := found
          rw [hfield] at h
          exact ⟨steps, e.advance, d', e', he, by rw [he]; omega, hfield, h⟩

theorem length_lt_of_rest {e : Cursor} {tail : Bytes} {b : UInt8} (he : e.rest = text ++ b :: tail)
    (hfuel : e.rest.length < fuel) (hc : c.rest = tail) : c.rest.length < fuel := by
  rw [he, List.length_append, List.length_cons] at hfuel
  rw [hc]
  omega

/-- What is read of a written message is the same message only if every double in it reads back. -/
theorem sendable_of_readMessage {kind : Double → Prop} {command : String} {args : List Value}
    {order : List (String × Value)} {m m' : Message} (hm : m = ⟨command, args, entries⟩)
    (hargs : ∀ x ∈ args, x.Sendable kind n) (horder : ∀ e ∈ order, e.2.Sendable kind n) (hd : n + 2 < maxDepth)
    (ho : Entries.Ascending entries) (hp : order.Perm entries)
    (h : readMessage (writeMessage command args order) = .ok m') (hsame : m'.same m = true) :
    (∀ x ∈ args, x.Sendable ReadsBack n) ∧ ∀ e ∈ order, e.2.Sendable ReadsBack n := by
  have hdepth : n < maxDepth - 2 := by omega
  have heq := writeMessage_eq command args order
  unfold readMessage at h
  generalize hdoc : writeMessage command args order = document at heq h
  have hstart : (Cursor.start document).rest = 123 :: _ := heq
  have hadvance := Cursor.rest_advance hstart
  have hfuel := advance_lt_fuelFor hstart
  generalize fuelFor document = fuel at h hfuel
  obtain ⟨c, hmessage, -⟩ := rest_of_finish h
  rw [message_of_object hstart, namedMessage] at hmessage
  cases hfields : namedFields fuel (maxDepth - 2) fuel true .empty (Cursor.start document).advance with
  | error f => cases f <;> simp [hfields] at hmessage
  | ok found =>
      obtain ⟨d', c₄⟩ := found
      -- one field after the other
      obtain ⟨steps₁, e₁, d₁, c₁, he₁, hfuel₁, hread₁, hfields₁⟩ :=
        namedFields_of_ok (nextKey_first_field hadvance) rfl hadvance hfuel hfields
      obtain ⟨d, hcommand, hrest₁⟩ := readCommand_write command e₁ _ (delimits_cons (.inl rfl) _) he₁ hfuel₁
      obtain ⟨rfl, rfl⟩ : (⟨some command, none, none⟩ : Draft) = d₁ ∧ d = c₁ := by
        simpa [readField, hcommand, Except.map, Draft.empty] using hread₁
      have hadvance₁ := Cursor.rest_advance hrest₁
      obtain ⟨steps₂, e₂, d₂, c₂, he₂, hfuel₂, hread₂, hfields₂⟩ :=
        namedFields_of_ok (nextKey_comma_field hrest₁) rfl hadvance₁ (length_lt_of_rest he₁ hfuel₁ hadvance₁) hfields₁
      obtain ⟨ys, hys, rfl⟩ := Result.of_map (r := readArgs fuel (maxDepth - 2) e₂)
        (f := fun ys => (⟨some command, some ys, none⟩ : Draft)) hread₂
      obtain ⟨hrest₂, hargs'⟩ := readArgs_of_ok hargs hdepth he₂ hfuel₂ hys
      have hadvance₂ := Cursor.rest_advance hrest₂
      obtain ⟨steps₃, e₃, d₃, c₃, he₃, hfuel₃, hread₃, hfields₃⟩ :=
        namedFields_of_ok (nextKey_comma_field hrest₂) rfl hadvance₂ (length_lt_of_rest he₂ hfuel₂ hadvance₂) hfields₂
      obtain ⟨kwargs, hkwargs, rfl⟩ := Result.of_map (r := readKwargs fuel (maxDepth - 2) e₃)
        (f := fun kwargs => (⟨some command, some ys, some kwargs⟩ : Draft)) hread₃
      obtain ⟨hrest₃, pairs, rfl, hpairs⟩ := readKwargs_of_ok horder hdepth he₃ hfuel₃ hkwargs
      -- no field is left
      have hend : (⟨some command, some ys, some (Entries.ofList pairs)⟩ : Draft) = d' ∧ c₃ = c₄ := by
        cases steps₃ with
        | zero => simp [namedFields] at hfields₃
        | succ steps => simpa [namedFields, nextKey_close false hrest₃] using hfields₃
      obtain ⟨rfl, rfl⟩ := hend
      rw [hfields] at hmessage
      simp only [Draft.message?, Option.map_some, Option.getD_some, closeObject_of_rest hrest₃, Except.map,
        Except.ok.injEq, Prod.mk.injEq] at hmessage
      rw [← hmessage.1, hm, Message.same, Bool.and_eq_true, Bool.and_eq_true] at hsame
      exact ⟨hargs' hsame.1.2, hpairs.of_same ho hp hsame.2⟩

end Json
end Courier
