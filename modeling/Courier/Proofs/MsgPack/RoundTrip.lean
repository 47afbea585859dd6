import Courier.MsgPack.Reader
import Courier.MsgPack.Writer
import Courier.Proofs.Bytes
import Courier.Proofs.Text.Utf8
import Courier.Proofs.Value

/-!
# Round trip — packed values and messages read back

Each part of a packed message is read back with anything behind it.

1. heads, one lemma for each kind of number or length,
2. texts and `value_write`, by induction on the value,
3. `readMessage_write`.

Lengths fit their heads as long as the whole payload fits a frame.
-/

namespace Courier
namespace MsgPack

/-! ## Heads -/

theorem takeBytes_append (fault : Fault) (data rest : Bytes) :
    takeBytes fault data.length (data ++ rest) = .ok (data, rest) := by
  simp [takeBytes]

theorem readNumber_bigEndian {width n : Nat} (h : n < 256 ^ width) (rest : Bytes) :
    readNumber width (Bytes.bigEndian width n ++ rest) = .ok (n, rest) := by
  have htake := takeBytes_append .shortNumber (Bytes.bigEndian width n) rest
  rw [Bytes.length_bigEndian] at htake
  simp only [readNumber, htake, Except.map, Bytes.toNat_bigEndian h]

namespace Head

variable {n : Nat} {rest : Bytes}

/-- A number in one byte is at the front of the marker space. -/
theorem read_small {b : UInt8} {head : Head} (h : ofSmall? b = some head) :
    read (b :: rest) = .ok (head, rest) := by
  rw [read, h]

theorem read_marked (make : Nat → Head) {marker : UInt8} {width : Nat} (h : n < 256 ^ width)
    (hs : ofSmall? marker = none)
    (hm : ∀ rest, afterMarker marker rest =
      (readNumber width rest).map fun (n, rest) => (make n, rest)) :
    read (marked marker width n ++ rest) = .ok (make n, rest) := by
  rw [marked, List.cons_append, read, hs]
  simp only [hm, readNumber_bigEndian h, Except.map]

theorem read_writeText (h : n < 2 ^ 32) : read (writeText n ++ rest) = .ok (.text n, rest) := by
  unfold writeText
  by_cases h₁ : n < 32
  · rw [if_pos h₁]
    refine read_small ?_
    have hn : (UInt8.ofNat (0xA0 + n)).toNat = 0xA0 + n := Utf8.toNat_ofNat_of_lt (by omega)
    simp only [ofSmall?, hn]
    rw [if_neg (by omega), if_neg (by omega), if_neg (by omega), if_pos (by omega),
      Nat.add_sub_cancel_left]
  · rw [if_neg h₁]
    by_cases h₂ : n < 2 ^ 8
    · rw [if_pos h₂]
      exact read_marked _ (by omega) rfl fun _ => rfl
    · rw [if_neg h₂]
      by_cases h₃ : n < 2 ^ 16
      · rw [if_pos h₃]
        exact read_marked _ (by omega) rfl fun _ => rfl
      · rw [if_neg h₃]
        exact read_marked _ (by omega) rfl fun _ => rfl

theorem read_writeArray (h : n < 2 ^ 32) : read (writeArray n ++ rest) = .ok (.array n, rest) := by
  unfold writeArray
  by_cases h₁ : n < 16
  · rw [if_pos h₁]
    refine read_small ?_
    have hn : (UInt8.ofNat (0x90 + n)).toNat = 0x90 + n := Utf8.toNat_ofNat_of_lt (by omega)
    simp only [ofSmall?, hn]
    rw [if_neg (by omega), if_neg (by omega), if_pos (by omega), Nat.add_sub_cancel_left]
  · rw [if_neg h₁]
    by_cases h₂ : n < 2 ^ 16
    · rw [if_pos h₂]
      exact read_marked _ (by omega) rfl fun _ => rfl
    · rw [if_neg h₂]
      exact read_marked _ (by omega) rfl fun _ => rfl

theorem read_writeMap (h : n < 2 ^ 32) : read (writeMap n ++ rest) = .ok (.map n, rest) := by
  unfold writeMap
  by_cases h₁ : n < 16
  · rw [if_pos h₁]
    refine read_small ?_
    have hn : (UInt8.ofNat (0x80 + n)).toNat = 0x80 + n := Utf8.toNat_ofNat_of_lt (by omega)
    simp only [ofSmall?, hn]
    rw [if_neg (by omega), if_pos (by omega), Nat.add_sub_cancel_left]
  · rw [if_neg h₁]
    by_cases h₂ : n < 2 ^ 16
    · rw [if_pos h₂]
      exact read_marked _ (by omega) rfl fun _ => rfl
    · rw [if_neg h₂]
      exact read_marked _ (by omega) rfl fun _ => rfl

/-- A number that is not negative is read as an unsigned word. -/
theorem read_writeInt_of_nonneg {i : WireInt} {k : Nat} (hi : i.val = .ofNat k) :
    read (writeInt i ++ rest) = .ok (.unsigned (UInt64.ofNat k), rest) := by
  have hupper : i.val < 2 ^ 64 := i.upper
  have hk : k < 2 ^ 64 := by
    rw [hi] at hupper
    simp at hupper
    omega
  unfold writeInt
  rw [hi]
  simp only
  -- each width has a marker of its own, except for numbers that are their own marker
  by_cases h₁ : k < 0x80
  · rw [if_pos h₁]
    refine read_small ?_
    have hn : (UInt8.ofNat k).toNat = k := Utf8.toNat_ofNat_of_lt (by omega)
    simp only [ofSmall?, hn]
    rw [if_pos h₁]
  · rw [if_neg h₁]
    by_cases h₂ : k < 2 ^ 8
    · rw [if_pos h₂]
      exact read_marked (fun n => .unsigned (UInt64.ofNat n)) (by omega) rfl fun _ => rfl
    · rw [if_neg h₂]
      by_cases h₃ : k < 2 ^ 16
      · rw [if_pos h₃]
        exact read_marked (fun n => .unsigned (UInt64.ofNat n)) (by omega) rfl fun _ => rfl
      · rw [if_neg h₃]
        by_cases h₄ : k < 2 ^ 32
        · rw [if_pos h₄]
          exact read_marked (fun n => .unsigned (UInt64.ofNat n)) (by omega) rfl fun _ => rfl
        · rw [if_neg h₄]
          exact read_marked (fun n => .unsigned (UInt64.ofNat n)) (by omega) rfl fun _ => rfl

/-- The two's complement of a negative number is read as that number. -/
theorem signedOf_complement (width : Nat) {k : Nat} (hk : k < 2 ^ (8 * width - 1)) (hw : 0 < width)
    (hle : width ≤ 8) :
    signedOf width (2 ^ (8 * width) - 1 - k) = Int64.ofInt (.negSucc k) := by
  have hpow : 2 ^ (8 * width) = 2 * 2 ^ (8 * width - 1) := by
    rw [← Nat.pow_succ']
    congr 1
    omega
  unfold signedOf
  rw [if_neg (by omega)]
  congr 1
  have hcast : ((2 : Int) ^ (8 * width)) = ((2 ^ (8 * width) : Nat) : Int) := by simp
  rw [hcast]
  omega

/-- A negative number is read as a signed word. -/
theorem read_writeInt_of_neg {i : WireInt} {k : Nat} (hi : i.val = .negSucc k) :
    read (writeInt i ++ rest) = .ok (.signed (Int64.ofInt (.negSucc k)), rest) := by
  have hlower : -2 ^ 63 ≤ i.val := i.lower
  have hk : k < 2 ^ 63 := by
    rw [hi] at hlower
    omega
  unfold writeInt
  rw [hi]
  simp only
  by_cases h₁ : k < 32
  · rw [if_pos h₁]
    refine read_small ?_
    have hn : (UInt8.ofNat (255 - k)).toNat = 255 - k := Utf8.toNat_ofNat_of_lt (by omega)
    have hvalue : ((255 - k : Nat) : Int) - 256 = .negSucc k := by omega
    simp only [ofSmall?, hn]
    rw [if_neg (by omega), if_neg (by omega), if_neg (by omega), if_neg (by omega),
      if_pos (by omega), hvalue]
  · rw [if_neg h₁]
    by_cases h₂ : k < 2 ^ 7
    · rw [if_pos h₂, ← signedOf_complement 1 (by omega) (by omega) (by omega)]
      exact read_marked (fun n => .signed (signedOf 1 n)) (by omega) rfl fun _ => rfl
    · rw [if_neg h₂]
      by_cases h₃ : k < 2 ^ 15
      · rw [if_pos h₃, ← signedOf_complement 2 (by omega) (by omega) (by omega)]
        exact read_marked (fun n => .signed (signedOf 2 n)) (by omega) rfl fun _ => rfl
      · rw [if_neg h₃]
        by_cases h₄ : k < 2 ^ 31
        · rw [if_pos h₄, ← signedOf_complement 4 (by omega) (by omega) (by omega)]
          exact read_marked (fun n => .signed (signedOf 4 n)) (by omega) rfl fun _ => rfl
        · rw [if_neg h₄, ← signedOf_complement 8 (by omega) (by omega) (by omega)]
          exact read_marked (fun n => .signed (signedOf 8 n)) (by omega) rfl fun _ => rfl

theorem read_real (x : Double) :
    read (marked 0xCB 8 x.bits.toNat ++ rest) = .ok (.real (.finite x), rest) := by
  have hx : x.bits.toNat < 256 ^ 8 := by
    have := x.bits.toNat_lt
    omega
  have hbits : Real.ofDouble x.bits.toNat = .finite x := by
    unfold Real.ofDouble Double.ofBits?
    rw [UInt64.ofNat_toNat, dif_pos x.finite]
  rw [← hbits]
  exact read_marked (fun n => .real (.ofDouble n)) hx rfl fun _ => rfl

end Head

/-! ## Texts -/

variable {s : String} {rest : Bytes} {depth count : Nat}

theorem readText_encode (s : String) (rest : Bytes) :
    readText (Utf8.encode s).length (Utf8.encode s ++ rest) = .ok (s, rest) := by
  unfold readText readData
  rw [takeBytes_append]
  simp only [Utf8.decode_encode]

theorem head_writeString (h : (writeString s).length < 2 ^ 32) (rest : Bytes) :
    Head.read (writeString s ++ rest) =
      .ok (.text (Utf8.encode s).length, Utf8.encode s ++ rest) := by
  have hs : (Utf8.encode s).length < 2 ^ 32 := by
    unfold writeString at h
    rw [List.length_append] at h
    omega
  unfold writeString
  simp only [List.append_assoc]
  exact Head.read_writeText hs

theorem string_writeString (h : (writeString s).length < 2 ^ 32) (rest : Bytes) :
    string depth (writeString s ++ rest) = .ok (s, rest) := by
  unfold string
  rw [head_writeString h]
  exact readText_encode s rest

theorem firstKey_writeString (h : (writeString s).length < 2 ^ 32) (rest : Bytes) :
    firstKey depth (writeString s ++ rest) = .ok (s, rest) := by
  unfold firstKey
  rw [head_writeString h]
  exact readText_encode s rest

theorem fieldKey_writeString (h : (writeString s).length < 2 ^ 32) (rest : Bytes) :
    fieldKey depth (writeString s ++ rest) = .ok (Field.ofName? s, rest) := by
  unfold fieldKey readData
  rw [head_writeString h]
  simp only [takeBytes_append, Except.map, Utf8.decode_encode]

/-! ## Repeated parts -/

theorem writeElements_eq (done : List Bytes) (xs : List Value) :
    writeElements done xs = done.reverse ++ xs.map write := by
  induction xs generalizing done with
  | nil => simp [writeElements]
  | cons x xs ih => simp [writeElements, ih]

theorem writeEntries_eq (done : List Bytes) (es : List (String × Value)) :
    writeEntries done es = done.reverse ++ es.map writeEntry := by
  induction es generalizing done with
  | nil => simp [writeEntries]
  | cons e es ih => simp [writeEntries, ih]

theorem length_le_of_mem {α : Type} {f : α → Bytes} {xs : List α} {x : α} (h : x ∈ xs) :
    (f x).length ≤ (xs.map f).flatten.length := by
  obtain ⟨before, after, rfl⟩ := List.append_of_mem h
  simp only [List.map_append, List.map_cons, List.flatten_append, List.flatten_cons,
    List.length_append]
  omega

theorem length_le_flatten {α : Type} {f : α → Bytes} {xs : List α} (h : ∀ x ∈ xs, f x ≠ []) :
    xs.length ≤ (xs.map f).flatten.length := by
  induction xs with
  | nil => simp
  | cons x xs ih =>
      have hx : 0 < (f x).length := List.length_pos_iff.2 (h x (List.mem_cons_self ..))
      have hxs := ih fun y hy => h y (List.mem_cons_of_mem _ hy)
      simp only [List.map_cons, List.flatten_cons, List.length_cons, List.length_append]
      omega

theorem writeInt_ne_nil (i : WireInt) : Head.writeInt i ≠ [] := by
  unfold Head.writeInt
  (repeat' split) <;> simp [Head.marked]

theorem writeText_ne_nil (n : Nat) : Head.writeText n ≠ [] := by
  unfold Head.writeText
  (repeat' split) <;> simp [Head.marked]

theorem writeString_ne_nil (s : String) : writeString s ≠ [] := by
  simp [writeString, writeText_ne_nil]

theorem write_ne_nil (v : Value) : write v ≠ [] := by
  cases v with
  | null => simp [write]
  | bool b => cases b <;> simp [write]
  | int i =>
      rw [write]
      exact writeInt_ne_nil i
  | float x => simp [write, Head.marked]
  | str s =>
      rw [write]
      exact writeString_ne_nil s
  | arr xs =>
      rw [write, Head.writeArray]
      (repeat' split) <;> simp [Head.marked]
  | obj es =>
      rw [write, Head.writeMap]
      (repeat' split) <;> simp [Head.marked]

theorem writeEntry_ne_nil (e : String × Value) : writeEntry e ≠ [] := by
  obtain ⟨k, v⟩ := e
  simp [writeEntry, write_ne_nil]

theorem length_writeEntry (e : String × Value) :
    (writeEntry e).length = (writeString e.1).length + (write e.2).length := by
  obtain ⟨k, v⟩ := e
  simp [writeEntry]

theorem write_arr (xs : List Value) :
    write (.arr xs) = Head.writeArray xs.length ++ (xs.map write).flatten := by
  rw [write, writeElements_eq, List.reverse_nil, List.nil_append]

theorem write_obj (es : List (String × Value)) :
    write (.obj es) = Head.writeMap es.length ++ (es.map writeEntry).flatten := by
  rw [write, writeEntries_eq, List.reverse_nil, List.nil_append]

/-- The number of elements fits a head, since every element takes at least a byte. -/
theorem head_write_arr {xs : List Value} (h : (write (.arr xs)).length < 2 ^ 32) (rest : Bytes) :
    Head.read (write (.arr xs) ++ rest) = .ok (.array xs.length, (xs.map write).flatten ++ rest) := by
  have hcount : xs.length ≤ (xs.map write).flatten.length :=
    length_le_flatten fun x _ => write_ne_nil x
  rw [write_arr, List.length_append] at h
  rw [write_arr, List.append_assoc]
  exact Head.read_writeArray (by omega)

theorem head_write_obj {es : List (String × Value)} (h : (write (.obj es)).length < 2 ^ 32)
    (rest : Bytes) :
    Head.read (write (.obj es) ++ rest) = .ok (.map es.length, (es.map writeEntry).flatten ++ rest) := by
  have hcount : es.length ≤ (es.map writeEntry).flatten.length :=
    length_le_flatten fun e _ => writeEntry_ne_nil e
  rw [write_obj, List.length_append] at h
  rw [write_obj, List.append_assoc]
  exact Head.read_writeMap (by omega)

/-- What stands inside an array or an object is no larger. -/
theorem length_write_element {xs : List Value} {x : Value} (h : x ∈ xs) :
    (write x).length ≤ (write (.arr xs)).length := by
  have hle : (write x).length ≤ (xs.map write).flatten.length := length_le_of_mem h
  rw [write_arr, List.length_append]
  omega

theorem length_write_member {es : List (String × Value)} {e : String × Value} (h : e ∈ es) :
    (write e.2).length ≤ (write (.obj es)).length := by
  have hle : (writeEntry e).length ≤ (es.map writeEntry).flatten.length := length_le_of_mem h
  have hentry := length_writeEntry e
  rw [write_obj, List.length_append]
  omega

theorem length_flatten_le_obj (es : List (String × Value)) :
    (es.map writeEntry).flatten.length ≤ (write (.obj es)).length := by
  rw [write_obj, List.length_append]
  omega

theorem itemsFrom_write {item : Bytes → Read Value} {xs : List Value} (done : List Value)
    (h : ∀ x ∈ xs, ∀ rest, item (write x ++ rest) = .ok (x, rest)) (rest : Bytes) :
    itemsFrom item xs.length done ((xs.map write).flatten ++ rest) =
      .ok (done.reverse ++ xs, rest) := by
  induction xs generalizing done with
  | nil => simp [itemsFrom]
  | cons x xs ih =>
      have hx := h x (List.mem_cons_self ..) ((xs.map write).flatten ++ rest)
      have hxs := ih (x :: done) fun y hy => h y (List.mem_cons_of_mem _ hy)
      simp only [List.map_cons, List.flatten_cons, List.append_assoc, List.length_cons, itemsFrom, hx,
        hxs, List.reverse_cons, List.singleton_append]

/-- An entry is read and put in its place. -/
theorem entry_write (key : Bytes → Read String) (item : Bytes → Read Value) {e : String × Value}
    (done : Entries) (hk : ∀ rest, key (writeString e.1 ++ rest) = .ok (e.1, rest))
    (hv : ∀ rest, item (write e.2 ++ rest) = .ok (e.2, rest)) (rest : Bytes) :
    entry key item done (writeEntry e ++ rest) = .ok (Entries.insert e.1 e.2 done, rest) := by
  obtain ⟨k, v⟩ := e
  simp only [writeEntry, List.append_assoc, entry, hk, hv]

theorem entriesFrom_write (depth : Nat) {item : Bytes → Read Value} {es : List (String × Value)} (done : Entries)
    (hsize : (es.map writeEntry).flatten.length < 2 ^ 32)
    (h : ∀ e ∈ es, ∀ rest, item (write e.2 ++ rest) = .ok (e.2, rest)) (rest : Bytes) :
    entriesFrom (string depth) item es.length done ((es.map writeEntry).flatten ++ rest) =
      .ok (es.foldl (fun entries (k, v) => Entries.insert k v entries) done, rest) := by
  induction es generalizing done with
  | nil => simp [entriesFrom]
  | cons e es ih =>
      simp only [List.map_cons, List.flatten_cons, List.length_append] at hsize
      have hkey : (writeString e.1).length < 2 ^ 32 := by
        have hentry := length_writeEntry e
        omega
      have he := entry_write (string depth) item done
        (fun rest => string_writeString hkey rest) (h e (List.mem_cons_self ..))
        ((es.map writeEntry).flatten ++ rest)
      have hes := ih (Entries.insert e.1 e.2 done) (by omega)
        fun y hy => h y (List.mem_cons_of_mem _ hy)
      simp only [List.map_cons, List.flatten_cons, List.append_assoc, List.length_cons, entriesFrom, he,
        hes, List.foldl_cons]

/-- The first key of an object is read in a way of its own, with the same result. -/
theorem objectEntries_write {item : Bytes → Read Value} {es : List (String × Value)}
    (ho : Entries.Ascending es) (hsize : (es.map writeEntry).flatten.length < 2 ^ 32)
    (h : ∀ e ∈ es, ∀ rest, item (write e.2 ++ rest) = .ok (e.2, rest)) (rest : Bytes) :
    objectEntries depth item es.length ((es.map writeEntry).flatten ++ rest) = .ok (es, rest) := by
  cases es with
  | nil => rfl
  | cons e es =>
      simp only [List.map_cons, List.flatten_cons, List.length_append] at hsize
      have hkey : (writeString e.1).length < 2 ^ 32 := by
        have hentry := length_writeEntry e
        omega
      have he := entry_write (firstKey depth) item []
        (fun rest => firstKey_writeString hkey rest) (h e (List.mem_cons_self ..))
        ((es.map writeEntry).flatten ++ rest)
      have hes := entriesFrom_write depth (Entries.insert e.1 e.2 []) (by omega)
        (fun y hy => h y (List.mem_cons_of_mem _ hy)) rest
      have hsorted : es.foldl (fun entries (k, v) => Entries.insert k v entries) [e] = e :: es :=
        Entries.foldl_insert [e] ho
      simp only [List.map_cons, List.flatten_cons, List.append_assoc, List.length_cons, objectEntries,
        he, hes]
      exact congrArg (fun es => Except.ok (es, rest)) hsorted

/-! ## Values -/

variable {kind : Double → Prop} {n : Nat} {v : Value}

theorem ofUnsigned_of_nonneg {i : WireInt} {k : Nat} (hi : i.val = .ofNat k) :
    WireInt.ofUnsigned (UInt64.ofNat k) = i := by
  have hupper : i.val < 2 ^ 64 := i.upper
  have hk : k < 2 ^ 64 := by
    rw [hi] at hupper
    simp at hupper
    omega
  cases i with
  | mk val lower upper =>
      simp only [WireInt.ofUnsigned, WireInt.mk.injEq]
      rw [UInt64.toNat_ofNat_of_lt' hk]
      exact hi.symm

theorem ofSigned_of_neg {i : WireInt} {k : Nat} (hi : i.val = .negSucc k) :
    WireInt.ofSigned (Int64.ofInt (.negSucc k)) = i := by
  have hlower : -2 ^ 63 ≤ i.val := i.lower
  have hk : (-2 ^ 63 : Int) ≤ .negSucc k := hi ▸ hlower
  cases i with
  | mk val lower upper =>
      simp only [WireInt.ofSigned, WireInt.mk.injEq]
      rw [Int64.toInt_ofInt_of_le hk (by omega)]
      exact hi.symm

/-- A value of a size that fits a frame is read as it was written, within the nesting that the reader allows. -/
theorem value_write (hv : v.Sendable kind n) (hsize : (write v).length < 2 ^ 32) (hd : n < depth)
    (rest : Bytes) : value depth (write v ++ rest) = .ok (v, rest) := by
  -- what is inside an array or object is shorter than it, so that its lengths fit a header too
  induction hv generalizing depth rest with
  | null n =>
      obtain ⟨d, rfl⟩ : ∃ d, depth = d + 1 := ⟨depth - 1, by omega⟩
      rfl
  | bool n b =>
      obtain ⟨d, rfl⟩ : ∃ d, depth = d + 1 := ⟨depth - 1, by omega⟩
      cases b <;> rfl
  | int n i =>
      obtain ⟨d, rfl⟩ : ∃ d, depth = d + 1 := ⟨depth - 1, by omega⟩
      cases hi : i.val with
      | ofNat k => simp only [write, value, Head.read_writeInt_of_nonneg hi, ofUnsigned_of_nonneg hi]
      | negSucc k => simp only [write, value, Head.read_writeInt_of_neg hi, ofSigned_of_neg hi]
  | float n _ =>
      obtain ⟨d, rfl⟩ : ∃ d, depth = d + 1 := ⟨depth - 1, by omega⟩
      simp only [write, value, Head.read_real, Real.toValue]
  | str n s =>
      obtain ⟨d, rfl⟩ : ∃ d, depth = d + 1 := ⟨depth - 1, by omega⟩
      rw [write] at hsize
      simp only [write, value, head_writeString hsize, readText_encode, Except.map]
  | @arr n xs hxs ih =>
      obtain ⟨d, rfl⟩ : ∃ d, depth = d + 2 := ⟨depth - 2, by omega⟩
      have hitems : ∀ x ∈ xs, ∀ rest, value (d + 1) (write x ++ rest) = .ok (x, rest) := by
        intro x hx rest
        have hle := length_write_element hx
        exact ih x hx (by omega) (by omega) rest
      rw [value, head_write_arr hsize]
      simp only [Nat.add_eq_zero_iff, Nat.one_ne_zero, and_false, if_false, itemsFrom_write [] hitems,
        Except.map, List.reverse_nil, List.nil_append]
  | @obj n es ho hes ih =>
      obtain ⟨d, rfl⟩ : ∃ d, depth = d + 2 := ⟨depth - 2, by omega⟩
      have hitems : ∀ e ∈ es, ∀ rest, value (d + 1) (write e.2 ++ rest) = .ok (e.2, rest) := by
        intro e he rest
        have hle := length_write_member he
        exact ih e he (by omega) (by omega) rest
      have hflat := length_flatten_le_obj es
      rw [value, head_write_obj hsize]
      simp only [Nat.add_eq_zero_iff, Nat.one_ne_zero, and_false, if_false,
        objectEntries_write ho (by omega) hitems, Except.map]

/-! ## Messages -/

theorem readArgs_write {args : List Value} (hargs : ∀ x ∈ args, x.Sendable kind n)
    (hsize : (write (.arr args)).length < 2 ^ 32) (hd : n + 1 < depth) (rest : Bytes) :
    readArgs depth (write (.arr args) ++ rest) = .ok (args, rest) := by
  have hitems : ∀ x ∈ args, ∀ rest, value (depth - 1) (write x ++ rest) = .ok (x, rest) := by
    intro x hx rest
    have hle := length_write_element hx
    exact value_write (hargs x hx) (by omega) (by omega) rest
  rw [readArgs, head_write_arr hsize]
  simp only [itemsFrom_write [] hitems, List.reverse_nil, List.nil_append]

theorem readKwargs_write {kwargs : List (String × Value)} (hkwargs : ∀ e ∈ kwargs, e.2.Sendable kind n)
    (hsize : (write (.obj kwargs)).length < 2 ^ 32) (hd : n + 1 < depth) (rest : Bytes) :
    readKwargs depth (write (.obj kwargs) ++ rest) = .ok (Entries.ofList kwargs, rest) := by
  have hitems : ∀ e ∈ kwargs, ∀ rest, value (depth - 1) (write e.2 ++ rest) = .ok (e.2, rest) := by
    intro e he rest
    have hle := length_write_member he
    exact value_write (hkwargs e he) (by omega) (by omega) rest
  have hflat := length_flatten_le_obj kwargs
  rw [readKwargs, head_write_obj hsize]
  exact entriesFrom_write (depth - 1) [] (by omega) hitems rest

/-- A field that is not there yet is read into the draft. -/
theorem namedFields_field {field : Field} {d d' : Draft} {bytes : Bytes} (hd : d.has field = false)
    (h : readField depth field d (bytes ++ rest) = .ok (d', rest)) :
    namedFields depth (count + 1) d (writeString field.name ++ (bytes ++ rest)) =
      namedFields depth count d' rest := by
  have hsize : (writeString field.name).length < 2 ^ 32 := by
    cases field <;> decide
  rw [namedFields, fieldKey_writeString hsize, Field.ofName?_name]
  simp only [hd, Bool.false_eq_true, if_false, h]

/-- A packed message that fits a frame is read as it was written. -/
theorem readMessage_write {command : String} {args : List Value} {kwargs : List (String × Value)}
    (hargs : ∀ x ∈ args, x.Sendable kind n) (hkwargs : ∀ e ∈ kwargs, e.2.Sendable kind n)
    (hd : n + 2 < maxDepth) (hsize : (writeMessage command args kwargs).length < 2 ^ 32) :
    readMessage (writeMessage command args kwargs) = .ok ⟨command, args, Entries.ofList kwargs⟩ := by
  unfold writeMessage at hsize
  simp only [List.length_append] at hsize
  -- the three fields are read in the order in which they are written, each into the draft of the one before
  have hcommand : ∀ rest, readField (maxDepth - 1) .command .empty (writeString command ++ rest) =
      .ok (⟨some command, none, none⟩, rest) := by
    intro rest
    rw [readField, string_writeString (by omega)]
    rfl
  have hargs' : ∀ rest, readField (maxDepth - 1) .args ⟨some command, none, none⟩
      (write (.arr args) ++ rest) = .ok (⟨some command, some args, none⟩, rest) := by
    intro rest
    rw [readField, readArgs_write hargs (by omega) (by omega)]
    rfl
  have hkwargs' : ∀ rest, readField (maxDepth - 1) .kwargs ⟨some command, some args, none⟩
      (write (.obj kwargs) ++ rest) =
        .ok (⟨some command, some args, some (Entries.ofList kwargs)⟩, rest) := by
    intro rest
    rw [readField, readKwargs_write hkwargs (by omega) (by omega)]
    rfl
  have hfields : namedFields (maxDepth - 1) 3 .empty (writeString Field.command.name ++
      (writeString command ++ (writeString Field.args.name ++ (write (.arr args) ++
        (writeString Field.kwargs.name ++ (write (.obj kwargs) ++ [])))))) =
      .ok (⟨some command, some args, some (Entries.ofList kwargs)⟩, []) := by
    rw [namedFields_field rfl (hcommand _), namedFields_field rfl (hargs' _),
      namedFields_field rfl (hkwargs' _)]
    rfl
  unfold readMessage writeMessage
  simp only [List.append_assoc]
  rw [List.append_nil] at hfields
  rw [Head.read_writeMap (by decide)]
  simp only [hfields, Draft.message?, Option.map_some, Option.getD_some]

end MsgPack
end Courier
