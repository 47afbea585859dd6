import Courier.MsgPack.Reader
import Courier.Proofs.Result

/-!
# Extension — packed values with something behind them, and values that are passed over

A packed value says how long it is, so that it is read with anything behind it as it is read alone, and with more room
for nesting as with less.  Passing over it comes to the same place.

1. `Extends` compares two readers, the second with more behind its input,
2. `Found` lists what reading a value comes to when it succeeds, and `found_iff` shows that it comes to nothing else,
3. `extends_value` — a value is found wherever it stands,
4. `skip_of_value` — and it is passed over,
5. `value_of_skip` — where it is passed over with one level less, it is read with one level less.
-/

namespace Courier
namespace MsgPack

/-! ## More behind the input -/

/-- What the first reader finds, the second one finds with anything behind it. -/
def Extends {α : Type} (r r' : Bytes → Read α) : Prop :=
  ∀ bytes x rest, r bytes = .ok (x, rest) → ∀ more, r' (bytes ++ more) = .ok (x, rest ++ more)

variable {α β : Type} {bytes rest : Bytes} {depth depth' count : Nat}

theorem Extends.eq {r r' : Bytes → Read α} (h : Extends r r') {x : α} (hr : r bytes = .ok (x, rest)) :
    r' bytes = .ok (x, rest) := by
  have happend := h bytes x rest hr []
  rwa [List.append_nil, List.append_nil] at happend

theorem Extends.map {r r' : Bytes → Read α} (h : Extends r r') (f : α → β) :
    Extends (fun bytes => (r bytes).map fun (x, rest) => (f x, rest))
      (fun bytes => (r' bytes).map fun (x, rest) => (f x, rest)) := by
  intro bytes y rest hy more
  obtain ⟨x, hr, rfl⟩ := Result.of_map hy
  simp only [h bytes x rest hr more, Except.map]

theorem extends_takeBytes (fault : Fault) (n : Nat) : Extends (takeBytes fault n) (takeBytes fault n) := by
  intro bytes front rest h more
  have hle : n ≤ bytes.length := by
    refine Nat.le_of_not_lt fun hlt => ?_
    have hshort : (bytes.take n).length < n := by
      rw [List.length_take]
      omega
    have hfault : takeBytes fault n bytes = .error fault := if_pos hshort
    cases hfault.symm.trans h
  have hlong : ¬ (bytes.take n).length < n := by
    rw [List.length_take]
    omega
  have htake : takeBytes fault n bytes = .ok (bytes.take n, bytes.drop n) := if_neg hlong
  obtain ⟨rfl, rfl⟩ := Prod.mk.inj (Except.ok.inj (htake.symm.trans h))
  have hlong' : ¬ ((bytes ++ more).take n).length < n := by
    rw [List.length_take, List.length_append]
    omega
  calc takeBytes fault n (bytes ++ more) = .ok ((bytes ++ more).take n, (bytes ++ more).drop n) := if_neg hlong'
    _ = .ok (bytes.take n, bytes.drop n ++ more) := by
      rw [List.take_append_of_le_length hle, List.drop_append_of_le_length hle]

theorem extends_readNumber (width : Nat) : Extends (readNumber width) (readNumber width) :=
  (extends_takeBytes .shortNumber width).map Bytes.toNat

theorem extends_afterMarker (b : UInt8) : Extends (Head.afterMarker b) (Head.afterMarker b) := by
  intro bytes head rest h more
  unfold Head.afterMarker at h ⊢
  extract_lets number at h
  extract_lets number'
  have hnumber : ∀ width make, number width make = .ok (head, rest) → number' width make = .ok (head, rest ++ more) :=
    fun width make hread => (extends_readNumber width).map make bytes head rest hread more
  -- a marker announces a number, or nothing more than itself
  clear_value number number'
  generalize b.toNat = marker at h ⊢
  split at h
  all_goals first
    | exact hnumber _ _ h
    | cases h
  all_goals rfl

theorem extends_head : Extends Head.read Head.read := by
  intro bytes head rest h more
  cases bytes with
  | nil => cases h
  | cons b bytes =>
      rw [List.cons_append]
      rw [Head.read] at h ⊢
      cases hsmall : Head.ofSmall? b with
      | some small =>
          rw [hsmall] at h
          obtain ⟨rfl, rfl⟩ := Prod.mk.inj (Except.ok.inj h)
          rfl
      | none =>
          rw [hsmall] at h
          exact extends_afterMarker b bytes head rest h more

theorem readText_iff {length : Nat} {s : String} :
    readText length bytes = .ok (s, rest) ↔
      ∃ data, readData length bytes = .ok (data, rest) ∧ Utf8.decode data = .ok s := by
  unfold readText
  constructor
  · intro h
    split at h
    · cases h
    · next hd =>
      split at h
      · next hs =>
        obtain ⟨rfl, rfl⟩ := Prod.mk.inj (Except.ok.inj h)
        exact ⟨_, hd, hs⟩
      · cases h
  · rintro ⟨data, hd, hs⟩
    simp only [hd, hs]

theorem extends_readText (length : Nat) : Extends (readText length) (readText length) := by
  intro bytes s rest h more
  obtain ⟨data, hd, hs⟩ := readText_iff.1 h
  exact readText_iff.2 ⟨data, extends_takeBytes .shortData length _ _ _ hd more, hs⟩

/-- A text in front of which a head has been read. -/
theorem readText_of_head {length : Nat} {rest' : Bytes} {s : String} (hh : Head.read bytes = .ok (.text length, rest'))
    (hs : readText length rest' = .ok (s, rest)) (more : Bytes) :
    Head.read (bytes ++ more) = .ok (.text length, rest' ++ more) ∧
      readText length (rest' ++ more) = .ok (s, rest ++ more) :=
  ⟨extends_head _ _ _ hh more, extends_readText length _ _ _ hs more⟩

/-! ## Keys -/

/-- What reading a key comes to when it succeeds.  For the first key of an object there is the text only. -/
inductive Keyed (bytes : Bytes) (s : String) (rest : Bytes) : Prop where
  | text {length : Nat} {rest' : Bytes} (hh : Head.read bytes = .ok (.text length, rest'))
      (hs : readText length rest' = .ok (s, rest))
  | binary {length : Nat} {rest' data : Bytes} (hh : Head.read bytes = .ok (.binary length, rest'))
      (hd : readData length rest' = .ok (data, rest)) (hs : Utf8.decode data = .ok s)

theorem keyed_iff {s : String} : string depth bytes = .ok (s, rest) ↔ Keyed bytes s rest := by
  constructor
  · intro h
    unfold string at h
    split at h
    · cases h
    · next hh => exact .text hh h
    · next hh =>
      split at h
      · cases h
      · next hd =>
        split at h
        · next hs =>
          obtain ⟨rfl, rfl⟩ := Prod.mk.inj (Except.ok.inj h)
          exact .binary hh hd hs
        · cases h
    · cases h
  · intro h
    cases h with
    | text hh hs => simp only [string, hh, hs]
    | binary hh hd hs => simp only [string, hh, hd, hs]

theorem firstKey_iff {s : String} :
    firstKey depth bytes = .ok (s, rest) ↔
      ∃ length rest', Head.read bytes = .ok (.text length, rest') ∧ readText length rest' = .ok (s, rest) := by
  constructor
  · intro h
    unfold firstKey at h
    split at h
    · cases h
    · next hh => exact ⟨_, _, hh, h⟩
    · cases h
  · rintro ⟨length, rest', hh, hs⟩
    simp only [firstKey, hh, hs]

/-- The first key is held to more than the others. -/
theorem string_of_firstKey {s : String} (depth' : Nat) (h : firstKey depth bytes = .ok (s, rest)) :
    string depth' bytes = .ok (s, rest) := by
  obtain ⟨length, rest', hh, hs⟩ := firstKey_iff.1 h
  exact keyed_iff.2 (.text hh hs)

theorem extends_string (depth depth' : Nat) : Extends (string depth) (string depth') := by
  intro bytes s rest h more
  refine keyed_iff.2 ?_
  cases keyed_iff.1 h with
  | text hh hs =>
      obtain ⟨hh', hs'⟩ := readText_of_head hh hs more
      exact .text hh' hs'
  | binary hh hd hs =>
      exact .binary (extends_head _ _ _ hh more) (extends_takeBytes .shortData _ _ _ _ hd more) hs

theorem extends_firstKey (depth depth' : Nat) : Extends (firstKey depth) (firstKey depth') := by
  intro bytes s rest h more
  obtain ⟨length, rest', hh, hs⟩ := firstKey_iff.1 h
  exact firstKey_iff.2 ⟨length, rest' ++ more, readText_of_head hh hs more⟩

/-! ## Repeated parts -/

section

variable {item item' : Bytes → Read α} {done xs : List α}

theorem itemsFrom_succ : itemsFrom item (count + 1) done bytes = .ok (xs, rest) ↔
    ∃ x rest', item bytes = .ok (x, rest') ∧ itemsFrom item count (x :: done) rest' = .ok (xs, rest) := by
  rw [itemsFrom]
  constructor
  · intro h
    split at h
    · cases h
    · next hx => exact ⟨_, _, hx, h⟩
  · rintro ⟨x, rest', hx, h⟩
    simp only [hx, h]

theorem extends_itemsFrom (hitem : Extends item item') (count : Nat) (done : List α) :
    Extends (itemsFrom item count done) (itemsFrom item' count done) := by
  intro bytes xs rest h more
  induction count generalizing done bytes with
  | zero =>
      obtain ⟨rfl, rfl⟩ := Prod.mk.inj (Except.ok.inj h)
      rfl
  | succ count ih =>
      obtain ⟨x, rest', hx, hrest⟩ := itemsFrom_succ.1 h
      exact itemsFrom_succ.2 ⟨x, rest' ++ more, hitem _ _ _ hx more, ih (x :: done) rest' hrest⟩

end

section

variable {key key' : Bytes → Read String} {item item' : Bytes → Read Value} {done entries : Entries}

theorem entry_iff : entry key item done bytes = .ok (entries, rest) ↔
    ∃ k rest' v, key bytes = .ok (k, rest') ∧ item rest' = .ok (v, rest) ∧ Entries.insert k v done = entries := by
  unfold entry
  constructor
  · intro h
    split at h
    · cases h
    · next hk =>
      split at h
      · cases h
      · next hv =>
        obtain ⟨rfl, rfl⟩ := Prod.mk.inj (Except.ok.inj h)
        exact ⟨_, _, _, hk, hv, rfl⟩
  · rintro ⟨k, rest', v, hk, hv, rfl⟩
    simp only [hk, hv]

theorem entriesFrom_succ : entriesFrom key item (count + 1) done bytes = .ok (entries, rest) ↔
    ∃ done' rest', entry key item done bytes = .ok (done', rest') ∧
      entriesFrom key item count done' rest' = .ok (entries, rest) := by
  rw [entriesFrom]
  constructor
  · intro h
    split at h
    · cases h
    · next he => exact ⟨_, _, he, h⟩
  · rintro ⟨done', rest', he, h⟩
    simp only [he, h]

theorem objectEntries_succ : objectEntries depth item (count + 1) bytes = .ok (entries, rest) ↔
    ∃ done rest', entry (firstKey depth) item [] bytes = .ok (done, rest') ∧
      entriesFrom (string depth) item count done rest' = .ok (entries, rest) := by
  rw [objectEntries]
  constructor
  · intro h
    split at h
    · cases h
    · next he => exact ⟨_, _, he, h⟩
  · rintro ⟨done, rest', he, h⟩
    simp only [he, h]

theorem extends_entry (hkey : Extends key key') (hitem : Extends item item') (done : Entries) :
    Extends (entry key item done) (entry key' item' done) := by
  intro bytes entries rest h more
  obtain ⟨k, rest', v, hk, hv, hinsert⟩ := entry_iff.1 h
  exact entry_iff.2 ⟨k, rest' ++ more, v, hkey _ _ _ hk more, hitem _ _ _ hv more, hinsert⟩

theorem extends_entriesFrom (hkey : Extends key key') (hitem : Extends item item') (count : Nat) (done : Entries) :
    Extends (entriesFrom key item count done) (entriesFrom key' item' count done) := by
  intro bytes entries rest h more
  induction count generalizing done bytes with
  | zero =>
      obtain ⟨rfl, rfl⟩ := Prod.mk.inj (Except.ok.inj h)
      rfl
  | succ count ih =>
      obtain ⟨done', rest', he, hrest⟩ := entriesFrom_succ.1 h
      exact entriesFrom_succ.2 ⟨done', rest' ++ more, extends_entry hkey hitem _ _ _ _ he more, ih done' rest' hrest⟩

theorem extends_objectEntries (hitem : Extends item item') (count : Nat) :
    Extends (objectEntries depth item count) (objectEntries depth' item' count) := by
  intro bytes entries rest h more
  cases count with
  | zero =>
      obtain ⟨rfl, rfl⟩ := Prod.mk.inj (Except.ok.inj h)
      rfl
  | succ count =>
      obtain ⟨done, rest', he, hrest⟩ := objectEntries_succ.1 h
      exact objectEntries_succ.2 ⟨done, rest' ++ more, extends_entry (extends_firstKey _ _) hitem _ _ _ _ he more,
        extends_entriesFrom (extends_string _ _) hitem count done _ _ _ hrest more⟩

/-- Entries that are held to be those of an object. -/
theorem entriesFrom_of_objectEntries (depth' : Nat) (hitem : Extends item item')
    (h : objectEntries depth item count bytes = .ok (entries, rest)) :
    entriesFrom (string depth') item' count [] bytes = .ok (entries, rest) := by
  cases count with
  | zero => exact h
  | succ count =>
      obtain ⟨done, rest', he, hrest⟩ := objectEntries_succ.1 h
      obtain ⟨k, rest'', v, hk, hv, hinsert⟩ := entry_iff.1 he
      exact entriesFrom_succ.2 ⟨done, rest', entry_iff.2 ⟨k, rest'', v, string_of_firstKey _ hk, hitem.eq hv, hinsert⟩,
        (extends_entriesFrom (extends_string _ _) hitem count done).eq hrest⟩

end

/-! ## Values -/

/-- The value that a head is by itself. -/
def Head.atom? : Head → Option Value
  | .null => some .null
  | .bool b => some (.bool b)
  | .unsigned n => some (.int (.ofUnsigned n))
  | .signed n => some (.int (.ofSigned n))
  | .real x => some x.toValue
  | _ => none

/-- What reading a value comes to when it succeeds. -/
inductive Found (depth : Nat) (bytes : Bytes) : Value → Bytes → Prop where
  | atom {head : Head} {v : Value} {rest : Bytes} (hh : Head.read bytes = .ok (head, rest)) (hv : head.atom? = some v) :
      Found depth bytes v rest
  | text {length : Nat} {s : String} {rest' rest : Bytes} (hh : Head.read bytes = .ok (.text length, rest'))
      (hs : readText length rest' = .ok (s, rest)) : Found depth bytes (.str s) rest
  | array {length : Nat} {xs : List Value} {rest' rest : Bytes} (hh : Head.read bytes = .ok (.array length, rest'))
      (hd : depth ≠ 0) (hx : itemsFrom (value depth) length [] rest' = .ok (xs, rest)) :
      Found depth bytes (.arr xs) rest
  | map {length : Nat} {es : Entries} {rest' rest : Bytes} (hh : Head.read bytes = .ok (.map length, rest'))
      (hd : depth ≠ 0) (he : objectEntries depth (value depth) length rest' = .ok (es, rest)) :
      Found depth bytes (.obj es) rest

theorem found_iff {v : Value} : value (depth + 1) bytes = .ok (v, rest) ↔ Found depth bytes v rest := by
  constructor
  · intro h
    rw [value] at h
    split at h
    · cases h
    · next hh => cases h; exact .atom hh rfl
    · next hh => cases h; exact .atom hh rfl
    · next hh => cases h; exact .atom hh rfl
    · next hh => cases h; exact .atom hh rfl
    · next hh => cases h; exact .atom hh rfl
    · next hh =>
      obtain ⟨s, hs, rfl⟩ := Result.of_map h
      exact .text hh hs
    · next hh =>
      obtain ⟨hd, h⟩ := Result.of_guard h
      obtain ⟨xs, hx, rfl⟩ := Result.of_map h
      exact .array hh hd hx
    · next hh =>
      obtain ⟨hd, h⟩ := Result.of_guard h
      obtain ⟨es, he, rfl⟩ := Result.of_map h
      exact .map hh hd he
    · cases h
  · intro h
    cases h with
    | @atom head v rest hh hv => cases head <;> simp_all [value, Head.atom?]
    | text hh hs => simp only [value, hh, hs, Except.map]
    | array hh hd hx => simp only [value, hh, if_neg hd, hx, Except.map]
    | map hh hd he => simp only [value, hh, if_neg hd, he, Except.map]

theorem text_of_value {s : String} (h : value (depth + 1) bytes = .ok (.str s, rest)) :
    ∃ length data, Head.read bytes = .ok (.text length, data) ∧ readText length data = .ok (s, rest) := by
  cases found_iff.1 h with
  | @atom head _ _ _ hv =>
      cases head with
      | real x => cases x <;> cases hv
      | _ => cases hv
  | text hh hs => exact ⟨_, _, hh, hs⟩

theorem items_of_value {xs : List Value} (h : value (depth + 1) bytes = .ok (.arr xs, rest)) :
    ∃ length rest', Head.read bytes = .ok (.array length, rest') ∧
      itemsFrom (value depth) length [] rest' = .ok (xs, rest) := by
  cases found_iff.1 h with
  | @atom head _ _ _ hv =>
      cases head with
      | real x => cases x <;> cases hv
      | _ => cases hv
  | array hh _ hx => exact ⟨_, _, hh, hx⟩

theorem entries_of_value {es : Entries} (h : value (depth + 1) bytes = .ok (.obj es, rest)) :
    ∃ length rest', Head.read bytes = .ok (.map length, rest') ∧
      objectEntries depth (value depth) length rest' = .ok (es, rest) := by
  cases found_iff.1 h with
  | @atom head _ _ _ hv =>
      cases head with
      | real x => cases x <;> cases hv
      | _ => cases hv
  | map hh _ he => exact ⟨_, _, hh, he⟩

/-- A value is found wherever it stands, and with more room for nesting.  The induction is on the depth. -/
theorem extends_value (hd : depth ≤ depth') : Extends (value depth) (value depth') := by
  induction depth generalizing depth' with
  | zero =>
      intro bytes v rest h
      cases h
  | succ depth ih =>
      intro bytes v rest h more
      obtain ⟨depth', rfl⟩ : ∃ k, depth' = k + 1 := ⟨depth' - 1, by omega⟩
      have hitem : Extends (value depth) (value depth') := ih (by omega)
      refine found_iff.2 ?_
      cases found_iff.1 h with
      | atom hh hv => exact .atom (extends_head _ _ _ hh more) hv
      | text hh hs =>
          obtain ⟨hh', hs'⟩ := readText_of_head hh hs more
          exact .text hh' hs'
      | array hh hn hx =>
          exact .array (extends_head _ _ _ hh more) (by omega) (extends_itemsFrom hitem _ _ _ _ _ hx more)
      | map hh hn he =>
          exact .map (extends_head _ _ _ hh more) (by omega) (extends_objectEntries hitem _ _ _ _ he more)

/-! ## Passing over -/

theorem skipItems_succ {item : Bytes → Except Fault Bytes} :
    skipItems item (count + 1) bytes = .ok rest ↔
      ∃ rest', item bytes = .ok rest' ∧ skipItems item count rest' = .ok rest := by
  rw [skipItems]
  constructor
  · intro h
    split at h
    · cases h
    · next hx => exact ⟨_, hx, h⟩
  · rintro ⟨rest', hx, h⟩
    simp only [hx, h]

theorem readData_of_readText {length : Nat} {s : String} (h : readText length bytes = .ok (s, rest)) :
    (readData length bytes).map (·.2) = .ok rest := by
  obtain ⟨data, hd, -⟩ := readText_iff.1 h
  rw [hd]
  rfl

theorem skip_of_keyed {s : String} (h : Keyed bytes s rest) (hd : depth ≠ 0) : skip depth bytes = .ok rest := by
  obtain ⟨depth, rfl⟩ : ∃ k, depth = k + 1 := ⟨depth - 1, by omega⟩
  cases h with
  | text hh hs => simp only [skip, hh, readData_of_readText hs]
  | binary hh hd hs => simp only [skip, hh, hd, Except.map]

theorem skip_of_atom {head : Head} {v : Value} (hh : Head.read bytes = .ok (head, rest)) (hv : head.atom? = some v) :
    skip (depth + 1) bytes = .ok rest := by
  cases head <;> simp_all [skip, Head.atom?]

section

variable {item : Bytes → Read Value} {skipItem : Bytes → Except Fault Bytes}

theorem skipItems_of_itemsFrom (hitem : ∀ bytes v rest, item bytes = .ok (v, rest) → skipItem bytes = .ok rest)
    {done xs : List Value} (h : itemsFrom item count done bytes = .ok (xs, rest)) :
    skipItems skipItem count bytes = .ok rest := by
  induction count generalizing done bytes with
  | zero =>
      obtain ⟨-, rfl⟩ := Prod.mk.inj (Except.ok.inj h)
      rfl
  | succ count ih =>
      obtain ⟨x, rest', hx, hrest⟩ := itemsFrom_succ.1 h
      exact skipItems_succ.2 ⟨rest', hitem _ _ _ hx, ih hrest⟩

/-- An entry is two items. -/
theorem skipItems_of_entriesFrom (hitem : ∀ bytes v rest, item bytes = .ok (v, rest) → skipItem bytes = .ok rest)
    (hkey : ∀ bytes s rest, Keyed bytes s rest → skipItem bytes = .ok rest) {done entries : Entries}
    (h : entriesFrom (string depth) item count done bytes = .ok (entries, rest)) :
    skipItems skipItem (2 * count) bytes = .ok rest := by
  induction count generalizing done bytes with
  | zero =>
      obtain ⟨-, rfl⟩ := Prod.mk.inj (Except.ok.inj h)
      rfl
  | succ count ih =>
      obtain ⟨done', rest', he, hrest⟩ := entriesFrom_succ.1 h
      obtain ⟨k, rest'', v, hk, hv, -⟩ := entry_iff.1 he
      exact skipItems_succ.2 ⟨rest'', hkey _ _ _ (keyed_iff.1 hk), skipItems_succ.2 ⟨rest', hitem _ _ _ hv, ih hrest⟩⟩

end

/-- Passing over a value comes to where reading it does. -/
theorem skip_of_value {v : Value} (h : value depth bytes = .ok (v, rest)) : skip depth bytes = .ok rest := by
  induction depth generalizing bytes v rest with
  | zero => cases h
  | succ depth ih =>
      have hitem : ∀ bytes v rest, value depth bytes = .ok (v, rest) → skip depth bytes = .ok rest := fun _ _ _ => ih
      cases found_iff.1 h with
      | atom hh hv => exact skip_of_atom hh hv
      | text hh hs => simp only [skip, hh, readData_of_readText hs]
      | array hh hd hx => simp only [skip, hh, if_neg hd, skipItems_of_itemsFrom hitem hx]
      | map hh hd he =>
          have hentries := entriesFrom_of_objectEntries depth (extends_value (Nat.le_refl depth)) he
          have hskip := skipItems_of_entriesFrom hitem (fun _ _ _ hk => skip_of_keyed hk hd) hentries
          simp only [skip, hh, if_neg hd, hskip]

/-! ## Less room -/

/-- What the first reader finds, the second one finds as well if it can be passed over, with anything behind it. -/
def Lowers (item item' : Bytes → Read Value) (pass : Bytes → Except Fault Bytes) : Prop :=
  ∀ bytes v rest more after, item bytes = .ok (v, rest) → pass (bytes ++ more) = .ok after →
    item' bytes = .ok (v, rest) ∧ after = rest ++ more

/-- Passing over a key comes to where reading it does. -/
def PassesKeys (pass : Bytes → Except Fault Bytes) : Prop :=
  ∀ bytes s rest more after, Keyed bytes s rest → pass (bytes ++ more) = .ok after → after = rest ++ more

section

variable {item item' : Bytes → Read Value} {pass : Bytes → Except Fault Bytes} {done entries : Entries}
  {more after : Bytes}

theorem itemsFrom_of_skipItems (hl : Lowers item item' pass) {done xs : List Value}
    (h : itemsFrom item count done bytes = .ok (xs, rest)) (hp : skipItems pass count (bytes ++ more) = .ok after) :
    itemsFrom item' count done bytes = .ok (xs, rest) := by
  induction count generalizing done bytes with
  | zero => exact h
  | succ count ih =>
      obtain ⟨x, rest', hx, hrest⟩ := itemsFrom_succ.1 h
      obtain ⟨after', hpass, hp'⟩ := skipItems_succ.1 hp
      obtain ⟨hx', rfl⟩ := hl _ _ _ _ _ hx hpass
      exact itemsFrom_succ.2 ⟨x, rest', hx', ih hrest hp'⟩

/-- A key and a value are passed over, and what is left is passed over behind them. -/
theorem entry_of_skipItems {key key' : Bytes → Read String} (hl : Lowers item item' pass) (hk : PassesKeys pass)
    (hkey : ∀ bytes s rest, key bytes = .ok (s, rest) → key' bytes = .ok (s, rest) ∧ Keyed bytes s rest)
    (h : entry key item done bytes = .ok (entries, rest))
    (hp : skipItems pass (2 * (count + 1)) (bytes ++ more) = .ok after) :
    entry key' item' done bytes = .ok (entries, rest) ∧ skipItems pass (2 * count) (rest ++ more) = .ok after := by
  obtain ⟨k, rest', v, hread, hv, hinsert⟩ := entry_iff.1 h
  obtain ⟨hread', hkeyed⟩ := hkey _ _ _ hread
  obtain ⟨after₁, hpass₁, hp₁⟩ := skipItems_succ.1 hp
  obtain rfl := hk _ _ _ _ _ hkeyed hpass₁
  obtain ⟨after₂, hpass₂, hp₂⟩ := skipItems_succ.1 hp₁
  obtain ⟨hv', rfl⟩ := hl _ _ _ _ _ hv hpass₂
  exact ⟨entry_iff.2 ⟨k, rest', v, hread', hv', hinsert⟩, hp₂⟩

theorem entriesFrom_of_skipItems (hl : Lowers item item' pass) (hk : PassesKeys pass)
    (h : entriesFrom (string depth) item count done bytes = .ok (entries, rest))
    (hp : skipItems pass (2 * count) (bytes ++ more) = .ok after) :
    entriesFrom (string depth') item' count done bytes = .ok (entries, rest) := by
  induction count generalizing done bytes with
  | zero => exact h
  | succ count ih =>
      obtain ⟨done', rest', he, hrest⟩ := entriesFrom_succ.1 h
      have hkey : ∀ bytes s rest, string depth bytes = .ok (s, rest) →
          string depth' bytes = .ok (s, rest) ∧ Keyed bytes s rest :=
        fun _ _ _ hread => ⟨keyed_iff.2 (keyed_iff.1 hread), keyed_iff.1 hread⟩
      obtain ⟨he', hp'⟩ := entry_of_skipItems hl hk hkey he hp
      exact entriesFrom_succ.2 ⟨done', rest', he', ih hrest hp'⟩

theorem objectEntries_of_skipItems (hl : Lowers item item' pass) (hk : PassesKeys pass)
    (h : objectEntries depth item count bytes = .ok (entries, rest))
    (hp : skipItems pass (2 * count) (bytes ++ more) = .ok after) :
    objectEntries depth' item' count bytes = .ok (entries, rest) := by
  cases count with
  | zero => exact h
  | succ count =>
      obtain ⟨done, rest', he, hrest⟩ := objectEntries_succ.1 h
      have hkey : ∀ bytes s rest, firstKey depth bytes = .ok (s, rest) →
          firstKey depth' bytes = .ok (s, rest) ∧ Keyed bytes s rest :=
        fun _ _ _ hread => ⟨firstKey_iff.2 (firstKey_iff.1 hread), keyed_iff.1 (string_of_firstKey 0 hread)⟩
      obtain ⟨he', hp'⟩ := entry_of_skipItems hl hk hkey he hp
      exact objectEntries_succ.2 ⟨done, rest', he', entriesFrom_of_skipItems hl hk hrest hp'⟩

end

theorem passesKeys_skip (hd : depth ≠ 0) : PassesKeys (skip depth) := by
  intro bytes s rest more after hk hp
  have hmore : Keyed (bytes ++ more) s (rest ++ more) :=
    keyed_iff.1 (extends_string 0 0 _ _ _ (keyed_iff.2 hk) more)
  exact Except.ok.inj (hp.symm.trans (skip_of_keyed hmore hd))

/-- Where a value is read, it is passed over to the same place. -/
theorem lowers_of_value
    (h : ∀ bytes v rest more after, value (depth + 1) bytes = .ok (v, rest) → skip depth (bytes ++ more) = .ok after →
      value depth bytes = .ok (v, rest)) : Lowers (value (depth + 1)) (value depth) (skip depth) := by
  intro bytes v rest more after hv hp
  -- once it is read with the level less, passing over it comes to where reading does
  have hv' := h _ _ _ _ _ hv hp
  have hmore := extends_value (Nat.le_refl depth) _ _ _ hv' more
  exact ⟨hv', Except.ok.inj (hp.symm.trans (skip_of_value hmore))⟩

/-- A value that can be passed over with one level less is read with one level less. -/
theorem value_of_skip (depth : Nat) : Lowers (value (depth + 1)) (value depth) (skip depth) := by
  refine lowers_of_value ?_
  induction depth with
  | zero =>
      intro bytes v rest more after _ hp
      cases hp
  | succ depth ih =>
      intro bytes v rest more after hv hp
      have hl : Lowers (value (depth + 1)) (value depth) (skip depth) := lowers_of_value ih
      refine found_iff.2 ?_
      -- an atom or a text needs no level, and what is in an array or a map has been passed over itself
      cases found_iff.1 hv with
      | atom hh hv => exact .atom hh hv
      | text hh hs => exact .text hh hs
      | array hh _ hx =>
          simp only [skip, extends_head _ _ _ hh more] at hp
          obtain ⟨hd, hp⟩ := Result.of_guard hp
          exact .array hh hd (itemsFrom_of_skipItems hl hx hp)
      | map hh _ he =>
          simp only [skip, extends_head _ _ _ hh more] at hp
          obtain ⟨hd, hp⟩ := Result.of_guard hp
          exact .map hh hd (objectEntries_of_skipItems hl (passesKeys_skip hd) he hp)

end MsgPack
end Courier
