import Courier.Proofs.MsgPack.Extension
import Courier.Proofs.Shape

/-!
# Form — packed forms of a message

1. `value_of_value?` and `fieldKey_of_text?` put a document in its place,
2. `readField_of_value` and `eq_of_readField` — a field is read as the value that it is,
3. `namedFields_of_form` and `fills_of_namedFields` follow the fields of a map,
4. `positionalFields_of_form` follows those of an array,
5. `value?_of_map` reads an object.
-/

namespace Courier
namespace MsgPack

variable {maximum depth count : Nat} {bytes rest doc key : Bytes} {v : Value} {s : String} {m : Message} {f : Field}
  {d d' : Draft} {parts : List (Bytes × Bytes)}

/-! ## Documents in their places -/

theorem value?_eq_some : value? depth doc = some v ↔ value depth doc = .ok (v, []) := by
  unfold value?
  constructor
  · intro h
    split at h
    · next hv =>
      obtain rfl := Option.some.inj h
      exact hv
    · cases h
  · intro h
    rw [h]

theorem value_of_value? {depth' : Nat} (h : value? depth doc = some v) (hd : depth ≤ depth') (more : Bytes) :
    value depth' (doc ++ more) = .ok (v, more) :=
  extends_value hd _ _ _ (value?_eq_some.1 h) more

theorem text_of_text? (h : (Codec.frames maximum).text? key = some s) :
    ∃ length data, Head.read key = .ok (.text length, data) ∧ readText length data = .ok (s, []) :=
  text_of_value (value?_eq_some.1 (Codec.value?_of_text? h))

/-- A key is read as the field that it stands for, or as an unknown one. -/
theorem fieldKey_of_text? (h : (Codec.frames maximum).text? key = some s) (more : Bytes) :
    fieldKey depth (key ++ more) = .ok (Field.ofName? s, more) := by
  obtain ⟨length, data, hh, hs⟩ := text_of_text? h
  obtain ⟨text, hd, hdecode⟩ := readText_iff.1 hs
  have hd' : readData length (data ++ more) = .ok (text, more) := extends_takeBytes .shortData length _ _ _ hd more
  simp only [fieldKey, extends_head _ _ _ hh more, hd', Except.map, hdecode]

theorem firstKey_of_text? (depth : Nat) (h : (Codec.frames maximum).text? key = some s) (more : Bytes) :
    firstKey depth (key ++ more) = .ok (s, more) := by
  obtain ⟨length, data, hh, hs⟩ := text_of_text? h
  exact extends_firstKey depth _ _ _ _ (firstKey_iff.2 ⟨length, data, hh, hs⟩) more

/-! ## Fields -/

/-- A field that holds what a message does is read as it is. -/
theorem readField_of_value (d : Draft) (h : value (depth + 1) bytes = .ok (m.valueOf f, rest)) :
    readField (depth + 1) f d bytes = .ok (d.take m f, rest) := by
  cases f with
  | command =>
      obtain ⟨length, data, hh, hs⟩ := text_of_value h
      have hstring : string (depth + 1) bytes = .ok (m.command, rest) := keyed_iff.2 (.text hh hs)
      simp only [readField, hstring, Except.map, Draft.take]
  | args =>
      obtain ⟨length, rest', hh, hx⟩ := items_of_value h
      simp only [readField, readArgs, hh, Nat.add_sub_cancel, hx, Except.map, Draft.take]
  | kwargs =>
      obtain ⟨length, rest', hh, he⟩ := entries_of_value h
      have hentries := entriesFrom_of_objectEntries depth (extends_value (Nat.le_refl depth)) he
      simp only [readField, readKwargs, hh, Nat.add_sub_cancel, hentries, Except.map, Draft.take]

/-- A field that is read is one more of those that the draft has. -/
theorem has_of_readField (h : readField depth f d bytes = .ok (d', rest)) (g : Field) :
    d'.has g = true ↔ d.has g = true ∨ g = f := by
  cases f with
  | command =>
      rw [readField] at h
      obtain ⟨s, -, rfl⟩ := Result.of_map (f := fun s => { d with command := some s }) h
      exact Draft.has_command d s g
  | args =>
      rw [readField] at h
      obtain ⟨xs, -, rfl⟩ := Result.of_map (f := fun xs => { d with args := some xs }) h
      exact Draft.has_args d xs g
  | kwargs =>
      rw [readField] at h
      obtain ⟨es, -, rfl⟩ := Result.of_map (f := fun es => { d with kwargs := some es }) h
      exact Draft.has_kwargs d es g

/-- Where there is a value, a field is read up to its end. -/
theorem eq_of_readField {rest' : Bytes} (h : readField (depth + 1) f d bytes = .ok (d', rest'))
    (hv : value (depth + 2) bytes = .ok (v, rest)) : rest' = rest := by
  have hmore : Extends (value depth) (value (depth + 1)) := extends_value (Nat.le_succ depth)
  cases f with
  | command =>
      rw [readField] at h
      obtain ⟨s, hs, -⟩ := Result.of_map (f := fun s => { d with command := some s }) h
      cases keyed_iff.1 hs with
      | text hh hs =>
          have hv' : value (depth + 2) bytes = .ok (.str s, rest') := found_iff.2 (.text hh hs)
          exact (Prod.mk.inj (Except.ok.inj (hv'.symm.trans hv))).2
      | binary hh _ _ => simp [value, hh] at hv
  | args =>
      rw [readField] at h
      obtain ⟨xs, hx, -⟩ := Result.of_map (f := fun xs => { d with args := some xs }) h
      unfold readArgs at hx
      split at hx
      · cases hx
      · next hh =>
        have hx' := (extends_itemsFrom hmore _ _).eq hx
        have hv' : value (depth + 2) bytes = .ok (.arr xs, rest') := found_iff.2 (.array hh (by omega) hx')
        exact (Prod.mk.inj (Except.ok.inj (hv'.symm.trans hv))).2
      · next hh => simp [value, hh] at hv
      · cases hx
  | kwargs =>
      rw [readField] at h
      obtain ⟨es, he, -⟩ := Result.of_map (f := fun es => { d with kwargs := some es }) h
      unfold readKwargs at he
      split at he
      · cases he
      · next hh =>
        cases found_iff.1 hv with
        | atom hh' ha =>
            cases hh.symm.trans hh'
            cases ha
        | text hh' _ => cases hh.symm.trans hh'
        | array hh' _ _ => cases hh.symm.trans hh'
        | map hh' _ hv =>
            cases hh.symm.trans hh'
            -- the first key may be one that an object does not have, so both are compared as entries
            have he' := (extends_entriesFrom (extends_string _ depth) hmore _ _).eq he
            have hv' := entriesFrom_of_objectEntries depth (extends_value (Nat.le_refl _)) hv
            exact (Prod.mk.inj (Except.ok.inj (he'.symm.trans hv'))).2
      · cases he

/-! ## Maps -/

/-- Fields that stand for those of a message are taken into the draft. -/
theorem namedFields_of_form (h : ∀ p ∈ parts, (Codec.frames maximum).Stands m p)
    (ho : ((Codec.frames maximum).fields parts).Nodup)
    (hd : ∀ f ∈ (Codec.frames maximum).fields parts, d.has f = false) :
    namedFields (maxDepth - 1) parts.length d (packed parts) =
      .ok (d.takeAll m ((Codec.frames maximum).fields parts), []) := by
  induction parts generalizing d with
  | nil => rfl
  | cons p parts ih =>
      have htail : ∀ p ∈ parts, (Codec.frames maximum).Stands m p := fun q hq => h q (List.mem_cons_of_mem _ hq)
      rw [packed_cons, List.length_cons]
      cases h p (List.mem_cons_self ..) with
      | @known s f hk hf hv =>
          have hfield : (Codec.frames maximum).field? p.1 = some f := (Codec.field?_of_text? hk).trans hf
          rw [Codec.fields_cons_known hfield] at ho hd ⊢
          obtain ⟨hfresh, ho'⟩ := List.nodup_cons.1 ho
          have hread : readField (maxDepth - 1) f d (p.2 ++ packed parts) = .ok (d.take m f, packed parts) :=
            readField_of_value d (value_of_value? hv (Nat.le_refl _) _)
          simp only [namedFields, fieldKey_of_text? hk, hf, hd f (List.mem_cons_self ..), hread]
          exact ih htail ho' (Draft.has_take_of_fresh hfresh hd)
      | @unknown s v hk hf hv =>
          have hfield : (Codec.frames maximum).field? p.1 = none := (Codec.field?_of_text? hk).trans hf
          rw [Codec.fields_cons_unknown hfield] at ho hd ⊢
          have hskip : skip (maxDepth - 1) (p.2 ++ packed parts) = .ok (packed parts) :=
            skip_of_value (value_of_value? hv (Nat.le_refl _) _)
          simp only [namedFields, fieldKey_of_text? hk, hf, hskip]
          exact ih htail ho hd

/-- Fields that are read are different ones, and what is unknown among them has been within the room for it. -/
theorem fills_of_namedFields (hr : (Codec.frames maximum).Readable parts)
    (h : namedFields (maxDepth - 1) parts.length d (packed parts) = .ok (d', rest)) :
    (Codec.frames maximum).Fills parts d d' := by
  induction parts generalizing d with
  | nil =>
      obtain ⟨rfl, -⟩ := Prod.mk.inj (Except.ok.inj h)
      exact .nil _ d
  | cons p parts ih =>
      have htail : (Codec.frames maximum).Readable parts := fun q hq => hr q (List.mem_cons_of_mem _ hq)
      obtain ⟨hkey, hvalue⟩ := hr p (List.mem_cons_self ..)
      obtain ⟨s, hk⟩ := Option.isSome_iff_exists.1 hkey
      obtain ⟨v, hv⟩ := Option.isSome_iff_exists.1 hvalue
      have hfield : (Codec.frames maximum).field? p.1 = Field.ofName? s := Codec.field?_of_text? hk
      rw [packed_cons, List.length_cons, namedFields, fieldKey_of_text? hk] at h
      cases hf : Field.ofName? s with
      | some f =>
          simp only [hf] at h
          obtain ⟨hd, h⟩ := Result.of_guard h
          split at h
          · cases h
          · next hread =>
            obtain rfl := eq_of_readField hread (value_of_value? hv (Nat.le_refl _) (packed parts))
            exact .known (hfield.trans hf) (by simpa using hd) (has_of_readField hread) (ih htail h)
      | none =>
          simp only [hf] at h
          split at h
          · cases h
          · next hskip =>
            -- what has been passed over could have been read
            obtain ⟨hv', rfl⟩ := value_of_skip _ _ _ _ _ _ (value?_eq_some.1 hv) hskip
            exact .skipped (hfield.trans hf) (Option.isSome_iff_exists.2 ⟨v, value?_eq_some.2 hv'⟩) (ih htail h)

variable {docs : List Bytes}

theorem readMessage_of_namedFields {head : Bytes} (hh : Head.read head = .ok (.map parts.length, []))
    (hr : (Codec.frames maximum).Readable parts) : readMessage (head ++ packed parts) = .ok m →
      ∃ d, (Codec.frames maximum).Fills parts .empty d ∧ d.message? = some m := by
  intro h
  have hh' : Head.read (head ++ packed parts) = .ok (.map parts.length, packed parts) := extends_head _ _ _ hh _
  rw [readMessage, hh'] at h
  simp only at h
  split at h
  · cases h
  · next hfields =>
    split at h
    · next hm =>
      obtain rfl := Except.ok.inj h
      exact ⟨_, fills_of_namedFields hr hfields, hm⟩
    · cases h

theorem readMessage_of_stands {head : Bytes} (hh : Head.read head = .ok (.map parts.length, []))
    (h : ∀ p ∈ parts, (Codec.frames maximum).Stands m p) (ho : ((Codec.frames maximum).fields parts).Nodup)
    (hl : ∀ f, f ∉ (Codec.frames maximum).fields parts → m.Lacks f) : readMessage (head ++ packed parts) = .ok m := by
  have hh' : Head.read (head ++ packed parts) = .ok (.map parts.length, packed parts) := extends_head _ _ _ hh _
  have hfields := namedFields_of_form (d := .empty) h ho fun f _ => by cases f <;> rfl
  simp only [readMessage, hh', hfields, Draft.message?_takeAll hl]

/-! ## Arrays -/

theorem positionalFields_of_form {fields : List Field}
    (h : docs.map (value? (maxDepth - 1)) = (fields.take docs.length).map fun f => some (m.valueOf f)) (d : Draft) :
    positionalFields (maxDepth - 1) fields docs.length d docs.flatten =
      .ok (d.takeAll m (fields.take docs.length), 0) := by
  induction fields generalizing docs d with
  | nil =>
      obtain rfl : docs = [] := by simpa using h
      rfl
  | cons f fields ih =>
      cases docs with
      | nil => rfl
      | cons doc docs =>
          rw [List.map_cons, List.length_cons, List.take_succ_cons, List.map_cons, List.cons.injEq] at h
          have hread : readField (maxDepth - 1) f d (doc ++ docs.flatten) = .ok (d.take m f, docs.flatten) :=
            readField_of_value d (value_of_value? h.1 (Nat.le_refl _) _)
          rw [List.flatten_cons, List.length_cons, List.take_succ_cons]
          simp only [positionalFields, hread]
          exact ih h.2 (d.take m f)

theorem readMessage_of_array {head : Bytes} (hh : Head.read head = .ok (.array docs.length, []))
    (h : (Codec.frames maximum).ArrayForm m docs) : readMessage (head ++ docs.flatten) = .ok m := by
  have hh' : Head.read (head ++ docs.flatten) = .ok (.array docs.length, docs.flatten) := extends_head _ _ _ hh _
  have hfields := positionalFields_of_form h.holds .empty
  have hmessage : (Draft.empty.takeAll m (Field.all.take docs.length)).message? = some m :=
    Draft.message?_takeAll h.lacks_of_not_mem
  change positionalFields (maxDepth - 1) [.command, .args, .kwargs] docs.length .empty docs.flatten = _ at hfields
  simp only [readMessage, hh', hfields, hmessage, if_true]

/-! ## Objects -/

/-- An entry whose key is a text, by either reader of keys. -/
theorem entry_of_text? {readKey : Bytes → Read String} {done : Entries}
    (hk : ∀ more, readKey (key ++ more) = .ok (s, more)) (hv : value? depth doc = some v) (more : Bytes) :
    entry readKey (value depth) done (key ++ (doc ++ more)) = .ok (Entries.insert s v done, more) :=
  entry_iff.2 ⟨s, doc ++ more, v, hk _, value_of_value? hv (Nat.le_refl depth) more, rfl⟩

theorem entriesFrom_of_spells {pairs : List (String × Value)} (h : (Codec.frames maximum).Spells depth parts pairs)
    (done : Entries) : entriesFrom (string depth) (value depth) parts.length done (packed parts) =
      .ok (pairs.foldl (fun entries (k, v) => Entries.insert k v entries) done, []) := by
  induction parts generalizing pairs done with
  | nil =>
      obtain rfl : pairs = [] := by simpa [Codec.Spells] using h.symm
      rfl
  | cons p parts ih =>
      obtain ⟨k, v, rest, rfl, hk, hv, hrest⟩ := Codec.spells_cons h
      have hkey : ∀ more, string depth (p.1 ++ more) = .ok (k, more) :=
        fun more => string_of_firstKey depth (firstKey_of_text? depth hk more)
      rw [packed_cons]
      exact entriesFrom_succ.2 ⟨_, _, entry_of_text? hkey hv _, ih hrest _⟩

/-- A map whose keys are texts is read as an object. -/
theorem value?_of_map {head : Bytes} {pairs : List (String × Value)} (hh : Head.read head = .ok (.map parts.length, []))
    (h : (Codec.frames maximum).Spells depth parts pairs) (hd : depth ≠ 0) :
    value? (depth + 1) (head ++ packed parts) = some (.obj (Entries.ofList pairs)) := by
  refine value?_eq_some.2 (found_iff.2 (.map (extends_head _ _ _ hh _) hd ?_))
  cases parts with
  | nil =>
      obtain rfl : pairs = [] := by simpa [Codec.Spells] using h.symm
      rfl
  | cons p parts =>
      obtain ⟨k, v, rest, rfl, hk, hv, hrest⟩ := Codec.spells_cons h
      rw [packed_cons, List.length_cons]
      exact objectEntries_succ.2 ⟨_, _, entry_of_text? (firstKey_of_text? _ hk) hv _, entriesFrom_of_spells hrest _⟩

end MsgPack
end Courier
