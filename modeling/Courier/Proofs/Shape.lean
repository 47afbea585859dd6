import Courier.Codec
import Courier.Proofs.Value

/-!
# Shape — the shapes of a message on the wire

A message is written as a map of its fields, among which there may be others, or as an array of its first fields.  What
is a field or a key is itself a document, a text that holds one value when it stands alone.

1. `Json.value?` and `MsgPack.value?` — the value in a document, with a bound for its nesting,
2. `Codec.IsMap` and `Codec.IsArray` put documents together, as each format does,
3. `Codec.MapForm` and `Codec.ArrayForm` — documents that stand for the fields of a message,
4. `Draft.takeAll` — what reading such fields comes to.
-/

namespace Courier

/-! ## Documents -/

namespace Json

/-- The value in a document that holds nothing else. -/
def value? (depth : Nat) (doc : Bytes) : Option Value :=
  (finish (value (fuelFor doc) depth (.start doc))).toOption

/-- White space between tokens. -/
def Blank (bytes : Bytes) : Prop :=
  ∀ b ∈ bytes, Cursor.isBlank b = true

/-- Parts with commas between them.  In front of the first one there is no comma. -/
inductive Listed : Bool → List Bytes → Bytes → Prop where
  | done {first : Bool} {blank : Bytes} (hb : Blank blank) : Listed first [] blank
  | first {part rest : Bytes} {parts : List Bytes} (h : Listed false parts rest) :
      Listed true (part :: parts) (part ++ rest)
  | next {blank part rest : Bytes} {parts : List Bytes} (hb : Blank blank) (h : Listed false parts rest) :
      Listed false (part :: parts) (blank ++ 44 :: (part ++ rest))

/-- A key, a colon and a value. -/
def entry (part : Bytes × Bytes) : Bytes :=
  part.1 ++ 58 :: part.2

end Json

namespace MsgPack

/-- The value in a document that holds nothing else. -/
def value? (depth : Nat) (doc : Bytes) : Option Value :=
  match value depth doc with
  | .ok (v, []) => some v
  | _ => none

/-- Keys and values, one after the other. -/
def packed (parts : List (Bytes × Bytes)) : Bytes :=
  parts.flatMap fun p => p.1 ++ p.2

theorem packed_cons (p : Bytes × Bytes) (parts : List (Bytes × Bytes)) :
    packed (p :: parts) = p.1 ++ (p.2 ++ packed parts) := by
  rw [packed, List.flatMap_cons, List.append_assoc]
  rfl

end MsgPack

/-! ## Fields -/

namespace Field

/-- The fields in the order of the positional form. -/
def all : List Field :=
  [.command, .args, .kwargs]

end Field

namespace Message

variable (m : Message)

/-- What a field holds. -/
def valueOf : Field → Value
  | .command => .str m.command
  | .args => .arr m.args
  | .kwargs => .obj m.kwargs

/-- Whether a field may be left out. -/
def Lacks : Field → Prop
  | .command => False
  | .args => m.args = []
  | .kwargs => m.kwargs = []

end Message

namespace Draft

variable {m : Message} {d : Draft} {fields : List Field}

/-- A draft in which a field is that of a message. -/
def take (m : Message) (d : Draft) : Field → Draft
  | .command => { d with command := some m.command }
  | .args => { d with args := some m.args }
  | .kwargs => { d with kwargs := some m.kwargs }

/-- A draft in which given fields are those of a message. -/
def takeAll (m : Message) (d : Draft) (fields : List Field) : Draft :=
  fields.foldl (take m) d

theorem has_command (d : Draft) (s : String) (g : Field) :
    ({ d with command := some s } : Draft).has g = true ↔ d.has g = true ∨ g = .command := by
  cases g <;> simp [has]

theorem has_args (d : Draft) (xs : List Value) (g : Field) :
    ({ d with args := some xs } : Draft).has g = true ↔ d.has g = true ∨ g = .args := by
  cases g <;> simp [has]

theorem has_kwargs (d : Draft) (es : Entries) (g : Field) :
    ({ d with kwargs := some es } : Draft).has g = true ↔ d.has g = true ∨ g = .kwargs := by
  cases g <;> simp [has]

theorem has_take (m : Message) (d : Draft) (f g : Field) : (d.take m f).has g = true ↔ d.has g = true ∨ g = f := by
  cases f with
  | command => exact has_command d m.command g
  | args => exact has_args d m.args g
  | kwargs => exact has_kwargs d m.kwargs g

theorem has_takeAll (m : Message) (d : Draft) (fields : List Field) (g : Field) :
    (d.takeAll m fields).has g = true ↔ d.has g = true ∨ g ∈ fields := by
  induction fields generalizing d with
  | nil => simp [takeAll]
  | cons f fields ih =>
      rw [takeAll, List.foldl_cons, ← takeAll, ih, has_take, List.mem_cons, or_assoc]

/-- A field that has been taken is none of the others. -/
theorem has_take_of_fresh {f : Field} (hf : f ∉ fields) (hd : ∀ g ∈ f :: fields, d.has g = false) :
    ∀ g ∈ fields, (d.take m f).has g = false := by
  intro g hg
  rw [← Bool.not_eq_true, has_take]
  rintro (hhas | rfl)
  · simp [hd g (List.mem_cons_of_mem _ hg)] at hhas
  · exact hf hg

/-- The fields of a draft that has them are those of a message. -/
def Agrees (m : Message) (d : Draft) : Prop :=
  (∀ s, d.command = some s → s = m.command) ∧ (∀ xs, d.args = some xs → xs = m.args) ∧
    ∀ es, d.kwargs = some es → es = m.kwargs

theorem Agrees.take (h : d.Agrees m) (f : Field) : (d.take m f).Agrees m := by
  obtain ⟨hc, ha, hk⟩ := h
  cases f with
  | command => exact ⟨fun s hs => (Option.some.inj hs).symm, ha, hk⟩
  | args => exact ⟨hc, fun xs hxs => (Option.some.inj hxs).symm, hk⟩
  | kwargs => exact ⟨hc, ha, fun es hes => (Option.some.inj hes).symm⟩

theorem Agrees.takeAll (h : d.Agrees m) (fields : List Field) : (d.takeAll m fields).Agrees m := by
  induction fields generalizing d with
  | nil => exact h
  | cons f fields ih => exact ih (h.take f)

/-- A draft that lacks nothing but what may be left out is the message. -/
theorem message?_takeAll (h : ∀ f, f ∉ fields → m.Lacks f) : (empty.takeAll m fields).message? = some m := by
  have hagrees : (empty.takeAll m fields).Agrees m :=
    Agrees.takeAll ⟨fun _ h => by simp [empty] at h, fun _ h => by simp [empty] at h, fun _ h => by simp [empty] at h⟩
      fields
  have hhas : ∀ f, (empty.takeAll m fields).has f = true ∨ m.Lacks f := by
    intro f
    by_cases hf : f ∈ fields
    · exact .inl ((has_takeAll m empty fields f).2 (.inr hf))
    · exact .inr (h f hf)
  -- in which order the fields were taken is of no interest any more
  generalize empty.takeAll m fields = d at hagrees hhas
  obtain ⟨command, args, kwargs⟩ := d
  obtain ⟨hcommand, hargs, hkwargs⟩ := hagrees
  have hc : command = some m.command := by
    rcases hhas .command with hc | hc
    · obtain ⟨s, rfl⟩ := Option.isSome_iff_exists.1 hc
      rw [hcommand s rfl]
    · exact hc.elim
  have ha : args.getD [] = m.args := by
    rcases hhas .args with ha | ha
    · obtain ⟨xs, rfl⟩ := Option.isSome_iff_exists.1 ha
      exact hargs xs rfl
    · cases args with
      | none => exact ha.symm
      | some xs => exact hargs xs rfl
  have hk : kwargs.getD [] = m.kwargs := by
    rcases hhas .kwargs with hk | hk
    · obtain ⟨es, rfl⟩ := Option.isSome_iff_exists.1 hk
      exact hkwargs es rfl
    · cases kwargs with
      | none => exact hk.symm
      | some es => exact hkwargs es rfl
  simp only [message?, hc, ha, hk, Option.map_some]

theorem has_command_of_message? (h : d.message? ≠ none) : d.has .command = true := by
  obtain ⟨command, args, kwargs⟩ := d
  cases command with
  | none => exact absurd rfl h
  | some command => rfl

end Draft

/-! ## Formats -/

namespace Codec

/-- The message that a line or a payload is read as. -/
def decode : Codec → Bytes → Except Error Message
  | .lines _, doc => (Json.readMessage doc).mapError .json
  | .frames _, doc => (MsgPack.readMessage doc).mapError .pack

/-- Arrays and objects may be nested one level less than this. -/
def depth : Codec → Nat
  | .lines _ => Json.maxDepth
  | .frames _ => MsgPack.maxDepth

/-- The same for a value that nobody wants.  In a packed message it stands on a level of its own. -/
def room : Codec → Nat
  | .lines _ => Json.maxDepth
  | .frames _ => MsgPack.maxDepth - 1

/-- The value in a document that holds nothing else. -/
def value? : Codec → Nat → Bytes → Option Value
  | .lines _ => Json.value?
  | .frames _ => MsgPack.value?

/-- The text in a document that holds nothing else. -/
def text? (c : Codec) (doc : Bytes) : Option String :=
  match c.value? c.depth doc with
  | some (.str s) => some s
  | _ => none

theorem value?_of_text? {c : Codec} {doc : Bytes} {s : String} (h : c.text? doc = some s) :
    c.value? c.depth doc = some (.str s) := by
  unfold text? at h
  split at h
  · next hv =>
    obtain rfl := Option.some.inj h
    exact hv
  · cases h

/-- The field that a key stands for. -/
def field? (c : Codec) (key : Bytes) : Option Field :=
  (c.text? key).bind Field.ofName?

/-- The known fields among keys and values, in the order in which they come. -/
def fields (c : Codec) (parts : List (Bytes × Bytes)) : List Field :=
  parts.filterMap fun p => c.field? p.1

/-- A document that is a map of keys and values. -/
inductive IsMap : Codec → List (Bytes × Bytes) → Bytes → Prop where
  | lines {maximum : UInt64} {parts : List (Bytes × Bytes)} {before body behind : Bytes} (hb : Json.Blank before)
      (h : Json.Listed true (parts.map Json.entry) body) (ha : Json.Blank behind) :
      IsMap (.lines maximum) parts (before ++ 123 :: (body ++ 125 :: behind))
  | frames {maximum : Nat} {parts : List (Bytes × Bytes)} {head : Bytes}
      (h : MsgPack.Head.read head = .ok (.map parts.length, [])) :
      IsMap (.frames maximum) parts (head ++ MsgPack.packed parts)

/-- A document that is an array of documents. -/
inductive IsArray : Codec → List Bytes → Bytes → Prop where
  | lines {maximum : UInt64} {docs : List Bytes} {before body behind : Bytes} (hb : Json.Blank before)
      (h : Json.Listed true docs body) (ha : Json.Blank behind) :
      IsArray (.lines maximum) docs (before ++ 91 :: (body ++ 93 :: behind))
  | frames {maximum : Nat} {docs : List Bytes} {head : Bytes}
      (h : MsgPack.Head.read head = .ok (.array docs.length, [])) :
      IsArray (.frames maximum) docs (head ++ docs.flatten)

/-- Keys that are texts, and values. -/
def Readable (c : Codec) (parts : List (Bytes × Bytes)) : Prop :=
  ∀ p ∈ parts, (c.text? p.1).isSome ∧ (c.value? c.depth p.2).isSome

/-- Keys and values that stand for a message: each known field at most once, with what it holds, and unknown ones with
any values. -/
structure MapForm (c : Codec) (m : Message) (parts : List (Bytes × Bytes)) : Prop where
  readable : c.Readable parts
  holds : ∀ p ∈ parts, ∀ f, c.field? p.1 = some f → c.value? (c.depth - 1) p.2 = some (m.valueOf f)
  once : (c.fields parts).Nodup
  lacks : ∀ f, f ∉ c.fields parts → m.Lacks f

/-- A key and a value where they are read: a known field with what it holds, or an unknown one within the room for
it. -/
inductive Stands (c : Codec) (m : Message) (p : Bytes × Bytes) : Prop where
  | known {s : String} {f : Field} (hk : c.text? p.1 = some s) (hf : Field.ofName? s = some f)
      (hv : c.value? (c.depth - 1) p.2 = some (m.valueOf f))
  | unknown {s : String} {v : Value} (hk : c.text? p.1 = some s) (hf : Field.ofName? s = none)
      (hv : c.value? c.room p.2 = some v)

variable {c : Codec} {m : Message} {p : Bytes × Bytes} {parts : List (Bytes × Bytes)} {s : String}

theorem field?_of_text? {key : Bytes} (h : c.text? key = some s) : c.field? key = Field.ofName? s := by
  rw [field?, h]
  rfl

theorem fields_cons_known {f : Field} (h : c.field? p.1 = some f) : c.fields (p :: parts) = f :: c.fields parts :=
  List.filterMap_cons_some h

theorem fields_cons_unknown (h : c.field? p.1 = none) : c.fields (p :: parts) = c.fields parts :=
  List.filterMap_cons_none h

theorem MapForm.stands (h : c.MapForm m parts)
    (hu : ∀ p ∈ parts, c.field? p.1 = none → (c.value? c.room p.2).isSome) (hp : p ∈ parts) : c.Stands m p := by
  obtain ⟨s, hs⟩ := Option.isSome_iff_exists.1 (h.readable p hp).1
  have hfield : c.field? p.1 = Field.ofName? s := field?_of_text? hs
  cases hf : Field.ofName? s with
  | none =>
      obtain ⟨v, hv⟩ := Option.isSome_iff_exists.1 (hu p hp (hfield.trans hf))
      exact .unknown hs hf hv
  | some f => exact .known hs hf (h.holds p hp f (hfield.trans hf))

/-- What keys and values are like that have been read into a draft. -/
structure Fills (c : Codec) (parts : List (Bytes × Bytes)) (d d' : Draft) : Prop where
  once : (c.fields parts).Nodup
  fresh : ∀ f ∈ c.fields parts, d.has f = false
  has : ∀ f, d'.has f = true ↔ d.has f = true ∨ f ∈ c.fields parts
  unknown : ∀ p ∈ parts, c.field? p.1 = none → (c.value? c.room p.2).isSome

namespace Fills

variable {d e d' : Draft}

theorem nil (c : Codec) (d : Draft) : c.Fills [] d d where
  once := .nil
  fresh _ hf := by simp [fields] at hf
  has _ := by simp [fields]
  unknown _ hp := by simp at hp

theorem known {f : Field} (hf : c.field? p.1 = some f) (hd : d.has f = false)
    (he : ∀ g, e.has g = true ↔ d.has g = true ∨ g = f) (h : c.Fills parts e d') : c.Fills (p :: parts) d d' where
  once := by
    rw [fields_cons_known hf]
    -- the other parts are read with the field in the draft, where it would come a second time
    refine List.nodup_cons.2 ⟨fun hmem => ?_, h.once⟩
    have hhas := (he f).2 (.inr rfl)
    simp [h.fresh f hmem] at hhas
  fresh := by
    rw [fields_cons_known hf]
    intro g hg
    rcases List.mem_cons.1 hg with rfl | hg
    · exact hd
    · refine Bool.not_eq_true _ ▸ fun hhas => ?_
      have hhas' := (he g).2 (.inl hhas)
      simp [h.fresh g hg] at hhas'
  has g := by rw [h.has, he, fields_cons_known hf, List.mem_cons, or_assoc]
  unknown q hq hnone := by
    rcases List.mem_cons.1 hq with rfl | hq
    · simp [hf] at hnone
    · exact h.unknown q hq hnone

theorem skipped (hf : c.field? p.1 = none) (hv : (c.value? c.room p.2).isSome) (h : c.Fills parts d d') :
    c.Fills (p :: parts) d d' where
  once := by rw [fields_cons_unknown hf]; exact h.once
  fresh := by rw [fields_cons_unknown hf]; exact h.fresh
  has := by rw [fields_cons_unknown hf]; exact h.has
  unknown q hq hnone := by
    rcases List.mem_cons.1 hq with rfl | hq
    · exact hv
    · exact h.unknown q hq hnone

end Fills

/-- Documents that stand for the first fields of a message. -/
structure ArrayForm (c : Codec) (m : Message) (docs : List Bytes) : Prop where
  holds : docs.map (c.value? (c.depth - 1)) = (Field.all.take docs.length).map fun f => some (m.valueOf f)
  lacks : ∀ f ∈ Field.all.drop docs.length, m.Lacks f

theorem ArrayForm.lacks_of_not_mem {docs : List Bytes} (h : c.ArrayForm m docs) (f : Field)
    (hf : f ∉ Field.all.take docs.length) : m.Lacks f := by
  have hall : f ∈ Field.all.take docs.length ++ Field.all.drop docs.length := by
    rw [List.take_append_drop]
    cases f <;> decide
  exact h.lacks f ((List.mem_append.1 hall).resolve_left hf)

/-- Keys and values that stand for pairs. -/
def Spells (c : Codec) (depth : Nat) (parts : List (Bytes × Bytes)) (pairs : List (String × Value)) : Prop :=
  parts.map (fun p => (c.text? p.1, c.value? depth p.2)) = pairs.map fun e => (some e.1, some e.2)

/-- Keys and values, one after the other. -/
theorem spells_cons {depth : Nat} {pairs : List (String × Value)} (h : c.Spells depth (p :: parts) pairs) :
    ∃ k v rest, pairs = (k, v) :: rest ∧ c.text? p.1 = some k ∧ c.value? depth p.2 = some v ∧
      c.Spells depth parts rest := by
  cases pairs with
  | nil => simp [Spells] at h
  | cons e rest =>
      obtain ⟨k, v⟩ := e
      rw [Spells, List.map_cons, List.map_cons, List.cons.injEq, Prod.mk.injEq] at h
      exact ⟨k, v, rest, rfl, h.1.1, h.1.2, h.2⟩

end Codec
end Courier
