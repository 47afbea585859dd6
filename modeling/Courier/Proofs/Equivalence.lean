import Courier.Proofs.Calls
import Courier.Proofs.Json.Form
import Courier.Proofs.MsgPack.Form

/-!
# Equivalence — one message in many documents

A message is not tied to the document that is written for it.  Its fields may come by name in any order, among
fields that nobody knows, or by position.  What is empty may be left out, and named arguments may come in any order.

1. `Receiver.results_of_document` — what a receiver makes of a document is what `Codec.decode` says,
2. `Codec.decode_of_stands`, `Codec.decode_of_array` and `Codec.fills_of_decode` put the two formats together,
3. `Codec.error_of_fields` and `Codec.error_of_not_roomy` — maps that come to no message,
4. `Codec.value?_eq_kwargs_iff` — maps of the same named arguments,
5. `Codec.decode_of_forms` — which documents come to a given message, and which of them to none.
-/

namespace Courier

variable {c : Codec} {m : Message} {parts : List (Bytes × Bytes)} {doc : Bytes}

/-! ## Documents on their way -/

namespace Codec

/-- A document and the bytes that carry it: a line with its newline, or a payload behind its length. -/
inductive Conveys : Codec → Bytes → Bytes → Prop where
  | line {maximum : UInt64} {line : Bytes} (hn : 10 ∉ line) (hl : line.length ≤ maximum.toNat)
      (hb : (LineReceiver.content line.reverse).all LineReceiver.isBlank = false) :
      Conveys (.lines maximum) (LineReceiver.content line.reverse) (line ++ [10])
  | frame {maximum : Nat} {payload : Bytes} (hw : payload.length < 256 ^ headerSize) (hl : payload.length ≤ maximum) :
      Conveys (.frames maximum) payload (Bytes.bigEndian headerSize payload.length ++ payload)

theorem answer_of_conveys {unit : Bytes} (h : c.Conveys doc unit) : c.answer unit 0 = c.decode doc := by
  cases h with
  | line hn hl hb =>
      have houtcomes := Lines.outcomes_newline hn hl []
      rw [hb, if_neg Bool.false_ne_true] at houtcomes
      exact (gives_of_outcomes houtcomes).1
  | frame hw hl =>
      have hframe := (Frames.answer_frame hw hl []).1
      rwa [List.append_nil] at hframe

end Codec

/-- A receiver decodes the only document of a stream, however it is cut into reads. -/
theorem Receiver.results_of_document {unit : Bytes} {events : List ReadEvent} (ho : c.overflows = false)
    (h : c.Conveys doc unit) (hy : Yields unit events) (hnone : ∀ event ∈ events, c.failure? event = none) :
    (start c).results 1 events = [c.decode doc] := by
  rw [results_of_unfailed (fits_start ho) hy hnone, held_start, List.nil_append]
  exact congrArg (fun result => [result]) (Codec.answer_of_conveys h)

namespace Codec

/-! ## The formats together -/

/-- Fields that stand for those of a message come to the message. -/
theorem decode_of_stands (hi : c.IsMap parts doc) (h : ∀ p ∈ parts, c.Stands m p) (ho : (c.fields parts).Nodup)
    (hl : ∀ f, f ∉ c.fields parts → m.Lacks f) : c.decode doc = .ok m := by
  cases hi with
  | lines hb hlisted ha => exact Result.mapError_eq_ok.2 (Json.readMessage_of_stands hb hlisted ha h ho hl)
  | frames hh => exact Result.mapError_eq_ok.2 (MsgPack.readMessage_of_stands hh h ho hl)

theorem decode_of_array {docs : List Bytes} (hi : c.IsArray docs doc) (h : c.ArrayForm m docs) :
    c.decode doc = .ok m := by
  cases hi with
  | lines hb hlisted ha => exact Result.mapError_eq_ok.2 (Json.readMessage_of_array hb hlisted ha h)
  | frames hh => exact Result.mapError_eq_ok.2 (MsgPack.readMessage_of_array hh h)

/-- What comes to a message has filled a draft of it. -/
theorem fills_of_decode (hi : c.IsMap parts doc) (hr : c.Readable parts) (h : c.decode doc = .ok m) :
    ∃ d, c.Fills parts .empty d ∧ d.message? = some m := by
  cases hi with
  | lines hb hlisted ha => exact Json.readMessage_of_namedFields hb hlisted hr (Result.mapError_eq_ok.1 h)
  | frames hh => exact MsgPack.readMessage_of_namedFields hh hr (Result.mapError_eq_ok.1 h)

/-- A map whose keys are texts is an object with the last value of each key. -/
theorem value?_of_isMap {depth : Nat} {pairs : List (String × Value)} (hi : c.IsMap parts doc)
    (h : c.Spells depth parts pairs) (hd : depth ≠ 0) :
    c.value? (depth + 1) doc = some (.obj (Entries.ofList pairs)) := by
  cases hi with
  | lines hb hlisted ha => exact Json.value?_of_map hb hlisted ha h hd
  | frames hh => exact MsgPack.value?_of_map hh h hd

/-- There is room for every unknown field where it stands. -/
def Roomy (c : Codec) (parts : List (Bytes × Bytes)) : Prop :=
  ∀ p ∈ parts, c.field? p.1 = none → (c.value? c.room p.2).isSome

/-- In text there always is. -/
theorem Readable.roomy {maximum : UInt64} (h : (lines maximum).Readable parts) : (lines maximum).Roomy parts :=
  fun p hp _ => (h p hp).2

theorem error_of_not_ok (h : ∀ m, c.decode doc ≠ .ok m) : ∃ e, c.decode doc = .error e := by
  cases hd : c.decode doc with
  | error e => exact ⟨e, rfl⟩
  | ok m => exact absurd hd (h m)

/-! ## Maps of fields -/

theorem decode_of_mapForm (h : c.MapForm m parts) (hi : c.IsMap parts doc) (hr : c.Roomy parts) :
    c.decode doc = .ok m :=
  decode_of_stands hi (fun _ hp => h.stands hr hp) h.once h.lacks

/-- An unknown field without room for it is an error. -/
theorem error_of_not_roomy (hr : c.Readable parts) (hi : c.IsMap parts doc) (h : ¬ c.Roomy parts) :
    ∃ e, c.decode doc = .error e := by
  refine error_of_not_ok fun m hm => h ?_
  obtain ⟨d, hfills, -⟩ := fills_of_decode hi hr hm
  exact hfills.unknown

/-- A command that is missing, or a field that comes twice, is an error. -/
theorem error_of_fields (hr : c.Readable parts) (hi : c.IsMap parts doc)
    (h : .command ∉ c.fields parts ∨ ¬ (c.fields parts).Nodup) : ∃ e, c.decode doc = .error e := by
  refine error_of_not_ok fun m hm => ?_
  obtain ⟨d, hfills, hmessage⟩ := fills_of_decode hi hr hm
  rcases h with hcommand | htwice
  · -- the draft began empty, so its command was among the parts
    have hhas : d.has .command = true := Draft.has_command_of_message? (by simp [hmessage])
    rcases (hfills.has .command).1 hhas with hempty | hmem
    · cases hempty
    · exact hcommand hmem
  · exact htwice hfills.once

/-! ## Maps of named arguments -/

/-- A map is that of the named arguments exactly if the last value of each key is the argument of that name. -/
theorem value?_eq_kwargs_iff {pairs : List (String × Value)} (ho : Entries.Ascending m.kwargs) (hi : c.IsMap parts doc)
    (hs : c.Spells (c.depth - 2) parts pairs) :
    c.value? (c.depth - 1) doc = some (m.valueOf .kwargs) ↔
      ∀ key, Entries.find? key m.kwargs = Entries.last? key pairs := by
  have hdepth : c.depth - 2 ≠ 0 ∧ c.depth - 2 + 1 = c.depth - 1 := by
    cases c <;> simp [depth, Json.maxDepth, MsgPack.maxDepth]
  have hvalue := value?_of_isMap hi hs hdepth.1
  rw [hdepth.2] at hvalue
  rw [hvalue, Message.valueOf]
  constructor
  · intro heq key
    have hkwargs : Entries.ofList pairs = m.kwargs := by simpa using heq
    rw [← hkwargs, Entries.find?_ofList]
  · intro hfind
    -- entries that ascend are the same when every key finds the same
    have hkwargs : Entries.ofList pairs = m.kwargs :=
      (Entries.ascending_ofList pairs).ext ho fun key => by rw [Entries.find?_ofList, hfind]
    rw [hkwargs]

/-! ## Forms of one message -/

theorem blank_nil : Json.Blank [] :=
  List.forall_mem_nil _

/-- Parts that are put together without white space. -/
theorem listed_separated (docs : List Bytes) : Json.Listed true docs (Json.separated docs) := by
  have hrest : ∀ docs : List Bytes, Json.Listed false docs (docs.flatMap (44 :: ·)) := by
    intro docs
    induction docs with
    | nil => exact .done blank_nil
    | cons doc docs ih => exact .next blank_nil ih
  cases docs with
  | nil => exact .done blank_nil
  | cons doc docs =>
      rw [Json.separated_cons]
      exact .first (hrest docs)

theorem isMap_separated (maximum : UInt64) (parts : List (Bytes × Bytes)) :
    (lines maximum).IsMap parts (123 :: (Json.separated (parts.map Json.entry) ++ [125])) :=
  .lines blank_nil (listed_separated _) blank_nil

theorem isArray_separated (maximum : UInt64) (docs : List Bytes) :
    (lines maximum).IsArray docs (91 :: (Json.separated docs ++ [93])) :=
  .lines blank_nil (listed_separated _) blank_nil

/-- A command with two named arguments. -/
def toggle : Message :=
  ⟨"I", [], [("a", .null), ("b", .bool true)]⟩

/-- Its named arguments, out of order and one of them twice. -/
def toggleNamed : List (Bytes × Bytes) :=
  [(Bytes.ascii "\"b\"", Bytes.ascii "true"), (Bytes.ascii "\"a\"", Bytes.ascii "false "),
    (Bytes.ascii "\"a\" ", Bytes.ascii " null")]

/-- The document that they are in. -/
def toggleKwargs : Bytes :=
  123 :: (Json.separated (toggleNamed.map Json.entry) ++ [125])

/-- Its fields by name, behind an unknown one. -/
def toggleFields : List (Bytes × Bytes) :=
  [(Bytes.ascii "\"x\"", Bytes.ascii "[[\"\\u0041\"]]"), (Bytes.ascii "\"kwargs\"", toggleKwargs),
    (Bytes.ascii "\"command\"", Bytes.ascii "\"I\"")]

theorem spells_toggle :
    (lines 200).Spells 126 toggleNamed [("b", .bool true), ("a", .bool false), ("a", .null)] :=
  rfl

theorem value?_toggleKwargs : (lines 200).value? 127 toggleKwargs = some (toggle.valueOf .kwargs) := by
  have hab : "a" < "b" := by decide
  have haa : ¬ "a" < "a" := String.lt_irrefl "a"
  have hentries : Entries.ofList [("b", .bool true), ("a", .bool false), ("a", .null)] = toggle.kwargs := by
    simp only [Entries.ofList, Entries.insert, List.foldl_cons, List.foldl_nil, toggle, hab, haa, if_true, if_false]
  exact (value?_of_isMap (isMap_separated 200 _) spells_toggle (by decide)).trans
    (congrArg (fun entries => some (Value.obj entries)) hentries)

theorem mapForm_toggle : (Codec.lines 200).MapForm toggle toggleFields where
  readable := by
    unfold Readable toggleFields
    decide +kernel
  holds := by
    intro p hp f hf
    simp only [toggleFields, List.mem_cons, List.not_mem_nil, or_false] at hp
    rcases hp with rfl | rfl | rfl
    · have hx : (Codec.lines 200).field? (Bytes.ascii "\"x\"") = none := by decide +kernel
      cases hx.symm.trans hf
    · have hkwargs : (Codec.lines 200).field? (Bytes.ascii "\"kwargs\"") = some .kwargs := by decide +kernel
      cases hkwargs.symm.trans hf
      exact value?_toggleKwargs
    · have hcommand : (Codec.lines 200).field? (Bytes.ascii "\"command\"") = some .command := by decide +kernel
      cases hcommand.symm.trans hf
      rfl
  once := by decide +kernel
  lacks f hf := by
    cases f with
    | command => exact absurd (by decide +kernel) hf
    | args => rfl
    | kwargs => exact absurd (by decide +kernel) hf

theorem arrayForm_toggle :
    (Codec.lines 200).ArrayForm toggle [Bytes.ascii "\"I\"", Bytes.ascii "[]", toggleKwargs] where
  holds := by
    have hcommand : (lines 200).value? 127 (Bytes.ascii "\"I\"") = some (toggle.valueOf .command) := rfl
    have hargs : (lines 200).value? 127 (Bytes.ascii "[]") = some (toggle.valueOf .args) := rfl
    change [(lines 200).value? 127 _, (lines 200).value? 127 _, (lines 200).value? 127 _] = _
    rw [hcommand, hargs, value?_toggleKwargs]
    rfl
  lacks f hf := by cases hf

theorem arrayForm_packed : (Codec.frames 2000).ArrayForm (.ofCommand "I") [[0xA1, 73]] where
  holds := rfl
  lacks f hf := by
    cases f with
    | command => exact absurd hf (by decide)
    | args => rfl
    | kwargs => rfl

theorem isArray_packed : (Codec.frames 2000).IsArray [[0xA1, 73]] ([0x91] ++ [[0xA1, 73]].flatten) :=
  .frames rfl

/-- An unknown field that is nested as deeply as a value can be, and a command. -/
def deepFields : List (Bytes × Bytes) :=
  [([0xA1, 120], List.replicate 1023 0x91 ++ [0xC0]), (0xA7 :: Bytes.ascii "command", [0xA1, 73])]

/-- The payload that they are in. -/
def deepPayload : Bytes :=
  [0x82] ++ MsgPack.packed deepFields

theorem mapForm_deep : (Codec.frames 2000).MapForm (.ofCommand "I") deepFields where
  readable := by
    unfold Readable deepFields
    decide +kernel
  holds := by
    intro p hp f hf
    simp only [deepFields, List.mem_cons, List.not_mem_nil, or_false] at hp
    rcases hp with rfl | rfl
    · have hx : (Codec.frames 2000).field? [0xA1, 120] = none := by decide +kernel
      cases hx.symm.trans hf
    · have hcommand : (Codec.frames 2000).field? (0xA7 :: Bytes.ascii "command") = some .command := by decide +kernel
      cases hcommand.symm.trans hf
      rfl
  once := by decide +kernel
  lacks f hf := by
    cases f with
    | command => exact absurd (by decide +kernel) hf
    | args => rfl
    | kwargs => rfl

theorem isMap_deep : (Codec.frames 2000).IsMap deepFields deepPayload :=
  .frames rfl

/-! ## Which documents come to a message -/

/-- Of a message, in either format:

1. a map of its fields, in any order, with those that hold nothing written or left out, and with unknown ones among
   them whose values can be read, comes to the message when there is room for the unknown ones where they stand, and
   is an error when there is not,
2. an array of its fields, with those at the end that hold nothing written or left out, comes to the message,
3. a map without a command, or with a known field twice, is an error,
4. a map of named arguments is that of the message exactly if it gives each key, with the last value it has there,
   what the message gives it; so the order does not matter. -/
theorem decode_of_forms (c : Codec) (m : Message) :
    (∀ parts doc, c.MapForm m parts → c.IsMap parts doc →
      (c.Roomy parts → c.decode doc = .ok m) ∧ (¬ c.Roomy parts → ∃ e, c.decode doc = .error e)) ∧
    (∀ docs doc, c.ArrayForm m docs → c.IsArray docs doc → c.decode doc = .ok m) ∧
    (∀ parts doc, c.Readable parts → c.IsMap parts doc →
      .command ∉ c.fields parts ∨ ¬ (c.fields parts).Nodup → ∃ e, c.decode doc = .error e) ∧
    (Entries.Ascending m.kwargs → ∀ parts pairs doc, c.IsMap parts doc → c.Spells (c.depth - 2) parts pairs →
      (c.value? (c.depth - 1) doc = some (m.valueOf .kwargs) ↔
        ∀ key, Entries.find? key m.kwargs = Entries.last? key pairs)) := by
  refine ⟨?_, ?_, ?_, ?_⟩
  · intro parts doc hf hi
    exact ⟨decode_of_mapForm hf hi, error_of_not_roomy hf.readable hi⟩
  · intro docs doc hf hi
    exact decode_of_array hi hf
  · intro parts doc hr hi hbad
    exact error_of_fields hr hi hbad
  · intro ho parts pairs doc hi hs
    exact value?_eq_kwargs_iff ho hi hs

/-- The message above, by name and by position, and maps that come to no message. -/
theorem decode_of_toggle :
    (lines 200).decode (Bytes.ascii
        "\x7b\"x\":[[\"\\u0041\"]],\"kwargs\":\x7b\"b\":true,\"a\":false ,\"a\" : null\x7d,\"command\":\"I\"\x7d") =
        .ok toggle ∧
      (lines 200).decode (Bytes.ascii "[\"I\",[],\x7b\"b\":true,\"a\":false ,\"a\" : null\x7d]") = .ok toggle ∧
      (∃ e, (lines 200).decode (Bytes.ascii "\x7b\"args\":[]\x7d") = .error e) ∧
      (∃ e, (lines 200).decode (Bytes.ascii "\x7b\"command\":\"I\",\"command\":\"I\"\x7d") = .error e) ∧
      (lines 200).value? 127 (Bytes.ascii "\x7b\"b\":true,\"a\":false ,\"a\" : null\x7d") =
        some (toggle.valueOf .kwargs) ∧
      (frames 2000).decode [0x91, 0xA1, 73] = .ok (.ofCommand "I") ∧
      ∃ e, (frames 2000).decode deepPayload = .error e := by
  obtain ⟨hmap, harray, hbad, hnamed⟩ := decode_of_forms (.lines 200) toggle
  have hmapDoc := (hmap _ _ mapForm_toggle (isMap_separated 200 toggleFields)).1 mapForm_toggle.readable.roomy
  have harrayDoc := harray _ _ arrayForm_toggle (isArray_separated 200 _)
  have hlacking := hbad [(Bytes.ascii "\"args\"", Bytes.ascii "[]")] _ (by unfold Readable; decide +kernel)
    (isMap_separated 200 _) (.inl (by decide +kernel))
  have htwice := hbad [(Bytes.ascii "\"command\"", Bytes.ascii "\"I\""),
      (Bytes.ascii "\"command\"", Bytes.ascii "\"I\"")] _
    (by unfold Readable; decide +kernel) (isMap_separated 200 _) (.inr (by decide +kernel))
  have hkwargs := (hnamed (by decide) toggleNamed _ _ (isMap_separated 200 toggleNamed) spells_toggle).2 fun key => by
    simp only [toggle, Entries.find?, Entries.last?]
    grind
  obtain ⟨hmap', harray', -⟩ := decode_of_forms (.frames 2000) (.ofCommand "I")
  have hpacked := harray' _ _ arrayForm_packed isArray_packed
  have hdeep := (hmap' _ _ mapForm_deep isMap_deep).2 fun hroomy =>
    absurd (hroomy _ (List.mem_cons_self ..)) (by decide +kernel)
  exact ⟨hmapDoc, harrayDoc, hlacking, htwice, hkwargs, hpacked, hdeep⟩

/-- Whether a payload has been refused for its nesting. -/
def isTooDeep : Except Error Message → Bool
  | .error (.pack .nestedTooDeep) => true
  | _ => false

/-- A field that nobody knows is refused when it is nested as deeply as a value can be.  By itself its value is read. -/
theorem refused_of_deep_value :
    (Codec.frames 2000).MapForm (.ofCommand "I") deepFields ∧ (Codec.frames 2000).IsMap deepFields deepPayload ∧
      (Codec.frames 2000).decode deepPayload = .error (.pack .nestedTooDeep) := by
  refine ⟨mapForm_deep, isMap_deep, ?_⟩
  have hdeep : isTooDeep ((Codec.frames 2000).decode deepPayload) = true := by decide +kernel
  unfold isTooDeep at hdeep
  split at hdeep
  · next h => exact h
  · cases hdeep

end Codec
end Courier
