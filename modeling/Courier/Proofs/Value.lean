import Courier.Message

/-!
# Value — values that can be sent

The entries of an object ascend, which is how objects are built, and arrays and objects are nested to some depth.
What a format asks of doubles is left open.

- `Entries.ofList_of_ascending` — entries in order are what they are built from,
- `Entries.ofList_of_perm` — and so they are in any other order,
- `Entries.find?_ofList` — of a repeated key the last value counts,
- `Value.Sendable` — values that can be sent,
- `Message.same_refl` — the comparison of messages is reflexive.
-/

namespace Courier

/-! ## Entries -/

namespace Entries

/-- The keys ascend, each once. -/
def Ascending (es : List (String × Value)) : Prop :=
  es.Pairwise fun a b => a.1 < b.1

instance (es : List (String × Value)) : Decidable (Ascending es) :=
  inferInstanceAs (Decidable (es.Pairwise fun a b => a.1 < b.1))

theorem insert_of_forall_lt {key : String} {v : Value} {es : Entries} (h : ∀ e ∈ es, e.1 < key) :
    insert key v es = es ++ [(key, v)] := by
  induction es with
  | nil => rfl
  | cons e es ih =>
      obtain ⟨k, w⟩ := e
      have hk : k < key := h (k, w) (List.mem_cons_self ..)
      have htail : insert key v es = es ++ [(key, v)] :=
        ih fun e he => h e (List.mem_cons_of_mem _ he)
      rw [insert, if_neg (String.lt_asymm hk), if_pos hk, htail, List.cons_append]

theorem foldl_insert (done : Entries) {es : Entries} (h : Ascending (done ++ es)) :
    es.foldl (fun entries (k, v) => insert k v entries) done = done ++ es := by
  induction es generalizing done with
  | nil => simp
  | cons e es ih =>
      obtain ⟨k, v⟩ := e
      have hlt : ∀ e ∈ done, e.1 < k := fun e he =>
        (List.pairwise_append.1 h).2.2 e he (k, v) (List.mem_cons_self ..)
      rw [List.foldl_cons]
      show es.foldl _ (insert k v done) = _
      rw [insert_of_forall_lt hlt, ih _ (by simpa using h)]
      simp

/-- Entries in order are what they are built from. -/
theorem ofList_of_ascending {es : Entries} (h : Ascending es) : ofList es = es :=
  foldl_insert [] h

theorem mem_insert {key : String} {v : Value} {es : Entries} {e : String × Value} (h : e ∈ insert key v es) :
    e = (key, v) ∨ e ∈ es := by
  induction es with
  | nil => exact .inl (List.mem_singleton.1 h)
  | cons f es ih => grind [insert]

/-- Storing keeps the order. -/
theorem Ascending.insert {es : Entries} (h : Ascending es) (key : String) (v : Value) :
    Ascending (insert key v es) := by
  induction h with
  | nil => exact List.pairwise_singleton _ _
  | @cons e es hlt ha ih =>
      obtain ⟨k, w⟩ := e
      rw [Entries.insert]
      split
      · next hk =>
        refine .cons (fun f hf => ?_) (.cons hlt ha)
        rcases List.mem_cons.1 hf with rfl | hf
        · exact hk
        · exact String.lt_trans hk (hlt f hf)
      · split
        · next hk =>
          refine .cons (fun f hf => ?_) ih
          rcases mem_insert hf with rfl | hf
          · exact hk
          · exact hlt f hf
        · next hk hk' =>
          obtain rfl : key = k := String.le_antisymm (String.not_lt.1 hk') (String.not_lt.1 hk)
          exact .cons hlt ha

theorem mem_insert_self (key : String) (v : Value) (es : Entries) : (key, v) ∈ insert key v es := by
  induction es with
  | nil => exact List.mem_singleton.2 rfl
  | cons f es ih => grind [insert]

theorem mem_insert_of_ne {key : String} {v : Value} {es : Entries} {e : String × Value} (h : e ∈ es) (hk : e.1 ≠ key) :
    e ∈ insert key v es := by
  induction es with
  | nil => simp at h
  | cons f es ih => grind [insert, String.le_antisymm, String.not_lt]

/-- What has been built is in order. -/
theorem ascending_ofList (pairs : List (String × Value)) : Ascending (ofList pairs) := by
  have hfold : ∀ done, Ascending done →
      Ascending (pairs.foldl (fun entries (k, v) => Entries.insert k v entries) done) := by
    induction pairs with
    | nil => exact fun done h => h
    | cons e pairs ih => exact fun done h => ih _ (h.insert e.1 e.2)
  exact hfold [] .nil

/-- Of different keys, every one is stored. -/
theorem mem_ofList {pairs : List (String × Value)} (hd : (pairs.map (·.1)).Nodup) {e : String × Value}
    (he : e ∈ pairs) : e ∈ ofList pairs := by
  have hfold : ∀ done : Entries, e ∈ pairs ∨ (e ∈ done ∧ e.1 ∉ pairs.map (·.1)) →
      e ∈ pairs.foldl (fun entries (k, v) => Entries.insert k v entries) done := by
    clear he
    induction pairs with
    | nil => exact fun done h => by simpa using h
    | cons f pairs ih =>
        rw [List.map_cons, List.nodup_cons] at hd
        intro done h
        refine ih hd.2 _ ?_
        rcases h with he | ⟨he, hne⟩
        · rcases List.mem_cons.1 he with rfl | he
          · exact .inr ⟨mem_insert_self _ _ _, hd.1⟩
          · exact .inl he
        · rw [List.map_cons, List.mem_cons, not_or] at hne
          exact .inr ⟨mem_insert_of_ne he hne.1, hne.2⟩
  exact hfold [] (.inl he)

/-- Two keys may be stored in either order. -/
theorem insert_comm {k l : String} (h : k ≠ l) (v w : Value) (es : Entries) :
    insert k v (insert l w es) = insert l w (insert k v es) := by
  induction es with
  | nil => grind [insert, String.lt_asymm, String.le_antisymm, String.not_lt]
  | cons e es ih =>
      obtain ⟨m, x⟩ := e
      grind [insert, String.lt_irrefl, String.lt_asymm, String.lt_trans, String.le_antisymm, String.not_lt]

/-- A key has one value. -/
theorem Ascending.eq_of_key {es : Entries} (h : Ascending es) {e f : String × Value} (he : e ∈ es) (hf : f ∈ es)
    (hk : e.1 = f.1) : e = f := by
  induction h with
  | nil => simp at he
  | @cons g es hlt _ ih =>
      have hne : ∀ e ∈ es, e.1 ≠ g.1 := fun e he heq => String.lt_irrefl g.1 (by simpa [heq] using hlt e he)
      rcases List.mem_cons.1 he with rfl | he'
      · rcases List.mem_cons.1 hf with rfl | hf'
        · rfl
        · exact absurd hk.symm (hne f hf')
      · rcases List.mem_cons.1 hf with rfl | hf'
        · exact absurd hk (hne e he')
        · exact ih he' hf'

/-- Entries may be built in any order. -/
theorem ofList_of_perm {es : Entries} {order : List (String × Value)} (h : Ascending es) (hp : order.Perm es) :
    ofList order = es := by
  have hswap : ∀ e ∈ order, ∀ f ∈ order, ∀ entries : Entries,
      insert f.1 f.2 (insert e.1 e.2 entries) = insert e.1 e.2 (insert f.1 f.2 entries) := by
    intro e he f hf entries
    by_cases hk : f.1 = e.1
    · rw [h.eq_of_key (hp.mem_iff.1 hf) (hp.mem_iff.1 he) hk]
    · exact insert_comm hk f.2 e.2 entries
  calc ofList order = ofList es := hp.foldl_eq' hswap []
    _ = es := ofList_of_ascending h

/-! ### What is found -/

/-- The last value that pairs give to a key. -/
def last? (key : String) : List (String × Value) → Option Value
  | [] => none
  | (k, v) :: rest => (last? key rest).or (if k = key then some v else none)

theorem find?_eq_none {key : String} {es : Entries} (h : ∀ e ∈ es, e.1 ≠ key) : find? key es = none := by
  induction es with
  | nil => rfl
  | cons e es ih =>
      obtain ⟨k, v⟩ := e
      rw [find?, if_neg (h (k, v) (List.mem_cons_self ..)), ih fun e he => h e (List.mem_cons_of_mem _ he)]

theorem find?_insert {es : Entries} (h : Ascending es) (key k : String) (v : Value) :
    find? key (insert k v es) = if k = key then some v else find? key es := by
  induction h with
  | nil => rfl
  | @cons e es hlt _ ih =>
      obtain ⟨l, w⟩ := e
      grind [insert, find?, String.lt_irrefl, String.le_antisymm, String.not_lt]

/-- Of a repeated key the last value is found. -/
theorem find?_ofList (key : String) (pairs : List (String × Value)) : find? key (ofList pairs) = last? key pairs := by
  have hfold : ∀ done, Ascending done →
      find? key (pairs.foldl (fun entries (k, v) => insert k v entries) done) =
        (last? key pairs).or (find? key done) := by
    induction pairs with
    | nil => exact fun done _ => rfl
    | cons e pairs ih =>
        obtain ⟨k, v⟩ := e
        intro done hdone
        rw [List.foldl_cons, ih _ (hdone.insert k v), find?_insert hdone, last?, Option.or_assoc]
        by_cases hk : k = key
        · rw [if_pos hk, if_pos hk, Option.some_or]
        · rw [if_neg hk, if_neg hk, Option.none_or]
  rw [ofList, hfold [] .nil]
  exact Option.or_none

/-- A key in front of all others is not found. -/
theorem find?_of_lt {key : String} {es : Entries} (h : ∀ e ∈ es, key < e.1) : find? key es = none :=
  find?_eq_none fun e he heq => String.lt_irrefl key (heq ▸ h e he)

/-- Entries in order are what is found in them. -/
theorem Ascending.ext {es fs : Entries} (h : Ascending es) (hf : Ascending fs)
    (hfind : ∀ key, find? key es = find? key fs) : es = fs := by
  induction h generalizing fs with
  | nil =>
      cases fs with
      | nil => rfl
      | cons f fs =>
          have hhead := hfind f.1
          simp [find?] at hhead
  | @cons e es hlt _ ih =>
      cases hf with
      | nil =>
          have hhead := hfind e.1
          simp [find?] at hhead
      | @cons f fs hlt' hfs =>
          obtain ⟨k, v⟩ := e
          obtain ⟨l, w⟩ := f
          -- the first keys agree, as the smaller one would not be found on the other side
          have hk : k = l := by
            refine String.le_antisymm (String.not_lt.1 fun hlk => ?_) (String.not_lt.1 fun hkl => ?_)
            · have hhead := hfind l
              have hne : k ≠ l := fun heq => String.lt_irrefl l (heq ▸ hlk)
              have hnone : find? l es = none := find?_of_lt fun e he => String.lt_trans hlk (hlt e he)
              simp [find?, hnone, hne] at hhead
            · have hhead := hfind k
              have hne : l ≠ k := fun heq => String.lt_irrefl k (heq ▸ hkl)
              have hnone : find? k fs = none := find?_of_lt fun e he => String.lt_trans hkl (hlt' e he)
              simp [find?, hnone, hne] at hhead
          subst hk
          obtain rfl : v = w := by simpa [find?] using hfind k
          have htail : es = fs := by
            refine ih hfs fun key => ?_
            by_cases hkey : k = key
            · subst hkey
              rw [find?_of_lt hlt, find?_of_lt hlt']
            · simpa [find?, hkey] using hfind key
          rw [htail]

end Entries

/-! ## Values -/

/-- A value with arrays and objects nested to at most a given number of levels, with objects in order and
doubles of a given kind. -/
inductive Value.Sendable (kind : Double → Prop) : Nat → Value → Prop where
  | null (n : Nat) : Sendable kind n .null
  | bool (n : Nat) (b : Bool) : Sendable kind n (.bool b)
  | int (n : Nat) (i : WireInt) : Sendable kind n (.int i)
  | float (n : Nat) {x : Double} (hx : kind x) : Sendable kind n (.float x)
  | str (n : Nat) (s : String) : Sendable kind n (.str s)
  | arr {n : Nat} {xs : List Value} (hxs : ∀ x ∈ xs, Sendable kind n x) :
      Sendable kind (n + 1) (.arr xs)
  | obj {n : Nat} {es : List (String × Value)} (ho : Entries.Ascending es)
      (hes : ∀ e ∈ es, Sendable kind n e.2) : Sendable kind (n + 1) (.obj es)

/-- More may be asked of a value than is needed. -/
theorem Value.Sendable.mono {kind kind' : Double → Prop} {n k : Nat} {v : Value} (h : v.Sendable kind n)
    (hkind : ∀ x, kind x → kind' x) (hn : n ≤ k) : v.Sendable kind' k := by
  induction h generalizing k with
  | null => exact .null k
  | bool _ b => exact .bool k b
  | int _ i => exact .int k i
  | float _ hx => exact .float k (hkind _ hx)
  | str _ s => exact .str k s
  | arr _ ih =>
      obtain ⟨k, rfl⟩ : ∃ j, k = j + 1 := ⟨k - 1, by omega⟩
      exact .arr fun x hx => ih x hx (by omega)
  | obj ho _ ih =>
      obtain ⟨k, rfl⟩ : ∃ j, k = j + 1 := ⟨k - 1, by omega⟩
      exact .obj ho fun e he => ih e he (by omega)

/-- All arguments of a message can be sent. -/
def Message.Sendable (kind : Double → Prop) (n : Nat) (m : Message) : Prop :=
  (∀ x ∈ m.args, x.Sendable kind n) ∧ ∀ e ∈ m.kwargs, e.2.Sendable kind n

theorem Message.Sendable.mono {kind kind' : Double → Prop} {n k : Nat} {m : Message} (h : m.Sendable kind n)
    (hkind : ∀ x, kind x → kind' x) (hn : n ≤ k) : m.Sendable kind' k :=
  ⟨fun x hx => (h.1 x hx).mono hkind hn, fun e he => (h.2 e he).mono hkind hn⟩

/-! ## Equality -/

mutual

/-- A value is the same as itself. -/
theorem Value.same_refl (v : Value) : v.same v = true := by
  cases v with
  | null => rw [Value.same]
  | bool b => simp [Value.same]
  | int n => simp [Value.same]
  | float x => simp [Value.same, Double.same]
  | str s => simp [Value.same]
  | arr xs =>
      rw [Value.same]
      exact Value.sameElements_refl xs
  | obj es =>
      rw [Value.same]
      exact Value.sameEntries_refl es

theorem Value.sameElements_refl (xs : List Value) : Value.sameElements xs xs = true := by
  cases xs with
  | nil => rw [Value.sameElements]
  | cons x xs => rw [Value.sameElements, Value.same_refl x, Value.sameElements_refl xs, Bool.and_self]

theorem Value.sameEntries_refl (es : List (String × Value)) : Value.sameEntries es es = true := by
  cases es with
  | nil => rw [Value.sameEntries]
  | cons e es => rw [Value.sameEntries, Value.sameEntry_refl e, Value.sameEntries_refl es, Bool.and_self]

theorem Value.sameEntry_refl (e : String × Value) : Value.sameEntry e e = true := by
  obtain ⟨k, v⟩ := e
  rw [Value.sameEntry, Value.same_refl v, beq_self_eq_true, Bool.and_self]

end

/-- A message is the same as itself. -/
theorem Message.same_refl (m : Message) : m.same m = true := by
  simp [Message.same, Value.sameElements_refl, Value.sameEntries_refl]

/-- Entries that are the same have the same keys with the same values. -/
theorem Value.exists_of_sameEntries {es fs : List (String × Value)} (h : Value.sameEntries es fs = true)
    {f : String × Value} (hf : f ∈ fs) : ∃ v, (f.1, v) ∈ es ∧ v.same f.2 = true := by
  induction fs generalizing es with
  | nil => simp at hf
  | cons g fs ih =>
      cases es with
      | nil => simp [Value.sameEntries] at h
      | cons e es =>
          obtain ⟨k, v⟩ := e
          rw [Value.sameEntries, Bool.and_eq_true] at h
          rcases List.mem_cons.1 hf with rfl | hf
          · obtain ⟨l, w⟩ := f
            obtain ⟨hk, hv⟩ : k = l ∧ v.same w = true := by simpa [Value.sameEntry] using h.1
            exact ⟨v, by simp [hk], hv⟩
          · obtain ⟨w, hw, hsame⟩ := ih h.2 hf
            exact ⟨w, List.mem_cons_of_mem _ hw, hsame⟩

/-! ## Fields of a message -/

/-- A field is found by its name. -/
theorem Field.ofName?_name (field : Field) : Field.ofName? field.name = some field := by
  cases field <;> rfl

end Courier
