/-!
# Revision — lists of entries that change one at a time

What is under way in a system stands in a list: operations of callers, runs, duties.  One move adds an entry at the
end or changes one of them, so that an entry is found again at its place.
-/

namespace Courier

section

variable {α : Type} {xs : List α} {i j : Nat} {x y : α}

/-- Where an entry has been added, one is as before or the new one. -/
theorem of_getElem?_concat (h : (xs ++ [x])[i]? = some y) : xs[i]? = some y ∨ i = xs.length ∧ y = x := by
  rw [List.getElem?_append] at h
  split at h
  · exact .inl h
  · next hge =>
    simp only [List.getElem?_singleton, Option.ite_none_right_eq_some, Option.some.injEq] at h
    exact .inr ⟨by omega, h.2.symm⟩

/-- Where an entry has been changed, one is as before or the changed one. -/
theorem of_getElem?_set (h : (xs.set i x)[j]? = some y) : i ≠ j ∧ xs[j]? = some y ∨ i = j ∧ y = x := by
  rw [List.getElem?_set] at h
  split at h
  · next hij =>
    split at h
    · exact .inr ⟨hij, (Option.some.inj h).symm⟩
    · simp at h
  · next hij => exact .inl ⟨hij, h⟩

/-- Where an entry has been added at the end, one at which the list is cut is the new one or was there before. -/
theorem of_concat_eq_append {ys zs : List α} (h : xs ++ [x] = ys ++ y :: zs) :
    zs = [] ∧ ys = xs ∧ y = x ∨ ∃ ws, zs = ws ++ [x] ∧ xs = ys ++ y :: ws := by
  rcases List.eq_nil_or_concat zs with rfl | ⟨ws, w, rfl⟩
  · obtain ⟨hfront, hlast⟩ := List.append_inj' h rfl
    exact .inl ⟨rfl, hfront.symm, (List.cons.inj hlast).1.symm⟩
  · rw [List.concat_eq_append, ← List.cons_append, ← List.append_assoc] at h
    obtain ⟨hfront, hlast⟩ := List.append_inj' h rfl
    obtain rfl := (List.cons.inj hlast).1
    exact .inr ⟨ws, List.concat_eq_append, hfront⟩

end

/-- A list to which an entry has been added at the end, or of which one has been changed, if anything. -/
inductive Revises {α : Type} (New : α → Prop) (Goes : Nat → α → α → Prop) (xs ys : List α) : Prop where
  | same (h : ys = xs)
  | added {y : α} (hn : New y) (h : ys = xs ++ [y])
  | changed {i : Nat} {x y : α} (hx : xs[i]? = some x) (hg : Goes i x y) (h : ys = xs.set i y)

namespace Revises

variable {α : Type} {New : α → Prop} {Goes : Nat → α → α → Prop} {xs ys : List α} {i : Nat} {x y : α}

theorem length_le (h : Revises New Goes xs ys) : xs.length ≤ ys.length := by
  cases h with
  | same hy => exact Nat.le_of_eq (by rw [hy])
  | added _ hy => simp [hy]
  | changed _ _ hy => exact Nat.le_of_eq (by rw [hy, List.length_set])

/-- What has become of an entry. -/
theorem get_to (h : Revises New Goes xs ys) (hx : xs[i]? = some x) :
    ∃ y, ys[i]? = some y ∧ (y = x ∨ Goes i x y) := by
  obtain ⟨hlt, -⟩ := List.getElem?_eq_some_iff.1 hx
  cases h with
  | same hy => exact ⟨x, hy ▸ hx, .inl rfl⟩
  | added _ hy => exact ⟨x, by rw [hy, List.getElem?_append_left hlt, hx], .inl rfl⟩
  | @changed j z y hz hg hy =>
      by_cases hji : j = i
      · obtain rfl := hji
        obtain rfl := Option.some.inj (hz.symm.trans hx)
        exact ⟨y, by rw [hy, List.getElem?_set_self hlt], .inr hg⟩
      · exact ⟨x, by rw [hy, List.getElem?_set_ne hji, hx], .inl rfl⟩

/-- What an entry has been. -/
theorem get_from (h : Revises New Goes xs ys) (hy : ys[i]? = some y) :
    New y ∨ ∃ x, xs[i]? = some x ∧ (y = x ∨ Goes i x y) := by
  cases h with
  | same heq => exact .inr ⟨y, heq ▸ hy, .inl rfl⟩
  | added hn heq =>
      rcases of_getElem?_concat (heq ▸ hy) with hx | ⟨-, rfl⟩
      · exact .inr ⟨y, hx, .inl rfl⟩
      · exact .inl hn
  | @changed j x z hx hg heq =>
      rcases of_getElem?_set (heq ▸ hy) with ⟨-, hx'⟩ | ⟨rfl, rfl⟩
      · exact .inr ⟨y, hx', .inl rfl⟩
      · exact .inr ⟨x, hx, .inr hg⟩

end Revises

/-! ## Entries of a kind -/

section

variable {α β : Type} {p : α → Bool} {f : α → Option β} {xs : List α} {i j : Nat} {x y : α} {b : β}

/-- Changing an entry changes how many there are of a kind by at most one. -/
theorem countP_set_add (hx : xs[i]? = some x) :
    (xs.set i y).countP p + (if p x then 1 else 0) = xs.countP p + if p y then 1 else 0 := by
  induction xs generalizing i with
  | nil => simp at hx
  | cons z zs ih =>
      cases i with
      | zero =>
          obtain rfl : z = x := by simpa using hx
          simp only [List.set_cons_zero, List.countP_cons]
          omega
      | succ i =>
          have hrest := ih (i := i) (by simpa using hx)
          simp only [List.set_cons_succ, List.countP_cons]
          omega

/-- Of a kind of which there is at most one, two entries are the same. -/
theorem eq_of_countP_le_one (h : xs.countP p ≤ 1) (hx : xs[i]? = some x) (hpx : p x = true)
    (hy : xs[j]? = some y) (hpy : p y = true) : i = j := by
  refine Classical.byContradiction fun hij => ?_
  induction xs generalizing i j with
  | nil => simp at hx
  | cons z zs ih =>
      rw [List.countP_cons] at h
      -- one of the two is behind the first entry, and the other is there too or is the first
      have hbehind : ∀ {l : Nat} {w : α}, zs[l]? = some w → p w = true → 0 < zs.countP p := fun hw hpw =>
        List.countP_pos_iff.2 ⟨_, List.mem_of_getElem? hw, hpw⟩
      cases i with
      | zero =>
          obtain rfl : z = x := by simpa using hx
          cases j with
          | zero => exact hij rfl
          | succ j =>
              have hpos := hbehind (l := j) (by simpa using hy) hpy
              simp only [hpx, if_true] at h
              omega
      | succ i =>
          have hpos := hbehind (l := i) (by simpa using hx) hpx
          cases j with
          | zero =>
              obtain rfl : z = y := by simpa using hy
              simp only [hpy, if_true] at h
              omega
          | succ j => exact ih (by omega) (by simpa using hx) (by simpa using hy) (by omega)

/-- A changed entry that yields the same as before. -/
theorem filterMap_set_eq (hx : xs[i]? = some x) (hy : f y = f x) : (xs.set i y).filterMap f = xs.filterMap f := by
  induction xs generalizing i with
  | nil => simp at hx
  | cons z zs ih =>
      cases i with
      | zero =>
          obtain rfl : z = x := by simpa using hx
          simp only [List.set_cons_zero, List.filterMap_cons, hy]
      | succ i =>
          have hrest := ih (i := i) (by simpa using hx)
          simp only [List.set_cons_succ, List.filterMap_cons, hrest]

/-- A changed entry that yields something now, while no entry behind it does. -/
theorem filterMap_set_concat (hx : xs[i]? = some x) (hfx : f x = none) (hy : f y = some b)
    (hlater : ∀ j z, i < j → xs[j]? = some z → f z = none) : (xs.set i y).filterMap f = xs.filterMap f ++ [b] := by
  induction xs generalizing i with
  | nil => simp at hx
  | cons z zs ih =>
      cases i with
      | zero =>
          obtain rfl : z = x := by simpa using hx
          have hnone : zs.filterMap f = [] := List.filterMap_eq_nil_iff.2 fun w hw => by
            obtain ⟨j, hj⟩ := List.mem_iff_getElem?.1 hw
            exact hlater (j + 1) w (Nat.succ_pos j) (by simpa using hj)
          simp only [List.set_cons_zero, List.filterMap_cons, hy, hfx, hnone, List.nil_append]
      | succ i =>
          have hrest := ih (i := i) (by simpa using hx) fun j w hj hw =>
            hlater (j + 1) w (Nat.succ_lt_succ hj) (by simpa using hw)
          rw [List.set_cons_succ, List.filterMap_cons, List.filterMap_cons, hrest]
          cases f z <;> rfl

end

end Courier
