import Courier.Throttle

/-!
# Throttle — spacing of admitted messages over whole runs

A gate that has judged messages one after the other remembers of them only when the last admitted one came, and not even
that if it came under a zero throttle.  The throttle may be another one for each message.

1. `Gate.Checked` lists what judging one message comes to,
2. `Gate.judge` is a run of the gate, and `Gate.last_after` says what it remembers at the end,
3. `Gate.checked_of_split` is the judgement on one message of a run, in terms of the messages before it,
4. `Gate.judge_kept` leaves refused messages out,
5. `Gate.spacing_of_judge` puts them together.
-/

namespace Courier

namespace Admission

/-- Whether a message is let through. -/
def isAdmitted : Admission → Bool
  | .admitted => true
  | .refused _ => false

end Admission

namespace Gate

/-! ## One message -/

/-- What judging a message comes to. -/
inductive Checked (g : Gate) (throttle now : Nat) : Admission → Gate → Prop where
  | free (hz : throttle = 0) : Checked g throttle now .admitted { last := none }
  | first (hz : 0 < throttle) (hl : g.last = none) : Checked g throttle now .admitted { last := some now }
  | late {last : Nat} (hz : 0 < throttle) (hl : g.last = some last) (ht : last + throttle ≤ now) :
      Checked g throttle now .admitted { last := some now }
  | early {last : Nat} (hl : g.last = some last) (ht : now - last < throttle) :
      Checked g throttle now (.refused (now - last)) g

theorem checked (g : Gate) (throttle now : Nat) :
    Checked g throttle now (g.check throttle now).1 (g.check throttle now).2 := by
  unfold check
  by_cases hz : throttle = 0
  · rw [if_pos hz]
    exact .free hz
  · rw [if_neg hz]
    have hpos : 0 < throttle := Nat.pos_of_ne_zero hz
    cases hl : g.last with
    | none => exact .first hpos hl
    | some last =>
        by_cases ht : throttle ≤ now - last
        · simp only [if_pos ht]
          exact .late hpos hl (by omega)
        · simp only [if_neg ht]
          exact .early hl (Nat.lt_of_not_le ht)

/-! ## Runs -/

/-- A message that has been judged. -/
structure Judgement where
  throttle : Nat
  instant : Nat
  admission : Admission
deriving DecidableEq

namespace Judgement

/-- The message as it comes to the gate: its throttle and its instant. -/
def arrival (j : Judgement) : Nat × Nat :=
  (j.throttle, j.instant)

/-- Whether the message has been let through. -/
def isAdmitted (j : Judgement) : Bool :=
  j.admission.isAdmitted

end Judgement

/-- The judgements on messages that come one after the other. -/
def judge (g : Gate) (arrivals : List (Nat × Nat)) : List Judgement :=
  List.zipWith (fun a d => ⟨a.1, a.2, d⟩) arrivals (g.checkAll arrivals)

/-- The gate when it has judged them. -/
def after (g : Gate) (arrivals : List (Nat × Nat)) : Gate :=
  arrivals.foldl (fun g a => (g.check a.1 a.2).2) g

variable {g : Gate} {a b : Judgement} {arrivals xs' : List (Nat × Nat)} {js kept xs ys zs : List Judgement}
  {lapse : Nat}

@[simp] theorem judge_nil (g : Gate) : g.judge [] = [] := rfl

@[simp] theorem judge_cons (g : Gate) (a : Nat × Nat) (arrivals : List (Nat × Nat)) :
    g.judge (a :: arrivals) = ⟨a.1, a.2, (g.check a.1 a.2).1⟩ :: (g.check a.1 a.2).2.judge arrivals := rfl

@[simp] theorem after_nil (g : Gate) : g.after [] = g := rfl

@[simp] theorem after_cons (g : Gate) (a : Nat × Nat) (arrivals : List (Nat × Nat)) :
    g.after (a :: arrivals) = (g.check a.1 a.2).2.after arrivals := rfl

theorem after_concat (g : Gate) (xs : List (Nat × Nat)) (a : Nat × Nat) :
    g.after (xs ++ [a]) = ((g.after xs).check a.1 a.2).2 := by
  simp [after]

/-- Each message is judged. -/
@[simp] theorem map_arrival_judge (g : Gate) (arrivals : List (Nat × Nat)) :
    (g.judge arrivals).map Judgement.arrival = arrivals := by
  induction arrivals generalizing g with
  | nil => rfl
  | cons a arrivals ih => simp [Judgement.arrival, ih]

theorem judge_append (g : Gate) (xs ys : List (Nat × Nat)) :
    g.judge (xs ++ ys) = g.judge xs ++ (g.after xs).judge ys := by
  induction xs generalizing g with
  | nil => rfl
  | cons a xs ih => simp [ih]

/-- The first messages of a run are judged as if no others came. -/
theorem judge_split (h : g.judge arrivals = xs ++ ys) :
    g.judge (xs.map Judgement.arrival) = xs ∧
      (g.after (xs.map Judgement.arrival)).judge (ys.map Judgement.arrival) = ys := by
  have harrivals : arrivals = xs.map Judgement.arrival ++ ys.map Judgement.arrival := by
    rw [← map_arrival_judge g arrivals, h, List.map_append]
  rw [harrivals, judge_append] at h
  refine List.append_inj h ?_
  rw [← List.length_map (f := Judgement.arrival), map_arrival_judge, List.length_map]

/-! ## What is remembered -/

/-- The last message that has been let through. -/
def lastAdmitted? (js : List Judgement) : Option Judgement :=
  js.reverse.find? Judgement.isAdmitted

/-- When the last message was let through, unless its throttle was zero. -/
def reference? (js : List Judgement) : Option Nat :=
  (lastAdmitted? js).bind fun j => if j.throttle = 0 then none else some j.instant

theorem lastAdmitted?_eq_some_iff :
    lastAdmitted? js = some a ↔
      ∃ xs ys, js = xs ++ a :: ys ∧ a.isAdmitted = true ∧ ∀ y ∈ ys, y.isAdmitted = false := by
  unfold lastAdmitted?
  rw [List.find?_eq_some_iff_append]
  constructor
  · rintro ⟨ha, ys, xs, hjs, hys⟩
    refine ⟨xs.reverse, ys.reverse, ?_, ha, fun y hy => by simpa using hys y (List.mem_reverse.1 hy)⟩
    rw [← List.reverse_reverse js, hjs, List.reverse_append, List.reverse_cons, List.append_assoc,
      List.singleton_append]
  · rintro ⟨xs, ys, rfl, ha, hys⟩
    refine ⟨ha, ys.reverse, xs.reverse, ?_, fun y hy => by simpa using hys y (List.mem_reverse.1 hy)⟩
    rw [List.reverse_append, List.reverse_cons, List.append_assoc, List.singleton_append]

/-- A message that is let through stays the last such until another one is. -/
theorem lastAdmitted?_append (ha : a.isAdmitted = true) (hys : ∀ y ∈ ys, y.isAdmitted = false) :
    lastAdmitted? (xs ++ a :: ys) = some a :=
  lastAdmitted?_eq_some_iff.2 ⟨xs, ys, rfl, ha, hys⟩

theorem reference?_concat (js : List Judgement) (j : Judgement) :
    reference? (js ++ [j]) =
      if j.isAdmitted then (if j.throttle = 0 then none else some j.instant) else reference? js := by
  unfold reference? lastAdmitted?
  rw [List.reverse_append, List.reverse_singleton, List.singleton_append, List.find?_cons]
  cases j.isAdmitted <;> rfl

/-- What a fresh gate remembers in the end is when the last message was let through under a throttle. -/
theorem last_after (arrivals : List (Nat × Nat)) :
    (Gate.after {} arrivals).last = reference? (Gate.judge {} arrivals) := by
  -- the induction adds a message at the end
  generalize hn : arrivals.length = n
  induction n generalizing arrivals with
  | zero =>
      obtain rfl := List.eq_nil_of_length_eq_zero hn
      rfl
  | succ n ih =>
      obtain ⟨xs, a, rfl⟩ : ∃ xs a, arrivals = xs ++ [a] := by
        rcases List.eq_nil_or_concat arrivals with rfl | ⟨xs, a, rfl⟩
        · simp at hn
        · exact ⟨xs, a, List.concat_eq_append⟩
      have hlast := ih xs (by simpa using hn)
      rw [judge_append, judge_cons, judge_nil, reference?_concat, after_concat]
      have hchecked := checked (Gate.after {} xs) a.1 a.2
      generalize (Gate.after {} xs).check a.1 a.2 = c at hchecked
      obtain ⟨d, next⟩ := c
      cases hchecked with
      | free hz => simp [Judgement.isAdmitted, Admission.isAdmitted, hz]
      | first hz _ | late hz _ _ => simp [Judgement.isAdmitted, Admission.isAdmitted, Nat.ne_of_gt hz]
      | early _ _ => exact hlast

/-- A message of a run is judged by what is remembered of those before it. -/
theorem checked_of_split (h : Gate.judge {} arrivals = xs ++ b :: zs) :
    ∃ g, Checked ⟨reference? xs⟩ b.throttle b.instant b.admission g := by
  obtain ⟨hfront, hrest⟩ := judge_split h
  have hgate : Gate.after {} (xs.map Judgement.arrival) = ⟨reference? xs⟩ := by
    have hlast := last_after (xs.map Judgement.arrival)
    rw [hfront] at hlast
    rw [← hlast]
  rw [List.map_cons, judge_cons, List.cons.injEq, hgate] at hrest
  have hadmission : (Gate.check ⟨reference? xs⟩ b.throttle b.instant).1 = b.admission :=
    congrArg Judgement.admission hrest.1
  exact ⟨_, hadmission ▸ checked _ _ _⟩

/-- What is remembered goes back to the message that was let through last. -/
theorem admitted_of_reference? {t : Nat} (h : reference? js = some t) :
    ∃ xs a ys, js = xs ++ a :: ys ∧ a.isAdmitted = true ∧ (∀ y ∈ ys, y.isAdmitted = false) ∧
      0 < a.throttle ∧ a.instant = t := by
  obtain ⟨a, hlast, ha⟩ := Option.bind_eq_some_iff.1 h
  obtain ⟨xs, ys, hjs, hadmitted, hys⟩ := lastAdmitted?_eq_some_iff.1 hlast
  obtain ⟨hz, ht⟩ : a.throttle ≠ 0 ∧ a.instant = t := by simpa using ha
  exact ⟨xs, a, ys, hjs, hadmitted, hys, Nat.pos_of_ne_zero hz, ht⟩

/-! ## Spacing -/

/-- Two messages that are let through one after the other under a throttle are apart by the throttle of the second. -/
theorem spaced_of_split (h : Gate.judge {} arrivals = xs ++ a :: ys ++ b :: zs) (ha : a.isAdmitted = true)
    (hys : ∀ y ∈ ys, y.isAdmitted = false) (hb : b.isAdmitted = true) (hz : 0 < a.throttle)
    (hz' : 0 < b.throttle) : a.instant + b.throttle ≤ b.instant := by
  have hreference : reference? (xs ++ a :: ys) = some a.instant := by
    rw [reference?, lastAdmitted?_append ha hys, Option.bind_some, if_neg (Nat.ne_of_gt hz)]
  obtain ⟨g, hchecked⟩ := checked_of_split h
  rw [hreference] at hchecked
  generalize hd : b.admission = d at hchecked
  cases hchecked with
  | free hzero => omega
  | first _ hl => simp at hl
  | late _ hl ht =>
      obtain rfl := Option.some.inj hl
      exact ht
  | early _ _ => simp [Judgement.isAdmitted, hd, Admission.isAdmitted] at hb

/-- What is so of each element and all before it is so of all pairs. -/
theorem pairwise_of_splits {α : Type} {R : α → α → Prop} {l : List α}
    (h : ∀ xs b zs, l = xs ++ b :: zs → ∀ a ∈ xs, R a b) : l.Pairwise R := by
  induction l with
  | nil => exact .nil
  | cons x l ih =>
      refine List.pairwise_cons.2 ⟨fun b hb => ?_, ih fun xs b zs hl a ha => ?_⟩
      · obtain ⟨ys, zs, rfl⟩ := List.append_of_mem hb
        exact h (x :: ys) b zs rfl x (List.mem_cons_self ..)
      · exact h (x :: xs) b zs (by rw [hl]; rfl) a (List.mem_cons_of_mem _ ha)

/-- Instants within bounds that are some time apart are few. -/
theorem length_of_spaced {T lo hi : Nat} {ts : List Nat} (hs : ts.Pairwise fun s t => s + T ≤ t)
    (hlo : ∀ t ∈ ts, lo ≤ t) (hhi : ∀ t ∈ ts, t ≤ hi) (hne : ts ≠ []) : lo + (ts.length - 1) * T ≤ hi := by
  induction ts generalizing lo with
  | nil => exact absurd rfl hne
  | cons s ts ih =>
      obtain ⟨hlater, hrest⟩ := List.pairwise_cons.1 hs
      have hs' : lo ≤ s := hlo s (List.mem_cons_self ..)
      cases ts with
      | nil => simpa using Nat.le_trans hs' (hhi s (List.mem_cons_self ..))
      | cons t ts =>
          have hbound : lo + T + ((t :: ts).length - 1) * T ≤ hi := ih hrest
            (fun u hu => Nat.le_trans (Nat.add_le_add_right hs' T) (hlater u hu))
            (fun u hu => hhi u (List.mem_cons_of_mem _ hu)) (by simp)
          calc lo + ((s :: t :: ts).length - 1) * T = lo + T + ((t :: ts).length - 1) * T := by
                simp [Nat.add_mul]
                omega
            _ ≤ hi := hbound

/-- The message is let through within a stretch of time. -/
def Judgement.isWithin (start length : Nat) (j : Judgement) : Bool :=
  j.isAdmitted && decide (start ≤ j.instant) && decide (j.instant ≤ start + length)

theorem Judgement.isWithin_iff {start length : Nat} {j : Judgement} :
    j.isWithin start length = true ↔ j.isAdmitted = true ∧ start ≤ j.instant ∧ j.instant ≤ start + length := by
  simp [isWithin, and_assoc]

/-- In a stretch of time in which the throttle is never below `T` no two messages are let through within `T`. -/
theorem pairwise_within {T start length : Nat} (hT : 0 < T)
    (hordered : (Gate.judge {} arrivals).Pairwise fun a b => a.instant ≤ b.instant)
    (hthrottle : ∀ j ∈ Gate.judge {} arrivals, start ≤ j.instant → j.instant ≤ start + length → T ≤ j.throttle) :
    ((Gate.judge {} arrivals).filter (Judgement.isWithin start length)).Pairwise
      fun a b => a.instant + T ≤ b.instant := by
  rw [List.pairwise_filter]
  refine pairwise_of_splits fun xs b zs hsplit a ha hwithin hwithin' => ?_
  obtain ⟨hadmitted, hstart, -⟩ := Judgement.isWithin_iff.1 hwithin
  obtain ⟨hadmitted', -, hend⟩ := Judgement.isWithin_iff.1 hwithin'
  -- between the two there may be others that are let through, the last of them nearest to the second
  obtain ⟨c, hlast⟩ : ∃ c, lastAdmitted? xs = some c := by
    refine Option.isSome_iff_exists.1 (List.find?_isSome.2 ⟨a, List.mem_reverse.2 ha, hadmitted⟩)
  obtain ⟨us, vs, rfl, hc, hvs⟩ := lastAdmitted?_eq_some_iff.1 hlast
  have hac : a.instant ≤ c.instant := by
    rw [hsplit] at hordered
    rcases List.mem_append.1 ha with hus | hcv
    · have hfront := (List.pairwise_append.1 (List.pairwise_append.1 hordered).1).2.2
      exact hfront a hus c (List.mem_cons_self ..)
    · rcases List.mem_cons.1 hcv with rfl | hmem
      · exact Nat.le_refl _
      · simp [hvs a hmem] at hadmitted
  have hcb : c.instant ≤ b.instant := by
    rw [hsplit] at hordered
    exact (List.pairwise_append.1 hordered).2.2 c (by simp) b (List.mem_cons_self ..)
  have hTc := hthrottle c (by rw [hsplit]; simp) (Nat.le_trans hstart hac) (Nat.le_trans hcb hend)
  have hTb := hthrottle b (by rw [hsplit]; simp) (Nat.le_trans hstart (Nat.le_trans hac hcb)) hend
  have hspaced := spaced_of_split hsplit hc hvs hadmitted' (Nat.lt_of_lt_of_le hT hTc) (Nat.lt_of_lt_of_le hT hTb)
  calc a.instant + T ≤ c.instant + b.throttle := Nat.add_le_add hac hTb
    _ ≤ b.instant := hspaced

/-- Few messages are let through within a stretch of time. -/
theorem countP_within {T start length : Nat} (hT : 0 < T)
    (hspaced : (js.filter (Judgement.isWithin start length)).Pairwise fun a b => a.instant + T ≤ b.instant) :
    js.countP (Judgement.isWithin start length) ≤ length / T + 1 := by
  rw [List.countP_eq_length_filter]
  have hwithin : ∀ j ∈ js.filter (Judgement.isWithin start length), start ≤ j.instant ∧ j.instant ≤ start + length :=
    fun j hj => (Judgement.isWithin_iff.1 (List.mem_filter.1 hj).2).2
  generalize js.filter (Judgement.isWithin start length) = ws at hspaced hwithin
  cases ws with
  | nil => simp
  | cons w ws =>
      have hspaced' : ((w :: ws).map Judgement.instant).Pairwise fun s t => s + T ≤ t := List.pairwise_map.2 hspaced
      have hbound := length_of_spaced hspaced'
        (List.forall_mem_map.2 fun j hj => (hwithin j hj).1) (List.forall_mem_map.2 fun j hj => (hwithin j hj).2)
        (by simp)
      rw [List.length_map, List.length_cons, Nat.add_sub_cancel] at hbound
      have hquotient : ws.length ≤ length / T := (Nat.le_div_iff_mul_le hT).2 (by omega)
      rw [List.length_cons]
      omega

/-- A refused message came too early after the one that was let through last. -/
theorem admitted_of_refused (h : Gate.judge {} arrivals = xs ++ b :: zs) (hb : b.admission = .refused lapse) :
    ∃ ws a ys, xs = ws ++ a :: ys ∧ a.isAdmitted = true ∧ (∀ y ∈ ys, y.isAdmitted = false) ∧
      lapse = b.instant - a.instant ∧ lapse < b.throttle := by
  obtain ⟨g, hchecked⟩ := checked_of_split h
  rw [hb] at hchecked
  cases hchecked with
  | early hl ht =>
      obtain ⟨ws, a, ys, hxs, ha, hys, -, rfl⟩ := admitted_of_reference? hl
      exact ⟨ws, a, ys, hxs, ha, hys, rfl, ht⟩

/-! ## Leaving refused messages out -/

/-- Whoever is refused leaves no trace in the gate. -/
theorem judge_kept (hsub : kept.Sublist (g.judge arrivals))
    (hall : kept.filter Judgement.isAdmitted = (g.judge arrivals).filter Judgement.isAdmitted) :
    g.judge (kept.map Judgement.arrival) = kept := by
  induction arrivals generalizing g kept with
  | nil =>
      obtain rfl := List.sublist_nil.1 hsub
      rfl
  | cons a arrivals ih =>
      rw [judge_cons] at hsub hall
      generalize hj : Judgement.mk a.1 a.2 (g.check a.1 a.2).1 = j at hsub hall
      cases hsub with
      | cons _ hsub =>
          -- the message has been left out, so that it is none that was let through
          cases hadmitted : j.isAdmitted with
          | true =>
              have hle := (hsub.filter Judgement.isAdmitted).length_le
              rw [hall, List.filter_cons_of_pos hadmitted, List.length_cons] at hle
              omega
          | false =>
              have hgate : (g.check a.1 a.2).2 = g := by
                have hchecked := checked g a.1 a.2
                generalize g.check a.1 a.2 = c at hj hchecked
                obtain ⟨d, next⟩ := c
                cases hchecked with
                | early _ _ => rfl
                | _ =>
                    rw [← hj] at hadmitted
                    simp [Judgement.isAdmitted, Admission.isAdmitted] at hadmitted
              rw [List.filter_cons_of_neg (by simp [hadmitted]), hgate] at hall
              rw [hgate] at hsub
              exact ih hsub hall
      | @cons_cons kept _ _ hsub =>
          have hrest : kept.filter Judgement.isAdmitted =
              ((g.check a.1 a.2).2.judge arrivals).filter Judgement.isAdmitted := by
            cases hadmitted : j.isAdmitted with
            | true =>
                rw [List.filter_cons_of_pos hadmitted, List.filter_cons_of_pos hadmitted] at hall
                exact (List.cons.inj hall).2
            | false =>
                rwa [List.filter_cons_of_neg (by simp [hadmitted]),
                  List.filter_cons_of_neg (by simp [hadmitted])] at hall
          rw [← hj, List.map_cons, judge_cons]
          exact congrArg _ (ih hsub hrest)

/-! ## Whole runs -/

/-- What becomes of messages that come one after the other to a fresh gate, each with a throttle of its own.

- Of two messages that are let through one after the other, the first under a throttle, the second comes at least its
  own throttle after the first.
- While the throttle is never below `T`, at most `length / T + 1` messages are let through within a stretch of time.
- A message is refused only if it comes sooner than its throttle after the one that was let through last, and the lapse
  it is refused with is the time between the two.
- If refused messages are left out, the same becomes of all others. -/
theorem spacing_of_judge (arrivals : List (Nat × Nat)) (h : arrivals.Pairwise fun a b => a.2 ≤ b.2) :
    (Gate.judge {} arrivals).map Judgement.arrival = arrivals ∧
    (∀ xs a ys b zs, Gate.judge {} arrivals = xs ++ a :: ys ++ b :: zs → a.isAdmitted = true →
      (∀ y ∈ ys, y.isAdmitted = false) → b.isAdmitted = true → 0 < a.throttle →
      a.instant + b.throttle ≤ b.instant) ∧
    (∀ T start length, 0 < T → (∀ a ∈ arrivals, start ≤ a.2 → a.2 ≤ start + length → T ≤ a.1) →
      (Gate.judge {} arrivals).countP (Judgement.isWithin start length) ≤ length / T + 1) ∧
    (∀ xs b zs lapse, Gate.judge {} arrivals = xs ++ b :: zs → b.admission = .refused lapse →
      ∃ ws a ys, xs = ws ++ a :: ys ∧ a.isAdmitted = true ∧ (∀ y ∈ ys, y.isAdmitted = false) ∧
        a.instant + lapse = b.instant ∧ lapse < b.throttle) ∧
    (∀ kept, kept.Sublist (Gate.judge {} arrivals) →
      kept.filter Judgement.isAdmitted = (Gate.judge {} arrivals).filter Judgement.isAdmitted →
      Gate.judge {} (kept.map Judgement.arrival) = kept) := by
  have hordered : (Gate.judge {} arrivals).Pairwise fun a b => a.instant ≤ b.instant := by
    rw [← map_arrival_judge {} arrivals, List.pairwise_map] at h
    exact h
  refine ⟨map_arrival_judge {} arrivals, fun xs a ys b zs hsplit ha hys hb hz => ?_,
    fun T start length hT hthrottle => ?_, fun xs b zs lapse hsplit hb => ?_,
    fun kept hsub hall => judge_kept hsub hall⟩
  · rcases Nat.eq_zero_or_pos b.throttle with hzero | hz'
    · rw [hsplit] at hordered
      rw [hzero]
      exact (List.pairwise_append.1 hordered).2.2 a (by simp) b (List.mem_cons_self ..)
    · exact spaced_of_split hsplit ha hys hb hz hz'
  · have hthrottle' : ∀ j ∈ Gate.judge {} arrivals,
        start ≤ j.instant → j.instant ≤ start + length → T ≤ j.throttle := by
      intro j hj
      refine hthrottle j.arrival ?_
      rw [← map_arrival_judge {} arrivals]
      exact List.mem_map_of_mem hj
    exact countP_within hT (pairwise_within hT hordered hthrottle')
  · obtain ⟨ws, a, ys, rfl, ha, hys, rfl, ht⟩ := admitted_of_refused hsplit hb
    rw [hsplit] at hordered
    have hle := (List.pairwise_append.1 hordered).2.2 a (by simp) b (List.mem_cons_self ..)
    exact ⟨ws, a, ys, rfl, ha, hys, by omega, ht⟩

/-- The throttle goes down, is taken away, and is set again. -/
def sevenMessages : List (Nat × Nat) :=
  [(100, 0), (100, 10), (40, 60), (100, 100), (0, 120), (100, 130), (100, 150)]

theorem spacing_of_seven_messages :
    sevenMessages.Pairwise (fun a b => a.2 ≤ b.2) ∧
    (Gate.judge {} sevenMessages).map Judgement.admission =
      [.admitted, .refused 10, .admitted, .refused 40, .admitted, .admitted, .refused 20] ∧
    (Gate.judge {} sevenMessages).countP (Judgement.isWithin 0 100) ≤ 100 / 40 + 1 ∧
    Gate.judge {} [(100, 0), (40, 60), (0, 120), (100, 130)] =
      (Gate.judge {} sevenMessages).filter Judgement.isAdmitted := by
  have hordered : sevenMessages.Pairwise (fun a b => a.2 ≤ b.2) := by decide
  obtain ⟨-, -, hwindow, -, hkept⟩ := spacing_of_judge sevenMessages hordered
  exact ⟨hordered, rfl, hwindow 40 0 100 (by decide) (by decide),
    hkept ((Gate.judge {} sevenMessages).filter Judgement.isAdmitted) List.filter_sublist (by simp)⟩

end Gate
end Courier
