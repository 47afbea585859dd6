import Courier.Proofs.Server.Filing
import Courier.Proofs.Server.Runs

/-!
# Undisturbed — servers that nobody stops

While nobody stops the server, the flag that refuses connections is down for every run that has begun meanwhile, and
nobody but their registrars takes attendants of these runs out of the set.

- `Server.Undisturbed`, `Server.undisturbed_of_access` — what is so of runs for as long as nobody stops the server,
- `Server.Kept`, `Server.kept_of_access` — their attendants are in the set between start and end.
-/

namespace Courier

variable {μ : Type} [Marshaler μ]

namespace Agenda

variable {p q : Agenda} {r : Nat}

/-- No round is set up but by a loop that has begun. -/
theorem Lawful.badges_le (hl : p.Lawful) : p.badges.length ≤ p.begun.length := by
  by_cases hall : ∀ (k : Nat) phase, p.phases[k]? = some phase → phase = .finished
  · exact Nat.le_of_eq (hl.rest hall).badges
  · obtain ⟨k, hall⟩ := Classical.not_forall.1 hall
    obtain ⟨phase, hall⟩ := Classical.not_forall.1 hall
    obtain ⟨hk, hne⟩ := Classical.not_imp.1 hall
    obtain ⟨duty, -, -, hstand⟩ := hl.stand_of_phase hk hne
    cases hstand with
    | waiting _ _ _ hb _ => exact Nat.le_of_eq hb
    | opening _ _ hlen _ _ => exact Nat.le_of_lt (Nat.lt_of_lt_of_eq (Nat.lt_succ_self _) hlen.symm)
    | hiring _ _ hs _ _ _ | opens _ hs _ _ _ | retiring hs _ _ _ _ | dismissing hs _ _ _ _
    | parting hs _ _ _ _ | leaving _ hs _ _ _ _ _ => exact Nat.le_of_eq (hs.badges.trans hs.last.symm)

/-- A registrar that is at work has been so before, or is being hired. -/
theorem badge_from_of_turn (h : Turn p q) {b : Bool} (hb : q.badges[r]? = some (true, b)) :
    (∃ b', p.badges[r]? = some (true, b')) ∨ ∃ (k : Nat) (a : Address), p.duties[k]? = some (.hiring r a) := by
  cases h with
  | openRound k a _ =>
      have hb' : (p.badges ++ [(false, false)])[r]? = some (true, b) := hb
      rw [List.getElem?_append] at hb'
      split at hb'
      · exact .inl ⟨b, hb'⟩
      · simp [List.getElem?_singleton] at hb'
  | hire k i a hd =>
      by_cases hir : i = r
      · exact .inr ⟨k, a, hir ▸ hd⟩
      · exact .inl ⟨b, (List.getElem?_modify_ne _ _ hir).symm.trans hb⟩
  | dismiss k i _ =>
      by_cases hir : i = r
      · obtain rfl := hir
        have hb' : (p.badges.modify i fun b => (b.1, true))[i]? = some (true, b) := hb
        rw [List.getElem?_modify_eq, Option.map_eq_map, Option.map_eq_some_iff] at hb'
        obtain ⟨⟨staffed, quit⟩, hb', heq⟩ := hb'
        obtain rfl : staffed = true := congrArg Prod.fst heq
        exact .inl ⟨quit, hb'⟩
      · exact .inl ⟨b, (List.getElem?_modify_ne _ _ hir).symm.trans hb⟩
  | _ => exact .inl ⟨b, hb⟩

end Agenda

namespace Server

/-- Whether an operation is a stop that is under way. -/
def Call.isHalting : Server.Call → Bool
  | .barring _ => true
  | .closing _ => true
  | .emptying => true
  | .stopping _ => true
  | _ => false

/-- Whether a move begins a stop. -/
def Move.isStop : Move → Bool
  | .stop => true
  | .drop => true
  | _ => false

variable {s t : Server μ} {m : Move} {a : AttendantId} {x y : Member μ} {k n r : Nat} {round round' : Round}
  {g g' : Registrar} {ns : List Notice}

/-! ## Runs that nobody stops -/

/-- No stop is under way. -/
def Unhalted (s : Server μ) : Prop :=
  ∀ (i : Nat) c, s.calls[i]? = some c → c.isHalting = false

theorem unhalted_of_access (h : Access s m t) (hm : m.isStop = false) (hs : s.Unhalted) : t.Unhalted := by
  have hconcat : ∀ {c : Server.Call}, t.calls = s.calls ++ [c] → c.isHalting = false → t.Unhalted := by
    intro c ht hc i d hd
    rcases of_getElem?_concat (ht ▸ hd) with hd | ⟨-, rfl⟩
    · exact hs i d hd
    · exact hc
  have hset : ∀ {i : Nat} {c : Server.Call}, t.calls = s.calls.set i c → c.isHalting = false → t.Unhalted :=
    fun ht hc => by
      unfold Unhalted
      rw [ht]
      exact forall_set hs hc
  have hsame : t.calls = s.calls → t.Unhalted := fun ht => by
    unfold Unhalted
    rw [ht]
    exact hs
  cases h with
  | refuseRun _ => exact hconcat rfl rfl
  | claim _ => exact hconcat rfl rfl
  | refuseStop _ _ hstop _ => rcases hstop with rfl | rfl <;> simp [Move.isStop] at hm
  | beginStop _ _ _ hstop _ => rcases hstop with rfl | rfl <;> simp [Move.isStop] at hm
  | bound i k r p _ _ _ => exact hset rfl rfl
  | forgo i k r e _ _ _ => exact hset rfl rfl
  | keep i k _ => exact hset rfl rfl
  | bar i k hc => exact absurd (hs i _ hc) (by simp [Call.isHalting])
  | close i k r hc _ _ => exact absurd (hs i _ hc) (by simp [Call.isHalting])
  | empty i hc => exact absurd (hs i _ hc) (by simp [Call.isHalting])
  | finishStop i hc => exact hset rfl rfl
  | stopNext i b left hc => exact absurd (hs i _ hc) (by simp [Call.isHalting])
  | turnAway _ _ _ _ _ _ | clearStart _ _ _ _ _ _ _ => exact hsame calls_stopAttendant
  | enter _ _ _ _ _ _ => exact hsame calls_track
  | hire _ _ _ _ _ | dismiss _ _ _ _ => exact hsame calls_setRound
  | _ => exact hsame rfl

theorem not_sweeps (hs : s.Unhalted) : ¬ s.Sweeps := by
  rintro ⟨i, c, hc, hsweep⟩
  have hhalting := hs i c hc
  cases c <;> simp_all [Call.isHalting, Call.isSweeping]

/-- A registrar is hired by the run that has set up its round. -/
theorem begun_of_hiring (hl : s.agenda.Lawful) {p : Address} (hd : s.duties[k]? = some (.hiring r p)) :
    s.agenda.begun[r]? = some k := by
  obtain ⟨phase, -, -, -, hstand⟩ := hl.stand_of_duty (k := k) hd (by simp)
  obtain ⟨-, hseat, -⟩ := hstand.of_hiring (.inr rfl)
  exact hseat.begun

/-- A round that has been set up belongs to the run that it has belonged to before. -/
theorem begun_from (h : Access s m t) (hl : s.agenda.Lawful) (hlt : r < s.agenda.badges.length)
    (hr : t.agenda.begun[r]? = some k) : s.agenda.begun[r]? = some k := by
  have hj := List.getElem?_eq_getElem (Nat.lt_of_lt_of_le hlt hl.badges_le)
  rw [← hr, Agenda.getElem?_of_front (begun_of_access h) hj, hj]

/-- What is so of the runs from the `n`-th on, if all of them have begun after the last stop. -/
structure Undisturbed (s : Server μ) (n : Nat) : Prop where
  callers : s.Unhalted
  asked : ∀ k, n ≤ k → s.dispatcher.isClosed k = false
  hiring : ∀ (k r : Nat) p, n ≤ k → s.duties[k]? = some (.hiring r p) → s.closing = false
  flag : ∀ (k r : Nat) b, n ≤ k → s.agenda.begun[r]? = some k → s.agenda.badges[r]? = some (true, b) →
    s.closing = false

/-- No run has begun since. -/
theorem undisturbed_of_unhalted (hl : s.agenda.Lawful) (hs : s.Unhalted) :
    s.Undisturbed s.dispatcher.runs.length := by
  have hphases : s.agenda.phases.length = s.dispatcher.runs.length := by simp [agenda]
  refine ⟨hs, fun k hk => ?_, fun k r p hk hd => ?_, fun k r b hk hr _ => ?_⟩
  · simp [Dispatcher.isClosed, List.getElem?_eq_none hk]
  · -- there are no loops but those of runs that have claimed the server
    have hlen : s.duties.length = s.agenda.phases.length := hl.length
    obtain ⟨hlt, -⟩ := List.getElem?_eq_some_iff.1 hd
    omega
  · have hlt := hl.begun_lt k (List.mem_of_getElem? hr)
    omega

theorem closing_of_unhalted (h : Access s m t) (ht : t.Unhalted) (hc : s.closing = false) :
    t.closing = false := by
  refine Bool.eq_false_iff.2 fun hraised => ?_
  rcases closing_from h hraised with hraised' | hsweeps
  · simp [hc] at hraised'
  · exact not_sweeps ht hsweeps

theorem undisturbed_of_access (h : Access s m t) (hm : m.isStop = false) (hl : s.agenda.Lawful)
    (hs : s.Undisturbed n) : t.Undisturbed n := by
  have hunhalted := unhalted_of_access h hm hs.callers
  refine ⟨hunhalted, fun k hk => ?_, fun k r p hk hd => ?_, fun k r b hk hr hb => ?_⟩
  · -- only a stop asks a run to end
    refine Bool.eq_false_iff.2 fun hclosed => ?_
    rcases isClosed_from h hclosed with hclosed' | ⟨i, -, hi⟩
    · simp [hs.asked k hk] at hclosed'
    · have hhalting := hs.callers i _ hi
      simp [Call.isHalting] at hhalting
  · rcases duty_from h hd with hd' | hcomes
    · exact closing_of_unhalted h hunhalted (hs.hiring k r p hk hd')
    · generalize hduty : Duty.hiring r p = d at hcomes
      cases hcomes with
      | hiring _ _ hlow => exact hlow
      | called outcome _ => cases outcome <;> simp [Dispatcher.callbackOf, Duty.ofCallback] at hduty
      | _ => simp at hduty
  · -- the round of the run had a registrar before, or gets it now
    refine closing_of_unhalted h hunhalted ?_
    have hback : (∃ b', s.agenda.badges[r]? = some (true, b')) ∨
        ∃ (k : Nat) (p : Address), s.duties[k]? = some (.hiring r p) := by
      rcases turn_of_access h with heq | hturn
      · exact .inl ⟨b, heq ▸ hb⟩
      · exact Agenda.badge_from_of_turn hturn hb
    rcases hback with ⟨b', hb'⟩ | ⟨j, p, hd⟩
    · obtain ⟨hlt, -⟩ := List.getElem?_eq_some_iff.1 hb'
      exact hs.flag k r b' hk (begun_from h hl hlt hr) hb'
    · have hj := Agenda.getElem?_of_front (begun_of_access h) (begun_of_hiring hl hd)
      obtain rfl := Option.some.inj (hj.symm.trans hr)
      exact hs.hiring j r p hk hd

namespace Undisturbed

/-- The flag is down for members of these runs. -/
theorem closing (hs : s.Undisturbed n) (hp : s.Posted) (hx : s.members[a]? = some x)
    (hk : s.runOf? x = some k) (hn : n ≤ k) : s.closing = false := by
  obtain ⟨round, hr, hstaffed, -⟩ := hp.joined a x hx
  refine hs.flag k x.round round.quit hn hk ?_
  rw [badge_at hr, Round.badge, hstaffed]

/-- Their registrars have not been told to end. -/
theorem quit (hs : s.Undisturbed n) (hl : s.agenda.Lawful) (hp : s.Parted) (hr : s.rounds[r]? = some round)
    (hk : s.agenda.begun[r]? = some k) (hn : n ≤ k) : round.quit = false := by
  refine Bool.eq_false_iff.2 fun hquit => ?_
  have hbadge : s.agenda.badges[r]? = some (round.isStaffed, true) := by
    rw [badge_at hr, Round.badge, hquit]
  have hclosed := hp.asked k (hl.ended_of_dismissed hk hbadge)
  simp [hs.asked k hn] at hclosed

end Undisturbed

/-! ## Attendants of these runs -/

/-- An attendant whose start the registrar has dealt with is in the set, unless the registrar has dealt with its end
as well. -/
def Shown (s : Server μ) (a : AttendantId) (ns : List Notice) (g : Registrar) : Prop :=
  .started a ∈ ns → g ≠ .entering a → a ∈ s.tracked ∨ ∃ e, .stopped a e ∈ ns ∧ g ≠ .erasing a e

theorem Shown.keep (h : Shown s a ns g) (ht : a ∈ s.tracked → a ∈ t.tracked)
    (hg : g' = g ∨ g ≠ .entering a ∧ ∀ e, g' ≠ .erasing a e) : Shown t a ns g' := by
  intro hmem hentering
  rcases hg with rfl | ⟨hne, hne'⟩
  · exact (h hmem hentering).imp ht id
  · exact (h hmem hne).imp ht fun ⟨e, he, _⟩ => ⟨e, he, hne' e⟩

theorem Shown.of_tracked (h : a ∈ s.tracked) : Shown s a ns g :=
  fun _ _ => .inl h

/-- All attendants of runs from the `n`-th on are shown. -/
def Kept (s : Server μ) (n : Nat) : Prop :=
  ∀ (a : AttendantId) x k round, s.members[a]? = some x → s.runOf? x = some k → n ≤ k →
    s.rounds[x.round]? = some round → Shown s a (round.heard a) round.registrar

/-- Nobody has been accepted by a run that has not begun. -/
theorem kept_of_lawful (hl : s.agenda.Lawful) : s.Kept s.dispatcher.runs.length := by
  intro a x k round _ hk hn _
  have hlt := hl.begun_lt k (List.mem_of_getElem? hk)
  have hphases : s.agenda.phases.length = s.dispatcher.runs.length := by simp [agenda]
  omega

/-- Nobody is erased from the set but whoever the registrar has in hand. -/
theorem RelayGoes.keeps (h : RelayGoes s m t r round round') (ha : ∀ e, round.registrar ≠ .erasing a e)
    (hin : a ∈ s.tracked) : a ∈ t.tracked := by
  cases h with
  | entered _ _ ht _ _ => exact ht ▸ mem_track (.inl hin)
  | @erased b e hg ht _ _ =>
      rw [ht]
      refine List.mem_filter.2 ⟨hin, ?_⟩
      have hne : a ≠ b := fun hab => ha e (hab ▸ hg)
      simpa using hne
  | announced _ _ _ ht _ => exact ht ▸ hin
  | reported _ _ _ ht _ => exact ht ▸ hin
  | hired _ hu | dismissed _ hu | poised _ _ hu | heeded _ _ hu | takenStart _ _ _ hu | takenEnd _ _ _ hu
  | turnedAway _ _ hu | shut _ hu | cleared _ _ hu | finished _ _ hu | offered _ _ _ _ hu =>
      exact hu.tracked ▸ hin

theorem Filed.heard_of_erasing {e : Ending} (h : Filed s a ns (.erasing a e)) :
    ns = [.started a, .stopped a e] := by
  cases h with
  | erasing _ _ _ => rfl
  | unheard hne _ _ _ | begun hne _ _ | ended _ hne _ _ => exact absurd rfl hne

/-- A registrar goes on, and with it what is shown of a member of its round. -/
theorem shown_of_goes (h : RelayGoes s m t r round round') (hl : s.agenda.Lawful) (hr : s.rounds[r]? = some round)
    (hstaffed : round.isStaffed = true) (hsound : round.Sound) (hclosing : s.closing = false)
    (hquit : round.quit = false) {c : Attendant μ} (hrep : c.Reported a (s.portsOf round))
    (hf : s.Filed a (round.heard a) round.registrar) (hs : Shown s a (round.heard a) round.registrar) :
    Shown t a (round'.heard a) round'.registrar := by
  have hothers : (∀ e, round.registrar ≠ .erasing a e) → a ∈ s.tracked → a ∈ t.tracked := h.keeps
  cases h with
  | hired hd _ => simp [unstaffed_of_hiring hl hd hr] at hstaffed
  | dismissed _ hu | poised _ _ hu => exact hs.keep (fun hin => hu.tracked ▸ hin) (.inl rfl)
  -- nobody has told the registrar to end
  | heeded _ hq _ => simp [hquit] at hq
  | @takenStart b inbox hg _ ht hu =>
      by_cases hba : b = a
      · -- what the registrar has in hand does not have to be shown yet
        rintro - hentering
        exact absurd (congrArg Registrar.entering hba) hentering
      · rw [heard_of_take?_ne ht _ _ hba]
        exact hs.keep (hothers (by simp [hg])) (.inr (by simp [hg]))
  | @takenEnd b e inbox hg _ ht hu =>
      by_cases hba : b = a
      · -- the end of an attendant is taken while it is in the set
        obtain rfl := hba
        have hone := heard_of_end hrep ht
        rw [hone, hg] at hs
        refine .of_tracked (hothers (by simp [hg]) ?_)
        exact (hs (List.mem_singleton.2 rfl) (by simp)).resolve_right (by simp)
      · rw [heard_of_take?_ne ht _ _ hba]
        exact hs.keep (hothers (by simp [hg])) (.inr (by simp [hg, hba]))
  | turnedAway _ hc _ => simp [hclosing] at hc
  | @entered b hg _ ht _ _ =>
      by_cases hba : b = a
      · exact .of_tracked (ht ▸ mem_track (.inr hba.symm))
      · exact hs.keep (hothers (by simp [hg])) (.inr (by simp [hg, hba]))
  | @erased b e hg _ _ _ =>
      by_cases hba : b = a
      · obtain rfl := hba
        have hboth : round.heard b = [.started b, .stopped b e] := (hg ▸ hf).heard_of_erasing
        exact fun _ _ => .inr ⟨e, hboth ▸ by simp, by simp⟩
      · exact hs.keep (hothers (by simp [hg, hba])) (.inr (by simp [hg]))
  | announced hg _ _ _ _ => exact hs.keep (hothers (by simp [hg])) (.inr (by simp [hg]))
  | reported hg _ _ _ _ => exact hs.keep (hothers (by simp [hg])) (.inr (by simp [hg]))
  | shut hg _ | cleared hg _ _ | finished hg _ _ =>
      have hleft : round.quit = true := hsound.quit (by simp [hg, Registrar.hasLeft])
      simp [hquit] at hleft
  | offered _ _ hstep _ hu =>
      rw [heard_of_step hsound hstep]
      exact hs.keep (fun hin => hu.tracked ▸ hin) (.inl rfl)

theorem kept_of_access (h : Access s m t) (hm : s.Mustered) (hp : s.Posted) (hf : s.Relayed) (hparted : s.Parted)
    (hu : s.Undisturbed n) (hs : s.Kept n) : t.Kept n := by
  intro a y k round' hy hrun hn hr'
  rcases member_of_access h hy with ⟨x, hx, hyr, -, -⟩ | ⟨_, _, _, _, rfl, rfl, rfl⟩
  · obtain ⟨round, hr, hstaffed, hrep⟩ := hp.joined a x hx
    obtain ⟨j, hj⟩ := (hm.enrolled a x hx).run
    obtain rfl := Option.some.inj ((runOf?_of_access h hyr hj).symm.trans hrun)
    have hshown := hs a x j round hx hj hn hr
    rw [hyr] at hr'
    cases relay_seen h hp hx hr hr' with
    | aside hu => exact hshown.keep (fun hin => hu.tracked ▸ hin) (.inl rfl)
    | emptied hc _ _ _ =>
        have hhalting := hu.callers _ _ hc
        simp [Call.isHalting] at hhalting
    | elsewhere hgoes ha => exact hshown.keep (hgoes.keeps fun e he => ha (he ▸ rfl)) (.inl rfl)
    | here hgoes =>
        exact shown_of_goes hgoes hm.lawful hr hstaffed (hm.rounds _ _ hr) (hu.closing hp hx hj hn)
          (hu.quit hm.lawful hparted hr hj hn) hrep (hf.filed a x round hx hr) hshown
  · -- nothing has been heard of an attendant that has just been made
    intro hmem
    have hr : s.rounds[_]? = some round' := hr'
    rw [heard_newcomer hp hr] at hmem
    simp at hmem

end Server
end Courier
