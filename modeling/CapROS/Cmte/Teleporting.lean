import CapROS.Cmte.Timers

/-!
# Teleporting the timer thread

The timer thread may wake by itself while another thread is about to teleport it. It then gets `timerLock`,
finds that it is being teleported, and waits with the lock. Where it is teleported to, it tries to get the lock
again.

* `Timers.timers_proper`: what holds in these runs.
* `Timers.timers_relock`: it does not hold in all runs.
-/

namespace CapROS.Cmte

open Function (update update_of_ne)

namespace Timers

variable {T τ : Type} [DecidableEq T] [DecidableEq τ]

/-! ## The invariant -/

/-- What `timerThreadState` says about the threads. -/
def StateOk (s : Timers T τ) : Prop :=
  match s.timerThreadState with
  | .working => s.timerThread.works = true ∧ ∀ c, s.caller c ≠ .teleporting
  | .sleeping => s.timerThread.sleeps = true ∧ ∀ c, s.caller c ≠ .teleporting
  | .teleporting =>
      (s.timerThread.sleeps = true ∨ s.timerThread = .parked) ∧
          (∀ c d, s.caller c = .teleporting → s.caller d = .teleporting → c = d) ∨
        s.timerThread.jumps = true ∧ ∀ c, s.caller c ≠ .teleporting

structure Inv (s : Timers T τ) : Prop where
  sorted : s.list.Pairwise fun a b => a.2 ≤ b.2
  timer : s.holder = some none ↔ s.timerThread.holds = true ∨ (s.caller none).holds = true
  others : ∀ t, s.holder = some (some t) ↔ (s.caller (some t)).holds = true
  /-- The timer thread only works on timers in a timer function. -/
  own : s.caller none ≠ .idle → s.timerThread = .calling
  orphan : s.orphan = false
  state : s.StateOk
  recheck : s.timerThreadState = .sleeping → s.timeWaitingFor ≤ getSoonestExpiration s.list

variable {s s' : Timers T τ} {c : Option T}

omit [DecidableEq T] [DecidableEq τ] in
theorem Inv.init : Inv (init : Timers T τ) where
  sorted := .nil
  timer := by simp [Timers.init, TimerPlace.holds, CallerPlace.holds]
  others := by simp [Timers.init, CallerPlace.holds]
  own := fun h => absurd rfl h
  orphan := rfl
  state := ⟨rfl, fun _ => by simp [Timers.init]⟩
  recheck := by simp [Timers.init]

omit [DecidableEq T] in
/-- Before it has the lock, and outside the timer functions, the timer thread is not a caller. -/
theorem Inv.idle (h : Inv s) (hne : s.timerThread ≠ .calling) : s.caller none = .idle := by
  by_contra hc
  exact hne (h.own hc)

omit [DecidableEq T] [DecidableEq τ] in
theorem Inv.moveTimer (h : Inv s) {x : TimerPlace} (hholds : x.holds = s.timerThread.holds)
    (hworks : s.timerThread.works = true → x.works = true)
    (hsleeps : s.timerThread.sleeps = true → x.sleeps = true)
    (hjumps : s.timerThread.jumps = true → x.jumps = true) (hparked : s.timerThread ≠ .parked)
    (hidle : s.caller none = .idle) : Inv { s with timerThread := x } where
  sorted := h.sorted
  timer := by
    simp only [hholds]
    exact h.timer
  others := h.others
  own := fun hc => absurd hidle hc
  orphan := h.orphan
  state := by
    have hstate := h.state
    unfold StateOk at hstate ⊢
    cases hs : s.timerThreadState <;> simp only [hs] at hstate ⊢
    · exact hstate.imp_left hworks
    · exact hstate.imp_left hsleeps
    · rcases hstate with ⟨hplace | hplace, huniq⟩ | ⟨hplace, hno⟩
      · exact .inl ⟨.inl (hsleeps hplace), huniq⟩
      · exact absurd hplace hparked
      · exact .inr ⟨hjumps hplace, hno⟩
  recheck := h.recheck

variable {x : CallerPlace τ}

omit [DecidableEq τ] in
/-- A thread goes to a place that is not in `update_soonest_wait`, and may get or release the lock. -/
theorem Inv.moveCaller (h : Inv s) {holder : Option (Option T)}
    (hx : x ≠ .teleporting) (hc : s.caller c ≠ .teleporting)
    (hown : c = none → x ≠ .idle → s.timerThread = .calling)
    (hself : holder = some c ↔ x.holds = true)
    (hothers : ∀ d, d ≠ c → (holder = some d ↔ s.holder = some d))
    (htimer : c = none → s.timerThread.holds = false) :
    Inv { s.move c x with holder := holder } where
  sorted := h.sorted
  timer := by
    by_cases hn : c = none
    · subst hn
      simp [move, htimer rfl, hself]
    · have hne : update s.caller c x none = s.caller none :=
        update_of_ne (Ne.symm hn) _ _
      simp only [move, hne, hothers none (Ne.symm hn)]
      exact h.timer
  others := by
    intro t
    by_cases hn : some t = c
    · subst hn
      simp [move, hself]
    · have hne : update s.caller c x (some t) = s.caller (some t) := update_of_ne hn _ _
      simp only [move, hne, hothers _ hn]
      exact h.others t
  own := by
    by_cases hn : c = none
    · subst hn
      simpa [move] using hown rfl
    · have hne : update s.caller c x none = s.caller none :=
        update_of_ne (Ne.symm hn) _ _
      simp only [move, hne]
      exact h.own
  orphan := h.orphan
  state := by
    have htele : ∀ d, update s.caller c x d = .teleporting ↔ s.caller d = .teleporting := by
      intro d
      by_cases hd : d = c
      · subst hd
        simp [hx, hc]
      · rw [update_of_ne hd]
    have hstate := h.state
    unfold StateOk at hstate ⊢
    simp only [move, ne_eq, htele]
    exact hstate
  recheck := h.recheck

omit [DecidableEq T] [DecidableEq τ] in
theorem Inv.working (h : Inv s) (hw : s.timerThread.works = true) :
    s.timerThreadState = .working ∧ ∀ c, s.caller c ≠ .teleporting := by
  obtain ⟨hsleeps, hjumps, hparked⟩ := TimerPlace.works_only hw
  have hstate := h.state
  unfold StateOk at hstate
  cases hst : s.timerThreadState <;> simp only [hst, hsleeps, hjumps, hparked] at hstate
  · exact ⟨rfl, hstate.2⟩
  · exact absurd hstate.1 (by simp)
  · rcases hstate with ⟨hc | hc, -⟩ | ⟨hc, -⟩ <;> cases hc

omit [DecidableEq T] in
theorem Inv.enter (h : Inv s) {site : LockSite} (hs : s.timerThread = .locking site) (hfree : s.holder = none) :
    Inv ({ s with holder := some none }.enter site) := by
  have hidle := h.idle (by simp [hs])
  have hothers : ∀ t, (s.caller (some t)).holds = false := by
    intro t
    have := h.others t
    simpa [hfree] using this.symm
  have hstate := h.state
  unfold StateOk at hstate
  have hlocked : ∀ (x) (st), x.holds = true → (StateOk { s with timerThreadState := st, timerThread := x }) →
      (st = .sleeping → s.timeWaitingFor ≤ getSoonestExpiration s.list) →
      Inv { s with holder := some none, timerThreadState := st, timerThread := x } := by
    intro x st hx hst hre
    refine ⟨h.sorted, ?_, ?_, fun hc => absurd hidle hc, h.orphan, hst, hre⟩
    · simp [hx]
    · simp [hothers]
  cases site with
  | start =>
    obtain ⟨hw, hno⟩ := h.working (by rw [hs]; rfl)
    exact hlocked .looping s.timerThreadState rfl (by
      simp only [StateOk, hw]
      exact ⟨rfl, hno⟩) h.recheck
  | jump =>
    have hw : s.timerThreadState = .teleporting := by
      cases hst : s.timerThreadState <;>
        simp [hst, hs, TimerPlace.sleeps, TimerPlace.works] at hstate ⊢
    simp only [hw, hs, reduceCtorEq, TimerPlace.sleeps, TimerPlace.jumps, or_self, false_and, false_or,
      Bool.false_eq_true, true_and] at hstate
    unfold Timers.enter
    rw [if_pos hw]
    exact hlocked .looping .working rfl ⟨rfl, hstate⟩ (by simp)
  | wake =>
    cases hw : s.timerThreadState with
    | working => simp [hw, hs, TimerPlace.works] at hstate
    | sleeping =>
      simp only [hw] at hstate ⊢
      exact hlocked .expiring .working rfl ⟨rfl, hstate.2⟩ (by simp)
    | teleporting =>
      simp only [hw, hs, TimerPlace.jumps, Bool.false_eq_true, false_and, or_false] at hstate ⊢
      exact hlocked .parked .teleporting rfl (.inl ⟨.inr rfl, hstate.2⟩) (by simp)
  | call =>
    obtain ⟨hw, hno⟩ := h.working (by rw [hs]; rfl)
    exact hlocked .expiring s.timerThreadState rfl (by
      simp only [StateOk, hw]
      exact ⟨rfl, hno⟩) h.recheck

omit [DecidableEq T] in
theorem Inv.sleep (h : Inv s) (hs : s.timerThread = .looping) : Inv { s with
    timeWaitingFor := getSoonestExpiration s.list, timerThreadState := .sleeping, holder := none,
    timerThread := .sleeping } := by
  have hidle := h.idle (by simp [hs])
  have hhas : s.holder = some none := h.timer.2 (.inl (by rw [hs]; rfl))
  refine ⟨h.sorted, ?_, fun t => ?_, fun hc => absurd hidle hc, h.orphan, ⟨rfl, ?_⟩, fun _ => le_rfl⟩
  · simp [TimerPlace.holds, hidle, CallerPlace.holds]
  · have := h.others t
    simpa [hhas] using this
  · exact (h.working (by rw [hs]; rfl)).2

variable {l : List (τ × CMTETime)}

omit [DecidableEq T] in
theorem Inv.expire (h : Inv s) (hs : s.timerThread = .expiring) {t : τ × CMTETime}
    (hl : s.list = t :: l) : Inv { s with list := l, holder := none, timerThread := .calling } := by
  have hidle := h.idle (by simp [hs])
  have hhas : s.holder = some none := h.timer.2 (.inl (by rw [hs]; rfl))
  obtain ⟨hw, hno⟩ := h.working (by rw [hs]; rfl)
  have hsorted := h.sorted
  rw [hl] at hsorted
  refine ⟨(List.pairwise_cons.1 hsorted).2, ?_, fun t => ?_, fun _ => rfl, h.orphan, ?_, by simp [hw]⟩
  · simp [TimerPlace.holds, hidle, CallerPlace.holds]
  · have := h.others t
    simpa [hhas] using this
  · simp only [StateOk, hw]
    exact ⟨rfl, hno⟩

omit [DecidableEq τ] in
theorem Inv.call (h : Inv s) (hc : s.MayCall c) (hx : x ≠ .teleporting)
    (hfree : x.holds = false) : Inv (s.move c x) := by
  have hholder : s.holder ≠ some c := by
    intro hhas
    cases c with
    | none =>
      rcases h.timer.1 hhas with hp | hp
      · rw [hc.2 rfl] at hp
        cases hp
      · rw [hc.1] at hp
        cases hp
    | some t =>
      have := (h.others t).1 hhas
      rw [hc.1] at this
      cases this
  exact h.moveCaller hx (by simp [hc.1]) (fun hn _ => hc.2 hn) (by simp [hholder, hfree]) (fun _ _ => Iff.rfl)
    fun hn => by rw [hc.2 hn]; rfl

omit [DecidableEq τ] in
theorem Inv.lock (h : Inv s) (hfree : s.holder = none) (hc : (s.caller c).acquires = true)
    (hx : x ≠ .teleporting) (hholds : x.holds = true) : Inv { s.move c x with holder := some c } := by
  have hown : c = none → s.timerThread = .calling := by
    rintro rfl
    exact h.own fun he => by rw [he] at hc; cases hc
  refine h.moveCaller hx (fun he => by rw [he] at hc; cases hc) (fun hn _ => hown hn) (by simp [hholds]) ?_
    fun hn => by rw [hown hn]; rfl
  intro d hd
  simp [hfree, Ne.symm hd]

omit [DecidableEq T] [DecidableEq τ] in
theorem Inv.holder_eq (h : Inv s) (hc : (s.caller c).holds = true) : s.holder = some c := by
  cases c with
  | none => exact h.timer.2 (.inr hc)
  | some t => exact (h.others t).2 hc

omit [DecidableEq τ] in
theorem Inv.unlock (h : Inv s) (hc : (s.caller c).holds = true) : Inv { s.move c .idle with holder := none } := by
  refine h.moveCaller (by simp) (fun he => by rw [he] at hc; cases hc) (fun _ hne => absurd rfl hne)
    (by simp [CallerPlace.holds]) (fun d hd => ?_) ?_
  · rw [h.holder_eq hc]
    simp [Ne.symm hd]
  · rintro rfl
    rw [h.own fun he => by rw [he] at hc; cases hc]
    rfl

omit [DecidableEq τ] in
/-- `update_soonest_wait` releases the lock. If the first timer is sooner than the timer thread knows, it is
working, or it is being teleported, or it will be. -/
theorem Inv.updateSoonestWait (h : Inv s) (hc : (s.caller c).holds = true) {first : Bool}
    (hsorted : l.Pairwise fun a b => a.2 ≤ b.2)
    (hfirst : first = false → getSoonestExpiration s.list ≤ getSoonestExpiration l) :
    Inv ({ s with list := l }.updateSoonestWait c first) := by
  have hhas := h.holder_eq hc
  unfold Timers.updateSoonestWait
  split_ifs with hsoon
  · -- the timer thread is to be teleported
    obtain ⟨-, -, hsleep⟩ := hsoon
    change s.timerThreadState = .sleeping at hsleep
    have hstate := h.state
    simp only [StateOk, hsleep] at hstate
    have hcaller : c ≠ none := by
      rintro rfl
      rw [h.own (fun he => by rw [he] at hc; cases hc)] at hstate
      simp [TimerPlace.sleeps] at hstate
    have hnone : update s.caller c .teleporting none = s.caller none :=
      update_of_ne (Ne.symm hcaller) _ _
    have hfree := h.timer
    rw [hhas] at hfree
    simp only [Option.some.injEq, hcaller, false_iff] at hfree
    refine ⟨hsorted, ?_, ?_, ?_, h.orphan, ?_, by simp⟩
    · simpa [move, hnone] using hfree
    · intro t
      by_cases ht : some t = c
      · subst ht
        simp [move, CallerPlace.holds]
      · have := h.others t
        simp only [move, update_of_ne ht, ← this, hhas, Option.some.injEq, Ne.symm ht, reduceCtorEq]
    · simp only [move, hnone]
      exact h.own
    · refine .inl ⟨.inl hstate.1, fun d e hd he => ?_⟩
      have hone : ∀ d, update s.caller c .teleporting d = .teleporting → d = c := by
        intro d hd
        by_contra hne
        rw [update_of_ne hne] at hd
        exact hstate.2 d hd
      rw [hone d hd, hone e he]
  · have hlist : Inv { s with list := l } := by
      refine ⟨hsorted, h.timer, h.others, h.own, h.orphan, h.state, fun hsleep => ?_⟩
      cases first with
      | false => exact (h.recheck hsleep).trans (hfirst rfl)
      | true => exact not_lt.1 fun hlt => hsoon ⟨rfl, hlt, hsleep⟩
    exact hlist.unlock hc

theorem Inv.teleport (h : Inv s) (hc : s.caller c = .teleporting)
    (hplace : s.timerThread = .sleeping ∨ s.timerThread = .before .wake) :
    Inv { s.move c .idle with
      timerThread := .before .jump, orphan := s.orphan || s.timerThread.waits } := by
  have hwaits : s.timerThread.waits = false := by rcases hplace with hp | hp <;> rw [hp] <;> rfl
  have hnothold : s.timerThread.holds = false := by rcases hplace with hp | hp <;> rw [hp] <;> rfl
  have hidle : s.caller none = .idle := h.idle (by rcases hplace with hp | hp <;> simp [hp])
  have hcaller : c ≠ none := by
    rintro rfl
    rw [hidle] at hc
    cases hc
  have hnone : update s.caller c .idle none = s.caller none :=
    update_of_ne (Ne.symm hcaller) _ _
  have hstate := h.state
  have htele : s.timerThreadState = .teleporting := by
    cases hst : s.timerThreadState <;> simp only [StateOk, hst] at hstate
    · exact absurd hc (hstate.2 c)
    · exact absurd hc (hstate.2 c)
    · rfl
  simp only [StateOk, htele] at hstate
  refine ⟨h.sorted, ?_, ?_, ?_, by simp [h.orphan, hwaits], ?_, by simp [move, htele]⟩
  · have := h.timer
    simp only [move, hnone]
    rw [this, hnothold]
    rfl
  · intro t
    by_cases ht : some t = c
    · subst ht
      rw [show (s.move (some t) .idle).holder = s.holder from rfl, h.others t, hc]
      simp [move, CallerPlace.holds]
    · simp only [move, update_of_ne ht]
      exact h.others t
  · simp [move, hnone, hidle]
  · simp only [StateOk, move, htele]
    refine .inr ⟨rfl, fun d hd => ?_⟩
    rcases hstate with ⟨-, huniq⟩ | ⟨-, hno⟩
    · by_cases hdc : d = c
      · subst hdc
        simp at hd
      · rw [update_of_ne hdc] at hd
        exact hdc (huniq d c hd hc)
    · exact hno c hc

/-- Every action keeps the invariant if it does not teleport the timer thread after its sleep. -/
theorem Inv.step (h : Inv s) (a : TimerAction T τ) (ha : Proper s a) (hrun : s.exec a = some s') : Inv s' := by
  cases a with
  | request =>
    simp only [exec] at hrun
    split at hrun
    · rename_i site hs
      cases hrun
      refine h.moveTimer ?_ ?_ ?_ ?_ (by simp [hs]) (h.idle (by simp [hs])) <;> rw [hs] <;> cases site <;> simp
        [TimerPlace.holds, TimerPlace.works, TimerPlace.sleeps, TimerPlace.jumps]
    · cases hrun
  | grant =>
    simp only [exec] at hrun
    split at hrun
    · rename_i site hs
      split_ifs at hrun with hfree
      cases hrun
      exact h.enter hs hfree
    · cases hrun
  | grantOrphan =>
    simp only [exec] at hrun
    rw [if_neg (by simp [h.orphan])] at hrun
    cases hrun
  | sleep =>
    simp only [exec] at hrun
    split_ifs at hrun with hs hw
    · cases hrun
      exact h.sleep hs
    · exact absurd (h.working (by rw [hs]; rfl)).1 hw
  | wake =>
    simp only [exec] at hrun
    split_ifs at hrun with hs
    cases hrun
    refine h.moveTimer ?_ ?_ ?_ ?_ (by simp [hs]) (h.idle (by simp [hs])) <;> rw [hs.1] <;> simp
      [TimerPlace.holds, TimerPlace.works, TimerPlace.sleeps, TimerPlace.jumps]
  | expire =>
    simp only [exec] at hrun
    split_ifs at hrun with hs
    have hidle := h.idle (by simp [hs])
    have hloop : Inv { s with timerThread := .looping } := by
      refine h.moveTimer ?_ ?_ ?_ ?_ (by simp [hs]) hidle <;> rw [hs] <;> simp
        [TimerPlace.holds, TimerPlace.works, TimerPlace.sleeps, TimerPlace.jumps]
    split at hrun
    · cases hrun
      exact hloop
    · rename_i timer e l hl
      split_ifs at hrun with he
      · cases hrun
        exact hloop
      · cases hrun
        exact h.expire hs hl
  | finish =>
    simp only [exec] at hrun
    split_ifs at hrun with hs
    cases hrun
    refine h.moveTimer ?_ ?_ ?_ ?_ (by simp [hs]) hs.2 <;> rw [hs.1] <;> simp
      [TimerPlace.holds, TimerPlace.works, TimerPlace.sleeps, TimerPlace.jumps]
  | delete c timer =>
    simp only [exec] at hrun
    split_ifs at hrun with hc hp
    · cases hrun
      exact h.call hc (by simp) rfl
    · cases hrun
      exact h
  | setExpiration c timer e =>
    simp only [exec] at hrun
    split_ifs at hrun with hc
    cases hrun
    exact h.call hc (by simp) rfl
  | lock c =>
    simp only [exec] at hrun
    split_ifs at hrun with hfree
    split at hrun
    · rename_i timer hc
      cases hrun
      exact h.lock hfree (by simp [hc, CallerPlace.acquires]) (by simp) rfl
    · rename_i timer e hc
      cases hrun
      exact h.lock hfree (by simp [hc, CallerPlace.acquires]) (by simp) rfl
    · cases hrun
  | update c =>
    simp only [exec] at hrun
    split at hrun
    · rename_i timer hc
      split_ifs at hrun with hp
      · cases hrun
        exact h.updateSoonestWait (by simp [hc, CallerPlace.holds]) (h.sorted.sublist List.eraseP_sublist)
          fun hf => (soonest_removeTimer hf).ge
      · cases hrun
        -- it has expired in the meantime
        exact h.unlock (by simp [hc, CallerPlace.holds])
    · rename_i timer e hc
      cases hrun
      have hsorted := h.sorted.sublist (List.eraseP_sublist (p := fun t => t.1 = timer))
      exact h.updateSoonestWait (by simp [hc, CallerPlace.holds]) (sorted_insertTimer hsorted timer e)
        fun hf => (soonest_le h.sorted List.eraseP_sublist).trans (soonest_insertTimer hf).ge
    · cases hrun
  | teleport c =>
    simp only [exec] at hrun
    split_ifs at hrun with hc
    cases hrun
    exact h.teleport hc ha

theorem Run.inv (h : Run Proper s) : Inv s := by
  induction h with
  | init => exact .init
  | step a _ ha hrun ih => exact ih.step a ha hrun

omit [DecidableEq T] in
theorem Inv.correct (h : Inv s) : s.Correct where
  noFailure := by
    intro hf
    have hstate := h.state
    unfold StateOk at hstate
    cases hst : s.timerThreadState <;>
      simp [hst, hf, TimerPlace.works, TimerPlace.sleeps, TimerPlace.jumps] at hstate
  noRelock := by
    intro ha hhas
    have hidle := h.idle fun hc => by rw [hc] at ha; cases ha
    have hnot : s.timerThread.holds = false := by
      cases hp : s.timerThread <;> simp [hp, TimerPlace.acquires] at ha <;> rfl
    rcases h.timer.1 hhas with hc | hc
    · rw [hnot] at hc
      cases hc
    · rw [hidle] at hc
      cases hc
  noRelockCaller := by
    intro c ha hhas
    have hnot : (s.caller c).holds = false := by
      cases hp : s.caller c <;> simp [hp, CallerPlace.acquires] at ha <;> rfl
    cases c with
    | none =>
      have hp := h.own fun he => by rw [he] at ha; cases ha
      rcases h.timer.1 hhas with hc | hc
      · rw [hp] at hc
        cases hc
      · rw [hnot] at hc
        cases hc
    | some t =>
      rw [(h.others t).1 hhas] at hnot
      cases hnot
  sorted := h.sorted
  recheck := by
    intro _ hlt
    cases hst : s.timerThreadState with
    | working => exact .inl rfl
    | teleporting => exact .inr rfl
    | sleeping => exact absurd hlt (not_lt.2 (h.recheck hst))

/-- In the runs in which the timer thread is only teleported before it has begun to acquire the lock after
its sleep, no assertion fails, no thread tries to acquire the lock that it has, the timers are sorted, and the
timer thread does not sleep too long. -/
theorem timers_proper (h : Run Proper s) : s.Correct := h.inv.correct

theorem Run.actions {admitted : Timers T τ → TimerAction T τ → Prop} (h : Run admitted s)
    (as : List (TimerAction T τ)) (ha : ∀ s, ∀ a ∈ as, admitted s a) (hrun : as.foldlM exec s = some s') :
    Run admitted s' := by
  induction as generalizing s with
  | nil =>
    obtain rfl : s = s' := by simpa using hrun
    exact h
  | cons a as ih =>
    obtain ⟨s₁, hstep, hrest⟩ := Option.bind_eq_some_iff.1 hrun
    exact ih (h.step a (ha s a (by simp)) hstep) (fun s a hm => ha s a (by simp [hm])) hrest

/-- A thread sets a timer and takes the timer thread out of its sleep. -/
theorem timers_proper_teleported : ∃ s : Timers Unit Unit, s.list = [((), 10)] ∧ s.timerThread = .before .jump ∧
    s.Correct := by
  have hset := (@Run.init Unit Unit _ _ Proper).actions
    [.request, .grant, .sleep, .setExpiration (some ()) () 10, .lock (some ()), .update (some ())]
    (by simp [Proper]) rfl
  have hjump := hset.step (.teleport (some ())) (.inl rfl) rfl
  exact ⟨_, rfl, rfl, timers_proper hjump⟩

/-- The timer thread wakes while it is to be teleported. It gets the lock, and is then teleported to where it
tries to get the lock once more. -/
theorem timers_relock : ¬∀ s : Timers Unit Unit, Run (fun _ _ => True) s → s.Correct := by
  intro hall
  have hrun := (@Run.init Unit Unit _ _ fun _ _ => True).actions
    [.request, .grant, .sleep, .setExpiration (some ()) () 10, .lock (some ()), .update (some ()),
      .teleport (some ()), .request, .grant, .sleep, .setExpiration (some ()) () 5, .lock (some ()),
      .update (some ()), .wake, .request, .grant, .teleport (some ())] (fun _ _ _ => trivial) rfl
  exact (hall _ hrun).noRelock rfl rfl

end Timers

end CapROS.Cmte
