import CapROS.Checkpoint.Generations

/-!
# Requests for a checkpoint

`ensureCheckpoint` answers `RC_OK` if the time of the last demarcation is not before the given time.
The demarcation takes place at the beginning of a checkpoint, and the checkpoint is stabilized only
when its root has been written; in between the answer comes too early for the times after the
demarcation before.

* `stabilized_of_timely`: what the answer `RC_OK` means for a timely request.
-/

namespace CapROS.Checkpoint

open LogDirectory
open ObjectCache (CkptState)

/-- The root of a checkpoint is on the disk whose demarcation time is at least this. -/
def Stabilized (s : State) (time : ℕ) : Prop :=
  ∃ b r, s.roots b = some r ∧ r.mostRecentGenerationNumber ≠ 0 ∧
    time ≤ (s.headers r.mostRecentGenerationNumber).persistentTimeOfDemarc

/-- The demarcation has taken place, and the root has not been written yet. -/
def State.unstable (s : State) : Bool :=
  match s.ckptState with
  | .notActive | .phase1 => false
  | .phase2 | .phase3 | .phase4 => true
  | .phase5 => s.rootWrite.isSome

/-- A request between the demarcation and the writing of the root is for a time later than this
demarcation, or not later than that of the checkpoint before. A request before the first checkpoint
is not for the time 0. -/
def Timely (s : State) (timeToSave : ℕ) : Prop :=
  if s.unstable then
    s.monotonicTimeOfLastDemarc < timeToSave ∨ 2 < s.workingGenerationNumber ∧
      timeToSave ≤ (s.headers (s.workingGenerationNumber - 1)).persistentTimeOfDemarc
  else s.workingGenerationNumber = 2 → s.ckptState ≠ .phase5 → timeToSave ≠ 0

/-- Where the root of the generation before the working one is. -/
def State.savedRoot (s : State) : Bool :=
  if s.ckptState = .phase5 then !s.currentRoot else s.currentRoot

/-- What is known of the times after the restart. -/
structure Timed (s : State) : Prop where
  two_le : 2 ≤ s.workingGenerationNumber
  roots : ∀ b r, s.roots b = some r → r = formattedRoot ∨ 2 ≤ r.mostRecentGenerationNumber
  saved : 2 < s.workingGenerationNumber → ∃ r, s.roots s.savedRoot = some r ∧
    r.mostRecentGenerationNumber = s.workingGenerationNumber - 1
  before : s.ckptState = .notActive ∨ s.ckptState = .phase1 → s.monotonicTimeOfLastDemarc ≤
    if 2 < s.workingGenerationNumber then
      (s.headers (s.workingGenerationNumber - 1)).persistentTimeOfDemarc
    else 0
  genHdr : s.ckptState = .phase2 ∨ s.ckptState = .phase3 →
    s.genHdrTime = s.monotonicTimeOfLastDemarc
  header : s.ckptState = .phase4 ∨ s.ckptState = .phase5 →
    (s.headers s.workingGenerationNumber).persistentTimeOfDemarc = s.monotonicTimeOfLastDemarc
  write : ∀ r, s.rootWrite = some r → s.ckptState = .phase5 ∧
    r.mostRecentGenerationNumber = s.workingGenerationNumber
  written : s.ckptState = .phase5 → s.rootWrite = none → ∃ r, s.roots s.currentRoot = some r ∧
    r.mostRecentGenerationNumber = s.workingGenerationNumber

/-- What is known during the restart. -/
structure TimedReplay (s : State) : Prop where
  two_le : 2 ≤ s.workingGenerationNumber
  ckptState : s.ckptState = .notActive
  roots : ∀ b r, s.roots b = some r → r = formattedRoot ∨ 2 ≤ r.mostRecentGenerationNumber
  root : ∃ r, s.roots s.currentRoot = some r ∧
    r.mostRecentGenerationNumber = s.workingGenerationNumber
  noWrite : s.rootWrite = none

variable {logWrapPoint numLogDirEntries timeToSave : ℕ} {s s' : State} {op : Op}

theorem Timed.stabilized (h : Timed s) (ht : Timely s timeToSave)
    (hans : (ensureCheckpoint timeToSave s).1 = .ok) : Stabilized s timeToSave := by
  have hle : timeToSave ≤ s.monotonicTimeOfLastDemarc := by
    unfold ensureCheckpoint at hans
    split_ifs at hans with h₁ h₂
    exact h₂
  -- the root of the generation before
  have hsaved : 2 < s.workingGenerationNumber →
      timeToSave ≤ (s.headers (s.workingGenerationNumber - 1)).persistentTimeOfDemarc →
      Stabilized s timeToSave := by
    intro h2 hle
    obtain ⟨r, hr, heq⟩ := h.saved h2
    exact ⟨_, r, hr, by omega, by rw [heq]; exact hle⟩
  unfold Timely at ht
  split_ifs at ht with hun
  · rcases ht with hlt | ⟨h2, hle'⟩
    · omega
    · exact hsaved h2 hle'
  · have hearly : s.ckptState = .notActive ∨ s.ckptState = .phase1 → Stabilized s timeToSave := by
      intro hck
      have hb := h.before hck
      have h2 := h.two_le
      split_ifs at hb with h2'
      · exact hsaved h2' (hle.trans hb)
      · have hne : s.ckptState ≠ .phase5 := by
          rcases hck with hck | hck <;> rw [hck] <;> decide
        exact absurd (Nat.le_zero.1 (hle.trans hb)) (ht (by omega) hne)
    unfold State.unstable at hun
    cases hck : s.ckptState with
    | notActive => exact hearly (.inl hck)
    | phase1 => exact hearly (.inr hck)
    | phase2 | phase3 | phase4 => simp [hck] at hun
    | phase5 =>
      -- the root of the working generation has been written
      simp only [hck, Option.isNone_iff_eq_none, Bool.not_eq_true,
        Option.isSome_eq_false_iff] at hun
      obtain ⟨r, hr, heq⟩ := h.written hck hun
      have h2 := h.two_le
      refine ⟨_, r, hr, by omega, ?_⟩
      rw [heq, h.header (.inr hck)]
      exact hle

/-! ## The times over a run -/

/-- What is known of the times. -/
def TimedInv (s : State) : Prop := if s.running then Timed s else TimedReplay s

theorem timedInv_of_running (hr : s.running = true) (h : Timed s) : TimedInv s := by
  rw [TimedInv, if_pos hr]
  exact h

theorem timedInv_of_replaying (hr : s.running = false) (h : TimedReplay s) : TimedInv s := by
  rw [TimedInv, if_neg (by rw [hr]; exact Bool.false_ne_true)]
  exact h

theorem finishRestart_ok (h : finishRestart logWrapPoint s = .ok s') :
    s'.running = true ∧ s'.ckptState = s.ckptState ∧
      s'.workingGenerationNumber = s.workingGenerationNumber + 1 ∧ s'.roots = s.roots ∧
      s'.currentRoot = s.currentRoot ∧ s'.rootWrite = s.rootWrite ∧ s'.headers = s.headers ∧
      s'.monotonicTimeOfLastDemarc = s.monotonicTimeOfLastDemarc := by
  obtain ⟨s₁, hpost, h⟩ := of_bind_ok h
  cases h
  obtain ⟨-, dir, -, rfl⟩ := postCheckpointProcessing_ok hpost
  exact ⟨rfl, rfl, rfl, rfl, rfl, rfl, rfl, rfl⟩

theorem timedInv_start (h : finishRestart logWrapPoint (preloaded numLogDirEntries) = .ok s) :
    TimedInv s := by
  obtain ⟨hrun, hck, hw, hroots, -, hwrite, -, htime⟩ := finishRestart_ok h
  have hw : s.workingGenerationNumber = 2 := hw
  have hck : s.ckptState = .notActive := hck
  have hwrite : s.rootWrite = none := hwrite
  have htime : s.monotonicTimeOfLastDemarc = 0 := htime
  refine timedInv_of_running hrun ⟨hw.ge, fun b r hr => ?_, fun h2 => by omega, fun _ => ?_, ?_, ?_, ?_, ?_⟩
  · rw [hroots] at hr
    exact .inl (Option.some.inj hr).symm
  · rw [htime]
    exact Nat.zero_le _
  · rw [hck]
    rintro (hc | hc) <;> cases hc
  · rw [hck]
    rintro (hc | hc) <;> cases hc
  · intro r hr
    rw [hwrite] at hr
    cases hr
  · intro hc
    rw [hck] at hc
    cases hc

theorem Timed.finish (h : TimedReplay s) (hrun : doneProcessingProcDirFrames logWrapPoint s = .ok s') :
    TimedInv s' := by
  obtain ⟨hr, hck, hw, hroots, hcur, hwrite, hhdr, htime⟩ := finishRestart_ok hrun
  have hw : s'.workingGenerationNumber = s.workingGenerationNumber + 1 := hw
  have hck : s'.ckptState = .notActive := hck.trans h.ckptState
  have hwrite : s'.rootWrite = none := hwrite.trans h.noWrite
  have htwo := h.two_le
  refine timedInv_of_running hr ⟨by omega, fun b r hb => ?_, fun _ => ?_, fun _ => ?_, ?_, ?_, ?_, ?_⟩
  · rw [hroots] at hb
    exact h.roots b r hb
  · obtain ⟨r, hr, heq⟩ := h.root
    refine ⟨r, ?_, by rw [hw, heq]; rfl⟩
    rw [State.savedRoot, hck, if_neg (by decide), hroots, hcur]
    exact hr
  · rw [if_pos (by omega), hhdr, htime, hw, Nat.add_sub_cancel]
  · rw [hck]
    rintro (hc | hc) <;> cases hc
  · rw [hck]
    rintro (hc | hc) <;> cases hc
  · intro r hr
    rw [hwrite] at hr
    cases hr
  · intro hc
    rw [hck] at hc
    cases hc

theorem timedInv_crash {fate : Fate} {n : ℕ} (h : TimedInv s) (hrun : crash fate n s = .ok s') :
    TimedInv s' := by
  have hroots : ∀ b r, rootsAfter fate s b = some r →
      r = formattedRoot ∨ 2 ≤ r.mostRecentGenerationNumber := by
    intro b r hr
    unfold TimedInv at h
    split_ifs at h
    · rcases rootsAfter_mem hr with hr | hr
      · exact h.roots b r hr
      · right
        rw [(h.write r hr).2]
        exact h.two_le
    · rcases rootsAfter_mem hr with hr | hr
      · exact h.roots b r hr
      · rw [h.noWrite] at hr
        cases hr
  unfold crash at hrun
  simp only at hrun
  obtain ⟨⟨b, r⟩, hroot, hrun⟩ := of_bind_ok hrun
  simp only at hrun
  obtain ⟨hb, -⟩ := findRoot_ok hroot
  by_cases hnum : 0 < r.numUnmigratedGenerations ∧
      r.numUnmigratedGenerations ≤ maxUnmigratedGenerations
  · rw [check_pos hnum, ok_bind] at hrun
    obtain rfl := readGenHdr_ok hrun
    rcases hroots b r hb with rfl | htwo
    · exact absurd hnum.1 (by decide)
    · exact timedInv_of_replaying rfl ⟨htwo, rfl, hroots, ⟨r, hb, rfl⟩, rfl⟩
  · rw [check_neg hnum] at hrun
    cases hrun

theorem Timed.saved_idle (h : Timed s) (hck : s.ckptState ≠ .phase5) (h2 : 2 < s.workingGenerationNumber) :
    ∃ r, s.roots s.currentRoot = some r ∧ r.mostRecentGenerationNumber = s.workingGenerationNumber - 1 := by
  have hs := h.saved h2
  rw [State.savedRoot, if_neg hck] at hs
  exact hs

theorem Timed.checkpointStep (h : Timed s) (hr : s.running = true) {dirFrames stale : ℕ}
    (hrun : checkpointStep logWrapPoint dirFrames stale s = .ok s') : TimedInv s' := by
  have htwo := h.two_le
  unfold Checkpoint.checkpointStep at hrun
  split at hrun
  · cases hrun
    exact timedInv_of_running hr h
  · rename_i hck
    cases hrun
    refine timedInv_of_running hr ⟨htwo, h.roots, fun h2 => ?_, ?_, fun _ => rfl, ?_, fun r hw => ?_, ?_⟩
    · exact h.saved_idle (by rw [hck]; decide) h2
    · rintro (hc | hc) <;> cases hc
    · rintro (hc | hc) <;> cases hc
    · cases hck.symm.trans (h.write r hw).1
    · intro hc
      cases hc
  · rename_i hck
    obtain ⟨p, hcall, hrun⟩ := of_bind_ok hrun
    cases hrun
    refine timedInv_of_running hr ⟨htwo, h.roots, fun h2 => ?_, ?_, fun _ => h.genHdr (.inl hck), ?_,
      fun r hw => ?_, ?_⟩
    · exact h.saved_idle (by rw [hck]; decide) h2
    · rintro (hc | hc) <;> cases hc
    · rintro (hc | hc) <;> cases hc
    · cases hck.symm.trans (h.write r hw).1
    · intro hc
      cases hc
  · rename_i hck
    cases hrun
    refine timedInv_of_running hr ⟨htwo, h.roots, fun h2 => ?_, ?_, ?_, fun _ => ?_, fun r hw => ?_, ?_⟩
    · exact h.saved_idle (by rw [hck]; decide) h2
    · rintro (hc | hc) <;> cases hc
    · rintro (hc | hc) <;> cases hc
    · simp only [doPhase3Work, Function.update_self]
      exact h.genHdr (.inr hck)
    · cases hck.symm.trans (h.write r hw).1
    · intro hc
      cases hc
  · rename_i hck
    unfold doPhase4Work at hrun
    simp only at hrun
    split_ifs at hrun
    cases hrun
    refine timedInv_of_running hr ⟨htwo, h.roots, fun h2 => ?_, ?_, ?_, fun _ => h.header (.inl hck),
      fun r hw => ?_, fun _ hw => ?_⟩
    · have hs := h.saved_idle (by rw [hck]; decide) h2
      simpa [State.savedRoot] using hs
    · rintro (hc | hc) <;> cases hc
    · rintro (hc | hc) <;> cases hc
    · obtain rfl := Option.some.inj hw
      exact ⟨rfl, rfl⟩
    · cases hw
  · rename_i hck
    unfold doPhase5Work at hrun
    split at hrun
    · cases hrun
      exact timedInv_of_running hr h
    · rename_i hnone
      obtain ⟨s₁, hpost, hrun⟩ := of_bind_ok hrun
      cases hrun
      obtain ⟨-, dir, -, rfl⟩ := postCheckpointProcessing_ok hpost
      refine timedInv_of_running hr ⟨Nat.le_succ_of_le htwo, h.roots, fun _ => ?_, fun _ => ?_, ?_, ?_,
        fun r hw => ?_, ?_⟩
      · exact h.written hck hnone
      · rw [if_pos (Nat.lt_succ_of_le htwo)]
        exact (h.header (.inr hck)).ge
      · rintro (hc | hc) <;> cases hc
      · rintro (hc | hc) <;> cases hc
      · have hw : s.rootWrite = some r := hw
        rw [hnone] at hw
        cases hw
      · intro hc
        cases hc

theorem Timed.declare (h : Timed s) (hck : s.ckptState = .notActive) :
    Timed { s with nextRetiredGeneration := 0, ckptState := .phase1 } := by
  refine ⟨h.two_le, h.roots, fun h2 => ?_, fun _ => h.before (.inl hck), ?_, ?_, fun r hw => ?_, ?_⟩
  · exact h.saved_idle (by rw [hck]; decide) h2
  · rintro (hc | hc) <;> cases hc
  · rintro (hc | hc) <;> cases hc
  · cases hck.symm.trans (h.write r hw).1
  · intro hc
    cases hc

theorem Timed.endCkptRootWrite (h : Timed s) : Timed (endCkptRootWrite s) := by
  unfold Checkpoint.endCkptRootWrite
  split
  · exact h
  · rename_i r hr
    obtain ⟨hck, heq⟩ := h.write r hr
    refine ⟨h.two_le, fun b r' hr' => ?_, fun h2 => ?_, h.before, h.genHdr, h.header, fun r' hr' => ?_,
      fun _ _ => ⟨r, Function.update_self .., heq⟩⟩
    · by_cases hb : b = s.currentRoot
      · have hr' : Function.update s.roots s.currentRoot (some r) b = some r' := hr'
        rw [hb, Function.update_self] at hr'
        obtain rfl := Option.some.inj hr'
        right
        rw [heq]
        exact h.two_le
      · have hr' : Function.update s.roots s.currentRoot (some r) b = some r' := hr'
        rw [Function.update_of_ne hb] at hr'
        exact h.roots b r' hr'
    · -- the root before is in the other place
      obtain ⟨r', hr', heq'⟩ := h.saved h2
      rw [State.savedRoot, if_pos hck] at hr'
      refine ⟨r', ?_, heq'⟩
      simp only [State.savedRoot, hck, if_true]
      rw [Function.update_of_ne (Bool.not_ne_self _)]
      exact hr'
    · cases hr'

theorem TimedInv.run (h : TimedInv s) (hrun : op.run logWrapPoint s = .ok s') : TimedInv s' := by
  cases hr : s.running with
  | false =>
    have hs : TimedReplay s := by
      rw [TimedInv, hr] at h
      exact h
    cases op with
    | crash fate n => exact timedInv_crash h hrun
    | replay i =>
      obtain rfl | ⟨genIndex, left, od, dir, -, -, rfl⟩ := replay_ok hrun
      · exact h
      · exact timedInv_of_replaying rfl ⟨hs.two_le, hs.ckptState, hs.roots, hs.root, hs.noWrite⟩
    | nextHeader =>
      have hrun : Checkpoint.nextHeader logWrapPoint s = .ok s' := hrun
      unfold Checkpoint.nextHeader at hrun
      split at hrun
      · obtain rfl := readGenHdr_ok hrun
        exact timedInv_of_replaying rfl ⟨hs.two_le, hs.ckptState, hs.roots, hs.root, hs.noWrite⟩
      · exact Timed.finish hs hrun
      · cases hrun
        exact h
    | tick d =>
      cases hrun
      exact timedInv_of_replaying hr ⟨hs.two_le, hs.ckptState, hs.roots, hs.root, hs.noWrite⟩
    | endCkptRootWrite =>
      have hrun : Except.ok (Checkpoint.endCkptRootWrite s) = Except.ok s' := hrun
      rw [Checkpoint.endCkptRootWrite, hs.noWrite] at hrun
      cases hrun
      exact h
    | record _ | takeLog _ | migrated _ | declareDemarcationEvent | ensureCheckpoint _
    | checkpointStep _ _ =>
      simp only [Op.run, hr, Bool.false_eq_true, if_false, false_and] at hrun
      cases hrun
      exact h
  | true =>
    have hs : Timed s := by
      rw [TimedInv, hr] at h
      exact h
    have hdone := restartPhase_done hr
    cases op with
    | crash fate n => exact timedInv_crash h hrun
    | replay i =>
      have hrun : Checkpoint.replay i s = .ok s' := hrun
      rw [Checkpoint.replay, hdone] at hrun
      cases hrun
      exact h
    | nextHeader =>
      have hrun : Checkpoint.nextHeader logWrapPoint s = .ok s' := hrun
      rw [Checkpoint.nextHeader, hdone] at hrun
      cases hrun
      exact h
    | tick d =>
      cases hrun
      exact timedInv_of_running hr
        ⟨hs.two_le, hs.roots, hs.saved, hs.before, hs.genHdr, hs.header, hs.write, hs.written⟩
    | endCkptRootWrite =>
      cases hrun
      refine timedInv_of_running ?_ hs.endCkptRootWrite
      unfold Checkpoint.endCkptRootWrite
      split <;> exact hr
    | record od =>
      simp only [Op.run, hr, if_true] at hrun
      obtain ⟨dir, hcall, hrun⟩ := of_bind_ok hrun
      cases hrun
      exact timedInv_of_running hr
        ⟨hs.two_le, hs.roots, hs.saved, hs.before, hs.genHdr, hs.header, hs.write, hs.written⟩
    | takeLog _ | migrated _ =>
      simp only [Op.run] at hrun
      split_ifs at hrun
      · cases hrun
        exact timedInv_of_running hr
          ⟨hs.two_le, hs.roots, hs.saved, hs.before, hs.genHdr, hs.header, hs.write, hs.written⟩
      · cases hrun
        exact h
    | declareDemarcationEvent =>
      simp only [Op.run, hr, true_and] at hrun
      split_ifs at hrun with hck
      · rw [Checkpoint.declareDemarcationEvent, check_pos hck, ok_bind] at hrun
        cases hrun
        exact timedInv_of_running hr (hs.declare hck)
      · cases hrun
        exact h
    | ensureCheckpoint t =>
      simp only [Op.run, hr, if_true] at hrun
      cases hrun
      unfold Checkpoint.ensureCheckpoint
      split_ifs with h₁ h₂ hck
      · exact h
      · exact h
      · exact timedInv_of_running hr (hs.declare hck)
      · exact h
    | checkpointStep dirFrames stale =>
      simp only [Op.run, hr, if_true] at hrun
      exact hs.checkpointStep hr hrun

theorem Reach.timedInv {P : State → Op → Prop} (h : Reach logWrapPoint P numLogDirEntries s) :
    TimedInv s := by
  induction h with
  | start h => exact timedInv_start h
  | step _ _ hrun ih => exact ih.run hrun

/-- In every run, a timely request is answered `RC_OK` only if a checkpoint has been stabilized whose
demarcation time is at least the given time. -/
theorem stabilized_of_timely (h : Reach logWrapPoint (fun _ _ => True) numLogDirEntries s)
    (hr : s.running = true) (ht : Timely s timeToSave)
    (hans : (ensureCheckpoint timeToSave s).1 = .ok) : Stabilized s timeToSave := by
  have hinv := h.timedInv
  rw [TimedInv, if_pos hr] at hinv
  exact hinv.stabilized ht hans

/-- A request after a checkpoint. -/
theorem stabilized_of_timely_request :
    ∃ s, Reach (frameToOID 100) (fun _ _ => True) 2 s ∧ (ensureCheckpoint 5 s).1 = .ok ∧
      Stabilized s 5 := by
  have hrun : (runFrom (frameToOID 100) (fun _ _ => True) 2
      [.tick 5, .record ⟨7, 0, 0, 0, 0⟩, .declareDemarcationEvent, .checkpointStep 0 0,
        .checkpointStep 0 0, .checkpointStep 0 0, .checkpointStep 0 0, .endCkptRootWrite,
        .checkpointStep 0 0]).map
      (fun s => (s.running, s.unstable, s.workingGenerationNumber, (ensureCheckpoint 5 s).1)) =
        some (true, false, 3, .ok) := by decide +kernel
  obtain ⟨s, hs, he⟩ := Option.map_eq_some_iff.1 hrun
  simp only [Prod.mk.injEq] at he
  obtain ⟨hr, hun, hw, hans⟩ := he
  have h := reach_of_runFrom _ hs
  have ht : Timely s 5 := by
    rw [Timely, hun, if_neg Bool.false_ne_true, hw]
    intro h2
    cases h2
  exact ⟨s, h, hans, stabilized_of_timely h hr ht hans⟩

/-- A request right after the first demarcation. -/
theorem ensureCheckpoint_too_early :
    ¬∀ (logWrapPoint numLogDirEntries timeToSave : ℕ) (s : State),
      Reach logWrapPoint (fun _ _ => True) numLogDirEntries s → s.running = true →
        (ensureCheckpoint timeToSave s).1 = .ok → Stabilized s timeToSave := by
  intro hall
  have hrun : (runFrom (frameToOID 100) (fun _ _ => True) 2
      [.tick 5, .declareDemarcationEvent, .checkpointStep 0 0]).map
      (fun s => (s.running, (ensureCheckpoint 5 s).1,
        (s.roots false).map CkptRoot.mostRecentGenerationNumber,
        (s.roots true).map CkptRoot.mostRecentGenerationNumber)) =
        some (true, .ok, some 0, some 0) := by decide +kernel
  obtain ⟨s, hs, he⟩ := Option.map_eq_some_iff.1 hrun
  simp only [Prod.mk.injEq] at he
  obtain ⟨hr, hans, h₀, h₁⟩ := he
  obtain ⟨b, r, hb, hne, -⟩ := hall _ _ 5 s (reach_of_runFrom _ hs) hr hans
  cases b with
  | false =>
    rw [hb] at h₀
    exact hne (Option.some.inj h₀)
  | true =>
    rw [hb] at h₁
    exact hne (Option.some.inj h₁)

end CapROS.Checkpoint
