import CapROS.Checkpoint.Generations
import CapROS.LogDirectory.Capacity

/-!
# Generation slots of the log directory

The checkpoint allows for `MaxUnmigratedGenerations`, 20, generations, and the generation table of
the log directory has places for 15. Nothing clears the entries of old generations. A location can
be recorded as long as every entry is of one of the 14 generations before.

* `notFatal_iff`: when that is so, while running and during a restart.
-/

namespace CapROS.Checkpoint

open LogDirectory
open ObjectCache (CkptState)

/-- `ld_recordLocation` and `get_generation_index` do not come to their fatal branches. -/
def NotFatal (r : Except Stop State) : Prop :=
  r ≠ .error (.directory .tooManyGenerations) ∧ r ≠ .error (.directory .invalidGeneration)

/-- The newest generation that may have been recorded. -/
def newest (s : State) : ℕ :=
  match s.restartPhase with
  | .done => s.workingGenerationNumber
  | .replaying genIndex _ => s.workingGenerationNumber - genIndex

/-- The log directory is well-formed, and has nothing of later generations. -/
def DirOk (s : State) : Prop := (∃ V, Holds s.dir V) ∧ s.dir.highestGeneration ≤ newest s

variable {logWrapPoint numLogDirEntries g : ℕ} {s s' : State} {op : Op} {D D' : Directory}

/-! ## Calls of the log directory -/

/-- What a call that changes no entry leaves. -/
def SameEntries (D D' : Directory) : Prop :=
  ((∃ V, Holds D V) → ∃ V, Holds D' V) ∧ D'.highestGeneration = D.highestGeneration

theorem SameEntries.refl (D : Directory) : SameEntries D D := ⟨id, rfl⟩

theorem SameEntries.trans {D₁ : Directory} (h₁ : SameEntries D D₁) (h₂ : SameEntries D₁ D') :
    SameEntries D D' := ⟨fun h => h₂.1 (h₁.1 h), h₂.2.trans h₁.2⟩

theorem sameEntries_findNext {r : Option ObjectDescriptor} (h : findNextObject D g = .ok (r, D')) :
    SameEntries D D' := by
  refine ⟨fun ⟨V, hV⟩ => ?_, ?_⟩
  · have hrun : LogDirectory.Op.run D (.findNext g) = .ok D' := by
      show (findNextObject D g >>= fun r => .ok r.2) = .ok D'
      rw [h, ok_bind]
    exact hV.run hrun
  · unfold findNextObject at h
    obtain ⟨i, hidx, h⟩ := of_bind_ok h
    simp only at h
    split_ifs at h <;> cases h <;> rfl

theorem sameEntries_resetScan (h : resetScan D g = .ok D') : SameEntries D D' := by
  have hrun : LogDirectory.Op.run D (.resetScan g) = .ok D' := h
  refine ⟨fun ⟨V, hV⟩ => hV.run hrun, ?_⟩
  obtain ⟨i, hidx, h⟩ := of_bind_ok h
  cases h
  rfl

theorem sameEntries_retired (h : generationRetired D g = .ok D') : SameEntries D D' := by
  have hrun : LogDirectory.Op.run D (.retired g) = .ok D' := h
  refine ⟨fun ⟨V, hV⟩ => hV.run hrun, ?_⟩
  unfold generationRetired at h
  by_cases hg : D.lastRetiredGeneration ≤ g
  · rw [ensure_pos hg, ok_bind] at h
    cases h
    rfl
  · rw [ensure_neg hg, error_bind] at h
    cases h

theorem sameEntries_takeEntries (n : ℕ) {ods : List ObjectDescriptor}
    (h : takeEntries g n D = .ok (ods, D')) : SameEntries D D' := by
  induction n generalizing D ods with
  | zero =>
    cases h
    exact .refl _
  | succ n ih =>
    obtain ⟨⟨o, D₁⟩, hf, h⟩ := of_bind_ok h
    cases o with
    | none => cases h
    | some od =>
      simp only at h
      obtain ⟨⟨ods', D₂⟩, ht, h⟩ := of_bind_ok h
      cases h
      exact (sameEntries_findNext hf).trans (ih ht)

theorem sameEntries_objectDirEntries {ods : List ObjectDescriptor}
    (h : objectDirEntries D g = .ok (ods, D')) : SameEntries D D' := by
  unfold objectDirEntries at h
  simp only at h
  obtain ⟨D₁, hr, h⟩ := of_bind_ok h
  exact (sameEntries_resetScan hr).trans (sameEntries_takeEntries _ h)

theorem DirOk.same (h : DirOk s) (hsame : SameEntries s.dir s'.dir) (hn : newest s ≤ newest s') :
    DirOk s' := by
  refine ⟨hsame.1 h.1, ?_⟩
  rw [hsame.2]
  exact h.2.trans hn

theorem DirOk.record (h : DirOk s) {od : ObjectDescriptor}
    (hrun : recordLocation s.dir od (newest s) = .ok D') :
    (∃ V, Holds D' V) ∧ D'.highestGeneration ≤ newest s := by
  obtain ⟨⟨V, hV⟩, hle⟩ := h
  obtain ⟨V₁, x, j, hV₁, hrec⟩ := recordLocation_ok hV hrun
  refine ⟨⟨V₁, hV₁⟩, ?_⟩
  rw [hrec.rest]
  exact max_le hle le_rfl

theorem DirOk.notFatal (h : DirOk s) (od : ObjectDescriptor) :
    (recordLocation s.dir od (newest s) ≠ .error .tooManyGenerations ∧
      recordLocation s.dir od (newest s) ≠ .error .invalidGeneration) ↔
      ¬HasEntry s.dir fun e => e + ldMaxGenerations ≤ newest s := by
  obtain ⟨⟨V, hV⟩, hle⟩ := h
  have hmax : 0 < ldMaxGenerations := by decide
  rw [← hV.roomy_iff hle]
  rcases recordLocation_spec hV od (newest s) with
    ⟨hr, -, -, D₁, V₁, x, j, he, -⟩ | ⟨hr, he⟩ | ⟨hr, -, -, he⟩ | ⟨-, -, hold, -⟩ | ⟨hr, -, -, he⟩
  · simp [he, hr]
  · simp [he, hr]
  · simp [he, hr]
  · omega
  · simp [he, hr]

/-! ## Runs -/

theorem newest_running (hr : s.running = true) : newest s = s.workingGenerationNumber := by
  unfold State.running at hr
  unfold newest
  cases hph : s.restartPhase with
  | done => rfl
  | replaying genIndex left =>
    rw [hph] at hr
    cases hr

theorem DirOk.finishRestart (h : DirOk s) (hrun : finishRestart logWrapPoint s = .ok s') : DirOk s' := by
  obtain ⟨s₁, hpost, hrun⟩ := of_bind_ok hrun
  cases hrun
  obtain ⟨-, dir, hdir, rfl⟩ := postCheckpointProcessing_ok hpost
  refine h.same (sameEntries_retired hdir) ?_
  show newest s ≤ s.workingGenerationNumber + 1
  unfold newest
  split <;> omega

theorem dirOk_start (h : finishRestart logWrapPoint (preloaded numLogDirEntries) = .ok s) : DirOk s := by
  have hstart : DirOk (preloaded numLogDirEntries) :=
    ⟨⟨_, (initial_startup numLogDirEntries).holds⟩, Nat.zero_le _⟩
  exact hstart.finishRestart h

theorem DirOk.crash {fate : Fate} {n : ℕ} (hrun : crash fate n s = .ok s') : DirOk s' := by
  unfold Checkpoint.crash at hrun
  simp only at hrun
  obtain ⟨⟨b, r⟩, hroot, hrun⟩ := of_bind_ok hrun
  simp only at hrun
  by_cases hnum : 0 < r.numUnmigratedGenerations ∧
      r.numUnmigratedGenerations ≤ maxUnmigratedGenerations
  · rw [check_pos hnum, ok_bind] at hrun
    obtain rfl := readGenHdr_ok hrun
    exact ⟨⟨_, (initial_startup n).holds⟩, Nat.zero_le _⟩
  · rw [check_neg hnum] at hrun
    cases hrun

theorem DirOk.checkpointStep (h : DirOk s) {dirFrames stale : ℕ} (hr : s.running = true)
    (hrun : checkpointStep logWrapPoint dirFrames stale s = .ok s') : DirOk s' := by
  unfold Checkpoint.checkpointStep at hrun
  split at hrun
  · cases hrun
    exact h
  · cases hrun
    exact h
  · unfold doPhase2Work at hrun
    obtain ⟨r, hcall, hrun⟩ := of_bind_ok hrun
    cases hrun
    exact h.same (sameEntries_objectDirEntries (call_ok hcall)) le_rfl
  · cases hrun
    exact h
  · unfold doPhase4Work at hrun
    simp only at hrun
    split_ifs at hrun
    cases hrun
    exact h
  · unfold doPhase5Work at hrun
    split at hrun
    · cases hrun
      exact h
    · obtain ⟨s₁, hpost, hrun⟩ := of_bind_ok hrun
      cases hrun
      obtain ⟨-, dir, hdir, rfl⟩ := postCheckpointProcessing_ok hpost
      refine h.same (sameEntries_retired hdir) ?_
      have hr' : State.running { s with
          dir := dir, retiredGeneration := s.nextRetiredGeneration
          workingGenerationNumber := s.workingGenerationNumber + 1 } = true := hr
      rw [newest_running hr]
      exact (Nat.le_succ _).trans (newest_running hr').ge

theorem DirOk.run (h : DirOk s) (hrun : op.run logWrapPoint s = .ok s') : DirOk s' := by
  cases op with
  | record od =>
    simp only [Op.run] at hrun
    split_ifs at hrun with hr
    · obtain ⟨dir, hcall, hrun⟩ := of_bind_ok hrun
      cases hrun
      have hrec := call_ok hcall
      rw [← newest_running hr] at hrec
      exact h.record hrec
    · cases hrun
      exact h
  | replay i =>
    obtain rfl | ⟨genIndex, left, od, dir, hphase, hrec, rfl⟩ := replay_ok hrun
    · exact h
    · have hnew : newest s = s.workingGenerationNumber - genIndex := by
        unfold newest
        rw [hphase]
      rw [← hnew] at hrec
      obtain ⟨hV, hle⟩ := h.record hrec
      exact ⟨hV, hle.trans hnew.le⟩
  | nextHeader =>
    have hrun : Checkpoint.nextHeader logWrapPoint s = .ok s' := hrun
    unfold Checkpoint.nextHeader at hrun
    split at hrun
    · rename_i genIndex hphase
      obtain rfl := readGenHdr_ok hrun
      refine h.same (.refl _) ?_
      unfold newest
      rw [hphase]
      simp only
      omega
    · have h' : DirOk { s with
          monotonicTimeOfLastDemarc := (s.headers s.workingGenerationNumber).persistentTimeOfDemarc
          migratedGeneration :=
            s.curRoot.mostRecentGenerationNumber - s.curRoot.numUnmigratedGenerations } := h
      exact h'.finishRestart hrun
    · cases hrun
      exact h
  | crash fate n => exact DirOk.crash hrun
  | checkpointStep dirFrames stale =>
    simp only [Op.run] at hrun
    split_ifs at hrun with hr
    · exact h.checkpointStep hr hrun
    · cases hrun
      exact h
  | declareDemarcationEvent =>
    simp only [Op.run] at hrun
    split_ifs at hrun with hck
    · rw [Checkpoint.declareDemarcationEvent, check_pos hck.2, ok_bind] at hrun
      cases hrun
      exact h
    · cases hrun
      exact h
  | ensureCheckpoint t =>
    simp only [Op.run] at hrun
    split_ifs at hrun with hr
    · cases hrun
      unfold Checkpoint.ensureCheckpoint
      split_ifs <;> exact h
    · cases hrun
      exact h
  | endCkptRootWrite =>
    cases hrun
    unfold Checkpoint.endCkptRootWrite
    split <;> exact h
  | tick d =>
    cases hrun
    exact h
  | takeLog frames | migrated g =>
    simp only [Op.run] at hrun
    split_ifs at hrun <;> cases hrun <;> exact h

theorem Reach.dirOk {P : State → Op → Prop} (h : Reach logWrapPoint P numLogDirEntries s) : DirOk s := by
  induction h with
  | start h => exact dirOk_start h
  | step _ _ hrun ih => exact ih.run hrun

theorem notFatal_call (x : Except Failure Directory) (k : Directory → State) :
    NotFatal (call x >>= fun d => .ok (k d)) ↔
      x ≠ .error .tooManyGenerations ∧ x ≠ .error .invalidGeneration := by
  cases x with
  | ok d | error e => simp [NotFatal, call]

/-- In every state of a run the recording of a location, while running or during a restart, finds a
place in the generation table exactly if every entry is of one of the 14 generations before. -/
theorem notFatal_iff (h : Reach logWrapPoint Admitted numLogDirEntries s) :
    (∀ od, s.running = true → (NotFatal (Op.run logWrapPoint s (.record od)) ↔
      ¬HasEntry s.dir fun e => e + ldMaxGenerations ≤ s.workingGenerationNumber)) ∧
    ∀ i genIndex left, s.restartPhase = .replaying genIndex left → i < left.length →
      (NotFatal (Op.run logWrapPoint s (.replay i)) ↔
        ¬HasEntry s.dir fun e => e + ldMaxGenerations ≤ s.workingGenerationNumber - genIndex) := by
  have hdir := h.dirOk
  refine ⟨fun od hr => ?_, fun i genIndex left hphase hi => ?_⟩
  · have hnew := newest_running hr
    have hiff := hdir.notFatal od
    rw [hnew] at hiff
    simp only [Op.run, hr, if_true]
    exact (notFatal_call _ _).trans hiff
  · have hnew : newest s = s.workingGenerationNumber - genIndex := by
      unfold newest
      rw [hphase]
    have hiff := hdir.notFatal (left.get ⟨i, hi⟩)
    rw [hnew] at hiff
    simp only [Op.run, Checkpoint.replay, hphase, List.getElem?_eq_getElem hi]
    exact (notFatal_call _ _).trans hiff

/-- An object is recorded, and two checkpoints are taken. With three unmigrated generations another one is recorded. -/
theorem notFatal_iff_third : ∃ s, Reach (frameToOID 100) Admitted 2 s ∧
    s.workingGenerationNumber - s.migratedGeneration = 3 ∧ s.dir.logEntryCount = 2 ∧
      NotFatal (Op.run (frameToOID 100) s (.record ⟨8, 0, 0, 0, 0⟩)) := by
  have hrun : (runFrom (frameToOID 100) Admitted 2 (.record ⟨7, 0, 0, 0, 0⟩ ::
      (List.replicate 2 [.record ⟨8, 0, 0, 0, 0⟩, .declareDemarcationEvent, .checkpointStep 0 0,
        .checkpointStep 0 0, .checkpointStep 0 0, .checkpointStep 0 0, .endCkptRootWrite,
        .checkpointStep 0 0]).flatten)).map
      (fun s => (s.running, s.workingGenerationNumber, s.migratedGeneration, s.dir.logEntryCount)) =
      some (true, 4, 1, 2) := by decide +kernel
  obtain ⟨s, hs, he⟩ := Option.map_eq_some_iff.1 hrun
  simp only [Prod.mk.injEq] at he
  obtain ⟨hr, hworking, hmigrated, hcount⟩ := he
  have h := reach_of_runFrom _ hs
  refine ⟨s, h, by omega, hcount, ((notFatal_iff h).1 _ hr).2 ?_⟩
  rintro ⟨oid, -, hle⟩
  rw [hworking, ldMaxGenerations] at hle
  omega

/-- An object is recorded in the first generation and another one in each of the following ones: the
table is full in the sixteenth, when 16 generations are unmigrated. -/
theorem generation_table_full :
    ¬∀ (logWrapPoint numLogDirEntries : ℕ) (s : State) (od : ObjectDescriptor),
      Reach logWrapPoint Admitted numLogDirEntries s → s.running = true →
        NotFatal (Op.run logWrapPoint s (.record od)) := by
  intro hall
  have hrun : (runFrom (frameToOID 100) Admitted 2 (.record ⟨7, 0, 0, 0, 0⟩ ::
      (List.replicate 15 [.record ⟨8, 0, 0, 0, 0⟩, .declareDemarcationEvent, .checkpointStep 0 0,
        .checkpointStep 0 0, .checkpointStep 0 0, .checkpointStep 0 0, .endCkptRootWrite,
        .checkpointStep 0 0]).flatten)).map
      (fun s => (s.running, s.workingGenerationNumber - s.migratedGeneration,
        (Op.run (frameToOID 100) s (.record ⟨8, 0, 0, 0, 0⟩)).map fun _ => ())) =
      some (true, 16, .error (.directory .tooManyGenerations)) := by
    decide +kernel
  obtain ⟨s, hs, he⟩ := Option.map_eq_some_iff.1 hrun
  simp only [Prod.mk.injEq] at he
  obtain ⟨hr, -, herr⟩ := he
  refine (hall _ _ s ⟨8, 0, 0, 0, 0⟩ (reach_of_runFrom _ hs) hr).1 ?_
  cases hres : Op.run (frameToOID 100) s (.record ⟨8, 0, 0, 0, 0⟩) with
  | ok s' =>
    rw [hres] at herr
    cases herr
  | error e =>
    rw [hres] at herr
    cases herr
    rfl

end CapROS.Checkpoint
