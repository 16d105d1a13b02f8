import CapROS.LogDirectory.Runs
import CapROS.ObjectCache.Basic

/-!
# Checkpoints and restarts

The variables of the checkpoint (`kern_Ckpt.c`) that survive from one checkpoint to the next, the
checkpoint roots and generation headers on the disk, and the restart (`kern_Restart.c`). The log
directory is that of `CapROS.LogDirectory`.

The cleaning of objects is left out: what it does here is to take locations of the log and to record
descriptors in the working generation, at any time it is allowed to. The migration is not implemented
in the source (`DoMigrationStep` sleeps forever); that a generation has been migrated is an operation
of its own.

* `checkpointStep`: the phases of a checkpoint, `DoPhase1Work` to `DoPhase5Work`.
-/

namespace CapROS.Checkpoint

open LogDirectory
open ObjectCache (CkptState)

/-- The ways in which the kernel stops. -/
inductive Stop where
  | halt (h : Halt)
  | directory (f : Failure)
  deriving DecidableEq, Repr

/-- `assert(p)`. -/
def check (p : Prop) [Decidable p] : Except Stop Unit :=
  if p then .ok () else .error (.halt .assertion)

/-- The log directory is called. -/
def call {α : Type} : Except Failure α → Except Stop α
  | .ok a => .ok a
  | .error f => .error (.directory f)

def maxUnmigratedGenerations : ℕ := 20

/-- The size of `unmigratedGenHdrLid` and of `CkptRoot.generations`. -/
def ringSize : ℕ := maxUnmigratedGenerations + 1

def unusedLid : ℕ := 0

def wrapCircularIndex (idx max : ℕ) : ℕ := if max ≤ idx then idx - max else idx

/-- `CkptRoot`, as far as the restart reads it. A root with generation 0 says that there is no
checkpoint. -/
structure CkptRoot where
  mostRecentGenerationNumber : ℕ
  numUnmigratedGenerations : ℕ
  /-- The locations of the generation headers, the newest first. -/
  generations : ℕ → ℕ

/-- `DiskGenerationHdr`, with the object directory of the generation. -/
structure GenerationHdr where
  firstLid : ℕ
  /-- The location of the header itself. -/
  lastLid : ℕ
  persistentTimeOfDemarc : ℕ
  objectDir : List ObjectDescriptor

/-- How far the restart has got. -/
inductive RestartPhase where
  /-- The header of the generation `genIndex` before the newest has been read; these descriptors
  of its object directory are still to be recorded. -/
  | replaying (genIndex : ℕ) (left : List ObjectDescriptor)
  | done

/-- The variables of the checkpoint and the restart, and the disk. -/
structure State where
  dir : Directory
  ckptState : CkptState
  workingGenerationNumber : ℕ
  retiredGeneration : ℕ
  migratedGeneration : ℕ
  nextRetiredGeneration : ℕ
  /-- Its index is below `ringSize`. -/
  unmigratedGenHdrLid : ℕ → ℕ
  wkgUGHL : ℕ
  nextWkgUGHL : ℕ
  logCursor : ℕ
  workingGenFirstLid : ℕ
  oldestNonRetiredGenLid : ℕ
  monotonicTimeOfLastDemarc : ℕ
  /-- `genHdr->persistentTimeOfDemarc`, while a checkpoint is active. -/
  genHdrTime : ℕ
  /-- The descriptors that go into the object directory. -/
  genHdrObjectDir : List ObjectDescriptor
  /-- `sysT_NowPersistent`. -/
  now : ℕ
  restartPhase : RestartPhase
  curRoot : CkptRoot
  /-- `currentRootLID` is `CKPT_ROOT_1`. -/
  currentRoot : Bool
  /-- The checkpoint roots on the disk, `none` if not valid. -/
  roots : Bool → Option CkptRoot
  /-- The root that is being written. -/
  rootWrite : Option CkptRoot
  /-- The header that has been written for each generation. -/
  headers : ℕ → GenerationHdr

variable (logWrapPoint : ℕ)

/-! ## Generations -/

def getNextRetiredGeneration (s : State) : ℕ :=
  if s.nextRetiredGeneration ≠ 0 then s.nextRetiredGeneration else s.migratedGeneration

def getOldestNonRetiredGenLid (s : State) (retGen : ℕ) : ℕ :=
  let numUnmigrGens := s.workingGenerationNumber - 1 - retGen
  let c := wrapCircularIndex (s.wkgUGHL + numUnmigrGens) ringSize
  incrementLID logWrapPoint (s.unmigratedGenHdrLid c)

def postCheckpointProcessing (s : State) : Except Stop State := do
  check (s.nextRetiredGeneration ≠ 0)
  let s := { s with
    retiredGeneration := s.nextRetiredGeneration
    workingGenerationNumber := s.workingGenerationNumber + 1 }
  let s := { s with
    oldestNonRetiredGenLid := getOldestNonRetiredGenLid logWrapPoint s (getNextRetiredGeneration s)
    workingGenFirstLid := s.logCursor }
  let dir ← call (generationRetired s.dir s.retiredGeneration)
  .ok { s with dir := dir }

/-! ## The phases of a checkpoint -/

def declareDemarcationEvent (s : State) : Except Stop State := do
  check (s.ckptState = .notActive)
  .ok { s with nextRetiredGeneration := 0, ckptState := .phase1 }

/-- `DoPhase1Work`, from the moment of demarcation on. -/
def doPhase1Work (s : State) : State :=
  { s with monotonicTimeOfLastDemarc := s.now, genHdrTime := s.now, ckptState := .phase2 }

/-- So many descriptors are taken by `ld_findNextObject`. -/
def takeEntries (generation : ℕ) : ℕ → Directory → Except Failure (List ObjectDescriptor × Directory)
  | 0, D => .ok ([], D)
  | n + 1, D => do
      match ← findNextObject D generation with
      | (none, _) => .error .assertion
      | (some od, D) => do
          let (ods, D) ← takeEntries generation n D
          .ok (od :: ods, D)

/-- The descriptors of the object directory: `ld_numWorkingEntries` of them from the start of the
generation's chain on. -/
def objectDirEntries (D : Directory) (generation : ℕ) :
    Except Failure (List ObjectDescriptor × Directory) := do
  let numDirEntsToSave := numWorkingEntries D
  let D ← resetScan D generation
  takeEntries generation numDirEntsToSave D

/-- The end of `DoPhase2Work`, with the descriptors that go into the object directory. -/
def doPhase2Work (s : State) : Except Stop State := do
  let (ods, dir) ← call (objectDirEntries s.dir s.workingGenerationNumber)
  .ok { s with dir := dir, genHdrObjectDir := ods, ckptState := .phase3 }

/-- `DoPhase3Work`: the frames of the object directory and the generation header take locations of
the log. -/
def doPhase3Work (dirFrames : ℕ) (s : State) : State :=
  let thisGenHdrLid := (incrementLID logWrapPoint)^[dirFrames] s.logCursor
  let nextWkgUGHL := (if s.wkgUGHL = 0 then ringSize else s.wkgUGHL) - 1
  { s with
    logCursor := incrementLID logWrapPoint thisGenHdrLid
    nextWkgUGHL := nextWkgUGHL
    unmigratedGenHdrLid := Function.update s.unmigratedGenHdrLid nextWkgUGHL thisGenHdrLid
    headers := Function.update s.headers s.workingGenerationNumber
      { firstLid := s.workingGenFirstLid
        lastLid := thisGenHdrLid
        persistentTimeOfDemarc := s.genHdrTime
        objectDir := s.genHdrObjectDir }
    ckptState := .phase4 }

/-- The locations in a root: so many from `lidCursor` on. The last place of the array may be left as
it is. -/
def rootGenerations (ring : ℕ → ℕ) (lidCursor num stale : ℕ) : ℕ → ℕ := fun i =>
  if i < num then ring ((fun c => wrapCircularIndex (c + 1) ringSize)^[i] lidCursor)
  else if i < maxUnmigratedGenerations then unusedLid
  else stale

/-- `DoPhase4Work`, after the header has been written. -/
def doPhase4Work (stale : ℕ) (s : State) : Except Stop State := do
  let numUnmigrGens := s.workingGenerationNumber - s.migratedGeneration
  if ringSize < numUnmigrGens + 1 then .error (.halt .outOfBounds)
  else
    .ok { s with
      nextRetiredGeneration := s.migratedGeneration
      currentRoot := !s.currentRoot
      rootWrite := some
        { mostRecentGenerationNumber := s.workingGenerationNumber
          numUnmigratedGenerations := numUnmigrGens
          generations :=
            rootGenerations s.unmigratedGenHdrLid s.nextWkgUGHL (numUnmigrGens + 1) stale }
      ckptState := .phase5 }

/-- The root has been written. -/
def endCkptRootWrite (s : State) : State :=
  match s.rootWrite with
  | none => s
  | some r => { s with roots := Function.update s.roots s.currentRoot (some r), rootWrite := none }

/-- `DoPhase5Work`: it waits until the root has been written. -/
def doPhase5Work (s : State) : Except Stop State :=
  match s.rootWrite with
  | some _ => .ok s
  | none => do
      let s ← postCheckpointProcessing logWrapPoint { s with wkgUGHL := s.nextWkgUGHL }
      .ok { s with ckptState := .notActive }

/-- `DoCheckpointStep`. -/
def checkpointStep (dirFrames stale : ℕ) (s : State) : Except Stop State :=
  match s.ckptState with
  | .notActive => .ok s
  | .phase1 => .ok (doPhase1Work s)
  | .phase2 => doPhase2Work s
  | .phase3 => .ok (doPhase3Work logWrapPoint dirFrames s)
  | .phase4 => doPhase4Work stale s
  | .phase5 => doPhase5Work logWrapPoint s

/-! ## Restart -/

/-- What becomes of the root that is being written when the system stops. -/
inductive Fate where
  | lost
  | torn
  | written
  deriving DecidableEq, Repr

/-- The roots on the disk after a crash. -/
def rootsAfter (fate : Fate) (s : State) : Bool → Option CkptRoot :=
  match fate, s.rootWrite with
  | .torn, some _ => Function.update s.roots s.currentRoot none
  | .written, some r => Function.update s.roots s.currentRoot (some r)
  | _, _ => s.roots

/-- The part of `DoRestartPhaseWaitingRoot1` that finds the more recent root. -/
def findRoot (roots : Bool → Option CkptRoot) : Except Stop (Bool × CkptRoot) :=
  match roots false, roots true with
  | none, none => .error (.halt .assertion)
  | none, some root1 => .ok (true, root1)
  | some root0, none => .ok (false, root0)
  | some root0, some root1 =>
      if root1.mostRecentGenerationNumber < root0.mostRecentGenerationNumber then .ok (false, root0)
      else .ok (true, root1)

/-- `ReadGenHdr` and the first assertions of `IOReq_EndGenHdrRead`. -/
def readGenHdr (genIndex : ℕ) (s : State) : Except Stop State := do
  let lid := s.curRoot.generations genIndex
  check (lid ≠ unusedLid)
  let hdr := s.headers (s.workingGenerationNumber - genIndex)
  check (hdr.lastLid = lid)
  .ok { s with restartPhase := .replaying genIndex hdr.objectDir }

/-- The system stops, and is started again with a log directory of so many nodes. -/
def crash (fate : Fate) (numLogDirEntries : ℕ) (s : State) : Except Stop State := do
  let roots := rootsAfter fate s
  let (currentRoot, curRoot) ← findRoot roots
  let genIndex := curRoot.numUnmigratedGenerations
  check (0 < genIndex ∧ genIndex ≤ maxUnmigratedGenerations)
  readGenHdr (genIndex - 1)
    { s with
      dir := startup numLogDirEntries
      ckptState := .notActive
      workingGenerationNumber := curRoot.mostRecentGenerationNumber
      retiredGeneration := 0
      migratedGeneration := 0
      nextRetiredGeneration := 0
      unmigratedGenHdrLid := fun _ => 0
      wkgUGHL := 0
      nextWkgUGHL := 0
      logCursor := 0
      workingGenFirstLid := 0
      oldestNonRetiredGenLid := 0
      monotonicTimeOfLastDemarc := 0
      genHdrTime := 0
      genHdrObjectDir := []
      now := 0
      curRoot := curRoot
      currentRoot := currentRoot
      roots := roots
      rootWrite := none }

def finishRestart (s : State) : Except Stop State := do
  let s ← postCheckpointProcessing logWrapPoint
    { s with
      nextRetiredGeneration := s.migratedGeneration
      unmigratedGenHdrLid := s.curRoot.generations
      logCursor := incrementLID logWrapPoint (s.curRoot.generations 0)
      now := s.monotonicTimeOfLastDemarc }
  .ok { s with restartPhase := .done }

def doneProcessingProcDirFrames (s : State) : Except Stop State :=
  finishRestart logWrapPoint
    { s with
      monotonicTimeOfLastDemarc := (s.headers s.workingGenerationNumber).persistentTimeOfDemarc
      migratedGeneration :=
        s.curRoot.mostRecentGenerationNumber - s.curRoot.numUnmigratedGenerations }

/-- `AddObjDescriptor`, for one of the descriptors that are left. -/
def replay (i : ℕ) (s : State) : Except Stop State :=
  match s.restartPhase with
  | .done => .ok s
  | .replaying genIndex left =>
      match left[i]? with
      | none => .ok s
      | some od => do
          let dir ← call (recordLocation s.dir od (s.workingGenerationNumber - genIndex))
          .ok { s with dir := dir, restartPhase := .replaying genIndex (left.eraseIdx i) }

/-- `DoneProcessingObDirFrames`. -/
def nextHeader (s : State) : Except Stop State :=
  match s.restartPhase with
  | .replaying (genIndex + 1) [] => readGenHdr genIndex s
  | .replaying 0 [] => doneProcessingProcDirFrames logWrapPoint s
  | _ => .ok s

/-! ## Runs -/

/-- The answers to `ensureCheckpoint`. -/
inductive Answer where
  | futureTime
  | ok
  /-- The invoker sleeps on `WaitForCkptInactive`, and repeats the invocation. -/
  | sleep
  deriving DecidableEq, Repr

/-- `CheckpointKey`, for `ensureCheckpoint`, after the restart. -/
def ensureCheckpoint (timeToSave : ℕ) (s : State) : Answer × State :=
  if s.now < timeToSave then (.futureTime, s)
  else if timeToSave ≤ s.monotonicTimeOfLastDemarc then (.ok, s)
  else if s.ckptState = .notActive then
    (.sleep, { s with nextRetiredGeneration := 0, ckptState := .phase1 })
  else (.sleep, s)

/-- The operations. -/
inductive Op where
  /-- `ld_recordLocation`, in the working generation. -/
  | record (od : ObjectDescriptor)
  /-- So many calls of `NextLogLoc`. -/
  | takeLog (frames : ℕ)
  | tick (d : ℕ)
  /-- The generations up to this one have been migrated. -/
  | migrated (generation : ℕ)
  | declareDemarcationEvent
  | ensureCheckpoint (timeToSave : ℕ)
  | checkpointStep (dirFrames stale : ℕ)
  | endCkptRootWrite
  | crash (fate : Fate) (numLogDirEntries : ℕ)
  | replay (i : ℕ)
  | nextHeader

/-- The restart is done. -/
def State.running (s : State) : Bool :=
  match s.restartPhase with
  | .done => true
  | .replaying _ _ => false

/-- Objects are being cleaned only until the end of phase 2. -/
def State.cleaning (s : State) : Bool :=
  match s.ckptState with
  | .notActive | .phase1 | .phase2 => true
  | .phase3 | .phase4 | .phase5 => false

/-- What an operation does; nothing, if it is not the time for it. -/
def Op.run (s : State) : Op → Except Stop State
  | .record od =>
      if s.running then do
        let dir ← call (recordLocation s.dir od s.workingGenerationNumber)
        .ok { s with dir := dir }
      else .ok s
  | .takeLog frames =>
      if s.running ∧ s.cleaning then
        .ok { s with logCursor := (incrementLID logWrapPoint)^[frames] s.logCursor }
      else .ok s
  | .tick d => .ok { s with now := s.now + d }
  | .migrated generation =>
      if s.running ∧ s.migratedGeneration ≤ generation ∧ generation < s.workingGenerationNumber then
        .ok { s with migratedGeneration := generation }
      else .ok s
  | .declareDemarcationEvent =>
      if s.running ∧ s.ckptState = .notActive then Checkpoint.declareDemarcationEvent s else .ok s
  | .ensureCheckpoint timeToSave =>
      if s.running then .ok (Checkpoint.ensureCheckpoint timeToSave s).2 else .ok s
  | .checkpointStep dirFrames stale =>
      if s.running then Checkpoint.checkpointStep logWrapPoint dirFrames stale s else .ok s
  | .endCkptRootWrite => .ok (Checkpoint.endCkptRootWrite s)
  | .crash fate numLogDirEntries => Checkpoint.crash fate numLogDirEntries s
  | .replay i => Checkpoint.replay i s
  | .nextHeader => Checkpoint.nextHeader logWrapPoint s

/-- The root that `InitCkptRoot` writes when the log is formatted. -/
def formattedRoot : CkptRoot := ⟨0, 0, fun _ => unusedLid⟩

/-- The state from which a big bang comes to `FinishRestart`: the disk has been formatted, and
generation 1 does not exist; it ends before the main log. -/
def preloaded (numLogDirEntries : ℕ) : State where
  dir := startup numLogDirEntries
  ckptState := .notActive
  workingGenerationNumber := 1
  retiredGeneration := 0
  migratedGeneration := 1
  nextRetiredGeneration := 0
  unmigratedGenHdrLid := fun _ => 0
  wkgUGHL := 0
  nextWkgUGHL := 0
  logCursor := 0
  workingGenFirstLid := 0
  oldestNonRetiredGenLid := 0
  monotonicTimeOfLastDemarc := 0
  genHdrTime := 0
  genHdrObjectDir := []
  now := 0
  restartPhase := .replaying 0 []
  curRoot := { formattedRoot with
    generations := Function.update formattedRoot.generations 0 (mainLogStart - frameToOID 1) }
  currentRoot := true
  roots := fun _ => some formattedRoot
  rootWrite := none
  headers := fun _ => ⟨0, mainLogStart - frameToOID 1, 0, []⟩

/-- The states that are reached from a big bang by operations that meet a condition. -/
inductive Reach (P : State → Op → Prop) (numLogDirEntries : ℕ) : State → Prop
  | start {s : State} (h : finishRestart logWrapPoint (preloaded numLogDirEntries) = .ok s) :
      Reach P numLogDirEntries s
  | step {s s' : State} {op : Op} (h : Reach P numLogDirEntries s) (hop : P s op)
      (hrun : op.run logWrapPoint s = .ok s') : Reach P numLogDirEntries s'

/-- The state after operations that all meet the condition. -/
def runIf (P : State → Op → Prop) [∀ s op, Decidable (P s op)] (s : State) : List Op → Option State
  | [] => some s
  | op :: ops =>
      if P s op then
        match op.run logWrapPoint s with
        | .ok s' => runIf P s' ops
        | .error _ => none
      else none

/-- The state after operations that follow a big bang. -/
def runFrom (P : State → Op → Prop) [∀ s op, Decidable (P s op)] (numLogDirEntries : ℕ)
    (ops : List Op) : Option State :=
  match finishRestart logWrapPoint (preloaded numLogDirEntries) with
  | .ok s => runIf logWrapPoint P s ops
  | .error _ => none

variable {logWrapPoint} {P : State → Op → Prop} {numLogDirEntries : ℕ} {s s' : State}

theorem reach_of_runIf [∀ s op, Decidable (P s op)] (h : Reach logWrapPoint P numLogDirEntries s)
    (ops : List Op) (hrun : runIf logWrapPoint P s ops = some s') :
    Reach logWrapPoint P numLogDirEntries s' := by
  induction ops generalizing s with
  | nil =>
    obtain rfl : s = s' := by simpa [runIf] using hrun
    exact h
  | cons op ops ih =>
    unfold runIf at hrun
    split_ifs at hrun with hop
    split at hrun
    · rename_i s₁ hs₁
      exact ih (h.step hop hs₁) hrun
    · cases hrun

theorem reach_of_runFrom [∀ s op, Decidable (P s op)] (ops : List Op)
    (h : runFrom logWrapPoint P numLogDirEntries ops = some s) :
    Reach logWrapPoint P numLogDirEntries s := by
  unfold runFrom at h
  split at h
  · rename_i hs
    exact reach_of_runIf (.start hs) ops h
  · cases h

end CapROS.Checkpoint
