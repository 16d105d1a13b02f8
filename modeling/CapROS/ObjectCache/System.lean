import CapROS.ObjectCache.Nodes

/-!
# The object cache as a transition system

The kernel runs one operation at a time, from its start until it returns, yields or stops. The
operations are those of processes (faults, stores, fetches), of the frame allocator (ageing), of
the checkpoint thread, and the completions of I/O requests. The disk drivers serve the requests of
each range in their order.
-/

namespace CapROS.ObjectCache

open Yielding

/-! ## Completion of requests -/

/-- The transfer between the frame and the disk. A page that is dirtied while it is being written
may end up on the disk as anything, `torn`. -/
def transfer (r : IORequest) (torn : FrameData) (s : State) : State :=
  match r.page, r.request with
  | some f, .readRangeLoc loc => s.setFrame f { s.frames f with data := s.disk loc }
  | some f, .writeRangeLoc loc =>
      { s with
        disk := Function.update s.disk loc
          (if (s.frames f).dirty then torn else (s.frames f).data) }
  | _, _ => s

/-- `IOReq_EndSync`. -/
def endSync : Kernel Unit := Prog.modify fun s => { s with rangesSynced := s.rangesSynced + 1 }

/-- The call of `doneFn`. -/
def runDoneFn (r : IORequest) : Kernel Unit :=
  match r.doneFn, r.page with
  | .endReadPage, some f => endRead f
  | .endWrite, some f => endWrite f
  | .endPageClean, some f => endPageClean f
  | .endSync, none => endSync
  | _, _ => Prog.halt .nullDeref

/-- The request at position `i` of the queue is the oldest of its range. -/
def isNext (queue : List IORequest) (i : ℕ) (r : IORequest) : Bool :=
  (queue.take i).all fun q => decide (q.range ≠ r.range)

/-- The request at position `i` of the queue is done. -/
def ioComplete (i : ℕ) (torn : FrameData) : Kernel Unit := fun s =>
  match s.queue[i]? with
  | none => .yield s
  | some r =>
      if isNext s.queue i r then
        runDoneFn r (transfer r torn { s with queue := s.queue.eraseIdx i })
      else .yield s

/-! ## The checkpoint thread -/

/-- The loop of `DoSync`, with so many free I/O requests. -/
def enqueueSyncs (cfg : Config) : ℕ → Kernel Unit
  | 0 => fun s => if s.nextRangeToSync < cfg.nLidRanges then .yield s else .done () s
  | avail + 1 => fun s =>
      if s.nextRangeToSync < cfg.nLidRanges then
        enqueueSyncs cfg avail
          { s with
            queue := s.queue ++ [⟨s.nextRangeToSync, .synchronizeCache, none, .endSync⟩]
            nextRangeToSync := s.nextRangeToSync + 1 }
      else .done () s

def doSync (cfg : Config) (avail : ℕ) : Kernel Unit := do
  enqueueSyncs cfg avail
  let s ← Prog.get
  if s.rangesSynced < s.nextRangeToSync then Prog.yield else pure ()

/-- `DoPhase1Work`, from the moment of demarcation on. -/
def doPhase1Work (cfg : Config) : Kernel Unit := do
  Prog.modify fun s => { s with kroNodeCleanCursor := 0 }
  Prog.forEach demarcateNode (List.range cfg.nNodes)
  Prog.forEach demarcatePage (List.range cfg.nPages)
  Prog.modify fun s => { s with ckptState := .phase2 }

/-- The end of `DoPhase2Work`: there are no more nodes and pages to clean. -/
def finishPhase2 : Kernel Unit := do
  let s ← Prog.get
  Prog.when (s.numKRONodes = 0 ∧ s.numKRODirtyPages = 0)
    (Prog.modify fun s =>
      { s with nextRangeToSync := 0, rangesSynced := 0, ckptState := .phase3 })

/-- `DoPhase3Work`, as far as it touches this state: the frames of the directory and the
generation header take locations of the log. -/
def finishPhase3 (cfg : Config) (dirFrames : ℕ) : Kernel Unit :=
  Prog.modify fun s =>
    { s with
      logCursor := (incrementLID cfg.logWrapPoint)^[dirFrames + 1] s.logCursor
      ckptState := .phase4 }

def doPhase4Work (cfg : Config) (avail : ℕ) : Kernel Unit := do
  doSync cfg avail
  Prog.modify fun s =>
    { s with nextRangeToSync := 0, rangesSynced := 0, ckptState := .phase5 }

/-- `DoPhase5Work` and `PostCheckpointProcessing`. -/
def doPhase5Work (cfg : Config) (avail : ℕ) : Kernel Unit := do
  doSync cfg avail
  Prog.modify fun s =>
    { s with workingGeneration := s.workingGeneration + 1, ckptState := .notActive }

/-! ## Operations -/

/-- The operations of the system. -/
inductive Op where
  | fetchPage (res : Resources) (oid : ℕ) (loc : DiskLoc)
  | fetchPot (res : Resources) (oidOrLid : ℕ) (loc : DiskLoc) (isLog : Bool)
  | createNewNullPage (res : Resources) (oid allocCount : ℕ)
  | ensureWritable (res : Resources) (sp : Space) (f : ℕ)
  | storePage (f : ℕ) (d : PageData)
  | usePage (f : ℕ) (pinned : Bool) (keys products : List ℕ)
  | agePageClean (res : Resources) (f : ℕ)
  | agePageSteal (f : ℕ)
  | getNodeFromPot (n f : ℕ) (obIndex : Fin diskNodesPerPage)
  | createNewNullNode (n oid allocCount : ℕ)
  | ensureWritableNode (res : ℕ → Resources) (sp : Space) (n : ℕ)
  | storeNode (n : ℕ) (nodeData : BitVec 16) (slots : Fin 32 → Key) (callCount : ℕ)
  | setNodeAge (n objAge : ℕ)
  | ageNodeSteal (res : Resources) (n : ℕ)
  | cleanAPotOfNodes (res : Resources)
  | ioComplete (i : ℕ) (torn : FrameData)
  | declareDemarcationEvent
  | doPhase1Work
  | cleanAKRONode (res : Resources)
  | cleanAKROPage (res : Resources) (f : ℕ)
  | finishPhase2
  | finishPhase3 (dirFrames : ℕ)
  | doPhase4Work (avail : ℕ)
  | doPhase5Work (avail : ℕ)

/-- The checkpoint thread does the work `m` when it is in the phase `p`. -/
def inPhase (p : CkptState) (m : Kernel Unit) : Kernel Unit := do
  let s ← Prog.get
  Prog.when (s.ckptState = p) m

/-- A page is made writeable for the holder of a key to it, or by the kernel, but not while it is being
fetched. -/
def ensureWritableHeld (cfg : Config) (res : Resources) (sp : Space) (f : ℕ) : Kernel Unit := do
  let fr ← readFrame f
  Prog.when (fr.obType = .dataPage ∧ ¬fr.fetching) (ensureWritable cfg res sp f)

/-- A node in use is made writeable. -/
def ensureWritableNodeHeld (cfg : Config) (res : ℕ → Resources) (sp : Space) (n : ℕ) :
    Kernel Unit := do
  let nd ← readNode n
  Prog.when (nd.inUse = true) (ensureWritableNode cfg res sp n)

def exec (cfg : Config) : Op → Kernel Unit
  | .fetchPage res oid loc => fetchPage cfg res oid loc
  | .fetchPot res oidOrLid loc isLog =>
      fetchPot cfg res oidOrLid loc (if isLog then .logPot else .homePot)
  | .createNewNullPage res oid allocCount => do
      let _ ← createNewNullPage cfg res oid allocCount
      pure ()
  | .ensureWritable res sp f => ensureWritableHeld cfg res sp f
  | .storePage f d => storePage f d
  | .usePage f pinned keys products => usePage f pinned keys products
  | .agePageClean res f => agePageClean cfg res f
  | .agePageSteal f => agePageSteal f
  | .getNodeFromPot n f obIndex => getNodeFromPot n f obIndex
  | .createNewNullNode n oid allocCount => createNewNullNode n oid allocCount
  | .ensureWritableNode res sp n => ensureWritableNodeHeld cfg res sp n
  | .storeNode n nodeData slots callCount => storeNode n nodeData slots callCount
  | .setNodeAge n objAge => setNodeAge n objAge
  | .ageNodeSteal res n => ageNodeSteal cfg res n
  | .cleanAPotOfNodes res => do
      let _ ← cleanAPotOfNodes cfg res false
      pure ()
  | .ioComplete i torn => ioComplete i torn
  | .declareDemarcationEvent => inPhase .notActive declareDemarcationEvent
  | .doPhase1Work => inPhase .phase1 (doPhase1Work cfg)
  | .cleanAKRONode res => inPhase .phase2 do
      let _ ← cleanAKRONode cfg res
      pure ()
  | .cleanAKROPage res f => inPhase .phase2 (cleanAKROPage cfg res f)
  | .finishPhase2 => inPhase .phase2 finishPhase2
  | .finishPhase3 dirFrames => inPhase .phase3 (finishPhase3 cfg dirFrames)
  | .doPhase4Work avail => inPhase .phase4 (doPhase4Work cfg avail)
  | .doPhase5Work avail => inPhase .phase5 (doPhase5Work cfg avail)

/-- The operation leads from `s` to `s'`: it returns or yields. -/
inductive Step (cfg : Config) (s : State) (op : Op) : State → Prop where
  | done {s' : State} (h : exec cfg op s = .done () s') : Step cfg s op s'
  | yield {s' : State} (h : exec cfg op s = .yield s') : Step cfg s op s'

/-- An assertion fails in the operation, or the kernel stops for another reason. -/
def Halts (cfg : Config) (s : State) (op : Op) : Prop := ∃ e s', exec cfg op s = .halt e s'

/-- A run all of whose operations satisfy `P` in the state in which they start. -/
inductive Run (cfg : Config) (P : State → Op → Prop) (s : State) : State → Prop where
  | refl : Run cfg P s s
  | step {t u : State} {op : Op} (hrun : Run cfg P s t) (hok : P t op) (hstep : Step cfg t op u) :
      Run cfg P s u

theorem Run.mono {cfg : Config} {P Q : State → Op → Prop} {s t : State}
    (h : ∀ u op, P u op → Q u op) (hrun : Run cfg P s t) : Run cfg Q s t := by
  induction hrun with
  | refl => exact .refl
  | step _ hok hstep ih => exact ih.step (h _ _ hok) hstep

theorem Run.exec {cfg : Config} {P : State → Op → Prop} {s t u : State} (hrun : Run cfg P s t)
    (op : Op) (hok : P t op) (h : ObjectCache.exec cfg op t = .done () u) : Run cfg P s u :=
  hrun.step hok (.done h)

/-- The state after the restart: nothing is being read or written, nothing is kernel-read-only, and
the entries of the log directory belong to generations before the working one. -/
structure Initial (cfg : Config) (s : State) : Prop where
  frames : ∀ f, (s.frames f).kro = false ∧ (s.frames f).ioreq = none ∧
    (s.frames f).fetching = false
  types : ∀ f, (s.frames f).obType = .freeFrame ∨ (s.frames f).obType = .kernelUse ∨
    (s.frames f).obType = .dataPage
  pages : ∀ f, (s.frames f).obType = .dataPage →
    (s.frames f).cleanable = oidIsPersistent (s.frames f).oid ∧
      (oidIsPersistent (s.frames f).oid = false → (s.frames f).dirty = true)
  bound : ∀ f, cfg.nPages ≤ f → (s.frames f).obType = .freeFrame
  nodes : ∀ n, (s.nodes n).kro = false
  nodesToClean : s.nodesToClean = []
  queue : s.queue = []
  ckptState : s.ckptState = .notActive
  numKRODirtyPages : s.numKRODirtyPages = 0
  numKRONodes : s.numKRONodes = 0
  synced : s.rangesSynced = s.nextRangeToSync
  logCursor : s.logCursor < cfg.logWrapPoint
  aligned : oidToObIndex s.logCursor = 0
  logDir : ∀ oid e, s.logDir oid = some e → e.generation < s.workingGeneration

/-! ## A small system -/

/-- Two page frames, a node frame, and a log with two frames after the roots. -/
def smallConfig : Config where
  nPages := 2
  nNodes := 1
  nLidRanges := 1
  logWrapPoint := 1024
  lidToRange lid := if lid < 1024 then some 0 else none
  homeRange := 1
  lidToRange_lt := by
    intro lid r h
    split at h
    · simp_all
    · simp at h
  mounted := by
    intro lid h
    simp [h]
  mainLog := by decide

/-- The state after the restart of a system in which nothing has run yet. -/
def emptyState : State where
  frames _ := .free
  nodes _ := {}
  nodesToClean := []
  logDir _ := none
  logCursor := mainLogStart
  queue := []
  disk _ := .page 0
  logged _ := none
  ckptState := .notActive
  numKRODirtyPages := 0
  numKRONodes := 0
  kroNodeCleanCursor := 0
  workingGeneration := 1
  nextRangeToSync := 0
  rangesSynced := 0

theorem emptyState_initial : Initial smallConfig emptyState where
  frames _ := ⟨rfl, rfl, rfl⟩
  types _ := .inl rfl
  pages _ h := by cases h
  bound _ _ := rfl
  nodes _ := rfl
  nodesToClean := rfl
  queue := rfl
  ckptState := rfl
  numKRODirtyPages := rfl
  numKRONodes := rfl
  synced := rfl
  logCursor := by decide
  aligned := by decide
  logDir _ _ h := by cases h

end CapROS.ObjectCache
