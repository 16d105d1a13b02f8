import CapROS.ObjectCache.Basic

/-!
# Cleaning and copying of pages

The life of a page in the object cache: it is fetched or created, made writeable, cleaned, made
kernel-read-only by a demarcation, copied when it is to be written while it is kernel-read-only,
and stolen. The names are those of `kern_ObjectCache.c`, `kern_IOReq.c`, `kern_ObjectHeader.c` and
`kern_Ckpt.c`.

* `checkpointPage`: what the demarcation does to a page.
-/

namespace CapROS.ObjectCache

open Yielding

instance : (d : FrameData) → Decidable d.IsZero
  | .page d => decidable_of_iff (d = 0)
      ⟨fun h => congrArg FrameData.page h, fun h => FrameData.page.inj h⟩
  | .pot _ => isFalse nofun

/-- `FrameToOID(ioreq->rangeLoc) + ioreq->objRange->start`. -/
def DiskLoc.address : DiskLoc → ℕ
  | log lid => lid
  | home rangeLoc => rangeLoc

def createLogDirEntryForNonzeroPage (f : ℕ) : Kernel Unit := do
  let fr ← readFrame f
  match fr.ioreq with
  | some loc => recordLocation fr.oid fr.allocCount 0 loc.address .page
  | none => Prog.halt .nullDeref

/-- The working copy `f` has been cleaned, and there is no further use for it. -/
def freeWorkingCopy (f : ℕ) : Kernel Unit := do
  let fr ← readFrame f
  kcheck (¬fr.dirty)
  kcheck (fr.products = [])
  kcheck fr.ringIsEmpty
  releasePageFrame f

def doneCleaningPage (f : ℕ) : Kernel Unit := do
  updateFrame f fun fr => { fr with kro := false }
  let fr ← readFrame f
  Prog.when (fr.obType = .workingCopy) (freeWorkingCopy f)

/-- The log directory entry that `IOReq_EndPageClean` makes. A page that was dirtied while it was
being written gets none, nor does one that has it already because it is kernel-read-only. -/
def endPageCleanEntry (f : ℕ) : Kernel Unit := do
  let fr ← readFrame f
  if fr.dirty then kcheck (¬fr.kro)
  else Prog.when (¬fr.kro) (createLogDirEntryForNonzeroPage f)

/-- `IOReq_EndPageClean`. -/
def endPageClean (f : ℕ) : Kernel Unit := do
  endPageCleanEntry f
  updateFrame f fun fr => { fr with ioreq := none }
  doneCleaningPage f

def cleanZeroPage (f : ℕ) : Kernel Unit := do
  let fr ← readFrame f
  recordLocation fr.oid fr.allocCount 0 0 .page
  doneCleaningPage f

def cleanLogPot (cfg : Config) (f : ℕ) : Kernel Unit := do
  let fr ← readFrame f
  let rng ← rangeOfLid cfg fr.oid
  updateFrame f fun fr => { fr with ioreq := some (.log fr.oid) }
  ioreqEnqueue ⟨rng, .writeRangeLoc (.log fr.oid), some f, .endWrite⟩

/-- `numKRODirtyPages--`. -/
def decNumKRODirtyPages : Kernel Unit := do
  Prog.modify fun s => { s with numKRODirtyPages := s.numKRODirtyPages - 1 }
  let s ← Prog.get
  kcheck (0 ≤ s.numKRODirtyPages)

/-- Clear `OFLG_DIRTY`. -/
def clearDirty (f : ℕ) : Kernel Unit := do
  updateFrame f fun fr => { fr with dirty := false }
  let fr ← readFrame f
  Prog.when (fr.kro = true) decNumKRODirtyPages

/-- Start to write a page that is not zero. While it is being cleaned, it is marked not dirty, and
I/O in progress. -/
def startPageWrite (cfg : Config) (f : ℕ) : Kernel Unit := do
  let fr ← readFrame f
  let lid ← nextLogLoc cfg
  let rng ← rangeOfLid cfg lid
  updateFrame f fun fr => { fr with ioreq := some (.log lid) }
  noteLogged lid fr.data
  -- a kernel-read-only page stays clean, so its entry can be created now
  Prog.when (fr.kro = true) (createLogDirEntryForNonzeroPage f)
  ioreqEnqueue ⟨rng, .writeRangeLoc (.log lid), some f, .endPageClean⟩

/-- The part of `pageH_Clean` for data pages and working copies, once there is an I/O request. -/
def cleanDataPage (cfg : Config) (f : ℕ) : Kernel Unit := do
  clearDirty f
  let fr ← readFrame f
  if fr.data.IsZero then cleanZeroPage f else startPageWrite cfg f

/-- `pageH_Clean`: `false` if the cleaning was started. -/
def pageClean (cfg : Config) (res : Resources) (f : ℕ) : Kernel Bool := do
  let fr ← readFrame f
  if fr.ioreq.isSome then
    -- it is already being cleaned, so wait for that to finish first
    noIORequest res.isPFH
  else
    match fr.obType with
    | .logPot =>
        if res.hasRequest then do
          cleanLogPot cfg f
          pure false
        else noIORequest res.isPFH
    | .dataPage | .workingCopy =>
        if res.hasRequest then do
          cleanDataPage cfg f
          pure false
        else noIORequest res.isPFH
    | _ => Prog.halt .assertion

/-- The key rings of the old and the new page after `keyR_ObjectMoved`. If the old ring is empty, the
two headers are then linked to each other. -/
def movedRings : Option (List ℕ) → Option (List ℕ) × Option (List ℕ)
  | some (k :: ks) => (some [], some (k :: ks))
  | _ => (none, none)

/-- The page `old` becomes the working version, and the new frame the current version. -/
def moveKROPage (old new : ℕ) : Kernel Unit :=
  Prog.modify fun s =>
    let fr := s.frames old
    (s.setFrame old
      { fr with
        obType := .workingCopy
        products := []
        keyRing := (movedRings fr.keyRing).1 }).setFrame new
      { obType := .dataPage
        oid := fr.oid
        allocCount := fr.allocCount
        data := fr.data
        dirty := true
        fetching := fr.fetching
        cleanable := fr.cleanable
        keyRing := (movedRings fr.keyRing).2 }

/-- The new frame becomes the working version. Its header is not initialised any further, so that
its key ring has null links. -/
def copyKROPage (old new : ℕ) : Kernel Unit :=
  Prog.modify fun s =>
    let fr := s.frames old
    (s.setFrame old { fr with kro := false }).setFrame new
      { obType := .workingCopy
        oid := fr.oid
        allocCount := fr.allocCount
        data := fr.data
        dirty := true
        cleanable := true
        kro := true }

/-- The part of `pageH_MitigateKRO` that allocates a second frame. The result is the frame of the
current version. -/
def mitigateWithCopy (cfg : Config) (res : Resources) (old : ℕ) : Kernel ℕ := do
  let new ← grabPageFrame cfg res.alloc
  let fr ← readFrame old
  if fr.ioreq.isSome ∨ fr.pinned then do
    -- the old page has I/O or is pinned, so it can't be moved
    moveKROPage old new
    pure new
  else do
    kcheck fr.dirty
    copyKROPage old new
    pure old

/-- The part of `pageH_MitigateKRO` for a page that is zero. -/
def mitigateZero (cfg : Config) (res : Resources) (old : ℕ) : Kernel ℕ := do
  let fr ← readFrame old
  kcheck fr.dirty
  if fr.ioreq.isSome then
    -- it was made zero while it was being cleaned, before the demarcation
    mitigateWithCopy cfg res old
  else do
    clearDirty old
    cleanZeroPage old
    pure old

/-- `pageH_MitigateKRO`: the frame of the current version of the page. -/
def mitigateKRO (cfg : Config) (res : Resources) (old : ℕ) : Kernel ℕ := do
  let fr ← readFrame old
  kcheck (fr.kro ∧ fr.cleanable ∧ ¬fr.fetching)
  kcheck (fr.obType = .dataPage)
  if fr.data.IsZero then mitigateZero cfg res old else mitigateWithCopy cfg res old

/-- Mitigate a page that is kernel-read-only, and start over if the current version has moved. -/
def mitigateIfKRO (cfg : Config) (res : Resources) (f : ℕ) : Kernel Unit := do
  let fr ← readFrame f
  if fr.kro then do
    let g ← mitigateKRO cfg res f
    Prog.when (g ≠ f) Prog.yield
  else pure ()

/-- `objH_SetDirtyFlag`. -/
def setDirtyFlag (f : ℕ) : Kernel Unit := updateFrame f fun fr => { fr with dirty := true }

/-- The tests of `objH_EnsureWritable` while a checkpoint is active. To wait for space is not
implemented: the kernel stops. -/
def checkNextSpace (sp : Space) : Kernel Unit := do
  kcheck sp.enoughWorkingDirEnts
  kcheck sp.enoughNextDirEnts
  kcheck sp.enoughNextLog

def declareDemarcationEvent : Kernel Unit := do
  let s ← Prog.get
  kcheck (s.ckptState = .notActive)
  Prog.modify fun s => { s with ckptState := .phase1 }

/-- The part of `objH_EnsureWritable` at and after the label `ckptActive`, for a page. -/
def ensureWritableActive (cfg : Config) (res : Resources) (sp : Space) (f : ℕ) : Kernel Unit := do
  checkNextSpace sp
  mitigateIfKRO cfg res f
  setDirtyFlag f

/-- The part of `objH_EnsureWritable` for a page while no checkpoint is active. -/
def ensureWritableInactive (cfg : Config) (res : Resources) (sp : Space) (f : ℕ) : Kernel Unit := do
  let fr ← readFrame f
  kcheck (¬fr.kro)
  if sp.low then do
    declareDemarcationEvent
    ensureWritableActive cfg res sp f
  else do
    kcheck sp.enoughWorkingDirEnts
    setDirtyFlag f

/-- `objH_EnsureWritable`, for a page. -/
def ensureWritable (cfg : Config) (res : Resources) (sp : Space) (f : ℕ) : Kernel Unit := do
  let fr ← readFrame f
  if fr.dirty ∧ ¬fr.kro then pure ()
  else do
    kcheck fr.cleanable
    kcheck (¬fr.fetching)
    let s ← Prog.get
    if s.ckptState = .notActive then ensureWritableInactive cfg res sp f
    else ensureWritableActive cfg res sp f

/-- A store into a page. The page is mapped writeable only while it is dirty and not
kernel-read-only. -/
def storePage (f : ℕ) (d : PageData) : Kernel Unit := do
  let fr ← readFrame f
  Prog.when (fr.obType = .dataPage ∧ fr.dirty ∧ ¬fr.kro)
    (updateFrame f fun fr => { fr with data := .page d })

/-- Keys to a page are prepared and unprepared, mapping tables are made from it and released, and
it is pinned for the duration of a transaction. -/
def usePage (f : ℕ) (pinned : Bool) (keys products : List ℕ) : Kernel Unit := do
  let fr ← readFrame f
  Prog.when (fr.obType = .dataPage ∧ ¬fr.fetching)
    (updateFrame f fun fr => { fr with pinned, keyRing := fr.keyRing.map fun _ => keys, products })

/-- The range from which a location is read. -/
def rangeOfLoc (cfg : Config) : DiskLoc → Kernel ℕ
  | .log lid => rangeOfLid cfg lid
  | .home _ => pure cfg.homeRange

def allocateIOReqAndPage (cfg : Config) (res : Resources) : Kernel ℕ := do
  let f ← grabPageFrame cfg res.alloc
  if res.hasRequest then pure f
  else do
    releasePageFrame f
    Prog.yield

/-- `objRange_FetchPage`. The header of the page is zeroed but for the fields that are set here; in
particular, its allocation count is zero. -/
def fetchPage (cfg : Config) (res : Resources) (oid : ℕ) (loc : DiskLoc) : Kernel Unit := do
  kcheck (oidIsPersistent oid)
  let f ← allocateIOReqAndPage cfg res
  let rng ← rangeOfLoc cfg loc
  updateFrame f fun _ =>
    { obType := .dataPage
      oid
      fetching := true
      cleanable := true
      keyRing := some []
      ioreq := some loc }
  ioreqEnqueue ⟨rng, .readRangeLoc loc, some f, .endReadPage⟩
  Prog.yield

/-- `objRange_FetchPot`. -/
def fetchPot (cfg : Config) (res : Resources) (oidOrLid : ℕ) (loc : DiskLoc) (obType : PageType) :
    Kernel Unit := do
  kcheck (oidToObIndex oidOrLid = 0)
  let f ← allocateIOReqAndPage cfg res
  let rng ← rangeOfLoc cfg loc
  updateFrame f fun _ =>
    { obType
      oid := oidOrLid
      fetching := true
      keyRing := some []
      ioreq := some loc }
  ioreqEnqueue ⟨rng, .readRangeLoc loc, some f, .endReadPage⟩
  Prog.yield

/-- `CreateNewNullObject`, for a page. -/
def createNewNullPage (cfg : Config) (res : Resources) (oid allocCount : ℕ) : Kernel ℕ := do
  let f ← grabPageFrame cfg res.alloc
  updateFrame f fun _ =>
    { obType := .dataPage
      oid
      allocCount
      data := .page 0
      dirty := true
      cleanable := oidIsPersistent oid
      keyRing := some [] }
  pure f

/-- `IOReq_EndRead`. -/
def endRead (f : ℕ) : Kernel Unit :=
  updateFrame f fun fr => { fr with ioreq := none, fetching := false }

/-- `IOReq_EndWrite`. -/
def endWrite (f : ℕ) : Kernel Unit := updateFrame f fun fr => { fr with ioreq := none }

/-- The frame is of a type that `objC_AgePageFrames` ages, and it is not in use. -/
def PageFrame.isAged (fr : PageFrame) : Bool :=
  match fr.obType with
  | .tagPot | .homePot | .logPot => !fr.fetching
  | .dataPage => fr.cleanable && !fr.pinned && !fr.fetching
  | _ => false

/-- `objC_AgePageFrames`, for a frame whose age is `age_Clean`. -/
def agePageClean (cfg : Config) (res : Resources) (f : ℕ) : Kernel Unit := do
  let fr ← readFrame f
  let s ← Prog.get
  -- during a checkpoint, the current version can't be cleaned
  if fr.isAged ∧ fr.dirty ∧ ¬(s.ckptIsActive ∧ ¬fr.kro) then do
    let _ ← pageClean cfg res f
    pure ()
  else pure ()

/-- `objC_AgePageFrames`, for a frame whose age is `age_Steal`. To dirty a page is to reference it,
so that a dirty page does not have this age. -/
def agePageSteal (f : ℕ) : Kernel Unit := do
  let fr ← readFrame f
  if fr.isAged ∧ ¬fr.dirty then
    if fr.ioreq.isSome then Prog.yield else releasePageFrame f
  else pure ()

/-- Make a page kernel-read-only. -/
def makeKRO (f : ℕ) : Kernel Unit := do
  updateFrame f fun fr => { fr with kro := true }
  let fr ← readFrame f
  if fr.dirty then Prog.modify fun s => { s with numKRODirtyPages := s.numKRODirtyPages + 1 }
  else
    -- it is being cleaned, and will stay clean
    createLogDirEntryForNonzeroPage f

def checkpointPage (f : ℕ) : Kernel Unit := do
  let fr ← readFrame f
  kcheck (¬fr.kro)
  Prog.when (fr.dirty ∨ fr.ioreq.isSome ∧ ¬fr.fetching) (makeKRO f)

/-- The body of the loop over all pages in `DoPhase1Work`. -/
def demarcatePage (f : ℕ) : Kernel Unit := do
  let fr ← readFrame f
  match fr.obType with
  | .tagPot | .homePot => do
      kcheck (¬fr.kro)
      kcheck (¬fr.dirty)
  | .dataPage => Prog.when (oidIsPersistent fr.oid = true) (checkpointPage f)
  | .logPot => checkpointPage f
  | _ => pure ()

/-- `CleanAKROPage`, where the page that the cursor comes to next is `f`. -/
def cleanAKROPage (cfg : Config) (res : Resources) (f : ℕ) : Kernel Unit := do
  let fr ← readFrame f
  if (fr.obType = .workingCopy ∨ fr.obType = .dataPage ∨ fr.obType = .logPot) ∧ fr.kro ∧ fr.dirty
  then do
    let b ← pageClean cfg { res with isPFH := false } f
    -- the page fault handler never calls this
    kcheck (¬b)
  else pure ()

end CapROS.ObjectCache
