import CapROS.Kernel.Types
import Mathlib.Data.List.Dedup

/-!
# The process directory of a checkpoint

At the demarcation event `DoPhase1Work` calls `StoreProcessInfo` once for every Resume key from a
non-persistent node to a persistent process, and then once for every `Activity` of a persistent
process. The descriptors go to the space behind the generation header and then to whole
directory frames; restart reads the header and then the frames, whose reads may complete in any
order.

The module models both sides. A page is an array of descriptor slots whose other contents are
whatever the page frame held before, and a `DiskProcessDescriptor` pointer is a page and a slot.
Page 0 is the generation header's page and page `k + 1` is the `k`-th reserved page.

* `storeProcessInfo`, `procFindDuplicate`: the writer of `kern_Ckpt.c`.
* `restartProcesses`: the reader of `kern_Restart.c`.
-/

namespace CapROS.ProcessDirectory

/-- The hazards of an `Activity`. -/
inductive ActHaz where
  | none
  | wakeOK
  | wakeRestart
  | wakeResume
  deriving DecidableEq, Repr

/-- The byte that stands for a hazard on disk. -/
def ActHaz.toByte : ActHaz → ℕ
  | none => 0
  | wakeOK => 1
  | wakeRestart => 2
  | wakeResume => 3

/-- Read a hazard byte; bytes from `actHaz_END` on are no hazard. -/
def ActHaz.ofByte : ℕ → Option ActHaz
  | 0 => some none
  | 1 => some wakeOK
  | 2 => some wakeRestart
  | 3 => some wakeResume
  | _ => .none

@[simp]
theorem ActHaz.ofByte_toByte (h : ActHaz) : ActHaz.ofByte h.toByte = some h := by
  cases h <;> rfl

/-- `struct DiskProcessDescriptor`, 13 packed bytes. -/
structure DiskProcessDescriptor where
  oid : ℕ
  callCount : ℕ
  actHazard : ℕ
  deriving DecidableEq, Repr

/-- `sizeof(struct DiskProcessDescriptor)`. -/
def sizeofDpd : ℕ := 13

/-- `sizeof(uint32_t)`: the number of descriptors stands at the start of a directory frame. -/
def sizeofCount : ℕ := 4

/-- The target's layout of `DiskGenerationHdr`. Its size depends on the alignment of 64-bit
fields, but a descriptor always fits behind it. -/
structure HdrLayout where
  /-- `sizeof(DiskGenerationHdr)`. -/
  sizeofHdr : ℕ
  /-- The header is not empty. -/
  pos : 0 < sizeofHdr
  /-- A descriptor fits behind the header. -/
  room : sizeofHdr + sizeofDpd ≤ erosPageSize

/-- On ARM 64-bit fields are aligned to 8 bytes. -/
def armLayout : HdrLayout := ⟨80, by decide, by decide⟩

/-- The number of process descriptors that fit behind the generation header. -/
def HdrLayout.capacity (L : HdrLayout) : ℕ := (erosPageSize - L.sizeofHdr) / sizeofDpd

/-- A page that holds process descriptors. For a directory frame `nDescriptors` is the frame's
first word; for the generation header it is `processDir.nDescriptors`. -/
structure DirPage where
  nDescriptors : ℕ
  slots : ℕ → DiskProcessDescriptor

/-- A pointer to a process descriptor. -/
structure DpdPtr where
  page : ℕ
  slot : ℕ
  deriving DecidableEq, Repr

/-- The pointer's offset from the start of its page. -/
def DpdPtr.offset (L : HdrLayout) (p : DpdPtr) : ℕ :=
  (if p.page = 0 then L.sizeofHdr else sizeofCount) + sizeofDpd * p.slot

/-- `(- (kva_t)dpd) & EROS_PAGE_MASK`, the number of bytes from `dpd` to the end of its page. -/
def roomInPage (L : HdrLayout) (p : DpdPtr) : ℕ :=
  (erosPageSize - p.offset L % erosPageSize) % erosPageSize

/-- The variables of `StoreProcessInfo` and the part of the generation header it fills. -/
structure Writer where
  /-- Page 0 is the generation header's page, page `k + 1` the `k`-th reserved page. -/
  pages : ℕ → DirPage
  /-- Where the next descriptor goes. -/
  dpd : DpdPtr
  dpdsInCurrentPage : ℕ
  inHdr : Bool
  /-- The page whose descriptor count `numDpdsLoc` points to. -/
  numDpdsLoc : ℕ
  /-- The number of pages before `*nextProcDirFramePP` in the chain of reserved pages. -/
  nextProcDirFrame : ℕ
  /-- The length of the chain of reserved pages. -/
  numReservedPages : ℕ
  firstDirFrame : ℕ
  nDirFrames : ℕ
  nextProcDirLid : ℕ
  logCursor : ℕ
  logWrapPoint : ℕ

/-- The descriptor a pointer points to. -/
def Writer.deref (w : Writer) (p : DpdPtr) : DiskProcessDescriptor := (w.pages p.page).slots p.slot

def Writer.store (w : Writer) (p : DpdPtr) (d : DiskProcessDescriptor) : Writer :=
  { w with
    pages := Function.update w.pages p.page
      { w.pages p.page with slots := Function.update (w.pages p.page).slots p.slot d } }

def Writer.storeCount (w : Writer) (page n : ℕ) : Writer :=
  { w with pages := Function.update w.pages page { w.pages page with nDescriptors := n } }

/-- The step of `ProcFindDuplicate` over the end of a page. -/
def skipPageEnd (L : HdrLayout) (w : Writer) (dpdCursor : DpdPtr) : Except Halt DpdPtr :=
  if roomInPage L dpdCursor < sizeofDpd then do
    kassert (dpdCursor.page < w.numReservedPages)
    .ok ⟨dpdCursor.page + 1, 0⟩
  else .ok dpdCursor

/-- The loop of `ProcFindDuplicate`. Each round visits one stored descriptor, so `fuel` counts
rounds. -/
def findDuplicateFrom (L : HdrLayout) (w : Writer) (procOid : ℕ) :
    ℕ → DpdPtr → Except Halt (Option DpdPtr)
  | 0, dpdCursor => if dpdCursor = w.dpd then .ok none else .error .diverged
  | fuel + 1, dpdCursor =>
      if dpdCursor = w.dpd then .ok none
      else do
        let dpdCursor ← skipPageEnd L w dpdCursor
        if (w.deref dpdCursor).oid = procOid then .ok (some dpdCursor)
        else findDuplicateFrom L w procOid fuel ⟨dpdCursor.page, dpdCursor.slot + 1⟩

/-- `ProcFindDuplicate`. No page holds more than `EROS_PAGE_SIZE` descriptors. -/
def procFindDuplicate (L : HdrLayout) (w : Writer) (procOid : ℕ) :
    Except Halt (Option DpdPtr) :=
  findDuplicateFrom L w procOid (erosPageSize * (w.dpd.page + 1)) ⟨0, 0⟩

/-- The part of `StoreProcessInfo` that finishes the current page and sets up the next one. Note
that `dpdsInCurrentPage` keeps its value. -/
def nextDirPage (w : Writer) : Except Halt Writer := do
  kassert (w.nextProcDirFrame < w.numReservedPages)
  let lid := w.logCursor
  .ok { w.storeCount w.numDpdsLoc w.dpdsInCurrentPage with
    logCursor := incrementLID w.logWrapPoint w.logCursor
    firstDirFrame := if w.inHdr then lid else w.firstDirFrame
    nextProcDirLid := if w.inHdr then lid else w.nextProcDirLid
    inHdr := false
    nDirFrames := w.nDirFrames + 1
    numDpdsLoc := w.nextProcDirFrame + 1
    dpd := ⟨w.nextProcDirFrame + 1, 0⟩
    nextProcDirFrame := w.nextProcDirFrame + 1 }

/-- Make room for a descriptor at `dpd`. -/
def ensureRoom (L : HdrLayout) (w : Writer) : Except Halt Writer :=
  if roomInPage L w.dpd < sizeofDpd then nextDirPage w else .ok w

/-- Store a descriptor at `dpd` and count it. -/
def appendDescriptor (w : Writer) (d : DiskProcessDescriptor) : Writer :=
  { w.store w.dpd d with
    dpd := ⟨w.dpd.page, w.dpd.slot + 1⟩
    dpdsInCurrentPage := w.dpdsInCurrentPage + 1 }

/-- One call of `StoreProcessInfo`. -/
structure Call where
  procOid : ℕ
  callCount : ℕ
  hazToSave : ActHaz
  deriving DecidableEq, Repr

/-- The descriptor a call stores for a process that has none yet. -/
def Call.descriptor (c : Call) : DiskProcessDescriptor :=
  ⟨c.procOid, c.callCount, c.hazToSave.toByte⟩

/-- What `StoreProcessInfo` leaves in a descriptor that is already there. -/
def mergeDescriptor (d : DiskProcessDescriptor) (c : Call) : DiskProcessDescriptor :=
  if c.hazToSave = .wakeResume then
    -- an older call count is stale
    if d.callCount < c.callCount then { d with callCount := c.callCount } else d
  else
    -- any other hazard trumps `actHaz_WakeResume`
    { d with actHazard := c.hazToSave.toByte }

def storeProcessInfo (L : HdrLayout) (w : Writer) (c : Call) : Except Halt Writer := do
  match ← procFindDuplicate L w c.procOid with
  | some dpdCursor =>
      kassert ((w.deref dpdCursor).actHazard = ActHaz.wakeResume.toByte)
      .ok (w.store dpdCursor (mergeDescriptor (w.deref dpdCursor) c))
  | none =>
      let w ← ensureRoom L w
      .ok (appendDescriptor w c.descriptor)

/-- The initialisation of `StoreProcessInfo` in `DoPhase1Work`. The pages keep their stale
contents. -/
def initStore (pages : ℕ → DirPage) (numReservedPages : ℕ) (logCursor logWrapPoint : ℕ) :
    Writer where
  pages := pages
  dpd := ⟨0, 0⟩
  dpdsInCurrentPage := 0
  inHdr := true
  numDpdsLoc := 0
  nextProcDirFrame := 0
  numReservedPages := numReservedPages
  firstDirFrame := 0
  nDirFrames := 0
  nextProcDirLid := 0
  logCursor := logCursor
  logWrapPoint := logWrapPoint

/-- All the calls of a phase 1, and then `*numDpdsLoc = dpdsInCurrentPage`. -/
def storeAll (L : HdrLayout) (w : Writer) (calls : List Call) : Except Halt Writer := do
  let w ← calls.foldlM (storeProcessInfo L) w
  .ok (w.storeCount w.numDpdsLoc w.dpdsInCurrentPage)

/-- The location of the `k`-th directory frame, as phase 2 and restart both count it. -/
def dirFrameLid (logWrapPoint firstDirFrame : ℕ) (k : ℕ) : ℕ :=
  (incrementLID logWrapPoint)^[k] firstDirFrame

/-- The part of phase 2 that writes the directory frames. -/
def writeProcDirFrames (w : Writer) (disk : ℕ → DirPage) : ℕ → DirPage :=
  (List.range w.nDirFrames).foldl
    (fun disk k => Function.update disk (dirFrameLid w.logWrapPoint w.nextProcDirLid k)
      (w.pages (k + 1))) disk

/-- How an `Activity` that restart creates is to be woken. The call count is meaningful for
`actHaz_WakeResume` only. -/
inductive Wake where
  | other (haz : ActHaz)
  | resume (callCount : ℕ)
  deriving DecidableEq, Repr

/-- The meaning of a hazard with the call count beside it. -/
def ActHaz.wake (h : ActHaz) (callCount : ℕ) : Wake :=
  if h = .wakeResume then .resume callCount else .other h

/-- `AddProcDescriptor`: the process and the hazard given to `StartActivity`. -/
def addProcDescriptor (d : DiskProcessDescriptor) : Except Halt (ℕ × Wake) :=
  match ActHaz.ofByte d.actHazard with
  | some h => .ok (d.oid, h.wake d.callCount)
  | none => .error .assertion

/-- The descriptors that `DoneProcessingObDirFrames` finds in the generation header. -/
def readHdrDescriptors (L : HdrLayout) (hdr : DirPage) : Except Halt (List (ℕ × Wake)) :=
  (List.range hdr.nDescriptors).mapM fun i => do
    kassert (L.sizeofHdr + sizeofDpd * i ≤ erosPageSize - sizeofDpd)
    addProcDescriptor (hdr.slots i)

/-- `IOReq_EndProcDirRead`: the descriptors of one directory frame. -/
def endProcDirRead (frame : DirPage) : Except Halt (List (ℕ × Wake)) := do
  kassert (frame.nDescriptors ≤ (erosPageSize - sizeofCount) / sizeofDpd)
  (List.range frame.nDescriptors).mapM fun i => addProcDescriptor (frame.slots i)

/-- The processes that restart starts, with the directory frames read in the order
`completions`. -/
def restartProcesses (L : HdrLayout) (w : Writer) (disk : ℕ → DirPage)
    (completions : List ℕ) : Except Halt (List (ℕ × Wake)) := do
  let inHdr ← readHdrDescriptors L (w.pages 0)
  let inFrames ← completions.mapM fun k =>
    endProcDirRead (disk (dirFrameLid w.logWrapPoint w.firstDirFrame k))
  .ok (inHdr ++ inFrames.flatten)

/-- The documented rule for several calls made for one process: any other hazard trumps
`actHaz_WakeResume`, and among `actHaz_WakeResume` calls the largest call count is the most
recent one. -/
def mergedHazard (calls : List Call) (oid : ℕ) : Option Wake :=
  let own := calls.filter fun c => decide (c.procOid = oid)
  match own.find? fun c => decide (c.hazToSave ≠ .wakeResume) with
  | some c => some (.other c.hazToSave)
  | none =>
      if own = [] then none
      else some (.resume ((own.map Call.callCount).foldl max 0))

/-- The calls of one phase 1: those for the Resume keys found in non-persistent nodes, then those
for the `Activity`s. -/
def phase1Calls (resumeKeys : List (ℕ × ℕ)) (activities : List Call) : List Call :=
  resumeKeys.map (fun k => ⟨k.1, k.2, .wakeResume⟩) ++ activities

/-- The calls are stored without a failed assertion and, in whichever order the frame reads
complete, restart starts each process that was stored once, with its merged hazard, and nothing
else. -/
def RoundTrip (L : HdrLayout) (w₀ : Writer) (disk : ℕ → DirPage) (calls : List Call) : Prop :=
  ∃ w, storeAll L w₀ calls = .ok w ∧
    ∀ completions : List ℕ, completions.Perm (List.range w.nDirFrames) →
      ∃ started, restartProcesses L w (writeProcDirFrames w disk) completions = .ok started ∧
        (started.map Prod.fst).Nodup ∧
        ∀ oid wake, (oid, wake) ∈ started ↔ mergedHazard calls oid = some wake

/-- The number of different processes named by the calls. -/
def numProcesses (calls : List Call) : ℕ := (calls.map Call.procOid).dedup.length

end CapROS.ProcessDirectory
