import CapROS.Kernel.Key
import CapROS.Theory.Yielding
import Mathlib.Data.BitVec

/-!
# The object cache: page frames, node frames and I/O requests

The state that the object cache (`kern_ObjectCache.c`), the I/O requests (`kern_IOReq.c`) and the
checkpoint (`kern_Ckpt.c`) share. Page frames and node frames are numbered; a frame in use holds
the header of the object in it. The log directory is a map from OIDs to descriptors.

Three things that are decided elsewhere in the kernel are inputs of the operations: which free
frame an allocation returns, whether a free I/O request is found, and what the tests of log and
directory space come to. An allocation that finds no frame steals one, which is an operation of
its own, and starts over; in the model it yields.

* `grabPageFrame`, `nextLogLoc`, `ioreqEnqueue`, `recordLocation`: the primitives.
-/

namespace CapROS.ObjectCache

open Yielding

/-- The types of page frames, `ot_Pt*` in the source, as far as they matter here. -/
inductive PageType where
  | freeFrame
  | newAlloc
  | dataPage
  | tagPot
  | homePot
  | logPot
  | workingCopy
  | kernelUse
  deriving DecidableEq, Repr

/-- `DiskNode`: a node in a pot. The keys in it are unprepared. -/
structure DiskNode where
  oid : ℕ
  allocCount : ℕ
  callCount : ℕ
  nodeData : BitVec 16
  slots : Fin 32 → Key

/-- What a page frame or a frame of a disk holds. -/
inductive FrameData where
  | page (d : PageData)
  | pot (nodes : Fin diskNodesPerPage → DiskNode)

/-- `PageTestZero` finds nothing but zeros. -/
def FrameData.IsZero (d : FrameData) : Prop := d = .page 0

/-- A frame of a disk: of the log, by its LID, or of a home range. -/
inductive DiskLoc where
  | log (lid : ℕ)
  | home (rangeLoc : ℕ)
  deriving DecidableEq, Repr

/-- A page frame with its header. -/
structure PageFrame where
  obType : PageType := .freeFrame
  /-- The OID of a page, or the LID of a log pot. -/
  oid : ℕ := 0
  allocCount : ℕ := 0
  data : FrameData := .page 0
  /-- `OFLG_DIRTY`. -/
  dirty : Bool := false
  /-- `OFLG_Fetching`. -/
  fetching : Bool := false
  /-- `OFLG_Cleanable`: the object is persistent. -/
  cleanable : Bool := false
  /-- `OFLG_KRO`. -/
  kro : Bool := false
  /-- `objH_IsUserPinned`. -/
  pinned : Bool := false
  /-- The keys prepared to the object; `none` if the links are null, as in a zeroed header, or lead
  to the header of another page. -/
  keyRing : Option (List ℕ) := none
  /-- The mapping tables produced by the object. -/
  products : List ℕ := []
  /-- The location that the I/O request of the frame reads or writes, if it has one. -/
  ioreq : Option DiskLoc := none

/-- A frame that is not in use. -/
def PageFrame.free : PageFrame := {}

/-- `keyR_IsEmpty`: the ring consists of its head alone. -/
def PageFrame.ringIsEmpty (fr : PageFrame) : Bool := fr.keyRing = some []

/-- A key is prepared to the object. -/
def PageFrame.HasKey (fr : PageFrame) : Prop := ∃ k ks, fr.keyRing = some (k :: ks)

/-- A node frame with its header. -/
structure NodeFrame where
  /-- `obType` is not `ot_NtFreeFrame`. -/
  inUse : Bool := false
  oid : ℕ := 0
  allocCount : ℕ := 0
  callCount : ℕ := 0
  nodeData : BitVec 16 := 0
  slots : Fin 32 → Key := fun _ => .void
  /-- `OFLG_DIRTY`. -/
  dirty : Bool := false
  /-- `OFLG_Cleanable`. -/
  cleanable : Bool := false
  /-- `OFLG_KRO`. -/
  kro : Bool := false
  objAge : ℕ := 0

def ageSteal : ℕ := 5

/-- `requestCode` and `rangeLoc` of an I/O request. -/
inductive RequestType where
  | readRangeLoc (loc : DiskLoc)
  | writeRangeLoc (loc : DiskLoc)
  | synchronizeCache
  deriving DecidableEq, Repr

/-- `doneFn` of an I/O request. -/
inductive DoneFn where
  | endReadPage
  | endWrite
  | endPageClean
  | endSync
  deriving DecidableEq, Repr

/-- An I/O request that has been enqueued and is not yet done. -/
structure IORequest where
  /-- The number of the range, LID ranges first. -/
  range : ℕ
  request : RequestType
  /-- `pageH`; a synchronization has no page. -/
  page : Option ℕ
  doneFn : DoneFn
  deriving DecidableEq, Repr

/-- The base types of objects, `capros_Range_otPage` and `capros_Range_otNode`. -/
inductive BaseType where
  | page
  | node
  deriving DecidableEq, Repr

/-- `ObjectDescriptor`, with the generation it was recorded in. -/
structure DirEntry where
  allocCount : ℕ
  callCount : ℕ
  /-- The location in the log, or zero if the object is null. -/
  logLoc : ℕ
  type : BaseType
  generation : ℕ
  deriving DecidableEq, Repr

inductive CkptState where
  | notActive
  | phase1
  | phase2
  | phase3
  | phase4
  | phase5
  deriving DecidableEq, Repr

/-- The demarcation of the active checkpoint has taken place. -/
def CkptState.demarcated : CkptState → Bool
  | notActive | phase1 => false
  | phase2 | phase3 | phase4 | phase5 => true

/-- What does not change while the system runs: the sizes of the tables, and the ranges that are
mounted. -/
structure Config where
  /-- `objC_nPages`. -/
  nPages : ℕ
  /-- `objC_nNodes`. -/
  nNodes : ℕ
  nLidRanges : ℕ
  logWrapPoint : ℕ
  /-- `LidToRange`. -/
  lidToRange : ℕ → Option ℕ
  /-- The range from which an object at home is fetched. -/
  homeRange : ℕ
  lidToRange_lt : ∀ lid r, lidToRange lid = some r → r < nLidRanges
  /-- `CalcLogExtent`: all LIDs before the wrap point are mounted. -/
  mounted : ∀ lid < logWrapPoint, (lidToRange lid).isSome
  mainLog : mainLogStart < logWrapPoint

/-- The state of the object cache, the disk and the checkpoint. -/
structure State where
  frames : ℕ → PageFrame
  nodes : ℕ → NodeFrame
  /-- The first `numNodesToClean` entries of `nodesToClean`. -/
  nodesToClean : List ℕ
  logDir : ℕ → Option DirEntry
  logCursor : ℕ
  /-- The requests that are not done yet, the oldest first. -/
  queue : List IORequest
  disk : DiskLoc → FrameData
  /-- What the kernel means to have in a frame of the log. -/
  logged : ℕ → Option FrameData
  ckptState : CkptState
  numKRODirtyPages : ℤ
  numKRONodes : ℤ
  kroNodeCleanCursor : ℕ
  workingGeneration : ℕ
  nextRangeToSync : ℕ
  rangesSynced : ℕ

abbrev Kernel (α : Type) := Prog Halt State α

namespace State

def setFrame (s : State) (f : ℕ) (fr : PageFrame) : State :=
  { s with frames := Function.update s.frames f fr }

def setNode (s : State) (n : ℕ) (nd : NodeFrame) : State :=
  { s with nodes := Function.update s.nodes n nd }

def ckptIsActive (s : State) : Bool := s.ckptState ≠ .notActive

end State

/-- Read a page frame. -/
def readFrame (f : ℕ) : Kernel PageFrame := fun s => .done (s.frames f) s

def updateFrame (f : ℕ) (g : PageFrame → PageFrame) : Kernel Unit :=
  Prog.modify fun s => s.setFrame f (g (s.frames f))

/-- `assert`. -/
def kcheck (p : Prop) [Decidable p] : Kernel Unit := Prog.check p .assertion

/-- `objC_GrabPageFrame`, where `alloc` is the frame that the allocator finds. The header of the
frame is zeroed. -/
def grabPageFrame (cfg : Config) (alloc : Option ℕ) : Kernel ℕ := fun s =>
  match alloc with
  | none => .yield s
  | some f =>
      if f < cfg.nPages ∧ (s.frames f).obType = .freeFrame then
        .done f (s.setFrame f { obType := .newAlloc })
      else .yield s

def releasePageFrame (f : ℕ) : Kernel Unit := Prog.modify fun s => s.setFrame f .free

/-- `NextLogLoc`, after the restart. -/
def nextLogLoc (cfg : Config) : Kernel ℕ := fun s =>
  .done s.logCursor { s with logCursor := incrementLID cfg.logWrapPoint s.logCursor }

/-- `LidToRange` and the assertion that the location is mounted. -/
def rangeOfLid (cfg : Config) (lid : ℕ) : Kernel ℕ :=
  match cfg.lidToRange lid with
  | some r => pure r
  | none => Prog.halt .assertion

def ioreqEnqueue (r : IORequest) : Kernel Unit :=
  Prog.modify fun s => { s with queue := s.queue ++ [r] }

/-- `ld_recordLocation`, in the working generation. -/
def recordLocation (oid allocCount callCount logLoc : ℕ) (type : BaseType) : Kernel Unit :=
  Prog.modify fun s =>
    { s with
      logDir := Function.update s.logDir oid
        (some ⟨allocCount, callCount, logLoc, type, s.workingGeneration⟩) }

/-- What the kernel means to write to the frame of the log at `lid`. -/
def noteLogged (lid : ℕ) (d : FrameData) : Kernel Unit :=
  Prog.modify fun s => { s with logged := Function.update s.logged lid (some d) }

/-- Wait for an I/O request, unless the current process is the page fault handler. -/
def noIORequest (isPFH : Bool) : Kernel Bool := if isPFH then pure true else Prog.yield

/-- What an operation finds out about the resources it needs. -/
structure Resources where
  /-- The free page frame that an allocation returns. -/
  alloc : Option ℕ := none
  /-- There is a free I/O request for cleaning. -/
  hasRequest : Bool := true
  /-- `proc_IsPFH(proc_Current())`. -/
  isPFH : Bool := false

/-- What the tests of log space and directory entries in `objH_EnsureWritable` come to. -/
structure Space where
  /-- Space runs low, and a checkpoint is to be taken. -/
  low : Bool := false
  /-- `EnoughWorkingDirEnts`. -/
  enoughWorkingDirEnts : Bool := true
  /-- There are enough directory entries for the next generation. -/
  enoughNextDirEnts : Bool := true
  /-- There are enough log and room for generations in the root to complete both checkpoints. -/
  enoughNextLog : Bool := true

end CapROS.ObjectCache
