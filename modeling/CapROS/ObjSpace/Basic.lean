import CapROS.Kernel.Types
import CapROS.Theory.BitScan

/-!
# The frames of the space bank

The object space (`ObjSpace.c`) hands out the frames of the ranges that the space bank manages. Each
range has a bitmap of its available frames, the submaps; frames on their way to the banks are kept
in caches. Every frame is cleared before it is handed out for the first time: the frames of a range
below its mark `endClearedOIDs` have been cleared, or were in use when the range was installed.

The submaps are the memory from `SRM_BASE` on, bit by bit, and `srmBase` counts its pages. Of the
kernel the model has the contents of the frames, as far as the object space cares: whether a frame
has been cleared since it was last in use.
-/

namespace CapROS.ObjSpace

open Function (update)

/-- A check; `kpanic` is `fatal`. -/
def ensure (p : Prop) [Decidable p] (e : Halt) : Except Halt Unit :=
  if p then .ok () else .error e

/-- The base types of objects. -/
inductive BaseType where
  | page
  | node
  deriving DecidableEq, Repr

/-- `EROS_OBJECTS_PER_FRAME`. -/
def objectsPerFrame : ℕ := 256

def maxRanges : ℕ := 32

def nCache : ℕ := 64

def maxCacheEnt : ℕ := 64

/-- `EROS_PAGE_SIZE * 8`: the frames that one submap covers. -/
def framesPerSubmap : ℕ := 32768

/-- The pages between `SRM_BASE` and `SRM_TOP`. -/
def srmPages : ℕ := 4096

structure Range where
  startOID : ℕ := 0
  endOID : ℕ := 0
  endClearedOIDs : ℕ := 0
  firstSubmapFrame : ℕ := 0
  srmBase : ℕ := 0
  nFrames : ℕ := 0
  nAvailFrames : ℕ := 0
  nSubmaps : ℕ := 0
  deriving DecidableEq, Repr

structure AllocCache where
  ndx : ℕ := 0
  top : ℕ := 0
  oid : ℕ → ℕ := fun _ => 0

/-- The variables of the object space, and the frames. -/
structure State where
  rangeTable : ℕ → Range
  curRanges : ℕ
  nextRangeSrmFrame : ℕ
  /-- The bits of the submaps: the available frames. -/
  srm : ℕ → Bool
  caches : BaseType → ℕ → AllocCache
  /-- The frame has been cleared since it was last in use. -/
  cleared : ℕ → Bool
  /-- The frames that `fill_cache` has cleared, the last one first. -/
  zeroed : List ℕ
  /-- The frames that clients have, and those that were in use when their range was installed. -/
  inUse : ℕ → Bool

namespace State

variable (s : State)

def setRange (k : ℕ) (r : Range) : State :=
  { s with rangeTable := update s.rangeTable k r }

def setCache (t : BaseType) (n : ℕ) (ac : AllocCache) : State :=
  { s with caches := update s.caches t (update (s.caches t) n ac) }

/-- The bit of a frame of the range `k`. -/
def bit (k f : ℕ) : Bool := s.srm ((s.rangeTable k).srmBase * framesPerSubmap + f)

def setBit (k f : ℕ) (b : Bool) : State :=
  { s with srm := update s.srm ((s.rangeTable k).srmBase * framesPerSubmap + f) b }

end State

variable (mounted : ℕ → Bool)

/-! ## Filling a cache -/

/-- A round of the loop in `fill_cache` that clears frames: the frame at the mark is cleared. -/
def clearFrame (s : State) (k : ℕ) : State :=
  let r := s.rangeTable k
  { s.setRange k { r with endClearedOIDs := r.endClearedOIDs + objectsPerFrame } with
    cleared := update s.cleared r.endClearedOIDs true
    zeroed := r.endClearedOIDs :: s.zeroed }

/-- The loop in `fill_cache` that clears the frames up to `oid`. -/
def clearLoop (k oid : ℕ) : ℕ → State → Except Halt State
  | 0, _ => .error .diverged
  | fuel + 1, s =>
      if (s.rangeTable k).endClearedOIDs ≤ oid then do
        ensure (mounted (s.rangeTable k).endClearedOIDs = true) .assertion
        clearLoop k oid fuel (clearFrame s k)
      else .ok s

/-- The OID that `fill_cache` computes for a frame. The product has 32 bits. -/
def frameOID (r : Range) (frame : ℕ) : ℕ := r.startOID + frame * objectsPerFrame % 2 ^ 32

/-- The frame goes from the bitmap of the range `k` into a cache. -/
def moveToCache (k : ℕ) (t : BaseType) (n frame oid : ℕ) (s : State) : State :=
  let ac := s.caches t n
  let s := s.setCache t n { ac with top := ac.top + 1, oid := update ac.oid ac.top oid }
  let s := s.setBit k frame false
  let r := s.rangeTable k
  s.setRange k { r with nAvailFrames := (r.nAvailFrames + (2 ^ 64 - 1)) % 2 ^ 64 }

/-- What `fill_cache` does with an available frame. -/
def takeFrame (k : ℕ) (t : BaseType) (n frame : ℕ) (s : State) : Except Halt State := do
  let r := s.rangeTable k
  let oid := frameOID r frame
  let s ← clearLoop mounted k oid (oid + 1 - r.endClearedOIDs + 1) s
  .ok (moveToCache k t n frame oid s)

/-- The loops of `fill_cache` over the words of a bitmap. -/
def scan (k : ℕ) (t : BaseType) (n : ℕ) : BitScan.Scan State Halt where
  bit s f := s.bit k f
  room s := maxCacheEnt - (s.caches t n).top
  take := takeFrame mounted k t n

/-- The first range with available frames. -/
def availableRange (s : State) : Option ℕ :=
  (List.range maxRanges).find? fun k => decide ((s.rangeTable k).nAvailFrames ≠ 0)

def fillCache (t : BaseType) (n : ℕ) (s : State) : Except Halt (Bool × State) :=
  match availableRange s with
  | none => .ok (false, s)
  | some k => do
      let ac := s.caches t n
      ensure (ac.ndx = ac.top) .assertion
      let s := s.setCache t n { ac with ndx := 0, top := 0 }
      let nWords := (s.rangeTable k).nSubmaps * (framesPerSubmap / 32)
      let s ← BitScan.words (scan mounted k t n) 32 nWords 0 s
      .ok (decide ((s.caches t n).top ≠ 0), s)

/-! ## The interface -/

/-- `*oid = ac->oid[ac->ndx++]`. -/
def popCache (s : State) (t : BaseType) (n : ℕ) : ℕ × State :=
  let ac := s.caches t n
  (ac.oid ac.ndx, s.setCache t n { ac with ndx := ac.ndx + 1 })

/-- The caches in the order in which `ob_AllocFrame` looks for a frame to steal: first those of the
same type, then the others. -/
def stealOrder (t : BaseType) (ndx : ℕ) : List (BaseType × ℕ) :=
  (t :: [.page, .node].filter (· ≠ t)).flatMap fun j =>
    (List.range nCache).map fun i => (j, (i + ndx) % nCache)

/-- The part of `ob_AllocFrame` that steals a frame from another cache. -/
def stealFrame (s : State) (t : BaseType) (ndx : ℕ) : Option ℕ × State :=
  match (stealOrder t ndx).find? fun c =>
      decide ((s.caches c.1 c.2).ndx ≠ (s.caches c.1 c.2).top) with
  | some c => let (oid, s) := popCache s c.1 c.2; (some oid, s)
  | none => (none, s)

/-- `ob_AllocFrame`. The result is `none` if the limit is reached. -/
def allocFrame (bank : ℕ) (t : BaseType) (s : State) : Except Halt (Option ℕ × State) := do
  let ndx := bank % nCache
  let ac := s.caches t ndx
  ensure (ac.ndx ≤ ac.top) .assertion
  let (filled, s) ← (if ac.ndx ≠ ac.top then .ok (true, s) else fillCache mounted t ndx s)
  if filled = true then
    let (oid, s) := popCache s t ndx
    .ok (some oid, s)
  else .ok (stealFrame s t ndx)

/-- `ob_ReleaseFrame`. -/
def releaseFrame (bank oid : ℕ) (t : BaseType) (s : State) : Except Halt State :=
  match (List.range maxRanges).find? fun k =>
      decide ((s.rangeTable k).startOID ≤ oid ∧ oid < (s.rangeTable k).endOID) with
  | none => .error .fatal
  | some k => do
      let ndx := bank % nCache
      let ac := s.caches t ndx
      ensure (ac.ndx ≤ ac.top) .assertion
      if 0 < ac.ndx then
        .ok (s.setCache t ndx
          { ac with ndx := ac.ndx - 1, oid := update ac.oid (ac.ndx - 1) oid })
      else do
        let r := s.rangeTable k
        let offset := (oid - r.startOID) / objectsPerFrame
        ensure (s.bit k offset = false) .fatal
        .ok ((s.setBit k offset true).setRange k
          { r with nAvailFrames := (r.nAvailFrames + 1) % 2 ^ 64 })

/-- The sum of two numbers of frames. -/
def add32 (a b : ℕ) : ℕ := (a + b) % 2 ^ 32

/-- `init_range_map`: the frames after the submaps are available. -/
def initRangeMap (s : State) (r : Range) : Except Halt State := do
  ensure (r.nFrames ≤ r.nSubmaps * framesPerSubmap) .outOfBounds
  let lo := r.srmBase * framesPerSubmap
  .ok { s with
    srm := fun p =>
      if lo ≤ p ∧ p < lo + r.nSubmaps * framesPerSubmap then
        decide (add32 r.firstSubmapFrame r.nSubmaps ≤ p - lo ∧ p - lo < r.nFrames)
      else s.srm p }

/-- `nFrames` in `range_install`. -/
def framesOf (len : ℕ) : ℕ := len / objectsPerFrame % 2 ^ 32

/-- `nSubMaps` in `range_install`. -/
def submapsOf (len : ℕ) : ℕ := add32 (framesOf len) (framesPerSubmap - 1) / framesPerSubmap

/-- `range_install`, for the range of a key: the numbers of frames have 32 bits. `map_range` gets
capabilities to the submaps. -/
def installRange (oid len reservedFrames : ℕ) (s : State) : Except Halt State := do
  ensure (s.curRanges ≠ maxRanges) .assertion
  let nFrames := framesOf len
  let nSubmaps := submapsOf len
  ensure (s.nextRangeSrmFrame + nSubmaps ≤ srmPages) .fatal
  ensure (add32 reservedFrames nSubmaps ≤ nFrames) .fatal
  let r : Range :=
    { startOID := oid
      endOID := oid + len
      endClearedOIDs := oid + add32 reservedFrames nSubmaps * objectsPerFrame
      firstSubmapFrame := reservedFrames
      srmBase := s.nextRangeSrmFrame
      nFrames := nFrames
      nAvailFrames := (nFrames + (2 ^ 33 - reservedFrames - nSubmaps)) % 2 ^ 32
      nSubmaps := nSubmaps }
  let s := { s.setRange s.curRanges r with curRanges := s.curRanges + 1 }
  ensure (∀ map < nSubmaps, mounted (oid + add32 reservedFrames map * objectsPerFrame) = true) .fatal
  let s ← initRangeMap s r
  .ok { s with nextRangeSrmFrame := s.nextRangeSrmFrame + nSubmaps }

/-! ## The clients -/

/-- What is asked of the object space. -/
inductive Request where
  /-- A range key is found, for `len` OIDs from `oid`. -/
  | install (oid len reservedFrames : ℕ)
  | alloc (bank : ℕ) (t : BaseType)
  | release (bank oid : ℕ) (t : BaseType)
  deriving DecidableEq, Repr

/-- The frames of a range that are in use when it is installed: the reserved ones and the submaps. -/
def inUseAtInstall (oid len reservedFrames : ℕ) (o : ℕ) : Bool :=
  decide (oid ≤ o ∧ o < oid + (reservedFrames + submapsOf len) * objectsPerFrame ∧
    (o - oid) % objectsPerFrame = 0)

/-- The frame is handed to a client, which may write to it. -/
def State.giveOut (s : State) (oid : ℕ) : State :=
  { s with
    cleared := update s.cleared oid false
    inUse := update s.inUse oid true }

/-- The objects of the frame have been rescinded, which clears them. -/
def State.takeBack (s : State) (oid : ℕ) : State :=
  { s with
    cleared := update s.cleared oid true
    inUse := update s.inUse oid false }

def step (s : State) : Request → Except Halt State
  | .install oid len reservedFrames => do
      let s ← installRange mounted oid len reservedFrames s
      .ok { s with inUse := fun o => s.inUse o || inUseAtInstall oid len reservedFrames o }
  | .alloc bank t => do
      let (result, s) ← allocFrame mounted bank t s
      match result with
      | some oid => .ok (s.giveOut oid)
      | none => .ok s
  | .release bank oid t => do
      let s := s.takeBack oid
      releaseFrame bank oid t s

/-- The range keys of the system image are for different objects, and the banks release only frames
that are in use. -/
def Request.Allowed (s : State) : Request → Prop
  | .install oid len _ =>
      ∀ k < s.curRanges, oid + len ≤ (s.rangeTable k).startOID ∨ (s.rangeTable k).endOID ≤ oid
  | .alloc _ _ => True
  | .release _ oid _ => s.inUse oid = true

/-- The object space before `ob_init`. -/
structure Init (s : State) : Prop where
  rangeTable : s.rangeTable = fun _ => {}
  curRanges : s.curRanges = 0
  nextRangeSrmFrame : s.nextRangeSrmFrame = 0
  caches : s.caches = fun _ _ => {}
  inUse : s.inUse = fun _ => false

end CapROS.ObjSpace
