import CapROS.MemoryTree.Basic

/-!
# Page table entries on ARM

A coarse page table maps a megabyte of user addresses. The caches are virtually indexed, so for each
page the kernel records how it is mapped: `cacheAddr`. An entry is filled by `FillPTE` after a page
fault, and is changed in place to find out whether its page is referenced or written.

* `PTE`: the entries, with `trackReferenced`, `makeRO` and `trackDirty`.
* `Op`, `Op.run`: the steps of a run. `Op.Allowed`: what the rest of the kernel sees to.

The dependency table finds the entries that were built with a key of a page. An entry of a table that
the page itself produces was built with no key.
-/

namespace CapROS.PageTable

open MemoryTree (MemObj)

/-! ## Entries -/

/-- The word of a page table entry. We never use large or tiny pages. -/
structure PTE where
  /-- `PTE_FRAMEBITS`. -/
  frame : ℕ
  /-- The access permissions, the bits `0xff0`. -/
  ap : BitVec 8
  /-- `PTE_CACHEABLE`. -/
  cacheable : Bool
  /-- `PTE_BUFFERABLE`. -/
  bufferable : Bool
  /-- `PTE_VALIDBITS`: `PTE_SMALLPAGE`, or zero. -/
  valid : Bool
  deriving DecidableEq, Repr

/-- The permissions that grant user write access. -/
def apReadWrite : BitVec 8 := 0xff

/-- The permissions that grant user read access. -/
def apReadOnly : BitVec 8 := 0xaa

namespace PTE

/-- `PTE_ZAPPED`. -/
def zapped : PTE := ⟨0, 0, false, false, false⟩

/-- `PTE_IN_PROGRESS`. -/
def inProgress : PTE := ⟨0, 0, false, true, false⟩

/-- The entry grants user write access. -/
def grantsWrite (pte : PTE) : Bool := pte.valid && decide (pte.ap = apReadWrite)

/-- The entry is invalid to find out whether it is used. -/
def trackingLRU (pte : PTE) : Bool := !pte.valid && pte.cacheable

/-- The entry maps the frame: it is valid, or tracked. -/
def Maps (pte : PTE) (f : ℕ) : Prop :=
  (pte.valid = true ∨ pte.trackingLRU = true) ∧ pte.frame = f

instance (pte : PTE) (f : ℕ) : Decidable (pte.Maps f) := inferInstanceAs (Decidable (_ ∧ _))

/-- `PTE_TrackReferenced`. -/
def trackReferenced (pte : PTE) : PTE := if pte.valid then { pte with valid := false } else pte

/-- `PTE_MakeRO`. -/
def makeRO (writeback : Bool) (pte : PTE) : PTE :=
  if pte.grantsWrite then
    { pte with
      ap := apReadOnly
      bufferable := pte.bufferable || (!writeback && pte.cacheable) }
  else pte

/-- `PTE_TrackDirty`. -/
def trackDirty (pte : PTE) : PTE :=
  if pte.grantsWrite then { pte with ap := apReadOnly, cacheable := true, bufferable := false }
  else pte

/-- The entry that `FillPTE` makes. -/
def filled (writeback : Bool) (f : ℕ) (isWrite canCache : Bool) : PTE :=
  if isWrite then ⟨f, apReadWrite, canCache, canCache && writeback, true⟩
  else ⟨f, apReadOnly, canCache, canCache, true⟩

end PTE

/-! ## Pages and tables -/

/-- `cacheAddr`: the cache class of a page, and the modified virtual address of the classes with
one address. -/
inductive CacheAddr where
  | oneReader (mva : ℕ)
  | writeable (mva : ℕ)
  | none
  | readers
  | uncached
  deriving DecidableEq, Repr

structure Page where
  cacheAddr : CacheAddr
  timeOfLastAddrSwitch : ℕ
  /-- `OFLG_DIRTY`. -/
  dirty : Bool
  /-- `OFLG_KRO`. -/
  kro : Bool
  deriving DecidableEq

/-- A coarse page table and its `MapTabHeader`. -/
structure CPT where
  producer : MemObj
  producerNdx : ℕ
  backgroundGPT : Option ℕ
  readOnly : Bool
  /-- Where the table is mapped. A table that is read only may also be mapped elsewhere. -/
  tableCacheAddr : ℕ
  pte : ℕ → PTE

/-- The place of an entry. -/
structure Loc where
  table : ℕ
  ndx : ℕ
  deriving DecidableEq, Repr

/-- The page tables and pages. Pages are known by their frames. -/
structure State where
  /-- The tables that are allocated. -/
  cpt : ℕ → Option CPT
  page : ℕ → Page

namespace State

/-- No table is allocated, and no page is mapped. -/
def init : State := ⟨fun _ => none, fun _ => ⟨.none, 0, false, false⟩⟩

def mapPTEs (change : PTE → PTE) (locs : Loc → Bool) (s : State) : State :=
  { s with cpt := fun t => (s.cpt t).map fun c =>
      { c with pte := fun i => if locs ⟨t, i⟩ then change (c.pte i) else c.pte i } }

/-- `pte_Invalidate` of the entries at the places. -/
def invalidate (locs : Loc → Bool) (s : State) : State := s.mapPTEs (fun _ => .zapped) locs

def setPage (f : ℕ) (pg : Page) (s : State) : State :=
  { s with page := Function.update s.page f pg }

/-- Allocate or free a table. -/
def setCPT (t : ℕ) (c : Option CPT) (s : State) : State :=
  { s with cpt := Function.update s.cpt t c }

/-- The entry at a place of an allocated table. -/
def pteAt (s : State) (loc : Loc) : Option PTE := (s.cpt loc.table).map fun c => c.pte loc.ndx

@[simp]
theorem mapPTEs_page (change : PTE → PTE) (locs : Loc → Bool) (s : State) :
    (s.mapPTEs change locs).page = s.page := rfl

@[simp]
theorem setPage_cpt (f : ℕ) (pg : Page) (s : State) : (s.setPage f pg).cpt = s.cpt := rfl

end State

/-! ## Filling an entry -/

/-- `AddrSwitchThrashTime`, in nanoseconds. -/
def addrSwitchThrashTime : ℕ := 100000000

/-- What `FillPTE` does for cache coherency. -/
structure Coherence where
  /-- The page afterwards. -/
  page : Page
  /-- `pageH_UnmapOldAddrs` is called. -/
  unmap : Bool
  canCache : Bool
  deriving DecidableEq

/-- The part of `FillPTE` at the label `ca_noneWrite`. -/
def caNoneWrite (pg : Page) (readOnly : Bool) (mva now : ℕ) (unmap : Bool) :
    Except Halt Coherence := do
  kassert (readOnly = false)
  .ok ⟨{ pg with cacheAddr := .writeable mva, timeOfLastAddrSwitch := now }, unmap, true⟩

/-- The part of `FillPTE` at the label `ca_none`. -/
def caNone (pg : Page) (readOnly : Bool) (mva now : ℕ) (isWrite unmap : Bool) :
    Except Halt Coherence :=
  if isWrite then caNoneWrite pg readOnly mva now unmap
  else if readOnly then .ok ⟨{ pg with cacheAddr := .readers }, unmap, true⟩
  else .ok ⟨{ pg with cacheAddr := .oneReader mva, timeOfLastAddrSwitch := now }, unmap, true⟩

/-- `pageH_ConsiderUncached`, and what follows it. -/
def considerUncached (pg : Page) (readOnly : Bool) (mva now : ℕ) (isWrite : Bool) :
    Except Halt Coherence :=
  if pg.timeOfLastAddrSwitch + addrSwitchThrashTime < now then
    caNone pg readOnly mva now isWrite true
  else .ok ⟨{ pg with cacheAddr := .uncached }, true, false⟩

/-- The `switch` of `FillPTE` on the cache class. -/
def ensureCoherence (pg : Page) (readOnly : Bool) (mva now : ℕ) (isWrite : Bool) :
    Except Halt Coherence :=
  match pg.cacheAddr with
  | .none => caNone pg readOnly mva now isWrite false
  | .oneReader a =>
    if readOnly = false ∧ a = mva then
      .ok ⟨if isWrite then { pg with cacheAddr := .writeable a } else pg, false, true⟩
    else if isWrite then considerUncached pg readOnly mva now isWrite
    else .ok ⟨{ pg with cacheAddr := .readers }, false, true⟩
  | .writeable a =>
    if readOnly = false ∧ a = mva then .ok ⟨pg, false, true⟩
    else considerUncached pg readOnly mva now isWrite
  | .readers =>
    if isWrite then caNoneWrite pg readOnly mva now true else .ok ⟨pg, false, true⟩
  | .uncached => .ok ⟨pg, false, false⟩

/-- `pageH_EnsureWritable`, when it does not yield. A demarcation that it declares, and the cleaning
or the move of a page that is kernel-read-only, are steps of their own. -/
def ensureWritable (pg : Page) : Page := { pg with dirty := true, kro := false }

/-- `FillPTE`, where `visited` are the entries that `pageH_UnmapOldAddrs` finds. If the entry was
zapped it yields. -/
def fillPTE (writeback : Bool) (s : State) (loc : Loc) (c : CPT) (f : ℕ) (isWrite : Bool)
    (mva now : ℕ) (visited : Loc → Bool) : Except Halt State := do
  let pg := if isWrite then ensureWritable (s.page f) else s.page f
  let coh ← ensureCoherence pg c.readOnly mva now isWrite
  let s := (if coh.unmap then s.invalidate visited else s).setPage f coh.page
  if s.pteAt loc = some .zapped then .ok s
  else .ok (s.mapPTEs (fun _ => .filled writeback f isWrite coh.canCache) (· == loc))

/-- The walk of `proc_DoPageFault` for the entry. In making room for new dependencies it may
invalidate the entries `reclaimed`. -/
def walk (s : State) (loc : Loc) (reclaimed : Loc → Bool) : State :=
  let s := if s.pteAt loc = some .zapped then s.mapPTEs (fun _ => .inProgress) (· == loc) else s
  s.invalidate reclaimed

/-- The part of `proc_DoPageFault` for an entry that is found by a walk, to the page `f`. -/
def fault (writeback : Bool) (s : State) (loc : Loc) (c : CPT) (f : ℕ) (isWrite : Bool)
    (mva now : ℕ) (reclaimed visited : Loc → Bool) : Except Halt State :=
  fillPTE writeback (walk s loc reclaimed) loc c f isWrite mva now visited

/-- The part of `proc_DoPageFault` for an entry that is tracking LRU. -/
def refill (writeback : Bool) (s : State) (loc : Loc) (c : CPT) (isWrite : Bool) (mva now : ℕ)
    (visited : Loc → Bool) : Except Halt State :=
  fillPTE writeback s loc c (c.pte loc.ndx).frame isWrite mva now visited

/-! ## Runs -/

/-- The entry of the table is used at the modified virtual address. -/
def CPT.UsedAt (c : CPT) (ndx mva : ℕ) : Prop :=
  if c.readOnly then mva / erosPageSize % 256 = ndx else mva = c.tableCacheAddr + ndx * erosPageSize

instance (c : CPT) (ndx mva : ℕ) : Decidable (c.UsedAt ndx mva) := by
  unfold CPT.UsedAt
  infer_instance

/-- An entry of an allocated table maps the page. -/
def State.MappedBy (s : State) (f : ℕ) (loc : Loc) : Prop :=
  ∃ c, s.cpt loc.table = some c ∧ (c.pte loc.ndx).Maps f

/-- The entry was built with a key to the page: the page does not produce its table. -/
def State.Mediated (s : State) (f : ℕ) (loc : Loc) : Prop :=
  ∀ c, s.cpt loc.table = some c → c.producer ≠ .page f

/-- The dependency table finds the entries that were built with a key to the page. -/
def State.Covers (s : State) (f : ℕ) (visited : Loc → Bool) : Prop :=
  ∀ loc, s.MappedBy f loc → s.Mediated f loc → visited loc = true

/-- The steps of a run. -/
inductive Op where
  /-- A page fault whose walk yields or finds no page. -/
  | walkFails (loc : Loc) (reclaimed : Loc → Bool)
  | fault (loc : Loc) (f : ℕ) (isWrite : Bool) (mva now : ℕ) (reclaimed visited : Loc → Bool)
  | refill (loc : Loc) (isWrite : Bool) (mva now : ℕ) (visited : Loc → Bool)
  /-- Keys were changed. -/
  | invalidate (visited : Loc → Bool)
  /-- An object or a table ages. -/
  | trackReferenced (visited : Loc → Bool)
  /-- `pageH_Clean`. -/
  | clean (f : ℕ) (visited : Loc → Bool)
  /-- The page becomes kernel-read-only in a demarcation. -/
  | makeReadOnly (f : ℕ) (visited : Loc → Bool)
  | allocateCPT (t : ℕ) (producer : MemObj) (producerNdx : ℕ) (backgroundGPT : Option ℕ)
      (readOnly : Bool) (tableCacheAddr : ℕ)
  | releaseCPT (t : ℕ)
  /-- `pageH_MDInitDataPage`. -/
  | initDataPage (f : ℕ)
  /-- `pageH_MDInitDevicePage`. -/
  | initDevicePage (f : ℕ)

namespace Op

/-- Under what conditions the kernel takes the step. -/
def Allowed (s : State) : Op → Prop
  | fault loc f _ mva _ _ visited =>
    s.Covers f visited ∧ ∃ c, s.cpt loc.table = some c ∧ c.UsedAt loc.ndx mva
  | refill loc _ mva _ visited =>
    ∃ c, s.cpt loc.table = some c ∧ c.UsedAt loc.ndx mva ∧
      (c.pte loc.ndx).trackingLRU = true ∧ s.Covers (c.pte loc.ndx).frame visited
  | clean f visited => s.Covers f visited
  | makeReadOnly f visited => s.Covers f visited
  | allocateCPT t _ _ _ _ _ => s.cpt t = none
  | initDataPage f => ∀ loc, ¬s.MappedBy f loc
  | initDevicePage f => ∀ loc, ¬s.MappedBy f loc
  | _ => True

/-- Take the step. -/
def run (writeback : Bool) (s : State) : Op → Except Halt State
  | walkFails loc reclaimed => .ok (walk s loc reclaimed)
  | fault loc f isWrite mva now reclaimed visited =>
    match s.cpt loc.table with
    | some c => PageTable.fault writeback s loc c f isWrite mva now reclaimed visited
    | none => .error .nullDeref
  | refill loc isWrite mva now visited =>
    match s.cpt loc.table with
    | some c => PageTable.refill writeback s loc c isWrite mva now visited
    | none => .error .nullDeref
  | invalidate visited => .ok (s.invalidate visited)
  | trackReferenced visited => .ok (s.mapPTEs PTE.trackReferenced visited)
  | clean f visited =>
    .ok ((s.mapPTEs PTE.trackDirty visited).setPage f { s.page f with dirty := false })
  | makeReadOnly f visited =>
    .ok ((s.mapPTEs (PTE.makeRO writeback) visited).setPage f { s.page f with kro := true })
  | allocateCPT t producer producerNdx backgroundGPT readOnly tableCacheAddr =>
    .ok (s.setCPT t
      (some ⟨producer, producerNdx, backgroundGPT, readOnly, tableCacheAddr, fun _ => .zapped⟩))
  | releaseCPT t => .ok (s.setCPT t none)
  | initDataPage f => .ok (s.setPage f { s.page f with cacheAddr := .none })
  | initDevicePage f => .ok (s.setPage f { s.page f with cacheAddr := .uncached })

end Op

inductive Reach (writeback : Bool) : State → Prop where
  | init : Reach writeback .init
  | step {s s' : State} (op : Op) : Reach writeback s → op.Allowed s →
      op.run writeback s = .ok s' → Reach writeback s'

end CapROS.PageTable
