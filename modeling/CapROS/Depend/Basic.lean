import CapROS.Kernel.Types
import Mathlib.Data.List.Find
import Mathlib.Data.Nat.Bitwise

/-!
# The dependency table

A mapping table entry is built from keys in the slots of the memory tree. For each such slot the
dependency table remembers which mapping table entries were built from it, so that they can be
invalidated when the slot changes. The entries of the table are ranges of adjacent mapping table
entries, tagged with a hash of the address of the slot, and live in buckets of fixed size with a
rotating victim.

* `keyDependEntryTrack`, `keyDependEntryInvalidate`, `newDependEntry`, `addKey`, `visitEntries`,
  `invalidateKey`: the operations.
-/

namespace CapROS.Depend

open Function (update)

def keyBucketSize : ℕ := 33

def cptSize : ℕ := 0x400

def pteZapped : ℕ := 0

/-- The level 1 descriptors for user addresses: `UserEndVA >> L1D_ADDR_SHIFT`. -/
def userDescriptors : ℕ := 0xa00

/-- `HeapVA`, where the process cache is allocated. -/
def heapVA : ℕ := 0xa0000000

/-- `PhysMapVA`: the map of physical memory, through which mapping tables are accessed. -/
def physMapVA : ℕ := 0xc0000000

/-- The end of the map of physical memory. -/
def physMapEnd : ℕ := 0xf8000000

/-- A dependency entry. -/
structure KeyDependEntry where
  /-- The first mapping table entry to zap, zero if the entry is not in use. -/
  start : ℕ
  /-- A field of 12 bits, zero iff `start` points to a `Process`. -/
  pteCount : ℕ
  /-- A field of 20 bits. -/
  slotTag : ℕ
  deriving DecidableEq

/-- `KeyDependEntry_InUse`. -/
def KeyDependEntry.InUse (kde : KeyDependEntry) : Prop := kde.start ≠ 0

instance (kde : KeyDependEntry) : Decidable kde.InUse := inferInstanceAs (Decidable (_ ≠ _))

/-- The `mapLevel` of `Depend_AddKey`: the field of a process, or an entry of a first level or of a
second level table. -/
inductive MapLevel where
  | process
  | first
  | second
  deriving DecidableEq

/-- What the type of a page frame says of its use for mapping. -/
inductive FrameType where
  | ptMappingPage1
  | ptMappingPage2
  | other
  deriving DecidableEq

/-- The part of `ProcMD` that names the first level mapping table. -/
structure ProcMD where
  flmtProducer : ℕ
  firstLevelMappingTable : ℕ
  dacr : ℕ
  pid : ℕ
  /-- `pidLink` is in the list of a small space. -/
  pidLinked : Bool
  deriving DecidableEq

/-- The memory layout of the kernel. -/
structure Layout where
  /-- `KeyBuckets`. -/
  keyBuckets : ℕ
  /-- `FLPT_FCSEVA`. -/
  flptFCSE : ℕ
  /-- `FLPT_NullPA`. -/
  flptNullPA : ℕ
  /-- The address is that of a `Process` in `proc_ContextCache`. -/
  isProcess : ℕ → Bool
  /-- The page has a `PageHeader`: `objC_PhysPageToObHdr` finds it. -/
  hasHeader : ℕ → Bool
  flptFCSE_aligned : 0x4000 ∣ flptFCSE
  /-- The null table is just below it. -/
  flptFCSE_low : physMapVA + 0x4000 ≤ flptFCSE
  flptFCSE_high : flptFCSE + 0x4000 ≤ physMapEnd
  flptFCSE_static : ∀ a, a / 0x4000 = flptFCSE / 0x4000 → hasHeader (a / erosPageSize) = false
  isProcess_heap : ∀ a, isProcess a = true → heapVA ≤ a ∧ a < physMapVA
  hasHeader_physMap : ∀ pg, hasHeader pg = true → physMapVA ≤ pg * erosPageSize ∧ pg * erosPageSize < physMapEnd

variable (L : Layout)

/-- `FLPT_NullVA`. -/
def Layout.flptNull : ℕ := L.flptFCSE - 0x4000

/-- A mapping table entry that was registered as depending on a key slot. -/
structure Dependence where
  key : ℕ
  mte : ℕ
  mapLevel : MapLevel
  deriving DecidableEq

/-- The dependency table and what it refers to. -/
structure State where
  /-- `KeyDependTable`: the entries of each bucket. -/
  table : ℕ → ℕ → KeyDependEntry
  /-- `KeyDependLRU`. -/
  lru : ℕ → ℕ
  /-- The key in the slot is write-hazarded. -/
  wrHazard : ℕ → Bool
  /-- `obType` of the page frames that have a header. -/
  obType : ℕ → FrameType
  /-- The words of kernel memory. -/
  word : ℕ → ℕ
  /-- The `md` of the processes. -/
  md : ℕ → ProcMD
  /-- No data of the kernel: what was registered and has not been invalidated since. -/
  registered : List Dependence

variable {L}

/-! ## Pointers -/

/-- A pointer to a mapping table entry, plus a number of entries. -/
def ptrAdd (p : ℕ) (n : ℕ) : ℕ := (p + 4 * n) % 2 ^ 32

/-- The number of entries between two pointers. -/
def ptrDiff (p q : ℕ) : ℕ := (p + 2 ^ 32 - q) % 2 ^ 32 / 4

/-- `SLOT_TAG`. -/
def slotTagOf (key : ℕ) : ℕ := (key >>> 4) &&& 0xfffff

/-- `keybucket_ndx`; a `Key` has 16 bytes. -/
def keyBucketNdx (L : Layout) (key : ℕ) : ℕ := key / 16 % L.keyBuckets

def mteInSameTable (mte1 mte2 : ℕ) (mapLevel : MapLevel) : Bool :=
  (mte1 ^^^ mte2) / ((if mapLevel = .first then 0x3fff else cptSize - 1) + 1) == 0

/-! ## Invalidation -/

/-- The word of a mapping table entry is set. An entry that is zapped is no longer registered. -/
def State.setEntry (s : State) (mte : ℕ) (val : ℕ) : State :=
  { s with
    word := update s.word mte val
    registered :=
      if val = pteZapped then s.registered.filter fun d => d.mapLevel = .process ∨ d.mte ≠ mte
      else s.registered }

/-- What `proc_ResetMappingTable` sets. -/
def ProcMD.reset (L : Layout) : ProcMD := ⟨0, L.flptNullPA, 1, 0, false⟩

def procResetMappingTable (L : Layout) (p : ℕ) (s : State) : State :=
  { s with
    md := update s.md p (ProcMD.reset L)
    registered := s.registered.filter fun d => d.mapLevel ≠ .process ∨ d.mte ≠ p }

def State.setKDE (s : State) (bucket i : ℕ) (kde : KeyDependEntry) : State :=
  { s with table := update s.table bucket (update (s.table bucket) i kde) }

/-- How the page of a mapping table entry is used. -/
def obTypeOf (L : Layout) (s : State) (start : ℕ) : Except Halt FrameType :=
  if L.hasHeader (start / erosPageSize) then .ok (s.obType (start / erosPageSize))
  -- Allocated at initialization.
  else if start / 0x4000 * 0x4000 = L.flptNull then .error .assertion
  else if start / 0x4000 * 0x4000 = L.flptFCSE then .ok .ptMappingPage1
  else .ok .ptMappingPage2

/-- The functions that `KeyDependEntry_Track` applies to the entries of first level and of second level
tables. `FLMTE_MakeRO` and `FLMTE_TrackDirty` halt, and none of them makes anything of `PTE_ZAPPED`. -/
structure Tracker where
  flmteFunc : ℕ → Except Halt ℕ
  pteFunc : ℕ → Except Halt ℕ
  flmteFunc_zapped : ∀ val, flmteFunc pteZapped = .ok val → val = pteZapped
  pteFunc_zapped : ∀ val, pteFunc pteZapped = .ok val → val = pteZapped

/-- `FLMTE_Invalidate` and `pte_Invalidate`. -/
def Tracker.invalidate : Tracker where
  flmteFunc _ := .ok pteZapped
  pteFunc _ := .ok pteZapped
  flmteFunc_zapped _ h := (Except.ok.inj h).symm
  pteFunc_zapped _ h := (Except.ok.inj h).symm

/-- One step of the loops over the mapping table entries. -/
def trackOne (func : ℕ → Except Halt ℕ) (start : ℕ) (s : State) (i : ℕ) : Except Halt State :=
  match func (s.word (ptrAdd start i)) with
  | .ok val => .ok (s.setEntry (ptrAdd start i) val)
  | .error e => .error e

def keyDependEntryTrack (L : Layout) (t : Tracker) (bucket i : ℕ) (s : State) : Except Halt State :=
  let kde := s.table bucket i
  if kde.pteCount = 0 then
    if L.isProcess kde.start then .ok (procResetMappingTable L kde.start s)
    else .error .assertion
  else
    match obTypeOf L s kde.start with
    | .error e => .error e
    -- It is no longer a mapping page.
    | .ok .other => .ok (s.setKDE bucket i { kde with start := 0 })
    | .ok .ptMappingPage1 => (List.range kde.pteCount).foldlM (trackOne t.flmteFunc kde.start) s
    | .ok .ptMappingPage2 => (List.range kde.pteCount).foldlM (trackOne t.pteFunc kde.start) s

def keyDependEntryInvalidate (L : Layout) (bucket i : ℕ) (s : State) : Except Halt State := do
  let s ← keyDependEntryTrack L .invalidate bucket i s
  .ok (s.setKDE bucket i { s.table bucket i with start := 0 })

/-! ## Adding dependencies -/

/-- The first part of `NewDependEntry`: the victim is reused. -/
def freeVictim (L : Layout) (bucket i : ℕ) (s : State) : Except Halt State :=
  if (s.table bucket i).InUse then keyDependEntryInvalidate L bucket i s else .ok s

def newDependEntry (L : Layout) (start : ℕ) (count : ℕ) (key : ℕ) (s : State) :
    Except Halt State := do
  let bucket := keyBucketNdx L key
  let i := s.lru bucket
  let s := { s with lru := update s.lru bucket ((s.lru bucket + 1) % keyBucketSize) }
  let s ← freeVictim L bucket i s
  .ok (s.setKDE bucket i ⟨start, count % 2 ^ 12, slotTagOf key⟩)

/-- The entry has the tag of the key and starts at the mapping table entry, or can be merged with it. -/
def Matches (key : ℕ) (mte : ℕ) (mapLevel : MapLevel) (kde : KeyDependEntry) : Bool :=
  kde.slotTag == slotTagOf key &&
    (kde.start == mte || (mapLevel != .process && mteInSameTable kde.start mte mapLevel))

/-- The entry is extended to cover the mapping table entry. -/
def mergeEntry (mte : ℕ) (kde : KeyDependEntry) : KeyDependEntry :=
  let curEnd := ptrAdd kde.start kde.pteCount
  if mte < kde.start then
    { kde with start := mte, pteCount := ptrDiff curEnd mte % 2 ^ 12 }
  else if curEnd ≤ mte then
    { kde with pteCount := ptrDiff (ptrAdd mte 1) kde.start % 2 ^ 12 }
  -- It falls within the range.
  else { kde with pteCount := ptrDiff curEnd kde.start % 2 ^ 12 }

/-- `Depend_AddKey`, before the dependence is noted as registered. -/
def addKeyEntry (L : Layout) (key : ℕ) (mte : ℕ) (mapLevel : MapLevel) (s : State) :
    Except Halt State :=
  let bucket := keyBucketNdx L key
  match (List.range keyBucketSize).find? fun i => Matches key mte mapLevel (s.table bucket i) with
  | some i =>
    let kde := s.table bucket i
    if kde.start = mte then
      -- `assert(mapLevel != 0 || entry[i].pteCount == 0)`
      if mapLevel ≠ .process ∨ kde.pteCount = 0 then .ok s else .error .assertion
    else .ok (s.setKDE bucket i (mergeEntry mte kde))
  | none => newDependEntry L mte (if mapLevel = .process then 0 else 1) key s

/-- `Depend_AddKey`. -/
def addKey (L : Layout) (key : ℕ) (mte : ℕ) (mapLevel : MapLevel) (s : State) :
    Except Halt State :=
  -- When the keeper is looked for, no mapping table entry is passed.
  if mte = 0 then .ok s
  else do
    let s ← addKeyEntry L key mte mapLevel { s with wrHazard := update s.wrHazard key true }
    .ok { s with registered := ⟨key, mte, mapLevel⟩ :: s.registered }

/-! ## Visiting the entries of a key -/

/-- One entry of `Depend_VisitEntries`. -/
def visitOne (L : Layout) (func : ℕ → ℕ → State → Except Halt State) (key : ℕ) (s : State) (i : ℕ) :
    Except Halt State :=
  let kde := s.table (keyBucketNdx L key) i
  if kde.slotTag = slotTagOf key ∧ kde.InUse then func (keyBucketNdx L key) i s else .ok s

/-- `Depend_VisitEntries`. -/
def visitEntries (L : Layout) (func : ℕ → ℕ → State → Except Halt State) (key : ℕ) (s : State) :
    Except Halt State :=
  (List.range keyBucketSize).foldlM (visitOne L func key) s

/-- `Depend_InvalidateKey`. -/
def invalidateKey (L : Layout) (key : ℕ) (s : State) : Except Halt State := do
  let s ← visitEntries L (keyDependEntryInvalidate L) key s
  .ok { s with wrHazard := update s.wrHazard key false }

/-! ## The runs -/

/-- The mapping table entries that page faults register: a process of the process cache, a user
descriptor of `FLPT_FCSE`, or an entry of a coarse page table. -/
def Legal (L : Layout) (s : State) (mte : ℕ) : MapLevel → Prop
  | .process => L.isProcess mte = true
  | .first => ∃ j < userDescriptors, mte = L.flptFCSE + 4 * j
  | .second => 4 ∣ mte ∧ L.hasHeader (mte / erosPageSize) = true ∧ s.obType (mte / erosPageSize) = .ptMappingPage2

/-- The mapping table entry is in the page. -/
def Dependence.InPage (d : Dependence) (pg : ℕ) : Prop := d.mapLevel = .second ∧ d.mte / erosPageSize = pg

instance (d : Dependence) (pg : ℕ) : Decidable (d.InPage pg) := inferInstanceAs (Decidable (_ ∧ _))

/-- The operations on the table, and what the rest of the kernel does to what it refers to. -/
inductive Op where
  | addKey (key : ℕ) (mte : ℕ) (mapLevel : MapLevel)
  | invalidateKey (key : ℕ)
  /-- The entries of a key are visited to track references or dirty pages or to make them read-only. -/
  | visitEntries (t : Tracker) (key : ℕ)
  /-- The mapping code writes an entry, or the page is in other use. -/
  | setEntry (mte : ℕ) (val : ℕ)
  /-- A process gets a first level mapping table. -/
  | setMD (p : ℕ) (md : ProcMD)
  /-- `AllocateCPT` makes a page frame a mapping page. -/
  | allocateCPT (pg : ℕ)
  /-- `Check2ndLevelMappingTableFree` releases the page: the entries in it no longer exist. -/
  | releasePageFrame (pg : ℕ)

def Op.run (L : Layout) (s : State) : Op → Except Halt State
  | .addKey key mte mapLevel => Depend.addKey L key mte mapLevel s
  | .invalidateKey key => Depend.invalidateKey L key s
  | .visitEntries t key => Depend.visitEntries L (keyDependEntryTrack L t) key s
  | .setEntry mte val => .ok (s.setEntry mte val)
  | .setMD p md => .ok { s with md := update s.md p md }
  | .allocateCPT pg => .ok { s with obType := update s.obType pg .ptMappingPage2 }
  | .releasePageFrame pg =>
    .ok { s with
      obType := update s.obType pg .other
      registered := s.registered.filter fun d => ¬d.InPage pg }

/-- What the callers ensure. -/
def Op.Allowed (L : Layout) (s : State) : Op → Prop
  | .addKey _ mte mapLevel => mte = 0 ∨ Legal L s mte mapLevel
  | _ => True

/-- After `Depend_InitKeyDependTable`: no entry is in use. -/
def State.Initial (s : State) : Prop :=
  (∀ bucket i, s.table bucket i = ⟨0, 0, 0⟩) ∧ (∀ bucket, s.lru bucket = 0) ∧ s.registered = []

inductive Reach (L : Layout) : State → Prop where
  | init {s} : s.Initial → Reach L s
  | step {s s'} (op : Op) : Reach L s → op.Allowed L s → op.run L s = .ok s' → Reach L s'

end CapROS.Depend
