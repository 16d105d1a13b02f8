import CapROS.Kernel.Types
import CapROS.Theory.BuddyBlocks

/-!
# Physical page frames

The allocator of blocks of page frames (`kern_PhysMem.c`), with the one other place that takes
frames from its free lists (`AllocateThisPhysPage` in `kern_PreloadObSource.c`). A page frame is
named by its physical page number. The free blocks of `2 ^ j` pages are in the list `freePages[j]`;
the header of the first frame of a free block has its size.

The regions of memory are disjoint, since `physMem_AddRegion` is only called for a range that
`physMem_CheckOverlap` has found to be new. The links of the free lists are lists here.

* `State`: the page headers, the free lists and `physMem_numFreePageFrames`.
* `freeBlock`, `allocateBlock`, `splitContainingFreeBlock`, `allocateThisPhysPage`: the operations.
-/

namespace CapROS.PhysMem

/-- The ways in which the kernel stops. -/
inductive Stop where
  | assertion
  /-- A header outside the arrays is used. -/
  | wildPointer
  /-- A loop does not end. -/
  | unending
  deriving DecidableEq, Repr

/-- `assert(p)`. -/
def check (p : Prop) [Decidable p] : Except Stop Unit :=
  if p then .ok () else .error .assertion

/-- `ObType`, as far as a page header can have it. -/
inductive ObType where
  /-- The value 0, to which the core table is cleared. -/
  | ntUnprepared
  | ptDataPage
  | ptDevBlock
  | ptDMABlock
  | ptSecondary
  | ptTagPot
  | ptHomePot
  | ptLogPot
  | ptWorkingCopy
  | ptNewAlloc
  | ptKernelUse
  | ptFreeFrame
  | ptFreeSecondary
  /-- The machine-dependent types: mapping tables. -/
  | ptMapping
  deriving DecidableEq, Repr

/-- `PageHeader`. The size `log2Pages` is in a union; only for a free frame does it mean anything. -/
structure PageHeader where
  obType : ObType
  log2Pages : ℕ
  deriving DecidableEq, Repr

/-- The type of a `PmemInfo`. -/
inductive MemoryType where
  | memory
  | deviceMem
  | bootRom
  deriving DecidableEq, Repr

/-- `PmemInfo`: a region of memory, with the pages of it that have headers. -/
structure PmemInfo where
  type : MemoryType
  firstObPgAddr : ℕ
  nPages : ℕ
  deriving DecidableEq, Repr

/-- The page is one of the region. -/
def PmemInfo.Contains (pmi : PmemInfo) (pg : ℕ) : Prop :=
  pmi.firstObPgAddr ≤ pg ∧ pg < pmi.firstObPgAddr + pmi.nPages

instance (pmi : PmemInfo) (pg : ℕ) : Decidable (pmi.Contains pg) := by
  unfold PmemInfo.Contains
  infer_instance

/-- The table `physMem_pmemInfo`. Physical addresses have 32 bits, page numbers 20. -/
structure Memory where
  regions : List PmemInfo
  bounded : ∀ pmi ∈ regions, pmi.firstObPgAddr + pmi.nPages ≤ 2 ^ 20
  disjoint : regions.Pairwise (fun pmi pmi' => ∀ pg, pmi.Contains pg → ¬ pmi'.Contains pg)

/-- `pageH->physMemRegion`. -/
def Memory.physMemRegion (M : Memory) (pg : ℕ) : Except Stop PmemInfo :=
  match M.regions.find? (fun pmi => pmi.Contains pg) with
  | some pmi => .ok pmi
  | none => .error .wildPointer

/-- `logMaxFreePageBlock`, which is `capros_DevPrivs_logMaxDMABlockSize`. -/
def logMaxFreePageBlock : ℕ := 7

/-- The allocator of page frames. -/
structure State where
  /-- The header of each page. -/
  pages : ℕ → PageHeader
  /-- The free blocks of each size, the first one of the list first. -/
  freePages : ℕ → List ℕ
  /-- `physMem_numFreePageFrames`. -/
  numFreePageFrames : ℕ

/-- One step of `ffs32`: if the low `b` bits are 0, they are skipped. -/
def ffsStep (b : ℕ) (w : ℕ × ℕ) : ℕ × ℕ :=
  if w.2 % 2 ^ b = 0 then (w.1 + b, w.2 / 2 ^ b) else w

/-- `ffs32`: the number of the lowest bit that is 1. -/
def ffs32 (word : ℕ) : ℕ :=
  (ffsStep 1 (ffsStep 2 (ffsStep 4 (ffsStep 8 (ffsStep 16 (0, word)))))).1

/-- One step of `fls32`: if the word has more than `b` bits, the low `b` are dropped. -/
def flsStep (b : ℕ) (w : ℕ × ℕ) : ℕ × ℕ :=
  if 2 ^ b ≤ w.2 then (w.1 + b, w.2 / 2 ^ b) else w

/-- `fls32`: the number of bits up to the highest that is 1. -/
def fls32 (x : ℕ) : ℕ :=
  if x = 0 then 0
  else (flsStep 1 (flsStep 2 (flsStep 4 (flsStep 8 (flsStep 16 (1, x)))))).1

/-- `physMem_PhysPgNumToPageH`. -/
def physPgNumToPageH (pmi : PmemInfo) (pgNum : ℕ) : Except Stop ℕ :=
  if pmi.Contains pgNum then .ok pgNum else .error .wildPointer

/-- `pageH_IsFree`. -/
def State.IsFree (s : State) (pg : ℕ) : Prop := (s.pages pg).obType = .ptFreeFrame

instance (s : State) (pg : ℕ) : Decidable (s.IsFree pg) := by
  unfold State.IsFree
  infer_instance

/-- `link_Unlink` on the link of a free block. -/
def State.unlink (s : State) (pg : ℕ) : State :=
  { s with freePages := fun j => (s.freePages j).erase pg }

def State.setObType (s : State) (pg : ℕ) (t : ObType) : State :=
  { s with pages := Function.update s.pages pg { s.pages pg with obType := t } }

/-- `pmi_FreeOneBlock`. -/
def State.freeOneBlock (s : State) (pg j : ℕ) : State :=
  { s with
    pages := Function.update s.pages pg ⟨.ptFreeFrame, j⟩
    freePages := Function.update s.freePages j (pg :: s.freePages j) }

/-- The loop of `physMem_SplitContainingFreeBlock` that looks for the containing block. On page 0
it could go on for ever. -/
def containingBlock (pmi : PmemInfo) (s : State) : ℕ → ℕ → Except Stop ℕ
  | 0, _ => .error .unending
  | fuel + 1, pg =>
    if s.IsFree pg then .ok pg
    else do
      check ((s.pages pg).obType = .ptFreeSecondary)
      let pg' ← physPgNumToPageH pmi (pg &&& (pg - 1))
      containingBlock pmi s fuel pg'

/-- `physMem_SplitContainingFreeBlock`. A block of one page cannot be split: `j` becomes huge then,
and `freePages[j]` is outside the array. -/
def splitContainingFreeBlock (M : Memory) (pg : ℕ) (s : State) : Except Stop State := do
  let pmi ← M.physMemRegion pg
  let head ← containingBlock pmi s (pg + 1) pg
  match (s.pages head).log2Pages with
  | 0 => .error .wildPointer
  | j + 1 =>
    let lower ← physPgNumToPageH pmi head
    let upper ← physPgNumToPageH pmi (head + 2 ^ j)
    .ok (((s.unlink head).freeOneBlock lower j).freeOneBlock upper j)

/-- The part of `physMem_FreeBlock` from the label `recheck` on, for the block of `2 ^ j` pages at
`jPgNum`, where `j` is `left` less than the largest. The source does not change `jSize` when it
merges. -/
def recheck (pmi : PmemInfo) (jSize : ℕ) : ℕ → ℕ → State → State
  | 0, jPgNum, s => s.freeOneBlock jPgNum logMaxFreePageBlock
  | left + 1, jPgNum, s =>
    let j := logMaxFreePageBlock - (left + 1)
    let bPgNum := jPgNum ^^^ jSize
    if pmi.Contains bPgNum ∧ s.IsFree bPgNum ∧ (s.pages bPgNum).log2Pages = j then
      if bPgNum < jPgNum then
        recheck pmi jSize left bPgNum ((s.unlink bPgNum).setObType jPgNum .ptFreeSecondary)
      else
        recheck pmi jSize left jPgNum ((s.unlink bPgNum).setObType bPgNum .ptFreeSecondary)
    else s.freeOneBlock jPgNum j

/-- The order of the block that `physMem_FreeBlock` frees next, at the end of `numPages` pages. -/
def lastOrder (numPages : ℕ) : ℕ := min (ffs32 numPages) logMaxFreePageBlock

/-- The loop of `physMem_FreeBlock`. -/
def freeBlocks (pmi : PmemInfo) (pgNum : ℕ) : ℕ → ℕ → State → Except Stop State
  | 0, _, _ => .error .unending
  | fuel + 1, numPages, s => do
    let j := lastOrder numPages
    let jPgNum ← physPgNumToPageH pmi (pgNum + numPages - 2 ^ j)
    check (¬ s.IsFree jPgNum)
    let s := recheck pmi (2 ^ j) (logMaxFreePageBlock - j) jPgNum s
    if numPages - 2 ^ j = 0 then .ok s
    else freeBlocks pmi pgNum fuel (numPages - 2 ^ j) s

/-- `pgNum & -pgNum`. -/
def lowestBit (pgNum : ℕ) : ℕ := pgNum &&& ((2 ^ 32 - pgNum) % 2 ^ 32)

/-- `physMem_FreeBlock`. It does not return if there are no pages to free: `numPages` becomes huge
then. -/
def freeBlock (M : Memory) (pg numPages : ℕ) (s : State) : Except Stop State := do
  let pmi ← M.physMemRegion pg
  check (lowestBit pg = 0 ∨ numPages ≤ lowestBit pg)
  freeBlocks pmi pg numPages numPages
    { s with numFreePageFrames := s.numFreePageFrames + numPages }

/-- The first block of the first of these lists that has one, with its order. -/
def firstBlock (s : State) (orders : List ℕ) : Option (ℕ × ℕ) :=
  orders.findSome? (fun j => (s.freePages j).head?.map (fun pg => (pg, j)))

/-- The loop of `physMem_AllocateBlock` that frees what is not needed of the block of `2 ^ j` pages
at `xPgNum`. -/
def carve (pmi : PmemInfo) : ℕ → ℕ → ℕ → State → Except Stop State
  | 0, numPages, _, s => if 1 = numPages then .ok s else .error .wildPointer
  | j + 1, numPages, xPgNum, s =>
    if 2 ^ (j + 1) = numPages then .ok s
    else do
      let upper ← physPgNumToPageH pmi (xPgNum + 2 ^ j)
      if numPages ≤ 2 ^ j then
        carve pmi j numPages xPgNum (s.freeOneBlock upper j)
      else
        check ((s.pages upper).obType = .ptFreeSecondary)
        carve pmi j (numPages - 2 ^ j) (xPgNum + 2 ^ j) s

/-- `physMem_AllocateBlock`. -/
def allocateBlock (M : Memory) (numPages : ℕ) (s : State) : Except Stop (Option ℕ × State) := do
  let k := fls32 ((numPages + 2 ^ 32 - 1) % 2 ^ 32)
  check (k ≤ logMaxFreePageBlock)
  match firstBlock s (List.range' k (logMaxFreePageBlock + 1 - k)) with
  | none => .ok (none, s)
  | some (pg, j) =>
    check (s.IsFree pg)
    let s := (s.unlink pg).setObType pg .ptNewAlloc
    let pmi ← M.physMemRegion pg
    let s ← carve pmi j numPages pg { s with numFreePageFrames := s.numFreePageFrames - numPages }
    .ok (some pg, s)

/-- The loop of `AllocateThisPhysPage`. Each turn halves the block with the page, so that there are
no more turns than a block can be split. -/
def isolate (M : Memory) (pg : ℕ) : ℕ → State → Except Stop State
  | 0, _ => .error .unending
  | fuel + 1, s =>
    if s.IsFree pg ∧ (s.pages pg).log2Pages = 0 then .ok s
    else do
      let s ← splitContainingFreeBlock M pg s
      isolate M pg fuel s

/-- `EROS_PAGE_SIZE`. -/
def pageSize : ℕ := 4096

def allocateThisPhysPage (M : Memory) (pagePA : ℕ) (s : State) : Except Stop (ℕ × State) := do
  let pg := pagePA / pageSize
  let _ ← M.physMemRegion pg
  let s ← isolate M pg (logMaxFreePageBlock + 1) s
  let s := s.unlink pg
  let s := { s with numFreePageFrames := s.numFreePageFrames - 1 }
  .ok (pg, s.setObType pg .ptNewAlloc)

/-- The loop of `physMem_FreeAll`. -/
def freeAllFrom (M : Memory) (pmi : PmemInfo) : ℕ → ℕ → ℕ → State → Except Stop State
  | 0, _, _, _ => .error .unending
  | fuel + 1, pgNum, nPages, s =>
    if nPages = 0 then .ok s
    else do
      let pageH ← physPgNumToPageH pmi pgNum
      let pgs := 2 ^ ffs32 pgNum
      if nPages < pgs then freeBlock M pageH nPages s
      else do
        let s ← freeBlock M pageH pgs s
        freeAllFrom M pmi fuel (pgNum + pgs) (nPages - pgs) s

/-- `physMem_FreeAll`. -/
def freeAll (M : Memory) (pmi : PmemInfo) (s : State) : Except Stop State :=
  freeAllFrom M pmi (pmi.nPages + 1) pmi.firstObPgAddr pmi.nPages s

/-- The pages of the region become parts of free blocks, of which there are none yet. -/
def State.markSecondary (s : State) (pmi : PmemInfo) : State :=
  { s with pages := fun pg => if pmi.Contains pg then ⟨.ptFreeSecondary, 0⟩ else s.pages pg }

/-- What the initialisation of the page headers does for one region. -/
def initRegion (M : Memory) (s : State) (pmi : PmemInfo) : Except Stop State :=
  if pmi.type = .memory then freeAll M pmi (s.markSecondary pmi) else .ok s

/-- The core table has been cleared, and no block is free. -/
def cleared : State :=
  { pages := fun _ => ⟨.ntUnprepared, 0⟩, freePages := fun _ => [], numFreePageFrames := 0 }

/-- The initialisation of the page headers, in `kern_ObjectCache.c`. -/
def initFrames (M : Memory) : Except Stop State := M.regions.foldlM (initRegion M) cleared

/-- The allocator with the blocks that have been allocated and not freed: the first page of each
and how many pages were asked for. -/
structure System where
  mem : State
  allocated : List (ℕ × ℕ)

/-- The operations. -/
inductive Op where
  | allocateBlock (numPages : ℕ)
  | freeBlock (pg numPages : ℕ)
  | splitContainingFreeBlock (pg : ℕ)
  | allocateThisPhysPage (pagePA : ℕ)
  /-- The owner of a block changes the header of a page of it. -/
  | setHeader (pg : ℕ) (h : PageHeader)

/-- What the callers keep to: a number of pages has 32 bits, a block is freed once, by its owner, and
the owner of a block makes no page of it the first frame of a free block. -/
def Op.Allowed (s : System) : Op → Prop
  | .allocateBlock numPages => numPages < 2 ^ 32
  | .freeBlock pg numPages => (pg, numPages) ∈ s.allocated
  | .setHeader pg h =>
    (∃ b ∈ s.allocated, b.1 ≤ pg ∧ pg < b.1 + b.2) ∧ h.obType ≠ .ptFreeFrame
  | _ => True

/-- An operation is carried out. -/
def Op.run (M : Memory) (s : System) : Op → Except Stop System
  | .allocateBlock numPages => do
    let (block, mem) ← PhysMem.allocateBlock M numPages s.mem
    match block with
    | none => .ok { s with mem := mem }
    | some pg => .ok { mem := mem, allocated := (pg, numPages) :: s.allocated }
  | .freeBlock pg numPages => do
    let mem ← PhysMem.freeBlock M pg numPages s.mem
    .ok { mem := mem, allocated := s.allocated.erase (pg, numPages) }
  | .splitContainingFreeBlock pg => do
    let mem ← PhysMem.splitContainingFreeBlock M pg s.mem
    .ok { s with mem := mem }
  | .allocateThisPhysPage pagePA => do
    let (pg, mem) ← PhysMem.allocateThisPhysPage M pagePA s.mem
    .ok { mem := mem, allocated := (pg, 1) :: s.allocated }
  | .setHeader pg h => .ok { s with mem := { s.mem with pages := Function.update s.mem.pages pg h } }

instance (s : System) (op : Op) : Decidable (op.Allowed s) := by
  cases op <;> unfold Op.Allowed <;> infer_instance

/-- The operations one after the other, if all are allowed and the kernel does not stop. -/
def runIf (M : Memory) : List Op → System → Option System
  | [], s => some s
  | op :: ops, s =>
    if op.Allowed s then
      match op.run M s with
      | .ok s' => runIf M ops s'
      | .error _ => none
    else none

/-- A run from the start. -/
def runFrom (M : Memory) (ops : List Op) : Option System :=
  match initFrames M with
  | .ok mem => runIf M ops ⟨mem, []⟩
  | .error _ => none

inductive Reach (M : Memory) : System → Prop
  | init {mem : State} (h : initFrames M = .ok mem) : Reach M ⟨mem, []⟩
  | step {s s' : System} {op : Op} (h : Reach M s) (ha : op.Allowed s) (hr : op.run M s = .ok s') :
    Reach M s'

theorem reach_of_runIf {M : Memory} {ops : List Op} {s s' : System} (hs : Reach M s)
    (h : runIf M ops s = some s') : Reach M s' := by
  induction ops generalizing s with
  | nil => exact Option.some.inj h ▸ hs
  | cons op ops ih =>
    unfold runIf at h
    split at h
    case isFalse => cases h
    case isTrue ha =>
      split at h
      case h_1 hr => exact ih (.step hs ha hr) h
      case h_2 => cases h

theorem reach_of_runFrom {M : Memory} {ops : List Op} {s : System} (h : runFrom M ops = some s) :
    Reach M s := by
  unfold runFrom at h
  split at h
  case h_1 hi => exact reach_of_runIf (.init hi) h
  case h_2 => cases h

end CapROS.PhysMem
