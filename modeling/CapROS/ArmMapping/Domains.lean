import CapROS.Kernel.Types
import Mathlib.Data.Finset.Max
import Mathlib.Data.Nat.Bitwise

/-!
# Small spaces and MMU domains on ARM

The processes that run in small spaces share one first level page table, `FLPT_FCSE`. Each small space
in use may own one of the 15 domains, and the domain access register of a process tells which domains
its accesses may use.

* `State`: `SmallSpaces`, `MMUDomains`, `FLPT_FCSE`, the `ProcMD` of each process and what the
  dependency table holds on them.
* `ensureSSDomain`, `releaseSmallSpace`, `allocateSmallSpace`, `assignSSToProc`: the operations.
* `Op`, `Op.run`, `Reach`: the runs.
-/

namespace CapROS.ArmMapping

open Function (update)

/-- `NumSmallSpaces`. Small space 0 is not used. -/
def numSmallSpaces : ℕ := 0x50

def ktuneNDomainSteal : ℕ := 2

def ktuneNSSSteal : ℕ := 6

/-- `KTUNE_NCONTEXT`: the number of processes in the process cache. -/
def ktuneNContext : ℕ := 512

/-- `PID_IN_PROGRESS`, as a process ID: it is kept in the high bits of `md.pid`. -/
def pidInProgress : ℕ := 1

/-- The descriptors of a small space: `1ul << (PID_SHIFT - L1D_ADDR_SHIFT)`. -/
def descriptorsPerSpace : ℕ := 32

/-- A level 1 descriptor: its valid bits, the bit that makes it `PTE_IN_PROGRESS`, its domain and
the address of its coarse page table. -/
structure L1D where
  valid : Bool
  inProgress : Bool
  domain : ℕ
  coarsePT : ℕ
  deriving DecidableEq

/-- `PTE_ZAPPED`. -/
def L1D.zapped : L1D := ⟨false, false, 0, 0⟩

/-- The descriptor is invalidated and its domain field is cleared. -/
def L1D.steal (descr : L1D) : L1D := { descr with valid := false, domain := 0 }

/-- The first level page table of a process. Large spaces are not implemented. -/
inductive FirstLevel where
  | null
  | fcse
  deriving DecidableEq

structure ProcMD where
  firstLevelMappingTable : FirstLevel
  /-- The process ID, the high bits of `md.pid`. -/
  pid : ℕ
  dacr : ℕ
  deriving DecidableEq

/-- What `proc_ResetMappingTable` sets: client access for domain 0 only. -/
def ProcMD.unmapped : ProcMD := ⟨.null, 0, 1⟩

/-- The domain access register gives some access to the domain. -/
def ProcMD.Enables (md : ProcMD) (domain : ℕ) : Prop := md.dacr / 2 ^ (domain * 2) % 4 ≠ 0

/-- `struct SmallSpace`, with what is needed of its `MapTabHeader`. -/
structure SmallSpace where
  procs : List ℕ
  isFree : Bool
  producer : ℕ
  domain : ℕ

/-- The mapping structures. Processes and the objects that produce page tables are known by
numbers. -/
structure State where
  smallSpaces : ℕ → SmallSpace
  /-- `MMUDomains[d].pid`. -/
  mmuDomains : ℕ → ℕ
  flptFCSE : ℕ → L1D
  md : ℕ → ProcMD
  /-- The objects with a key that the map of a process is registered to depend on. -/
  procDepends : ℕ → List ℕ
  /-- The objects with a key that a descriptor of `FLPT_FCSE` is registered to depend on. -/
  flptDepends : ℕ → List ℕ
  lastSSAssigned : ℕ
  lastSSStolen : ℕ
  lastDomainAssigned : ℕ
  lastDomainStolen : ℕ

namespace State

/-- After `mach_HeapInit`, before any process runs. -/
def init : State where
  smallSpaces _ := ⟨[], true, 0, 0⟩
  mmuDomains _ := 0
  flptFCSE _ := .zapped
  md _ := .unmapped
  procDepends _ := []
  flptDepends _ := []
  lastSSAssigned := 1
  lastSSStolen := 1
  lastDomainAssigned := 1
  lastDomainStolen := 1

def setSpace (i : ℕ) (ss : SmallSpace) (s : State) : State :=
  { s with smallSpaces := update s.smallSpaces i ss }

@[simp]
theorem setSpace_md (i : ℕ) (ss : SmallSpace) (s : State) : (s.setSpace i ss).md = s.md := rfl

/-- The processes with `p` are reset, and taken out of the lists of the small spaces. -/
def resetProcs (p : ℕ → Bool) (s : State) : State :=
  { s with
    md := fun q => if p q then .unmapped else s.md q
    smallSpaces := fun i =>
      { s.smallSpaces i with procs := (s.smallSpaces i).procs.filter fun q => !p q } }

/-- `proc_ResetMappingTable`. -/
def resetMappingTable (p : ℕ) (s : State) : State := s.resetProcs (· == p)

def flmteInvalidate (i : ℕ) (s : State) : State :=
  { s with flptFCSE := update s.flptFCSE i .zapped }

def flmteTrackReferenced (i : ℕ) (s : State) : State :=
  { s with flptFCSE := update s.flptFCSE i { s.flptFCSE i with valid := false } }

/-- `keyR_ClearWriteHazard`: what is registered to depend on a key to `obj` is invalidated, and no
longer registered. -/
def clearWriteHazard (obj : ℕ) (s : State) : State :=
  { s.resetProcs (fun q => decide (obj ∈ s.procDepends q)) with
    flptFCSE := fun i => if obj ∈ s.flptDepends i then .zapped else s.flptFCSE i
    procDepends := fun q => (s.procDepends q).filter (· ≠ obj)
    flptDepends := fun i => (s.flptDepends i).filter (· ≠ obj) }

/-- The cursors count down and wrap. -/
def countDown (bound cursor : ℕ) : ℕ := if cursor - 1 = 0 then bound else cursor - 1

/-- A cursor is advanced until it comes to something unused, `n` times at most. -/
def findDown (bound : ℕ) (unused : ℕ → Bool) : ℕ → ℕ → ℕ × Bool
  | 0, last => (last, false)
  | n + 1, last =>
    let last := countDown bound last
    if unused last then (last, true) else findDown bound unused n last

/-! ## Domains -/

/-- One round of the loop of `EnsureSSDomain` that steals domains. -/
def stealDomain (cur : ℕ) (first : Bool) (s : State) : Except Halt State :=
  let last := countDown 15 s.lastDomainStolen
  let s := { s with lastDomainStolen := last }
  let s := if first then { s with lastDomainAssigned := last } else s
  let pid := s.mmuDomains last
  if (s.smallSpaces pid).domain ≠ last then .error .assertion
  else if (s.md cur).pid = pid then .ok s
  else
    let s :=
      { s with flptFCSE := fun i =>
          if i / descriptorsPerSpace = pid then (s.flptFCSE i).steal else s.flptFCSE i }
    let s := s.clearWriteHazard (s.smallSpaces pid).producer
    let s := s.setSpace pid { s.smallSpaces pid with domain := 0 }
    .ok { s with mmuDomains := update s.mmuDomains last 0 }

/-- The loop that steals domains; the first round has `i == 0`. -/
def stealDomains (cur : ℕ) : ℕ → Bool → State → Except Halt State
  | 0, _, s => .ok s
  | n + 1, first, s => stealDomain cur first s >>= stealDomains cur n false

/-- `assignDomain`: the domain that was found goes to the small space. -/
def assignDomain (ssid : ℕ) (s : State) : State :=
  let s := { s with mmuDomains := update s.mmuDomains s.lastDomainAssigned ssid }
  s.setSpace ssid { s.smallSpaces ssid with domain := s.lastDomainAssigned }

/-- `EnsureSSDomain`, while the process `cur` is the one that runs. -/
def ensureSSDomain (cur ssid : ℕ) (s : State) : Except Halt State :=
  if (s.smallSpaces ssid).domain = 0 then
    let r := findDown 15 (fun d => s.mmuDomains d == 0) 15 s.lastDomainAssigned
    let s := { s with lastDomainAssigned := r.1 }
    if r.2 then .ok (s.assignDomain ssid)
    else do
      let s ← stealDomains cur ktuneNDomainSteal true s
      .ok (s.assignDomain ssid)
  else .ok s

/-! ## Small spaces -/

/-- The check that there are no processes holding this pid. -/
def nobodyHolds (pid : ℕ) (s : State) : Bool :=
  (List.range ktuneNContext).all fun q => decide ((s.md q).pid ≠ pid ∨
    pid = pidInProgress ∧ (s.md q).firstLevelMappingTable = .null)

/-- The domain of a small space is freed, if it has one. -/
def freeDomain (pid : ℕ) (s : State) : State :=
  if (s.smallSpaces pid).domain ≠ 0 then
    { s.setSpace pid { s.smallSpaces pid with domain := 0 } with
      mmuDomains := update s.mmuDomains (s.smallSpaces pid).domain 0 }
  else s

def releaseSmallSpace (pid : ℕ) (s : State) : Except Halt State :=
  let procs := (s.smallSpaces pid).procs
  let s := s.resetProcs fun q => decide (q ∈ procs)
  let s :=
    { s with flptFCSE := fun i =>
        if i / descriptorsPerSpace = pid then .zapped else s.flptFCSE i }
  let s := s.freeDomain pid
  if s.nobodyHolds pid then
    .ok (s.setSpace pid { s.smallSpaces pid with isFree := true })
  else .error .assertion

/-- The loop of `AllocateSmallSpace` that steals small spaces. -/
def stealSpaces : ℕ → Bool → State → Except Halt State
  | 0, _, s => .ok s
  | n + 1, first, s => do
    let last := countDown (numSmallSpaces - 1) s.lastSSStolen
    let s := { s with lastSSStolen := last }
    let s := if first then { s with lastSSAssigned := last } else s
    let s ← s.releaseSmallSpace last
    stealSpaces n false s

/-- `AllocateSmallSpace` up to the label `assignSS`. -/
def freeUpSmallSpace (s : State) : Except Halt State :=
  let r := findDown (numSmallSpaces - 1) (fun i => (s.smallSpaces i).isFree) (numSmallSpaces - 1)
    s.lastSSAssigned
  let s := { s with lastSSAssigned := r.1 }
  if r.2 then .ok s else stealSpaces ktuneNSSSteal true s

/-- `AllocateSmallSpace`, and `InitMapTabHeader` for the object that produces the space. -/
def allocateSmallSpace (producer : ℕ) (s : State) : Except Halt State := do
  let s ← s.freeUpSmallSpace
  let ss := s.smallSpaces s.lastSSAssigned
  if ss.domain = 0 then
    .ok (s.setSpace s.lastSSAssigned { ss with isFree := false, producer := producer })
  else .error .assertion

/-- The walk for `p` has passed keys to the objects of `path`. -/
def registerProc (p : ℕ) (path : List ℕ) (s : State) : State :=
  { s with procDepends := update s.procDepends p (path ++ s.procDepends p) }

def assignSSToProc (p ssid : ℕ) (s : State) : State :=
  let s := { s with md := update s.md p { s.md p with firstLevelMappingTable := .fcse, pid := ssid } }
  s.setSpace ssid { s.smallSpaces ssid with procs := p :: (s.smallSpaces ssid).procs }

/-- The end of `GetFirstLevelMappingTable`: the process gets the small space, and access to its domain. -/
def useSmallSpace (cur p ssid : ℕ) (s : State) : Except Halt State := do
  let s ← (s.assignSSToProc p ssid).ensureSSDomain cur ssid
  let domain := (s.smallSpaces ssid).domain
  .ok { s with md := update s.md p { s.md p with dacr := 1 <<< (domain * 2) ||| 1 } }

/-! ## First level descriptors -/

/-- `GetCPT` for a descriptor that holds a coarse page table and is not valid. -/
def restoreDescriptor (cur i : ℕ) (s : State) : Except Halt State :=
  let descr := s.flptFCSE i
  if descr.domain ≠ 0 then
    .ok { s with flptFCSE := update s.flptFCSE i { descr with valid := true } }
  else do
    let ssid := i / descriptorsPerSpace
    let s ← s.ensureSSDomain cur ssid
    let domain := (s.smallSpaces ssid).domain
    .ok { s with flptFCSE := update s.flptFCSE i { descr with valid := true, domain := domain } }

/-- `GetCPT` for a descriptor without a coarse page table, before the walk. -/
def beginDescriptor (i : ℕ) (s : State) : State :=
  { s with flptFCSE := update s.flptFCSE i ⟨false, true, 0, 0⟩ }

/-- The walk for a descriptor has passed keys to the objects of `path`. -/
def registerDescriptor (i : ℕ) (path : List ℕ) (s : State) : State :=
  { s with flptDepends := update s.flptDepends i (path ++ s.flptDepends i) }

/-- `GetCPT` after the walk. -/
def setDescriptor (cur i coarsePT : ℕ) (s : State) : Except Halt State := do
  let ssid := i / descriptorsPerSpace
  let s ← s.ensureSSDomain cur ssid
  let domain := (s.smallSpaces ssid).domain
  .ok { s with flptFCSE := update s.flptFCSE i ⟨true, false, domain, coarsePT⟩ }

end State

/-! ## Runs -/

/-- What happens to the mapping structures. `cur` is the process that runs, `act_CurContext`. -/
inductive Op where
  /-- A process is reset, because something it depends on has changed or because it is unloaded. -/
  | reset (p : ℕ)
  /-- A key to `obj` that the map of `p` depends on is no longer registered; the process is reset. -/
  | forget (p obj : ℕ)
  /-- The search for the small space of a process begins. -/
  | beginWalk (p : ℕ)
  /-- No product of the object will do, and a small space is allocated. -/
  | allocate (producer : ℕ)
  /-- The walk for `p` has registered it with the objects of `path`, and ended at the producer of a
  small space, which the process gets. -/
  | use (cur p ssid : ℕ) (path : List ℕ)
  /-- `ReleaseProduct` of a small space. -/
  | release (ssid : ℕ)
  /-- A page fault of `p` in the megabyte `offset`, the descriptor of which holds a page table. -/
  | restore (cur p offset : ℕ)
  /-- The walk for a descriptor of the small space of `p` begins. -/
  | beginDescriptor (p offset : ℕ)
  /-- The walk has ended, and the descriptor is still `PTE_IN_PROGRESS`. -/
  | setDescriptor (cur p offset coarsePT : ℕ) (path : List ℕ)
  /-- `FLMTE_Invalidate`. -/
  | invalidate (i : ℕ)
  /-- `FLMTE_TrackReferenced`. -/
  | track (i : ℕ)

/-- The index in `FLPT_FCSE` of a descriptor of the small space of `p`. -/
def State.index (s : State) (p offset : ℕ) : ℕ := (s.md p).pid * descriptorsPerSpace + offset

/-- What the kernel has checked before it comes to the operation. -/
def Op.Allowed (s : State) : Op → Prop
  | reset _ => True
  | forget _ _ => True
  | beginWalk p => (s.md p).firstLevelMappingTable = .null
  | allocate _ => True
  | use _ p ssid path => (s.md p).firstLevelMappingTable = .null ∧ (s.md p).pid = pidInProgress ∧
      0 < ssid ∧ ssid < numSmallSpaces ∧ (s.smallSpaces ssid).isFree = false ∧
      (s.smallSpaces ssid).producer ∈ path
  | release ssid => 0 < ssid ∧ ssid < numSmallSpaces ∧ (s.smallSpaces ssid).isFree = false
  | restore _ p offset => (s.md p).firstLevelMappingTable = .fcse ∧ offset < descriptorsPerSpace ∧
      (s.flptFCSE (s.index p offset)).valid = false ∧ (s.flptFCSE (s.index p offset)).coarsePT ≠ 0
  | beginDescriptor p offset => (s.md p).firstLevelMappingTable = .fcse ∧
      offset < descriptorsPerSpace ∧ (s.flptFCSE (s.index p offset)).valid = false ∧
      (s.flptFCSE (s.index p offset)).coarsePT = 0
  | setDescriptor _ p offset coarsePT _ => (s.md p).firstLevelMappingTable = .fcse ∧
      offset < descriptorsPerSpace ∧ s.flptFCSE (s.index p offset) = ⟨false, true, 0, 0⟩ ∧ coarsePT ≠ 0
  | invalidate _ => True
  | track _ => True

instance (s : State) : (op : Op) → Decidable (op.Allowed s)
  | .reset _ => isTrue trivial
  | .forget _ _ => isTrue trivial
  | .beginWalk _ => inferInstanceAs (Decidable (_ = _))
  | .allocate _ => isTrue trivial
  | .use _ _ _ _ => inferInstanceAs (Decidable (_ ∧ _ ∧ _ ∧ _ ∧ _ ∧ _))
  | .release _ => inferInstanceAs (Decidable (_ ∧ _ ∧ _))
  | .restore _ _ _ => inferInstanceAs (Decidable (_ ∧ _ ∧ _ ∧ _))
  | .beginDescriptor _ _ => inferInstanceAs (Decidable (_ ∧ _ ∧ _ ∧ _))
  | .setDescriptor _ _ _ _ _ => inferInstanceAs (Decidable (_ ∧ _ ∧ _ ∧ _))
  | .invalidate _ => isTrue trivial
  | .track _ => isTrue trivial

open State in
def Op.run (s : State) : Op → Except Halt State
  | reset p => .ok (s.resetMappingTable p)
  | forget p obj =>
      let s := s.resetMappingTable p
      .ok { s with procDepends := update s.procDepends p ((s.procDepends p).filter (· ≠ obj)) }
  | beginWalk p =>
      let s := s.resetMappingTable p
      .ok { s with md := update s.md p { s.md p with pid := pidInProgress } }
  | allocate producer => s.allocateSmallSpace producer
  | use cur p ssid path => (s.registerProc p path).useSmallSpace cur p ssid
  | release ssid => s.releaseSmallSpace ssid
  | restore cur p offset => s.restoreDescriptor cur (s.index p offset)
  | beginDescriptor p offset => .ok (s.beginDescriptor (s.index p offset))
  | setDescriptor cur p offset coarsePT path =>
      (s.registerDescriptor (s.index p offset) path).setDescriptor cur (s.index p offset) coarsePT
  | invalidate i => .ok (s.flmteInvalidate i)
  | track i => .ok (s.flmteTrackReferenced i)

inductive Reach : State → Prop where
  | init : Reach .init
  | step {s s' : State} (op : Op) : Reach s → op.Allowed s → op.run s = .ok s' → Reach s'

/-- No domain is left for the small space, and of the two domains to be stolen the first one is not that
of the process that runs, and neither belongs to a space that the process which gets the small space
depends on. The second domain is left alone if it is that of the process that runs. -/
def State.StealsSafely (s : State) (cur p : ℕ) (depends : List ℕ) : Prop :=
  let d₁ := State.countDown 15 s.lastDomainStolen
  let d₂ := State.countDown 15 d₁
  let producer := fun d => (s.smallSpaces (s.mmuDomains d)).producer
  (cur ≠ p → (s.md cur).pid ≠ s.mmuDomains d₁) ∧ producer d₁ ∉ depends ∧
    (cur ≠ p ∧ (s.md cur).pid = s.mmuDomains d₂ ∧ producer d₁ ∉ s.procDepends cur ∨
      producer d₂ ∉ depends)

/-- If domains have to be stolen for a process, this is safe. -/
def Op.Safe (s : State) : Op → Prop
  | use cur p ssid path => (s.smallSpaces ssid).domain = 0 → (∀ d, 0 < d → d < 16 → s.mmuDomains d ≠ 0) →
      s.StealsSafely cur p (path ++ s.procDepends p)
  | _ => True

/-- The states that runs lead to in which domains are stolen safely. -/
inductive SafeReach : State → Prop where
  | init : SafeReach .init
  | step {s s' : State} (op : Op) :
      SafeReach s → op.Allowed s → op.Safe s → op.run s = .ok s' → SafeReach s'

/-! ## What the domains are for -/

/-- Domains have one owner, processes have access to the domain of their own small space only, and the
descriptors of a small space have its domain. -/
structure Isolated (s : State) : Prop where
  owner : ∀ i d, 0 < i → i < numSmallSpaces → 0 < d →
    ((s.smallSpaces i).domain = d ↔ d < 16 ∧ s.mmuDomains d = i)
  dacr : ∀ p d, d < 16 → (s.md p).Enables d →
    d = 0 ∨ (s.md p).firstLevelMappingTable = .fcse ∧ (s.smallSpaces (s.md p).pid).domain = d
  descriptors : ∀ i, (s.flptFCSE i).valid = true →
    (s.flptFCSE i).domain = (s.smallSpaces (i / descriptorsPerSpace)).domain ∧ (s.flptFCSE i).domain ≠ 0

end CapROS.ArmMapping
