import CapROS.Kernel.Key
import CapROS.PhysMem.Basic

/-!
# The counts of non-persistent objects at a restart

When the kernel starts, the objects that are not persistent come from the preloaded image, with
counts that begin at 0 again. A key to such an object may also be in a persistent object that was
saved before. `AdjustNPCounts` (`kern_Restart.c`) adds one more than the largest count that such a
saved key can have to the counts of all non-persistent objects in memory, and to the counts in their
keys to each other.

The key registers of a process that is loaded are in its `Process`; the slots of the node they come
from are hazarded. The model keeps them with that node, which is the only one for them. The slot
`ProcIoSpace` is hazarded with the registers of the process root; its key is not an object key.
Pages of device memory are always found in memory, so that `PhysPageSource` is never asked for a
count.

* `clearHazard`: `node_ClearHazard`.
* `adjustNPCounts`: `AdjustNPCounts`.
* `Image.Valid`: whether `key_DoValidate` accepts a key.
-/

namespace CapROS.Restart

/-- `EROS_NODE_SIZE`. -/
def nodeSize : ℕ := 32

def procSched : ℕ := 0

def procAddrSpace : ℕ := 2

def procGenKeys : ℕ := 3

def procIoSpace : ℕ := 4

/-- `ProcFirstRootRegSlot`. The last one is the last slot of the node. -/
def procFirstRootRegSlot : ℕ := 8

/-- What a node frame is used as: its `obType`, with the state that makes its slots hazarded. -/
inductive NodeUse where
  | unprepared
  /-- A GPT, and which of its slots are used in mapping tables. -/
  | segment (mapped : ℕ → Bool)
  /-- The root of a process. Its registers, if they are loaded, are in place of the values of the
  register slots. `sched` and `addrSpace` say whether these slots are in use, `keysNode` which node
  the key registers have been loaded from. -/
  | processRoot (regs : Option (ℕ → ℕ × ℕ × ℕ)) (sched addrSpace : Bool) (keysNode : Option ℕ)
  /-- The node whose keys are loaded as the key registers `keyReg` of a process. -/
  | keyRegs (procRoot : ℕ) (keyReg : ℕ → Key)
  | freeFrame

/-- A node frame. -/
structure Node where
  use : NodeUse
  oid : ℕ
  allocCount : ℕ
  callCount : ℕ
  slot : ℕ → Key

/-- A page frame, with the type and the fields of its object header. -/
structure Page where
  obType : PhysMem.ObType
  oid : ℕ
  allocCount : ℕ

/-- What is in memory. -/
structure Image where
  nodes : ℕ → Node
  /-- `objC_nNodes`. -/
  nNodes : ℕ
  pages : List Page
  maxNPCount : ℕ
  restartNPCount : ℕ
  /-- The first OID and the OID after the last one of each range of the preload source. -/
  preloadRanges : List (ℕ × ℕ)

/-- The node frame is free. -/
def Node.isFree (n : Node) : Bool :=
  match n.use with
  | .freeFrame => true
  | _ => false

/-- `keyBits_IsRdHazard` of a slot. -/
def Node.isRdHazard (n : Node) (k : ℕ) : Bool :=
  match n.use with
  | .processRoot regs _ _ _ => regs.isSome && decide (procFirstRootRegSlot ≤ k)
  | .keyRegs _ _ => true
  | _ => false

/-- `keyBits_IsHazard` of a slot. -/
def Node.isHazard (n : Node) (k : ℕ) : Bool :=
  match n.use with
  | .segment mapped => mapped k
  | .processRoot regs sched addrSpace keysNode =>
    (regs.isSome && decide (procFirstRootRegSlot ≤ k ∨ k = procIoSpace)) ||
      (sched && decide (k = procSched)) || (addrSpace && decide (k = procAddrSpace)) ||
      (keysNode.isSome && decide (k = procGenKeys))
  | .keyRegs _ _ => true
  | _ => false

/-- A register slot of a process root, with its value. -/
def unloadRegister (key : Key) (w : ℕ × ℕ × ℕ) : Key := { key with body := .words w.1 w.2.1 w.2.2 }

/-- The key that a slot stands for, wherever its value is. -/
def Node.logicalKey (n : Node) (k : ℕ) : Key :=
  match n.use with
  | .processRoot (some regs) _ _ _ =>
    if procFirstRootRegSlot ≤ k then unloadRegister (n.slot k) (regs k) else n.slot k
  | .keyRegs _ keyReg => keyReg k
  | _ => n.slot k

/-- A node frame is written. -/
def Image.setNode (img : Image) (i : ℕ) (n : Node) : Image :=
  { img with nodes := Function.update img.nodes i n }

/-- The slot `ProcGenKeys` of a process root is no longer hazarded. -/
def Node.dropKeysNode (n : Node) : Node :=
  match n.use with
  | .processRoot regs sched addrSpace _ => { n with use := .processRoot regs sched addrSpace none }
  | _ => n

/-- `proc_FlushKeyRegs`, for the process that has its key registers from the node `kn`. -/
def flushKeyRegs (kn : ℕ) (img : Image) : Except Halt Image :=
  match (img.nodes kn).use with
  | .keyRegs procRoot keyReg =>
    let img := img.setNode kn { img.nodes kn with use := .unprepared, slot := keyReg }
    .ok (img.setNode procRoot (img.nodes procRoot).dropKeysNode)
  | _ => .error .assertion

/-- `proc_FlushFixRegs`: the register slots get their values. -/
def flushFixRegs (n : Node) (regs : ℕ → ℕ × ℕ × ℕ) (addrSpace : Bool) (keysNode : Option ℕ) : Node :=
  { n with
    use := .processRoot none false addrSpace keysNode
    slot := fun k =>
      if procFirstRootRegSlot ≤ k then unloadRegister (n.slot k) (regs k) else n.slot k }

/-- `node_ClearHazard`, when the slot is hazarded. -/
def clearHazardOf (i k : ℕ) (img : Image) : Except Halt Image :=
  let n := img.nodes i
  match n.use with
  | .segment mapped =>
    .ok (img.setNode i { n with use := .segment (Function.update mapped k false) })
  | .processRoot regs sched addrSpace keysNode =>
    if k = procAddrSpace then
      .ok (img.setNode i { n with use := .processRoot regs sched false keysNode })
    else if k = procGenKeys then
      match keysNode with
      | some kn => flushKeyRegs kn img
      | none => .error .assertion
    else if k = procSched then
      .ok (img.setNode i { n with use := .processRoot regs false addrSpace keysNode })
    else
      match regs with
      | some regs => .ok (img.setNode i (flushFixRegs n regs addrSpace keysNode))
      | none => .error .assertion
  | .keyRegs _ _ => flushKeyRegs i img
  | _ => .error .fatal

/-- `node_ClearHazard`. -/
def clearHazard (i k : ℕ) (img : Image) : Except Halt Image :=
  if (img.nodes i).isHazard k then do
    let img ← clearHazardOf i k img
    kassert ((img.nodes i).isHazard k = false)
    .ok img
  else .ok img

/-- The key is an unprepared key to an object that is not persistent, as the source tests it. -/
def toAdjust (key : Key) : Bool :=
  match key.body with
  | .unprep oid _ => key.isObjectKey && !oidIsPersistent oid
  | _ => false

/-- `count += newRestartCount`, in 32 bits. -/
def addCount (count newRestartCount : ℕ) : ℕ := (count + newRestartCount) % 2 ^ 32

/-- The count of an unprepared key is increased. -/
def bumpKey (newRestartCount : ℕ) (key : Key) : Key :=
  match key.body with
  | .unprep oid count => { key with body := .unprep oid (addCount count newRestartCount) }
  | _ => key

/-- `if (keyBits_IsRdHazard(pKey)) key_ClearHazard(pKey)`. -/
def clearRdHazard (i k : ℕ) (img : Image) : Except Halt Image :=
  if (img.nodes i).isRdHazard k then clearHazard i k img else .ok img

/-- What `AdjustNPCounts` does to one slot. -/
def adjustSlot (newRestartCount i : ℕ) (img : Image) (k : ℕ) : Except Halt Image := do
  let img ← clearRdHazard i k img
  if toAdjust ((img.nodes i).slot k) then do
    let img ← clearHazard i k img
    let n := img.nodes i
    .ok (img.setNode i
      { n with slot := Function.update n.slot k (bumpKey newRestartCount (n.slot k)) })
  else .ok img

/-- `if (count > maxNPCount) maxNPCount = count`. -/
def Image.noteCount (img : Image) (count : ℕ) : Image :=
  { img with maxNPCount := max img.maxNPCount count }

/-- What `AdjustNPCounts` does to one node frame. -/
def adjustNode (newRestartCount : ℕ) (img : Image) (i : ℕ) : Except Halt Image :=
  let n := img.nodes i
  if n.isFree then .ok img
  else if oidIsPersistent n.oid then .ok img
  else
    let n' := { n with
      allocCount := addCount n.allocCount newRestartCount
      callCount := addCount n.callCount newRestartCount }
    let img := ((img.setNode i n').noteCount n'.allocCount).noteCount n'.callCount
    (List.range nodeSize).foldlM (adjustSlot newRestartCount i) img

/-- The page holds an object: `pageH_IsObjectType`. -/
def Page.isObject (p : Page) : Bool :=
  match p.obType with
  | .ptDataPage | .ptDevBlock | .ptDMABlock | .ptSecondary => true
  | _ => false

/-- What `AdjustNPCounts` does to one page. -/
def adjustPage (newRestartCount : ℕ) (p : Page) : Page :=
  if p.isObject && !oidIsPersistent p.oid then
    { p with allocCount := addCount p.allocCount newRestartCount }
  else p

/-- The scan of the pages. -/
def adjustPages (newRestartCount : ℕ) (img : Image) : Image :=
  let pages := img.pages.map (adjustPage newRestartCount)
  { img with
    pages := pages
    maxNPCount := (pages.filter fun p => p.isObject && !oidIsPersistent p.oid).foldl
      (fun m p => max m p.allocCount) img.maxNPCount }

/-- `AdjustNPCounts`, with the `maxNPCount` of the checkpoint root. -/
def adjustNPCounts (rootMaxNPCount : ℕ) (img : Image) : Except Halt Image := do
  kassert (img.restartNPCount = 0)
  let newRestartCount := addCount rootMaxNPCount 1
  let img := { img with restartNPCount := newRestartCount }
  let img ← (List.range img.nNodes).foldlM (adjustNode newRestartCount) img
  .ok (adjustPages newRestartCount img)

/-- The node with this OID that `objH_Lookup` finds. -/
def Image.findNode (img : Image) (oid : ℕ) : Option ℕ :=
  (List.range img.nNodes).find? fun i => !(img.nodes i).isFree && decide ((img.nodes i).oid = oid)

/-- The page with this OID that `objH_Lookup` finds. -/
def Image.findPage (img : Image) (oid : ℕ) : Option Page :=
  img.pages.find? fun p => p.isObject && decide (p.oid = oid)

/-- The count that `key_DoValidate` compares the count of an object key of this type with
(`CheckObjectType`, `GetObjectCount`), if there is an object of that kind. A non-persistent object
that is not in memory can be of any kind. -/
def Image.objectCount (img : Image) (t : KeyType) (oid : ℕ) : Option ℕ :=
  match img.findNode oid with
  | some i =>
    if t = .page then none
    else some (if t = .resume then (img.nodes i).callCount else (img.nodes i).allocCount)
  | none =>
    match img.findPage oid with
    | some p => if t = .page then some p.allocCount else none
    | none =>
      if !oidIsPersistent oid ∧ ∃ r ∈ img.preloadRanges, r.1 ≤ oid ∧ oid < r.2 then
        some img.restartNPCount
      else none

/-- `key_DoValidate` accepts the key. A prepared key is valid. -/
def Image.Valid (img : Image) (key : Key) : Prop :=
  match key.body with
  | .unprep oid count => img.objectCount key.keyType oid = some count
  | _ => True

instance (img : Image) (key : Key) : Decidable (img.Valid key) := by
  unfold Image.Valid
  split <;> infer_instance

/-- The object is not persistent: it is neither saved nor, as a physical page, ever on a disk. -/
def nonPersistent (oid : ℕ) : Prop := oid < firstPersistentOID ∨ oidReservedPhysRange ≤ oid

instance (oid : ℕ) : Decidable (nonPersistent oid) := by
  unfold nonPersistent
  infer_instance

/-- The object that a key is to. -/
def target (key : Key) : Option ℕ :=
  match key.body with
  | .unprep oid _ => some oid
  | .prep oid => some oid
  | _ => none

end CapROS.Restart
