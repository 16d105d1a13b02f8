import CapROS.MemoryTree.Basic
import CapROS.Theory.SlotLoop
import Mathlib.Data.Fin.VecNotation

/-!
# The process cache

A process is kept in a root node, whose slots hold keys and the values of its registers, and in a node
of key registers. While the process is in use a `Process` structure caches them. A slot is hazarded
while its value is in the structure, or something there depends on it: before the slot is written, and
for some slots read, the hazard is cleared.

* `Process`, `Node`, `System`: the cache and the nodes.
* `Op`, `Op.run`: the steps of a run. `Op.Allowed`: what the callers see to.
-/

namespace CapROS.ProcessCache

open MemoryTree (pObj)

/-- How the kernel stops. -/
inductive Stop where
  | halt (h : Halt)
  /-- The halt of `proc_SetFault` for a process that has no keeper, to help in debugging. -/
  | noKeeper
  deriving DecidableEq

/-- `assert(p)`. -/
def assertThat (p : Prop) [Decidable p] : Except Stop Unit :=
  if p then .ok () else .error (.halt .assertion)

/-! ## Keys in slots -/

/-- The words `u.nk.value` of a key. -/
def words (k : Key) : Fin 3 → ℕ :=
  match k.body with
  | .words w0 w1 w2 => ![w0, w1, w2]
  | _ => 0

/-- Store the words `u.nk.value` of a key. -/
def setWords (k : Key) (w : Fin 3 → ℕ) : Key := { k with body := .words (w 0) (w 1) (w 2) }

/-- A key, the union of which holds words if it is a Number key. -/
structure ProperKey where
  key : Key
  number : key.keyType = .number → ∃ w0 w1 w2, key.body = .words w0 w1 w2

namespace ProperKey

/-- `keyBits_InitToVoid`. -/
def void : ProperKey := ⟨.void, fun h => nomatch h⟩

/-- `keyBits_IsPrepared`. -/
def isPrepared (k : ProperKey) : Bool :=
  match k.key.body with
  | .prep _ => true
  | _ => false

/-- Store the words of a key. -/
def storeWords (k : ProperKey) (w : Fin 3 → ℕ) : ProperKey := ⟨setWords k.key w, fun _ => ⟨_, _, _, rfl⟩⟩

end ProperKey

/-- What `key_Prepare` makes of a key, given the counts of the objects. -/
def prepareKey (currentCount : KeyType → ℕ → Option ℕ) (k : Key) : Key :=
  match k.body with
  | .unprep oid count =>
    if k.isObjectKey then
      if currentCount k.keyType oid = some count then { k with body := .prep oid } else .void
    else k
  | _ => k

/-- `key_Prepare`. -/
def ProperKey.prepare (currentCount : KeyType → ℕ → Option ℕ) (k : ProperKey) : ProperKey where
  key := prepareKey currentCount k.key
  number := by
    intro h
    unfold prepareKey at h ⊢
    split at h
    case h_1 hbody =>
      split at h
      case isTrue hobject =>
        split at h
        · simp [Key.isObjectKey, show k.key.keyType = .number from h] at hobject
        · exact absurd h (by decide)
      case isFalse hobject =>
        rw [if_neg hobject]
        exact k.number h
    case h_2 => exact k.number h

/-- A slot of a node. -/
structure Slot extends ProperKey where
  /-- `KFL_RHAZARD`. -/
  rdHazard : Bool
  /-- `KFL_WHAZARD`. -/
  wrHazard : Bool

namespace Slot

/-- `keyBits_IsHazard`. -/
def isHazard (slot : Slot) : Bool := slot.rdHazard || slot.wrHazard

/-- `keyBits_UnHazard`. -/
def unHazard (slot : Slot) : Slot := { slot with rdHazard := false, wrHazard := false }

/-- `keyBits_SetWrHazard`. -/
def setWrHazard (slot : Slot) : Slot := { slot with wrHazard := true }

/-- `keyBits_SetRwHazard`. -/
def setRwHazard (slot : Slot) : Slot := { slot with rdHazard := true, wrHazard := true }

/-- Replace the key. -/
def setKey (slot : Slot) (k : ProperKey) : Slot := { slot with toProperKey := k }

/-- The hazard bits. -/
def hazards (slot : Slot) : Bool × Bool := (slot.rdHazard, slot.wrHazard)

end Slot

/-! ## Registers -/

def rsAvailable : BitVec 8 := 0

def rsRunning : BitVec 8 := 1

/-- `capros_Process_FC_NoFault`. -/
def fcNoFault : ℕ := 0

/-- `capros_Process_FC_MalformedProcess`. -/
def fcMalformedProcess : ℕ := 50

/-- `capros_Process_PF_FaultToProcessKeeper`. -/
def pfFaultToProcessKeeper : BitVec 8 := 1

/-- The registers, and what else is kept with them in the root. -/
structure FixRegs where
  /-- `trapFrame.r0` to `trapFrame.r15`. -/
  r : Fin 16 → ℕ
  /-- `trapFrame.CPSR`. -/
  cpsr : ℕ
  faultCode : ℕ
  faultInfo : ℕ
  runState : BitVec 8
  processFlags : BitVec 8

/-- `processFlags & capros_Process_PF_FaultToProcessKeeper`. -/
def FixRegs.faultToKeeper (regs : FixRegs) : Bool :=
  decide (regs.processFlags &&& pfFaultToProcessKeeper ≠ 0)

/-- `LOAD_FIX_REGS`, as generated from `LAYOUT`. -/
def loadRegs (w : Fin 32 → Fin 3 → ℕ) : FixRegs where
  r := ![w 10 0, w 10 1, w 10 2, w 11 0, w 11 1, w 11 2, w 12 0, w 12 1, w 12 2, w 13 0, w 13 1,
    w 13 2, w 14 0, w 9 2, w 14 1, w 9 0]
  cpsr := w 14 2
  faultCode := w 8 0
  faultInfo := w 8 1
  runState := BitVec.ofNat 8 (w 8 2)
  processFlags := BitVec.ofNat 8 (w 8 2 / 256)

/-- `UNLOAD_FIX_REGS`: the words of the slot `i`, where `old` are those that were there. -/
def unloadRegs (regs : FixRegs) (i : Fin 32) (old : Fin 3 → ℕ) : Fin 3 → ℕ :=
  match i with
  | 8 => ![regs.faultCode, regs.faultInfo,
      old 2 / 65536 * 65536 + regs.processFlags.toNat * 256 + regs.runState.toNat]
  | 9 => ![regs.r 15, old 1, regs.r 13]
  | 10 => ![regs.r 0, regs.r 1, regs.r 2]
  | 11 => ![regs.r 3, regs.r 4, regs.r 5]
  | 12 => ![regs.r 6, regs.r 7, regs.r 8]
  | 13 => ![regs.r 9, regs.r 10, regs.r 11]
  | 14 => ![regs.r 12, regs.r 14, regs.cpsr]
  | _ => old

/-- The key of the slot `i` of a root after `UNLOAD_FIX_REGS`. -/
def unloadKey (regs : FixRegs) (i : Fin 32) (k : ProperKey) : ProperKey :=
  if 8 ≤ i ∧ i ≤ 14 then k.storeWords (unloadRegs regs i (words k.key)) else k

/-! ## Processes and nodes -/

/-- The slots `ProcSched`, `ProcKeeper`, `ProcAddrSpace`, `ProcGenKeys`, `ProcIoSpace` and
`ProcFirstRootRegSlot` of a process root. -/
def procSched : Fin 32 := 0

@[inherit_doc procSched]
def procKeeper : Fin 32 := 1

@[inherit_doc procSched]
def procAddrSpace : Fin 32 := 2

@[inherit_doc procSched]
def procGenKeys : Fin 32 := 3

@[inherit_doc procSched]
def procIoSpace : Fin 32 := 4

@[inherit_doc procSched]
def procFirstRootRegSlot : Fin 32 := 8

/-- `KKT_DevicePrivs`. -/
def devicePrivs : KeyType := .misc 22

/-- `hazards`, without `hz_SingleStep`, which nothing sets. -/
structure Hazards where
  malformed : Bool
  domRoot : Bool
  keyRegs : Bool
  schedule : Bool
  deriving DecidableEq

/-- `hazards` is zero. -/
def Hazards.none : Hazards := ⟨false, false, false, false⟩

/-- A ready queue, of a priority or of a reserve. -/
inductive ReadyQueue where
  | prio (pr : ℕ)
  | reserve (r : ℕ)
  deriving DecidableEq

/-- `Process`, of a user process. -/
structure Process where
  procRoot : Option ℕ
  keysNode : Option ℕ
  hazards : Hazards
  regs : FixRegs
  keyReg : Fin 32 → ProperKey
  /-- There is a `curActivity`. -/
  hasActivity : Bool
  readyQ : ReadyQueue
  /-- `KF_IoPriv`. -/
  ioPriv : Bool
  /-- There is a `md.firstLevelMappingTable`. -/
  mapped : Bool

/-- What a node is prepared as. -/
inductive ObType where
  | unprepared
  | processRoot (context : ℕ)
  | keyRegs (context : ℕ)
  deriving DecidableEq

structure Node where
  slot : Fin 32 → Slot
  obType : ObType
  dirty : Bool

def Node.modifySlot (node : Node) (i : Fin 32) (f : Slot → Slot) : Node :=
  { node with slot := Function.update node.slot i (f (node.slot i)) }

/-- The process cache and the nodes. -/
structure System where
  node : ℕ → Node
  proc : ℕ → Process
  /-- The counts of the objects. -/
  currentCount : KeyType → ℕ → Option ℕ

namespace System

def setNode (s : System) (n : ℕ) (node : Node) : System :=
  { s with node := Function.update s.node n node }

def setProc (s : System) (p : ℕ) (proc : Process) : System :=
  { s with proc := Function.update s.proc p proc }

end System

/-! ## Flushing -/

/-- `key_NH_Move(to, from)`, where the key `src` is not in a node: it is not hazarded. -/
def moveToSlot (dest : Slot) (src : ProperKey) : Except Stop (Slot × ProperKey) := do
  assertThat (dest.isHazard = false)
  assertThat (dest.isPrepared = false)
  .ok (⟨src, false, false⟩, .void)

/-- `key_NH_Move(to, from)`, where the key `dest` is not in a node. -/
def moveFromSlot (dest : ProperKey) (src : Slot) : Except Stop (ProperKey × Slot) := do
  assertThat (src.isHazard = false)
  assertThat (dest.isPrepared = false)
  .ok (src.toProperKey, ⟨.void, false, false⟩)

/-- `proc_FlushKeyRegs`. -/
def flushKeyRegs (proc : Process) (root keysNode : Node) :
    Except Stop (Process × Node × Node) := do
  assertThat (proc.hazards.keyRegs = false)
  assertThat (keysNode.dirty = true)
  let slots ← SlotLoop.run (fun _ (x : Slot × ProperKey) => moveToSlot x.1.unHazard x.2)
    fun k => (keysNode.slot k, proc.keyReg k)
  .ok ({ proc with
      keyReg := fun k => (slots k).2
      keysNode := none
      hazards := { proc.hazards with keyRegs := true } },
    root.modifySlot procGenKeys Slot.unHazard,
    { keysNode with slot := fun k => (slots k).1, obType := .unprepared })

/-- `proc_FlushFixRegs`. -/
def flushFixRegs (proc : Process) (root : Node) : Except Stop (Process × Node) := do
  assertThat (proc.hazards.domRoot = false)
  assertThat (root.dirty = true)
  let slots ← SlotLoop.run (fun k (slot : Slot) =>
      if procFirstRootRegSlot ≤ k then do
        assertThat (slot.rdHazard = true)
        assertThat (slot.wrHazard = true)
        .ok slot.unHazard
      else .ok slot) root.slot
  assertThat ((slots procIoSpace).wrHazard = true)
  let root := ({ root with slot := slots } : Node).modifySlot procIoSpace Slot.unHazard
  let root := { root with slot := fun k => (root.slot k).setKey (unloadKey proc.regs k
    (root.slot k).toProperKey) }
  .ok ({ proc with hazards := { proc.hazards with domRoot := true, schedule := true } },
    root.modifySlot procSched Slot.unHazard)

namespace System

/-- `proc_FlushKeyRegs` of the process `p`. -/
def flushKeyRegs (s : System) (p : ℕ) : Except Stop System :=
  match (s.proc p).procRoot, (s.proc p).keysNode with
  | some r, some k => do
    let (proc, root, keysNode) ← ProcessCache.flushKeyRegs (s.proc p) (s.node r) (s.node k)
    .ok (((s.setProc p proc).setNode r root).setNode k keysNode)
  | _, _ => .error (.halt .assertion)

/-- `proc_FlushFixRegs` of the process `p`. -/
def flushFixRegs (s : System) (p : ℕ) : Except Stop System :=
  match (s.proc p).procRoot with
  | some r => do
    let (proc, root) ← ProcessCache.flushFixRegs (s.proc p) (s.node r)
    .ok ((s.setProc p proc).setNode r root)
  | none => .error (.halt .assertion)

/-- `Depend_InvalidateKey` of the address space slot of a process: the mapping table is reset. -/
def invalidateAddrSpace (s : System) (p r : ℕ) : System :=
  (s.setProc p { s.proc p with mapped := false }).setNode r
    ((s.node r).modifySlot procAddrSpace Slot.unHazard)

/-- `proc_FlushProcessSlot`. -/
def flushProcessSlot (s : System) (p r : ℕ) (whichKey : Fin 32) : Except Stop System :=
  if whichKey = procGenKeys then s.flushKeyRegs p
  else if whichKey = procAddrSpace then .ok (s.invalidateAddrSpace p r)
  else if whichKey = procSched then
    let proc := s.proc p
    .ok ((s.setProc p { proc with hazards := { proc.hazards with schedule := true } }).setNode r
      ((s.node r).modifySlot procSched Slot.unHazard))
  else s.flushFixRegs p

/-- The `switch` of `node_ClearHazard`. -/
def flushSlot (s : System) (n : ℕ) (i : Fin 32) : Except Stop System :=
  match (s.node n).obType with
  | .processRoot p => s.flushProcessSlot p n i
  | .keyRegs p => s.flushKeyRegs p
  | .unprepared => .error (.halt .fatal)

/-- `node_ClearHazard`. -/
def clearHazard (s : System) (n : ℕ) (i : Fin 32) : Except Stop System :=
  if ((s.node n).slot i).isHazard = false then .ok s
  else do
    let s ← s.flushSlot n i
    assertThat (((s.node n).slot i).isHazard = false)
    .ok s

/-- `node_ClearAllHazards`. -/
def clearAllHazards (s : System) (n : ℕ) : Except Stop System :=
  (List.finRange 32).foldlM (fun s i => s.clearHazard n i) s

/-- `proc_Unload`. -/
def unload (s : System) (p : ℕ) : Except Stop System := do
  let s := s.setProc p { s.proc p with hasActivity := false }
  let s ← (if (s.proc p).hazards.keyRegs = false then s.flushKeyRegs p else .ok s)
  let s ← (if (s.proc p).hazards.domRoot = false then s.flushFixRegs p else .ok s)
  match (s.proc p).procRoot with
  | none => .error (.halt .assertion)
  | some r =>
    let s := if ((s.node r).slot procAddrSpace).isHazard then s.invalidateAddrSpace p r else s
    .ok ((s.setNode r { s.node r with obType := .unprepared }).setProc p
      { s.proc p with hazards := .none, procRoot := none })

/-- `node_Unprepare`. -/
def unprepare (s : System) (n : ℕ) : Except Stop System :=
  match (s.node n).obType with
  | .unprepared => .ok s
  | .processRoot p | .keyRegs p => do
    let s ← s.unload p
    assertThat ((s.node n).obType = .unprepared)
    .ok s

/-- `proc_allocate`, when it chooses the process `p`. -/
def allocate (s : System) (p : ℕ) : Except Stop System := do
  let s ← (if (s.proc p).procRoot.isSome then s.unload p else .ok s)
  let proc := s.proc p
  .ok (s.setProc p { proc with
    regs := { proc.regs with faultCode := fcNoFault, faultInfo := 0, processFlags := 0 }
    ioPriv := false
    hazards := ⟨false, true, true, true⟩
    mapped := false })

/-- `node_GetProcess`, when `proc_allocate` chooses the process `p`. -/
def getProcess (s : System) (n p : ℕ) : Except Stop System :=
  match (s.node n).obType with
  | .processRoot _ => .ok s
  | _ => do
    assertThat ((s.node n).obType = .unprepared)
    let s := s.setNode n { s.node n with dirty := true }
    let s ← s.allocate p
    let s := s.setProc p { s.proc p with procRoot := some n }
    .ok (s.setNode n { s.node n with obType := .processRoot p })

end System

/-! ## Loading -/

/-- `proc_SetMalformed`. -/
def setMalformed (proc : Process) (root : Node) : Except Stop Process :=
  if (root.slot procKeeper).key.keyType = .start then
    .ok { proc with
      regs := { proc.regs with
        faultCode := fcMalformedProcess
        faultInfo := 0
        processFlags := proc.regs.processFlags ||| pfFaultToProcessKeeper }
      hazards := { proc.hazards with malformed := true } }
  else .error .noKeeper

/-- The loop of `proc_LoadFixRegs` over some slots: they are all Number keys. -/
def allNumbers (root : Node) : List (Fin 32) → Except Stop Bool
  | [] => .ok true
  | k :: rest =>
    if (root.slot k).key.keyType ≠ .number then .ok false
    else do
      assertThat ((root.slot k).isHazard = false)
      allNumbers root rest

/-- The slots from `ProcFirstRootRegSlot` to `ProcLastRootRegSlot`. -/
def rootRegSlots : List (Fin 32) := (List.finRange 32).filter (procFirstRootRegSlot ≤ ·)

/-- `proc_LoadFixRegs`, after the root has been made writable. -/
def loadFixRegs (proc : Process) (root : Node) : Except Stop (Process × Node) := do
  assertThat (proc.hazards.domRoot = true)
  let numbers ← allNumbers root rootRegSlots
  if numbers then
    let regs := loadRegs fun i => words (root.slot i).key
    let root := { root with slot := fun k =>
      if procFirstRootRegSlot ≤ k then (root.slot k).setRwHazard else root.slot k }
    .ok ({ proc with regs }, root.modifySlot procIoSpace Slot.setWrHazard)
  else do
    let proc ← setMalformed proc root
    .ok (proc, root)

/-- The choices in preparing a process that are made elsewhere. -/
structure Choices where
  /-- `node_EnsureWritable` of the root yields. -/
  rootYields : Bool
  /-- `key_Prepare` of the key to the keys node yields. -/
  keysYields : Bool
  /-- `node_EnsureWritable` of the keys node yields. -/
  writeYields : Bool
  /-- `act_FindByOid` finds an activity. -/
  activityFound : Bool
  /-- The result of `res_GetNextReserve`. -/
  nextReserve : ℕ

/-- What `proc_DoPrepare` does about the activity once the run state is loaded. -/
def findActivity (proc : Process) (activityFound : Bool) : Except Stop Process :=
  if proc.hasActivity then .ok proc
  else if proc.regs.runState = rsAvailable then .ok proc
  else if activityFound then .ok { proc with hasActivity := true }
  else do
    assertThat (proc.regs.runState ≠ rsRunning)
    .ok proc

/-- The bit of a schedule key that makes it a reserve key: `capros_SchedC_Priority_Reserve`. -/
def priorityReserve : ℕ := 14

/-- `capros_SchedC_Priority_Max`. -/
def priorityMax : ℕ := 15

/-- The ready queue for the key in the schedule slot. -/
def readyQueueOf (schedKey : Key) (nextReserve : ℕ) : ReadyQueue :=
  if schedKey.keyType = .sched then
    let pr := schedKey.keyData.toNat
    if schedKey.keyData.getLsbD priorityReserve then .reserve (pr - 2 ^ priorityReserve)
    else if priorityMax < pr then .prio 0
    else if pr = priorityReserve then .reserve nextReserve
    else .prio pr
  else .prio 0

/-- The part of `proc_DoPrepare` for the schedule key. -/
def loadSchedule (proc : Process) (root : Node) (nextReserve : ℕ) :
    Except Stop (Process × Node) := do
  assertThat ((root.slot procSched).isHazard = false)
  .ok ({ proc with
      readyQ := readyQueueOf (root.slot procSched).key nextReserve
      hazards := { proc.hazards with schedule := false } },
    root.modifySlot procSched Slot.setWrHazard)

def userCPSRBits : ℕ := 0xff000020

/-- `proc_ValidateRegValues`, for a user process. -/
def validateRegValues (proc : Process) (root : Node) : Except Stop Process :=
  if proc.regs.faultToKeeper then .ok proc
  else do
    assertThat (proc.hazards.domRoot = false)
    assertThat (proc.hazards.keyRegs = false)
    let ioPriv := decide ((root.slot procIoSpace).key.keyType = devicePrivs)
    -- With device privileges he can have IRQ disabled.
    let mask := if ioPriv then userCPSRBits ||| 0x80 else userCPSRBits
    .ok { proc with ioPriv, regs := { proc.regs with cpsr := proc.regs.cpsr &&& mask ||| 0x10 } }

/-- The loop of `proc_LoadKeyRegs`, with the key registers and the slots of the keys node. -/
def loadSlots (keyReg : Fin 32 → ProperKey) (slot : Fin 32 → Slot) :
    Except Stop (Fin 32 → ProperKey × Slot) :=
  SlotLoop.run (fun k (x : ProperKey × Slot) => do
      -- Key register 0 is always void.
      let nodeSlot := if k = 0 then x.2.setKey .void else x.2
      let (procSlot, nodeSlot) ← moveFromSlot x.1 nodeSlot
      .ok (procSlot, nodeSlot.setRwHazard)) fun k => (keyReg k, slot k)

namespace System

/-- `proc_SetMalformed` of the process `p`. -/
def setMalformed (s : System) (p r : ℕ) : Except Stop System := do
  let proc ← ProcessCache.setMalformed (s.proc p) (s.node r)
  .ok (s.setProc p proc)

/-- `proc_LoadKeyRegs`, and whether it yields. -/
def loadKeyRegs (s : System) (p r : ℕ) (choices : Choices) : Except Stop (System × Bool) := do
  assertThat ((s.proc p).hazards.keyRegs = true)
  assertThat (((s.node r).slot procGenKeys).isHazard = false)
  if choices.keysYields then .ok (s, true)
  else
    let genKeysKey := ((s.node r).slot procGenKeys).prepare s.currentCount
    let s := s.setNode r ((s.node r).modifySlot procGenKeys fun slot => slot.setKey genKeysKey)
    let kn := pObj genKeysKey.key
    if genKeysKey.key.keyType ≠ .node ∨ (s.node kn).obType ≠ .unprepared ∨ kn = r then do
      let s ← s.setMalformed p r
      .ok (s, false)
    else if choices.writeYields then .ok (s, true)
    else do
      let slots ← loadSlots (s.proc p).keyReg (s.node kn).slot
      let proc := s.proc p
      let s := s.setNode kn ⟨fun k => (slots k).2, .keyRegs p, true⟩
      let s := s.setProc p { proc with
        keyReg := fun k => (slots k).1
        keysNode := some kn
        hazards := { proc.hazards with keyRegs := false } }
      .ok (s.setNode r ((s.node r).modifySlot procGenKeys Slot.setWrHazard), false)

/-- The part of `proc_DoPrepare` for `hz_DomRoot`, when `node_EnsureWritable` does not yield. -/
def prepareFixRegs (s : System) (p r : ℕ) (choices : Choices) : Except Stop System :=
  if (s.proc p).hazards.domRoot then do
    let (proc, root) ← loadFixRegs (s.proc p) { s.node r with dirty := true }
    let proc ← findActivity proc choices.activityFound
    let proc := { proc with hazards := { proc.hazards with domRoot := false } }
    .ok ((s.setProc p proc).setNode r root)
  else .ok s

/-- What `proc_DoPrepare` does when the process turns out to be malformed. -/
def isMalformed (s : System) (p : ℕ) : Except Stop Bool :=
  if (s.proc p).regs.faultCode = fcMalformedProcess then do
    assertThat ((s.proc p).regs.faultToKeeper = true)
    .ok true
  else .ok false

/-- The part of `proc_DoPrepare` for `hz_Schedule`, and the end of it. -/
def prepareSchedule (s : System) (p r : ℕ) (choices : Choices) : Except Stop System := do
  let (proc, root) ←
    (if (s.proc p).hazards.schedule then loadSchedule (s.proc p) (s.node r) choices.nextReserve
    else .ok (s.proc p, s.node r))
  let proc ← validateRegValues proc root
  .ok ((s.setProc p proc).setNode r root)

/-- `proc_DoPrepare`. -/
def doPrepare (s : System) (p : ℕ) (choices : Choices) : Except Stop System :=
  match (s.proc p).procRoot with
  | none => .error (.halt .assertion)
  | some r => do
    let proc := s.proc p
    let s := s.setProc p { proc with hazards := { proc.hazards with malformed := false } }
    let checkDisjoint := proc.hazards.domRoot || proc.hazards.keyRegs
    if proc.hazards.domRoot && choices.rootYields then .ok s
    else do
      let s ← s.prepareFixRegs p r choices
      let malformed ← s.isMalformed p
      if malformed then .ok s
      else do
        let (s, yielded) ←
          (if (s.proc p).hazards.keyRegs then s.loadKeyRegs p r choices else .ok (s, false))
        if yielded then .ok s
        else do
          let s ← (if checkDisjoint ∧ some r = (s.proc p).keysNode then s.setMalformed p r
            else .ok s)
          let malformed ← s.isMalformed p
          if malformed then .ok s
          else s.prepareSchedule p r choices

end System

/-! ## Runs -/

/-- The steps of a run. -/
inductive Op where
  /-- A process key to the node is prepared. -/
  | getProcess (n p : ℕ)
  /-- `proc_DoPrepare`. -/
  | doPrepare (p : ℕ) (choices : Choices)
  /-- The hazard of a slot is cleared, and its key used. -/
  | clearHazard (n : ℕ) (i : Fin 32)
  /-- A key is stored in a slot, as by `node_SetSlot`. -/
  | setSlot (n : ℕ) (i : Fin 32) (k : ProperKey)
  /-- All hazards of a node are cleared, and it is written to the disk. -/
  | clean (n : ℕ)
  /-- The process runs, or the kernel sets its run state or a fault code. -/
  | execute (p : ℕ) (regs : FixRegs)
  /-- `proc_SetRegs32`, after `proc_Prepare`. -/
  | setRegs32 (p : ℕ) (regs : FixRegs)
  /-- A key register is set, after `proc_Prepare`: as by `OC_capros_Process_swapKeyReg`. -/
  | setKeyReg (p : ℕ) (slot : Fin 32) (k : ProperKey)
  /-- A mapping table is found for the process, and depends on its address space slot. -/
  | mapAddrSpace (p : ℕ)
  /-- An activity is assigned to the process, or leaves it. -/
  | setActivity (p : ℕ) (hasActivity : Bool)
  | unload (p : ℕ)
  | unprepare (n : ℕ)

namespace Op

/-- The fault code of a malformed process goes with the flag that it faults. -/
def FaultFlagged (regs : FixRegs) : Prop :=
  regs.faultCode = fcMalformedProcess → regs.faultToKeeper = true

/-- `proc_Prepare` has returned: there are no hazards, or the process is malformed. -/
def Prepared (proc : Process) : Prop :=
  proc.hazards = .none ∨ proc.hazards.domRoot = false ∧ proc.regs.faultCode = fcMalformedProcess

/-- What the callers see to. -/
def Allowed (s : System) : Op → Prop
  -- A node that is a keys node is not used as a root.
  | getProcess n _ => ∀ p, (s.node n).obType ≠ .keyRegs p
  | doPrepare p _ => (s.proc p).procRoot.isSome = true
  | execute p regs => (s.proc p).procRoot.isSome = true ∧ (s.proc p).hazards = .none ∧ FaultFlagged regs
  | setRegs32 p _ => (s.proc p).procRoot.isSome = true ∧ Prepared (s.proc p)
  | setKeyReg p _ _ => (s.proc p).procRoot.isSome = true ∧ Prepared (s.proc p)
  | mapAddrSpace p => (s.proc p).procRoot.isSome = true ∧ (s.proc p).hazards = .none
  | setActivity p _ => (s.proc p).procRoot.isSome = true
  | unload p => (s.proc p).procRoot.isSome = true
  | _ => True

/-- `proc_SetRegs32`. -/
def setRegs (s : System) (p : ℕ) (regs : FixRegs) : Except Stop System :=
  match (s.proc p).procRoot with
  | none => .error (.halt .assertion)
  | some r => do
    assertThat ((s.proc p).hazards = .none)
    let regs :=
      if regs.faultCode = fcNoFault then
        { regs with
          faultInfo := 0
          processFlags := regs.processFlags &&& ~~~pfFaultToProcessKeeper }
      else regs
    let regs := { regs with runState := (s.proc p).regs.runState }
    let proc ← validateRegValues { s.proc p with regs } (s.node r)
    .ok (s.setProc p proc)

/-- Take the step. -/
def run (s : System) : Op → Except Stop System
  | getProcess n p => s.getProcess n p
  | doPrepare p choices => s.doPrepare p choices
  | clearHazard n i => s.clearHazard n i
  | setSlot n i k => do
    let s ← (s.setNode n { s.node n with dirty := true }).clearHazard n i
    .ok (s.setNode n ((s.node n).modifySlot i fun _ => ⟨k, false, false⟩))
  | clean n => do
    let s ← s.clearAllHazards n
    .ok (s.setNode n { s.node n with dirty := false })
  | execute p regs => .ok (s.setProc p { s.proc p with regs })
  | setRegs32 p regs => setRegs s p regs
  | setKeyReg p slot k =>
    let proc := s.proc p
    if slot ≠ 0 then .ok (s.setProc p { proc with keyReg := Function.update proc.keyReg slot k })
    else .ok s
  | mapAddrSpace p =>
    match (s.proc p).procRoot with
    | none => .error (.halt .assertion)
    | some r => .ok ((s.setProc p { s.proc p with mapped := true }).setNode r
        ((s.node r).modifySlot procAddrSpace Slot.setWrHazard))
  | setActivity p hasActivity => .ok (s.setProc p { s.proc p with hasActivity })
  | unload p => s.unload p
  | unprepare n => s.unprepare n

end Op

/-- The cache is empty, and no node is in use. -/
structure System.IsInit (s : System) : Prop where
  unprepared : ∀ n, (s.node n).obType = .unprepared
  unhazarded : ∀ n i, ((s.node n).slot i).hazards = (false, false)
  free : ∀ p, (s.proc p).procRoot = none ∧ (s.proc p).keysNode = none
  keyReg : ∀ p i, (s.proc p).keyReg i = .void

/-- The states that the kernel can reach from `s₀`. -/
inductive Reach (s₀ : System) : System → Prop where
  | init : Reach s₀ s₀
  | step {s s' : System} (op : Op) : Reach s₀ s → op.Allowed s → op.run s = .ok s' → Reach s₀ s'

end CapROS.ProcessCache
