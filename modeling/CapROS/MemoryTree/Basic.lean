import CapROS.Kernel.Key
import CapROS.Theory.ResumableLoop

/-!
# The walk of the memory tree

An address space is a tree of GPTs with pages at its leaves. `kern_GPT.c` translates an address by
walking down from the root key. The walk keeps its state in a `SegWalk`, so that the page fault
code can stop it where a level of the mapping tables ends, and continue it from there.

* `SegWalk`: the state of a walk. `Failure`: the ways in which it ends other than well.
* `keyPrepare`, `processKey`, `segwalkInit`: following a key.

The objects are in memory: a walk that has to fetch one yields, and begins again.
-/

namespace CapROS.MemoryTree

def maxSegDepth : ℕ := 20

/-- `capros_GPT_nSlots`. -/
def gptNSlots : ℕ := 32

/-- `capros_GPT_keeperSlot`. -/
def gptKeeperSlot : ℕ := 31

/-- `capros_GPT_backgroundSlot`. -/
def gptBackgroundSlot : ℕ := 30

def gptL2vMask : BitVec 8 := 0x3f

def gptBackground : BitVec 8 := 0x40

def gptKeeper : BitVec 8 := 0x80

def erosPageLgsize : ℕ := 12

/-! ## Objects -/

/-- A GPT. Range keys hand out no GPT with a smaller `l2v`, and `GPT_setL2v` sets none. -/
structure Gpt where
  slot : Fin 32 → Key
  l2vField : BitVec 8
  l2v_ge : erosPageLgsize ≤ (l2vField &&& gptL2vMask).toNat

namespace Gpt

theorem l2v_ge_page : erosPageLgsize ≤ ((12 : BitVec 8) &&& gptL2vMask).toNat := by decide

/-- `node_GetKeyAtSlot`. -/
def keyAtSlot (gpt : Gpt) (ndx : ℕ) : Key := gpt.slot (Fin.ofNat 32 ndx)

/-- `gpt_GetL2vField(gpt) & GPT_L2V_MASK`. -/
def curL2v (gpt : Gpt) : ℕ := (gpt.l2vField &&& gptL2vMask).toNat

/-- `gpt_GetL2vField(gpt) & GPT_KEEPER`. -/
def hasKeeper (gpt : Gpt) : Bool := decide (gpt.l2vField &&& gptKeeper ≠ 0)

/-- `gpt_GetL2vField(gpt) & GPT_BACKGROUND`. -/
def hasBackground (gpt : Gpt) : Bool := decide (gpt.l2vField &&& gptBackground ≠ 0)

end Gpt

/-- The objects that keys designate. -/
structure Memory where
  /-- The GPT in the node with this OID. -/
  gpt : ℕ → Gpt
  /-- What `DoGetObject` and `GetObjectCount` compare with the count of a key of this type: none
  when the OID has no object of the type that the key is for. -/
  currentCount : KeyType → ℕ → Option ℕ

/-- `u.ok.pObj`: the object that a key of an object type designates. -/
def pObj (k : Key) : ℕ :=
  match k.body with
  | .prep oid | .unprep oid _ | .range oid _ => oid
  | .words _ _ _ => 0

/-- `key_Prepare`: a key whose count is not that of its object becomes void. -/
def Memory.keyPrepare (mem : Memory) (k : Key) : Key :=
  match k.body with
  | .unprep oid count =>
    if k.isObjectKey then
      if mem.currentCount k.keyType oid = some count then { k with body := .prep oid } else .void
    else k
  | _ => k

/-- What a memory key designates. -/
inductive MemObj where
  | page (oid : ℕ)
  | gpt (oid : ℕ)
  deriving DecidableEq, Repr

/-! ## The state of a walk -/

/-- The fault codes `capros_Process_FC_*` of the walk. -/
inductive FaultCode where
  | invalidAddr
  | accessViolation
  | malformedSpace
  | traverseLimit
  deriving DecidableEq, Repr

inductive KeeperGPT where
  /-- The null pointer. -/
  | none
  /-- `SEGWALK_GPT_UNKNOWN`. -/
  | unknown
  | gpt (oid : ℕ)
  deriving DecidableEq, Repr

structure SegWalk where
  memObj : MemObj
  offset : BitVec 64
  needWrite : Bool
  /-- Cumulative restrictions on the path so far. -/
  restrictions : BitVec 8
  /-- The last GPT with a background key that was traversed. -/
  backgroundGPT : Option ℕ
  /-- The last GPT with a keeper that was traversed. -/
  keeperGPT : KeeperGPT
  keeperOffset : BitVec 64
  traverseCount : ℕ
  /-- None for zero. -/
  faultCode : Option FaultCode
  deriving DecidableEq

/-- How a walk ends other than well. -/
inductive Failure where
  | halt (h : Halt)
  /-- False is returned, with `faultCode` set. -/
  | fault (wi : SegWalk)
  deriving DecidableEq

/-- `wi->faultCode = code; return false`. -/
def SegWalk.fault {α : Type} (wi : SegWalk) (code : FaultCode) : Except Failure α :=
  .error (.fault { wi with faultCode := some code })

/-- `(restrictions & capros_Memory_readOnly) && needWrite`. -/
def SegWalk.writeDenied (wi : SegWalk) : Bool :=
  decide (wi.restrictions &&& memoryReadOnly.zeroExtend 8 ≠ 0) && wi.needWrite

/-! ## Keys -/

/-- `l2g - 1`, an unsigned subtraction. -/
def l2gMinus1 (k : Key) : ℕ := (k.l2g + (2 ^ 32 - 1)) % 2 ^ 32

/-- Shifting a 64-bit value left. A shift by 64 or more, which C leaves undefined, leaves nothing on
the ARM. -/
def lsl64 (x : BitVec 64) (n : ℕ) : BitVec 64 := if n < 64 then x <<< n else 0

/-- Shifting a 64-bit value right. -/
def lsr64 (x : BitVec 64) (n : ℕ) : BitVec 64 := if n < 64 then x >>> n else 0

/-- The `switch` of `processKey` on the type of the prepared key. -/
def memObjOf (wi : SegWalk) (k : Key) : Except Failure MemObj :=
  match k.keyType with
  | .gpt => .ok (.gpt (pObj k))
  | .page => .ok (.page (pObj k))
  | .void => wi.fault .invalidAddr
  | _ => wi.fault .malformedSpace

/-- `processKey`: follow the key, with the address `va` in what it designates. -/
def processKey (mem : Memory) (wi : SegWalk) (segKey : Key) (va : BitVec 64) :
    Except Failure SegWalk := do
  let k := mem.keyPrepare segKey
  let memObj ← memObjOf wi k
  if (lsr64 (lsr64 va (l2gMinus1 k)) 1).toNat ≠ k.guard then wi.fault .invalidAddr
  else
    -- Strip off the guard bits.
    let wi := { wi with
      offset := va &&& (lsl64 2 (l2gMinus1 k) - 1)
      memObj
      restrictions := wi.restrictions ||| k.keyPerms.zeroExtend 8 }
    if wi.writeDenied then wi.fault .accessViolation else .ok wi

def segwalkInit (mem : Memory) (wi : SegWalk) (segKey : Key) (va : BitVec 64) :
    Except Failure SegWalk :=
  processKey mem { wi with restrictions := 0, backgroundGPT := none, keeperGPT := .none } segKey va

/-! ## GPTs -/

/-- The words `u.nk.value` of a number key. -/
def numberValue (k : Key) : BitVec 32 × BitVec 32 × BitVec 32 :=
  match k.body with
  | .words w0 w1 w2 => (BitVec.ofNat 32 w0, BitVec.ofNat 32 w1, BitVec.ofNat 32 w2)
  | _ => (0, 0, 0)

/-- The bits below a power of two: `(1ull << l2v) - 1ull`. -/
def lowMask (l2v : ℕ) : BitVec 64 := lsl64 1 l2v - 1

/-- The part of `WalkSeg` for a window key `k` in a slot of `gpt`: the key that the window is on. -/
def followWindow (mem : Memory) (wi : SegWalk) (gpt : Gpt) (k : Key) :
    Except Failure (SegWalk × Key) :=
  let (value0, value1, controlWord) := numberValue k
  let addr : BitVec 64 := lsl64 (value1.zeroExtend 64) 32 ||| value0.zeroExtend 64
  if addr &&& lowMask gpt.curL2v ≠ 0 then wi.fault .malformedSpace
  else
    let wi := { wi with
      offset := wi.offset + addr
      restrictions := wi.restrictions ||| ((controlWord >>> 8) &&& 0xff).truncate 8 }
    if wi.writeDenied then wi.fault .accessViolation
    else
      let wslot := (controlWord &&& 0xff).toNat
      if wslot < gptNSlots then .ok (wi, gpt.keyAtSlot wslot)
      else if wslot = 0xff then
        match wi.backgroundGPT with
        | none => wi.fault .malformedSpace
        | some b =>
          if (mem.gpt b).hasBackground then .ok (wi, (mem.gpt b).keyAtSlot gptBackgroundSlot)
          else .error (.halt .assertion)
      else wi.fault .malformedSpace

/-- The key to go on with when the address selects the key `k` in a slot of `gpt`. -/
def slotKey (mem : Memory) (wi : SegWalk) (gpt : Gpt) (k : Key) : Except Failure (SegWalk × Key) :=
  if k.keyType = .number then followWindow mem wi gpt k else .ok (wi, k)

/-- The last slot that is for addresses: `maxSlot`. -/
def Gpt.maxSlot (gpt : Gpt) : ℕ :=
  if gpt.hasBackground then gptBackgroundSlot - 1
  else if gpt.hasKeeper then gptKeeperSlot - 1
  else gptNSlots - 1

/-- Remember the GPT `o` if it has a keeper that may be called, or a background key. -/
def SegWalk.noteGPT (wi : SegWalk) (o : ℕ) (gpt : Gpt) : SegWalk :=
  let callable := decide (wi.keeperGPT ≠ .unknown) &&
    decide (wi.restrictions &&& memoryNoCall.zeroExtend 8 = 0)
  let wi := if gpt.hasKeeper && callable then
    { wi with keeperGPT := .gpt o, keeperOffset := wi.offset } else wi
  if gpt.hasBackground then { wi with backgroundGPT := some o } else wi

/-- The body of the loop of `WalkSeg`, after the tests that end the walk well. -/
def traverse (mem : Memory) (wi : SegWalk) : Except Failure SegWalk :=
  match wi.memObj with
  | .page _ => wi.fault .invalidAddr
  | .gpt o =>
    let gpt := mem.gpt o
    let wi := { wi with traverseCount := wi.traverseCount + 1 }
    if maxSegDepth ≤ wi.traverseCount then wi.fault .traverseLimit
    else
      let wi := wi.noteGPT o gpt
      let ndx := (lsr64 wi.offset gpt.curL2v).toNat
      if gpt.maxSlot < ndx then wi.fault .invalidAddr
      else do
        let wi := { wi with offset := wi.offset &&& lowMask gpt.curL2v }
        let k := gpt.keyAtSlot ndx
        let (wi, k) ← slotKey mem wi gpt k
        processKey mem wi k wi.offset

/-- The tests at the head of the loop of `WalkSeg` that end the walk well. -/
def arrived (mem : Memory) (stopL2v : ℕ) (wi : SegWalk) : Bool :=
  match wi.memObj with
  | .page _ => decide (wi.offset.toNat < erosPageSize)
  | .gpt o => decide ((mem.gpt o).curL2v < stopL2v)

/-- `WalkSeg`. It goes round its loop `MAX_SEG_DEPTH` times at most. -/
def walkSeg (mem : Memory) (stopL2v : ℕ) (wi : SegWalk) : Except Failure SegWalk :=
  ResumableLoop.run (traverse mem) (.halt .diverged) (arrived mem stopL2v) maxSegDepth wi

/-- The calls of `WalkSeg` of one page fault, each with the `stopL2v` of its mapping table. -/
def walkSegs (mem : Memory) (stops : List ℕ) (wi : SegWalk) : Except Failure SegWalk :=
  match stops with
  | [] => .ok wi
  | stopL2v :: rest => walkSeg mem stopL2v wi >>= walkSegs mem rest

/-- A walk from the root key: `segwalk_init`, then `WalkSeg` down to each of the stops. The caller
sets `needWrite`, and clears `traverseCount`. -/
def stagedWalk (mem : Memory) (wi : SegWalk) (needWrite : Bool) (segKey : Key) (va : BitVec 64)
    (stops : List ℕ) : Except Failure SegWalk :=
  segwalkInit mem { wi with needWrite, traverseCount := 0 } segKey va >>= walkSegs mem stops

end CapROS.MemoryTree
