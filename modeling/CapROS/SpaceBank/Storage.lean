import CapROS.SpaceBank.AllocTree
import CapROS.SpaceBank.Family

/-!
# The storage of the banks

The banks allocate and deallocate objects (`Bank.c`) and serve their clients (`spacebank.c`). A page has
a frame of its own. Nodes share frames: a bank keeps one frame of nodes, from which it hands them out.

The kernel is known by what its range key answers: whether it gives a capability to an object, after
the frame has been retyped if need be, and the type of each frame. The ranges are mounted.

* `bankAllocObject`, `bankDeallocOID`: one object.
* `flushBankCache`, `destroyStorage`: the storage of a bank is given back.
-/

namespace CapROS.SpaceBank

open ObjSpace (BaseType allocFrame releaseFrame)

/-- The nodes of the allocation trees, the banks, and the object space. -/
structure BankStorage where
  nodes : TreeNodes
  banks : Banks
  space : ObjSpace.State

/-- What does not change while the space bank runs. -/
structure Setting where
  /-- `objects_per_frame`. -/
  perFrame : BaseType → ℕ
  /-- Whether the range key gives a capability of this type to this object. -/
  getCap : ℕ → ℕ → Bool
  /-- The type that the kernel has for a frame, given by its first object. -/
  frameType : ℕ → BaseType
  /-- The frames of the ranges that are mounted. -/
  mounted : ℕ → Bool
  /-- More rounds than any loop over the nodes of a tree makes. -/
  fuel : ℕ
  /-- No bank has as many ancestors. -/
  depth : ℕ

/-- `capros_Range_otNUM_TYPES`. -/
def otNumTypes : ℕ := 4

/-- `typeToBaseType`, for pages, nodes, forwarders and GPTs. -/
def typeToBaseType (type : ℕ) : BaseType := if type = 0 then .page else .node

/-- `EROS_FRAME_FROM_OID`. -/
def frameOf (oid : ℕ) : ℕ := oid / ObjSpace.objectsPerFrame * ObjSpace.objectsPerFrame

/-- The library stops the space bank. -/
def ofTree {α : Type} : Except RbTree.Failure α → Except Halt α
  | .ok a => .ok a
  | .error .assertion => .error .assertion
  | .error .diverged => .error .diverged

variable (G : Setting)

namespace BankStorage

variable (S : BankStorage)

/-- The allocation tree of a bank. -/
def tree (bank : ℕ) : AllocTree := (S.banks.bank bank).allocTree

def setBank (bank : ℕ) (v : Bank) : BankStorage := { S with banks := S.banks.setBank bank v }

/-- A bank has a new allocation tree, made of these nodes. -/
def setTree (bank : ℕ) (N : TreeNodes) (T : AllocTree) : BankStorage :=
  { S.setBank bank { S.banks.bank bank with allocTree := T } with nodes := N }

def setNodeFrame (bank : ℕ) (frame : MOFrame) : BankStorage :=
  S.setBank bank { S.banks.bank bank with nodeFrame := frame }

/-- `bank->allocs[type]++`. -/
def countAlloc (bank type : ℕ) : BankStorage :=
  let b := S.banks.bank bank
  S.setBank bank { b with allocs := Function.update b.allocs type (b.allocs type + 1) }

/-- `bank->deallocs[type]++`. -/
def countDealloc (bank type : ℕ) : BankStorage :=
  let b := S.banks.bank bank
  S.setBank bank { b with deallocs := Function.update b.deallocs type (b.deallocs type + 1) }

end BankStorage

/-! ## Deallocation -/

def allocTreeRemoveOID (S : BankStorage) (bank : ℕ) (type : BaseType) (oid : ℕ) : Except Halt (Bool × BankStorage) := do
  let (result, N, T) ← ofTree (clearOID G.fuel S.nodes (S.tree bank) type oid)
  let S := S.setTree bank N T
  match result with
  | .notFound => .ok (false, S)
  | .removed => .ok (true, S)
  | .frameEmpty => do
      let B ← bankUnreserveFrames G.depth bank 1 S.banks
      let space ← releaseFrame bank (frameOf oid) type S.space
      .ok (true, { S with banks := B, space := space })

/-- The objects of a frame are taken out of the tree, one after the other, whether they are in it or
not. -/
def removeAll (bank : ℕ) (type : BaseType) : List ℕ → BankStorage → Except Halt BankStorage
  | [], S => .ok S
  | oid :: oids, S => do
      let (_, S) ← allocTreeRemoveOID G S bank type oid
      removeAll bank type oids S

def objectsMapMask (type : BaseType) : BitVec 32 := BitVec.ofNat 32 (2 ^ G.perFrame type - 1)

/-- The objects of the frame of nodes that the bank hands out. -/
def frameOids (frame : MOFrame) : List ℕ := (List.range (G.perFrame .node)).map (frame.frameOid ||| ·)

/-- The part of `bank_deallocOID` for an object of the frame of nodes that the bank hands out: its bit
is set again, and if all are, the frame is given back. -/
def returnToFrame (S : BankStorage) (bank oid : ℕ) : Except Halt BankStorage := do
  let frame := (S.banks.bank bank).nodeFrame
  let map := frame.frameMap ||| 1#32 <<< objNum oid
  if map = objectsMapMask G .node then do
    let S ← removeAll G bank .node (frameOids G frame) S
    .ok (S.setNodeFrame bank { frameOid := 0, frameMap := map &&& ~~~(objectsMapMask G .node) })
  else .ok (S.setNodeFrame bank { frame with frameMap := map })

/-- The object belongs to the frame that the bank hands out. -/
def InNodeFrame (S : BankStorage) (bank type oid : ℕ) : Prop :=
  typeToBaseType type = .node ∧ (S.banks.bank bank).nodeFrame.frameMap ≠ 0#32 ∧
    (S.banks.bank bank).nodeFrame.frameOid = frameOf oid

instance (S : BankStorage) (bank type oid : ℕ) : Decidable (InNodeFrame S bank type oid) :=
  inferInstanceAs (Decidable (_ ∧ _ ∧ _))

def bankDeallocOID (S : BankStorage) (bank type oid : ℕ) : Except Halt (Bool × BankStorage) :=
  if InNodeFrame S bank type oid then do
    let S ← returnToFrame G S bank oid
    .ok (true, S.countDealloc bank type)
  else do
    let (found, S) ← allocTreeRemoveOID G S bank (typeToBaseType type) oid
    .ok (found, if found = true then S.countDealloc bank type else S)

/-! ## Allocation -/

/-- The position of the first bit that is set, `ffs(map) - 1`. -/
def firstBit (map : BitVec 32) : ℕ := ((List.range 32).find? fun k => map.getLsbD k).getD 0

/-- The part of `BankAllocObject` that reserves and gets a frame; `none` if there is none. -/
def reserveFrame (S : BankStorage) (bank : ℕ) (type : BaseType) : Except Halt (Option ℕ × BankStorage) := do
  let (answer, B) ← bankReserveFrames G.depth bank 1 S.banks
  if answer ≠ .ok then .ok (none, { S with banks := B })
  else do
    let (newFrame, space) ← allocFrame G.mounted bank type S.space
    .ok (newFrame, { S with banks := B, space := space })

/-- The objects of a new frame are put into the allocation tree, but for `bank0`. -/
def insertFrame (S : BankStorage) (bank : ℕ) (type : BaseType) (newFrame : ℕ) : Except Halt BankStorage :=
  if bank = bank0 then .ok S
  else do
    let (_, N, T) ← ofTree (allocTreeInsertOIDs G.perFrame G.fuel S.nodes (S.tree bank) type newFrame
      (G.perFrame type))
    .ok (S.setTree bank N T)

/-- The part of `BankAllocObject` that chooses a node; `none` if there is no frame for it. -/
def takeNode (S : BankStorage) (bank : ℕ) : Except Halt (Option ℕ × BankStorage) := do
  let (ready, S) ← (if (S.banks.bank bank).nodeFrame.frameMap = 0#32 then do
      let (newFrame, S) ← reserveFrame G S bank .node
      match newFrame with
      | none => .ok (false, S)
      | some newFrame => do
          let S ← insertFrame G S bank .node newFrame
          .ok (true, S.setNodeFrame bank { frameOid := newFrame, frameMap := objectsMapMask G .node })
    else .ok (true, S))
  if ready = false then .ok (none, S)
  else
    let frame := (S.banks.bank bank).nodeFrame
    let offset := firstBit frame.frameMap
    .ok (some (frame.frameOid ||| offset),
      S.setNodeFrame bank { frame with frameMap := frame.frameMap &&& ~~~(1#32 <<< offset) })

/-- The part of `BankAllocObject` that chooses a page; `none` if there is no frame for it. -/
def takePage (S : BankStorage) (bank : ℕ) : Except Halt (Option ℕ × BankStorage) := do
  let (newFrame, S) ← reserveFrame G S bank .page
  match newFrame with
  | none => .ok (none, S)
  | some newFrame => do
      let S ← insertFrame G S bank .page newFrame
      .ok (some newFrame, S)

/-- The part of `BankAllocObject` that chooses an object; `none` if there is no frame for it. -/
def takeObject (S : BankStorage) (bank : ℕ) (baseType : BaseType) : Except Halt (Option ℕ × BankStorage) :=
  match baseType with
  | .node => takeNode G S bank
  | .page => takePage G S bank

/-- `BankAllocObject`, with the object if the answer is `RC_OK`. -/
def bankAllocObject (S : BankStorage) (bank type : ℕ) : Except Halt (Answer × ℕ × BankStorage) :=
  if otNumTypes ≤ type then .ok (.requestError, 0, S)
  else do
    let (oid, S) ← takeObject G S bank (typeToBaseType type)
    match oid with
    | none => .ok (.limitReached, 0, S)
    | some oid =>
        if G.getCap type oid = true then .ok (.ok, oid, S.countAlloc bank type)
        else do
          let (_, S) ← bankDeallocOID G S bank type oid
          .ok (.limitReached, 0, S)

/-! ## The requests -/

/-- The objects that a request has got are deallocated again, the last one first. -/
def deallocAll (bank : ℕ) : List (ℕ × ℕ) → BankStorage → Except Halt BankStorage
  | [], S => .ok S
  | (type, oid) :: got, S => do
      let (_, S) ← bankDeallocOID G S bank type oid
      deallocAll bank got S

/-- The objects are allocated one after the other; `got` are those that the request has already. -/
def allocEach (bank : ℕ) : List (ℕ × ℕ) → List ℕ → BankStorage → Except Halt (Answer × BankStorage)
  | _, [], S => .ok (.ok, S)
  | got, type :: types, S => do
      let (answer, oid, S) ← bankAllocObject G S bank type
      if answer = .ok then allocEach bank ((type, oid) :: got) types S
      else do
        let S ← deallocAll G bank got S
        .ok (answer, S)

/-- The requests to allocate objects. -/
inductive AllocCode where
  | alloc1
  | alloc2
  | alloc3
  deriving DecidableEq, Repr

/-- The types in the word of a request. `BankAllocObject` takes them as bytes. -/
def AllocCode.types : AllocCode → BitVec 32 → List ℕ
  | .alloc1, w => [w.toNat % 256]
  | .alloc2, w => [w.toNat % 256, w.toNat / 256 % 256]
  | .alloc3, w => [w.toNat % 256, w.toNat / 256 % 256, w.toNat / 65536 % 256]

/-- The cases of `ProcessRequest` for the requests to allocate objects. -/
def allocRequest (S : BankStorage) (bank : ℕ) (code : AllocCode) (w : BitVec 32) : Except Halt (Answer × BankStorage) :=
  allocEach G bank [] (code.types w) S

/-! ## The end of a bank -/

def rescindObject (S : BankStorage) (bank : ℕ) (type : BaseType) (oid : ℕ) : Except Halt BankStorage := do
  let (result, S) ← allocTreeRemoveOID G S bank type oid
  kassert (result = true)
  .ok S

/-- The loop of `DestroyStorage`. The range key tells the type of the object's frame. -/
def destroyStorage (bank : ℕ) : ℕ → BankStorage → Except Halt BankStorage
  | 0, _ => .error .diverged
  | n + 1, S =>
      match allocTreeFindOID S.nodes (S.tree bank) with
      | none => .ok S
      | some oid => do
          let S ← rescindObject G S bank (G.frameType (frameOf oid)) oid
          destroyStorage bank n S

end CapROS.SpaceBank
