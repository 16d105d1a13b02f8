import CapROS.Kernel.Key
import CapROS.Theory.Yielding

/-!
# Range keys

The handler of invocations of Range keys (`pk_RangeKey.c`) and the search for populated subranges
(`kern_ObjectSource.c`). The handler reaches objects only through procedures of the object layer,
each of which it gives an OID; the model records these calls as a list of `Access`es. What the
object layer answers is given by an arbitrary `ObjectLayer`, so that what is proved holds in every
state of the object cache, the log directory and the disks. OIDs and offsets are 64-bit words:
every sum is reduced modulo `2 ^ 64`, as the kernel's is.

Preparing a key that is passed in a message is done on the authority of that key, and is not
counted as an access.

* `RangeKey`: the OIDs a Range key covers.
-/

namespace CapROS.RangeKey

open Yielding

def wordSize : ℕ := 2 ^ 64

/-- 64-bit addition. -/
def add64 (a b : ℕ) : ℕ := (a + b) % wordSize

/-- 64-bit subtraction. -/
def sub64 (a b : ℕ) : ℕ := (a + (wordSize - b)) % wordSize

def uint32Max : ℕ := 2 ^ 32 - 1

/-- `capros_Range_otPage`. -/
def otPage : ℕ := 0

/-- `capros_Range_otNode`. -/
def otNode : ℕ := 1

/-- `capros_Range_otForwarder`. -/
def otForwarder : ℕ := 2

/-- `capros_Range_otGPT`. -/
def otGPT : ℕ := 3

/-- `capros_Range_otNUM_TYPES`. -/
def otNUMTYPES : ℕ := 4

/-- `capros_Range_otNone`. -/
def otNone : ℕ := 255

/-- The OIDs that a Range key covers, `rngStart` and `rngLast` of the handler. No Range key covers
all of the 64-bit words. -/
structure Range where
  start : ℕ
  last : ℕ
  start_le_last : start ≤ last
  last_lt : last < wordSize
  not_all : start = 0 → last + 1 < wordSize

/-- The OID lies inside the range. -/
def Range.Contains (rng : Range) (oid : ℕ) : Prop := rng.start ≤ oid ∧ oid ≤ rng.last

instance (rng : Range) (oid : ℕ) : Decidable (rng.Contains oid) :=
  inferInstanceAs (Decidable (_ ∧ _))

/-- `key_GetRange`, for a key whose words are those of a Range key: the first and last OID. -/
def keyGetRange (k : Key) : Except Halt (ℕ × ℕ) :=
  match k.keyType, k.body with
  | .primeRange, _ => .ok (0, oidReservedPhysRange - 1)
  | .physRange, _ => .ok (oidReservedPhysRange, wordSize - 1)
  | _, .range oid count => do
      kassert (0 < count)
      .ok (oid, sub64 (add64 oid count) 1)
  | _, _ => .error .assertion

/-- A range of objects on some object source, `[start, end)`. -/
structure ObjectRange where
  start : ℕ
  fin : ℕ
  deriving DecidableEq, Repr

/-- The loop of `LookupRange`, with `u + 1` for the source's `u`. Each round makes the interval
shorter, so there are at most as many rounds as ranges. -/
def lookupRangeFrom (ranges : List ObjectRange) (oid : ℕ) : ℕ → ℕ → ℕ → ℕ
  | 0, _, u => u
  | fuel + 1, l, u =>
      if u ≤ l then u
      else
        let i := (l + (u - 1)) / 2
        if oid < (ranges.getD i ⟨0, 0⟩).start then lookupRangeFrom ranges oid fuel l i
        else lookupRangeFrom ranges oid fuel (i + 1) u

/-- `LookupRange`: the index of the last range that starts at or before `oid`. -/
def lookupRange (ranges : List ObjectRange) (oid : ℕ) : Option ℕ :=
  match lookupRangeFrom ranges oid ranges.length 0 ranges.length with
  | 0 => none
  | u + 1 => some u

def lookupOID (ranges : List ObjectRange) (oid : ℕ) : Option ObjectRange :=
  (lookupRange ranges oid).bind fun i =>
    (ranges[i]?).bind fun rng => if oid < rng.fin then some rng else none

/-- The range from which `objC_FindFirstSubrange` takes its answer. -/
def candidateRange (ranges : List ObjectRange) (limStart : ℕ) : Option ObjectRange :=
  match lookupRange ranges limStart with
  | none => ranges[0]?
  | some i =>
      if (ranges.getD i ⟨0, 0⟩).fin < limStart then ranges[i + 1]? else ranges[i]?

/-- `objC_FindFirstSubrange`. -/
def findFirstSubrange (ranges : List ObjectRange) (limStart limLast : ℕ) : Option (ℕ × ℕ) :=
  (candidateRange ranges limStart).bind fun rng =>
    let subStart := max limStart rng.start
    let subLast := min limLast (sub64 rng.fin 1)
    if subLast < subStart then none else some (subStart, subLast)

/-- What `GetObject` returns, as far as the handler looks at it. -/
structure FetchedNode where
  /-- There is a number key in `ForwarderDataSlot`. -/
  dataSlotIsNumber : Bool
  l2vField : ℕ

/-- The answers of the object layer. An answer `none` (or `false` for the procedures that return
nothing) means that the procedure yields. -/
structure ObjectLayer where
  obRanges : List ObjectRange
  /-- `GetObjectType`. -/
  objectType : ℕ → Option ℕ
  /-- `GetObjectCount`, of the call count if the flag is set. -/
  objectCount : ℕ → Bool → Option ℕ
  /-- `GetObject`. -/
  object : ℕ → Option FetchedNode
  /-- `objH_EnsureWritable`. -/
  ensureWritable : ℕ → Bool
  /-- `EnsureObjFrames`, for a page or node type. -/
  ensureObjFrames : ℕ → ℕ → Bool
  /-- `key_Prepare`: the key, now prepared or void. -/
  prepareKey : Key → Option Key
  /-- The words that stand in memory behind the table `objectsPerFrame`. -/
  behindTable : ℕ → ℕ
  /-- `AKT_Range`, which the build generates. -/
  aktRange : ℕ

/-- `capros_Range_otPage` and `capros_Range_otNode` index the table `objectsPerFrame`; any other
index reads the memory behind it. -/
def objectsPerFrame (layer : ObjectLayer) (obType : ℕ) : ℕ :=
  if obType = otPage then 1
  else if obType = otNode then diskNodesPerPage
  else layer.behindTable obType

/-- `objC_HaveSource`. -/
def haveSource (layer : ObjectLayer) (oid : ℕ) : Bool := (lookupOID layer.obRanges oid).isSome

/-- A call by which the handler reaches an object. -/
inductive Access where
  | getObjectType (oid : ℕ)
  | getObjectCount (oid : ℕ)
  | getObject (oid : ℕ)
  | ensureWritable (oid : ℕ)
  /-- The initialisation of a Forwarder or GPT. -/
  | initNode (oid : ℕ)
  /-- `objH_Rescind`, `objH_ClearObj` and `node_Unprepare`. -/
  | rescind (oid : ℕ)
  /-- `RetypeDestroyOldObjects`. -/
  | destroy (oid : ℕ)
  | createNewNullObject (obType oid allocCount : ℕ)
  /-- `ld_recordLocation`, with log location 0. -/
  | recordLocation (obType oid count : ℕ)
  deriving DecidableEq, Repr

/-- The object that is reached. -/
def Access.oid : Access → ℕ
  | getObjectType oid => oid
  | getObjectCount oid => oid
  | getObject oid => oid
  | ensureWritable oid => oid
  | initNode oid => oid
  | rescind oid => oid
  | destroy oid => oid
  | createNewNullObject _ oid _ => oid
  | recordLocation _ oid _ => oid

/-- Programs of the handler: the state is the list of the accesses made. -/
abbrev Handler (α : Type) := Prog Halt (List Access) α

/-- Make an access. -/
def access (a : Access) : Handler Unit := Prog.modify (· ++ [a])

/-- Make several accesses. -/
def accessAll (l : List Access) : Handler Unit := Prog.modify (· ++ l)

/-- `inv->exit.code`. -/
inductive ExitCode where
  | ok
  | rangeErr
  | requestError
  | unknownRequest
  deriving DecidableEq, Repr

/-- The answer to an invocation. -/
structure Reply where
  code : ExitCode
  w1 : ℕ := 0
  w2 : ℕ := 0
  w3 : ℕ := 0
  key : Option Key := none
  deriving DecidableEq

/-- The message of an invocation. The words `w1`, `w2` and `w3` are 32-bit registers; `hasSlot`
says whether the invoker gives a slot for the returned key. -/
inductive Request where
  | getType
  | query
  | nextSubrange (w1 w2 : BitVec 32)
  | makeSubrange (w1 w2 w3 : BitVec 32) (hasSlot : Bool)
  | identify (key : Key)
  | rescind (key : Key)
  /-- `getCap`, or `waitCap` if the flag is set. -/
  | getCap (wait : Bool) (w1 w2 w3 : BitVec 32) (hasSlot : Bool)
  | compare (key : Key)
  | getFrameCounts (w1 w2 : BitVec 32)
  /-- The string holds the new type and the allocation count, unless it is too short. -/
  | retypeFrame (w1 w2 w3 : BitVec 32) (stringParams : Option (BitVec 8 × BitVec 32))
  | unknown

/-- `w1w2Offset` and `w2w3Offset`. -/
def wordOffset (lo hi : BitVec 32) : ℕ := hi.toNat * 2 ^ 32 + lo.toNat

/-- `ValidateKey`: the object type, or `none` for the source's `-1`. -/
def validateKey (k : Key) : Option ℕ :=
  if k.isType .page then some otPage
  else if k.isType .node then some otNode
  else if k.isType .forwarder ∧ k.keyData &&& 1 = 0 then some otForwarder
  else if k.isType .gpt ∧ k.keyData &&& 1 = 0 then some otGPT
  else none

/-- `key_GetObjectPtr(key)->oid`. -/
def objectOid (k : Key) : Handler ℕ :=
  match k.body with
  | .prep oid => pure oid
  | _ => Prog.halt .nullDeref

/-- The table `baseType` of the handler. -/
def baseTypeOf (ot : ℕ) : ℕ := if ot = otPage then otPage else otNode

/-- The table `obKKT` of the handler. -/
def obKKT (ot : ℕ) : KeyType :=
  if ot = otPage then .page
  else if ot = otNode then .node
  else if ot = otForwarder then .forwarder
  else .gpt

/-- A key to the object, with the default `keyData`. -/
def newObjectKey (kkt : KeyType) (body : KeyBody) : Key :=
  let k : Key := ⟨kkt, 0, 0, body⟩
  if kkt = .forwarder then k else k.setL2g 64

/-- The case of `MakeObjectKey` for pages and nodes, which does not need the object. -/
def makeUnpreparedKey (layer : ObjectLayer) (oid : ℕ) (kkt : KeyType) : Handler Key := do
  access (.getObjectCount oid)
  let obCount ← Prog.ofOption (layer.objectCount oid false)
  pure (newObjectKey kkt (.unprep oid obCount))

/-- Make sure that the object is writeable, which may yield. -/
def ensureWritable (layer : ObjectLayer) (oid : ℕ) : Handler Unit := do
  access (.ensureWritable oid)
  Prog.ofOption (if layer.ensureWritable oid then some () else none)

/-- Initialise a Forwarder or GPT if that is needed. -/
def initNodeIf (layer : ObjectLayer) (oid : ℕ) (needed : Bool) : Handler Unit :=
  if needed then do
    ensureWritable layer oid
    access (.initNode oid)
  else pure ()

def erosPageLgsize : ℕ := 12

/-- `l2vField & GPT_L2V_MASK`. -/
def oldL2v (l2vField : ℕ) : ℕ := l2vField % 64

/-- The case of `MakeObjectKey` for Forwarders and GPTs. -/
def makePreparedKey (layer : ObjectLayer) (oid : ℕ) (kkt : KeyType) : Handler Key := do
  access (.getObject oid)
  let node ← Prog.ofOption (layer.object oid)
  initNodeIf layer oid
    (if kkt = .forwarder then !node.dataSlotIsNumber
      else decide (oldL2v node.l2vField < erosPageLgsize))
  pure (newObjectKey kkt (.prep oid))

/-- The `switch (kkt)` of `MakeObjectKey`. -/
def makeKey (layer : ObjectLayer) (oid : ℕ) (kkt : KeyType) : Handler Key :=
  if kkt = .forwarder ∨ kkt = .gpt then makePreparedKey layer oid kkt
  else makeUnpreparedKey layer oid kkt

/-- The part of `MakeObjectKey` after the checks. -/
def makeKeyTo (layer : ObjectLayer) (oid baseType : ℕ) (kkt : KeyType) (hasSlot : Bool) :
    Handler Reply := do
  access (.getObjectType oid)
  let objType ← Prog.ofOption (layer.objectType oid)
  if objType ≠ otNone ∧ objType ≠ baseType then
    -- the frame needs to be retyped
    pure { code := .ok, w1 := objType }
  else do
    let key ← makeKey layer oid kkt
    pure { code := .ok, w1 := otNone, key := if hasSlot then some key else none }

def makeObjectKey (layer : ObjectLayer) (rng : Range) (offset : ℕ) (wait : Bool) (baseType : ℕ)
    (kkt : KeyType) (hasSlot : Bool) : Handler Reply :=
  let oid := add64 rng.start offset
  if oid > rng.last then pure { code := .rangeErr }
  else if offset % erosObjectsPerFrame ≥ objectsPerFrame layer baseType then
    pure { code := .rangeErr }
  else if !wait ∧ !haveSource layer oid then pure { code := .rangeErr }
  else makeKeyTo layer oid baseType kkt hasSlot

/-- The OIDs of the first `n` objects from `oid` on, as a loop with `oid++` meets them. -/
def successiveOids (oid n : ℕ) : List ℕ := (List.range n).map (add64 oid)

def retypeDestroyOldObjects (layer : ObjectLayer) (oldType oid : ℕ) : Handler Unit :=
  accessAll ((successiveOids oid (objectsPerFrame layer oldType)).map .destroy)

/-- `EnsureObjFrames`, which knows pages and nodes only. -/
def ensureObjFrames (layer : ObjectLayer) (baseType numFrames : ℕ) : Handler Unit := do
  Prog.check (baseType = otPage ∨ baseType = otNode) .assertion
  Prog.ofOption (if layer.ensureObjFrames baseType numFrames then some () else none)

/-- The part of `retypeFrame` after the checks. -/
def retypeObjects (layer : ObjectLayer) (oid oldType newType allocationCount : ℕ) :
    Handler Reply := do
  if oidIsPersistent oid then do
    retypeDestroyOldObjects layer oldType oid
    accessAll ((successiveOids oid (objectsPerFrame layer newType)).map
      fun o => .recordLocation newType o allocationCount)
    pure { code := .ok }
  else do
    ensureObjFrames layer newType (objectsPerFrame layer newType)
    retypeDestroyOldObjects layer oldType oid
    accessAll ((successiveOids oid (objectsPerFrame layer newType)).map
      fun o => .createNewNullObject newType o allocationCount)
    pure { code := .ok }

/-- The case `retypeFrame`. -/
def retypeFrame (layer : ObjectLayer) (rng : Range) (offset oldType : ℕ)
    (stringParams : Option (BitVec 8 × BitVec 32)) : Handler Reply :=
  match stringParams with
  | none => pure { code := .requestError }
  | some (newType, allocationCount) =>
      let oid := add64 offset rng.start
      if oid > rng.last ∨ oidToObIndex oid ≠ 0 then pure { code := .rangeErr }
      else retypeObjects layer oid oldType newType.toNat allocationCount.toNat

/-- The case `nextSubrange`. -/
def nextSubrange (layer : ObjectLayer) (rng : Range) (offset : ℕ) : Reply :=
  let startOffset := add64 offset rng.start
  if startOffset > rng.last then { code := .rangeErr }
  else
    match findFirstSubrange layer.obRanges startOffset rng.last with
    | none => { code := .rangeErr }
    | some (subStart, subLast) =>
        let off := sub64 subStart rng.start
        { code := .ok, w1 := off % 2 ^ 32, w2 := off / 2 ^ 32
          w3 := min (subLast - subStart + 1) uint32Max }

/-- The case `makeSubrange`. -/
def makeSubrange (rng : Range) (offset newLen : ℕ) (hasSlot : Bool) : Reply :=
  let newStart := add64 offset rng.start
  let newLast := sub64 (add64 newLen newStart) 1
  if rng.start > newStart ∨ newStart > newLast ∨ newLast > rng.last then { code := .rangeErr }
  else
    { code := .ok
      key := if hasSlot then some ⟨.range, 0, 0, .range newStart newLen⟩ else none }

/-- The case `identify`, for the prepared key. -/
def identify (rng : Range) (key : Key) : Handler Reply :=
  match validateKey key with
  | none => pure { code := .rangeErr }
  | some t => do
      let oid ← objectOid key
      if oid < rng.start ∨ oid > rng.last then pure { code := .rangeErr, w1 := t }
      else
        pure { code := .ok, w1 := t, w2 := (oid - rng.start) % 2 ^ 32
               w3 := (oid - rng.start) / 2 ^ 32 }

/-- The case `rescind`, for the prepared key. -/
def rescind (layer : ObjectLayer) (rng : Range) (key : Key) : Handler Reply :=
  match validateKey key with
  | none => pure { code := .rangeErr }
  | some _ => do
      let oid ← objectOid key
      if oid < rng.start ∨ oid > rng.last then pure { code := .rangeErr }
      else do
        ensureWritable layer oid
        access (.rescind oid)
        pure { code := .ok }

/-- The case `compare`, for the prepared key. -/
def compare (rng : Range) (key : Key) : Handler Reply :=
  if key.keyType ≠ .range ∧ key.keyType ≠ .primeRange then pure { code := .ok }
  else
    match keyGetRange key with
    | .error e => Prog.halt e
    | .ok (kstart, kend) =>
        if kstart > rng.last ∨ kend ≤ rng.start then pure { code := .ok }
        else if kstart < rng.start then
          pure { code := .ok, w1 := 3, w2 := (rng.start - kstart) % 2 ^ 32
                 w3 := (rng.start - kstart) / 2 ^ 32 }
        else if kstart = rng.start then pure { code := .ok, w1 := 1 }
        else
          pure { code := .ok, w1 := 2, w2 := (kstart - rng.start) % 2 ^ 32
                 w3 := (kstart - rng.start) / 2 ^ 32 }

/-- The case `getFrameCounts`. -/
def getFrameCounts (layer : ObjectLayer) (rng : Range) (offset : ℕ) : Handler Reply :=
  let oid := add64 offset rng.start
  if oid > rng.last then pure { code := .rangeErr }
  else do
    access (.getObjectType oid)
    let objType ← Prog.ofOption (layer.objectType oid)
    access (.getObjectCount oid)
    let allocCount ← Prog.ofOption (layer.objectCount oid false)
    if objType = otNode then do
      access (.getObjectCount oid)
      let callCount ← Prog.ofOption (layer.objectCount oid true)
      pure { code := .ok, w1 := max allocCount callCount }
    else pure { code := .ok, w1 := allocCount }

/-- `RangeKey`: the handler. -/
def rangeKey (layer : ObjectLayer) (rng : Range) : Request → Handler Reply
  | .getType => pure { code := .ok, w1 := layer.aktRange }
  | .query =>
      let range := rng.last - rng.start + 1
      pure { code := .ok, w1 := range % 2 ^ 32, w2 := range / 2 ^ 32 }
  | .nextSubrange w1 w2 => pure (nextSubrange layer rng (wordOffset w1 w2))
  | .makeSubrange w1 w2 w3 hasSlot => pure (makeSubrange rng (wordOffset w1 w2) w3.toNat hasSlot)
  | .identify key => do
      let key ← Prog.ofOption (layer.prepareKey key)
      identify rng key
  | .rescind key => do
      let key ← Prog.ofOption (layer.prepareKey key)
      rescind layer rng key
  | .getCap wait w1 w2 w3 hasSlot =>
      if w1.toNat ≥ otNUMTYPES then pure { code := .rangeErr }
      else makeObjectKey layer rng (wordOffset w2 w3) wait (baseTypeOf w1.toNat) (obKKT w1.toNat)
        hasSlot
  | .compare key => do
      let key ← Prog.ofOption (layer.prepareKey key)
      compare rng key
  | .getFrameCounts w1 w2 => getFrameCounts layer rng (wordOffset w1 w2)
  | .retypeFrame w1 w2 w3 stringParams =>
      retypeFrame layer rng (wordOffset w1 w2) w3.toNat stringParams
  | .unknown => pure { code := .unknownRequest }

/-- Every access is to an object of the range. -/
def AccessesIn (rng : Range) (l : List Access) : Prop := ∀ a ∈ l, rng.Contains a.oid

/-- The key gives no authority over anything outside the range: an object key names an object of
the range, a Range key covers a subset of it. -/
def KeyIn (rng : Range) (k : Key) : Prop :=
  match k.body with
  | .unprep oid _ => rng.Contains oid
  | .prep oid => rng.Contains oid
  | .range _ _ => ∃ first last, keyGetRange k = .ok (first, last) ∧ first ≤ last ∧
      rng.Contains first ∧ rng.Contains last
  | .words _ _ _ => True

/-- The OIDs that a reply reports, as its receiver computes them, lie inside the range, and so
does what a returned key gives authority over. -/
def Reply.In (rng : Range) (req : Request) (r : Reply) : Prop :=
  (∀ k, r.key = some k → KeyIn rng k) ∧
    (r.code = .ok →
      match req with
      | .nextSubrange _ _ => ∀ i < r.w3,
          rng.Contains (add64 (add64 rng.start (r.w2 * 2 ^ 32 + r.w1)) i)
      | .identify _ => rng.Contains (add64 rng.start (r.w3 * 2 ^ 32 + r.w2))
      | _ => True)

/-- The request reaches, reports and gives out nothing outside the range, whether it is answered,
put off, or stops the system. -/
def Confined (layer : ObjectLayer) (rng : Range) (req : Request) : Prop :=
  (rangeKey layer rng req []).Sat (fun r l => AccessesIn rng l ∧ r.In rng req) (AccessesIn rng)
    fun _ l => AccessesIn rng l

/-- The number of successive OIDs that `retypeFrame` reaches. -/
def retypeReach (layer : ObjectLayer) (oldType newType : ℕ) : ℕ :=
  max (objectsPerFrame layer oldType) (objectsPerFrame layer newType)

/-- The new objects of a non-persistent frame can be made. -/
def canRetype (layer : ObjectLayer) (oid newType : ℕ) : Prop :=
  oidIsPersistent oid ∨ (newType = otPage ∨ newType = otNode) ∧
    layer.ensureObjFrames newType (objectsPerFrame layer newType)

/-- A request whose other checks are passed does not wrap around to below the start of the range,
and `retypeFrame` does not run past its end. -/
def WithinRange (layer : ObjectLayer) (rng : Range) : Request → Prop
  | .nextSubrange w1 w2 =>
      let startOffset := add64 (wordOffset w1 w2) rng.start
      startOffset ≤ rng.last → ∀ subStart subLast,
        findFirstSubrange layer.obRanges startOffset rng.last = some (subStart, subLast) →
          rng.start ≤ subStart
  | .getCap wait w1 w2 w3 _ =>
      let oid := add64 rng.start (wordOffset w2 w3)
      w1.toNat < otNUMTYPES → oid ≤ rng.last →
        wordOffset w2 w3 % erosObjectsPerFrame < objectsPerFrame layer (baseTypeOf w1.toNat) →
          (wait ∨ haveSource layer oid) → rng.start ≤ oid
  | .getFrameCounts w1 w2 =>
      let oid := add64 (wordOffset w1 w2) rng.start
      oid ≤ rng.last → rng.start ≤ oid
  | .retypeFrame w1 w2 w3 (some (newType, _)) =>
      let oid := add64 (wordOffset w1 w2) rng.start
      let reach := retypeReach layer w3.toNat newType.toNat
      oid ≤ rng.last → oidToObIndex oid = 0 → canRetype layer oid newType.toNat →
        0 < reach → rng.start ≤ oid ∧ oid + reach ≤ rng.last + 1
  | _ => True

end CapROS.RangeKey
