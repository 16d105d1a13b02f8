import CapROS.Kernel.Key
import CapROS.Theory.Yielding

/-!
# Node, GPT and Page keys

The handlers of invocations of Node keys (`pk_NodeKey.c`), GPT keys (`pk_GPTKey.c`), Page keys
(`pk_PageKey.c`), and Number, Discrim and Void keys. The state has the contents of all nodes and
pages, the flags `OFLG_DIRTY` and `OFLG_KRO` of every node, and, of a checkpoint, what has been
saved of the nodes.

Object keys are kept in their prepared form and rescinded keys as void keys, because preparing a
key does not change what it designates. Nodes that are prepared as constituents of a process are
left out: only the process creator has keys to them.

* `ensureWritable`: `node_EnsureWritable`, with the cleaning of a kernel-read-only node.
* `nodeKey`, `gptKey`, `pageKey`, `numberKey`, `discrimKey`, `voidKey`: the handlers.
-/

namespace CapROS.NodeKey

open Yielding

def erosNodeSize : ℕ := 32

/-- What a node holds: its slots and the first byte of `nodeData`, the `l2vField`. -/
structure NodeContent where
  slots : Fin 32 → Key
  l2vField : BitVec 8

/-- `NODE_L2V_MASK`, also `GPT_L2V_MASK`. -/
def l2vMask : BitVec 8 := 0x3f

/-- `NODE_BLOCKED`, also `GPT_BACKGROUND`. -/
def nodeBlocked : BitVec 8 := 0x40

/-- `NODE_KEEPER`, also `GPT_KEEPER`. -/
def nodeKeeper : BitVec 8 := 0x80

/-- The slot `capros_Node_keeperSlot`, also `capros_GPT_keeperSlot`. -/
def keeperSlot : Fin 32 := 31

/-- The slot `capros_GPT_backgroundSlot`. -/
def backgroundSlot : Fin 32 := 30

/-- `capros_GPT_windowBaseSlot`. -/
def windowBaseSlot : ℕ := 255

namespace NodeContent

/-- The node has a keeper. -/
def hasKeeper (c : NodeContent) : Bool := decide (c.l2vField &&& nodeKeeper ≠ 0)

/-- The node is blocked. -/
def isBlocked (c : NodeContent) : Bool := decide (c.l2vField &&& nodeBlocked ≠ 0)

/-- `l2vField & NODE_L2V_MASK`. -/
def l2v (c : NodeContent) : ℕ := (c.l2vField &&& l2vMask).toNat

/-- Overwrite a slot. -/
def setSlot (c : NodeContent) (slot : Fin 32) (k : Key) : NodeContent :=
  { c with slots := Function.update c.slots slot k }

/-- `node_SetL2vField(l2vField - oldL2v + newL2v)`. -/
def setL2v (c : NodeContent) (newL2v : ℕ) : NodeContent :=
  { c with l2vField := c.l2vField - (c.l2vField &&& l2vMask) + BitVec.ofNat 8 newL2v }

/-- Set a bit of `l2vField`. -/
def setBit (c : NodeContent) (bit : BitVec 8) : NodeContent :=
  { c with l2vField := c.l2vField ||| bit }

/-- Clear a bit of `l2vField`. -/
def clearBit (c : NodeContent) (bit : BitVec 8) : NodeContent :=
  { c with l2vField := c.l2vField &&& ~~~bit }

end NodeContent

structure Node where
  content : NodeContent
  /-- `OFLG_DIRTY`. -/
  dirty : Bool
  /-- `OFLG_KRO`. -/
  kro : Bool

structure World where
  nodes : ℕ → Node
  pages : ℕ → PageData
  /-- There are log space and directory entries to make the object dirty. -/
  canDirty : ℕ → Bool
  /-- The nodes that are cleaned along with a kernel-read-only node, to fill the pot. -/
  potMates : ℕ → List ℕ
  /-- The page that `getNthPage` finds in the block of a device page. -/
  nthPage : ℕ → ℕ → Option ℕ
  /-- The codes `AKT_*` and `IKT_*`, which the build generates. -/
  typeCode : KeyType → ℕ
  /-- `ckptIsActive`. -/
  ckptActive : Bool
  /-- The version of a node that was last cleaned, which is what a fetch brings back. -/
  saved : ℕ → NodeContent
  /-- The images written for the demarcated generation. -/
  written : ℕ → Option NodeContent

def World.setContent (w : World) (oid : ℕ) (c : NodeContent) : World :=
  { w with nodes := Function.update w.nodes oid { w.nodes oid with content := c } }

def World.setPage (w : World) (oid : ℕ) (d : PageData) : World :=
  { w with pages := Function.update w.pages oid d }

/-- `objH_SetDirtyFlag`. -/
def World.setDirty (w : World) (oid : ℕ) : World :=
  { w with nodes := Function.update w.nodes oid { w.nodes oid with dirty := true } }

/-- Copy a kernel-read-only node to a log pot, after which it is clean (`node_ClearDirty`). -/
def World.cleanKRO (w : World) (oid : ℕ) : World :=
  if (w.nodes oid).kro then
    { w with
      nodes := Function.update w.nodes oid { w.nodes oid with dirty := false, kro := false }
      saved := Function.update w.saved oid (w.nodes oid).content
      written := Function.update w.written oid (some (w.nodes oid).content) }
  else w

/-- `node_MitigateKRO`: clean nodes until this one is no longer kernel-read-only. -/
def World.mitigateKRO (w : World) (oid : ℕ) : World :=
  (oid :: w.potMates oid).foldl World.cleanKRO w

/-- `inv->exit.code`. -/
inductive ExitCode where
  | ok
  | void
  | noAccess
  | noAddr
  | nondecreasing
  | requestError
  | unknownRequest
  | unrepresentableGuard
  deriving DecidableEq, Repr

/-- The end of an invocation: a message back to the invoker, or the message passed on to the
process of a keeper, perhaps with a key added. -/
inductive Reply where
  | ret (code : ExitCode) (w1 : ℕ) (key : Option Key)
  | gate (keeper : Key) (passed : Option Key)

/-- Programs of the handlers. -/
abbrev Handler (α : Type) := Prog Halt World α

/-- The operations of all these keys. An order code that a handler does not know is `other` to
it, as are the operations of the other types of keys. -/
inductive Op where
  | getType
  | destroy
  | nodeGetSlot
  | nodeSwapSlot
  | nodeGetSlotExtended
  | nodeSwapSlotExtended
  | nodeReduce
  | nodeWriteNumber
  | nodeGetL2v
  | nodeSetL2v
  | nodeMakeGuarded
  | nodeGetGuard
  | nodeSetKeeper
  | nodeClearKeeper
  | nodeSetBlocked
  | nodeClearBlocked
  | nodeClone
  | gptGetL2v
  | gptSetL2v
  | gptGetSlot
  | gptSetSlot
  | gptSetWindow
  | gptClone
  | gptSetKeeper
  | gptClearKeeper
  | gptSetBackground
  | gptClearBackground
  | memoryGetRestrictions
  | memoryReduce
  | memoryMakeGuarded
  | memoryGetGuard
  | pageZero
  | pageClone
  | pageGetNthPage
  | numberGet
  | discrimClassify
  | discrimVerify
  | discrimCompare
  | other
  deriving DecidableEq, Repr

/-- A message. The string is given as the list of its 32-bit words. -/
structure Message where
  op : Op
  w1 : BitVec 32 := 0
  w2 : BitVec 32 := 0
  w3 : BitVec 32 := 0
  key0 : Key := .void
  key1 : Key := .void
  str : List (BitVec 32) := []

/-- A reply without a key. -/
def answer (code : ExitCode) (w1 : ℕ := 0) : Handler Reply := pure (.ret code w1 none)

/-- A reply with a key. -/
def answerKey (k : Key) : Handler Reply := pure (.ret .ok 0 (some k))

/-- The answer to `getType`. -/
def answerType (t : KeyType) : Handler Reply := do
  let w ← Prog.get
  answer .ok (w.typeCode t)

/-- The object of a prepared key. -/
def objectOf (k : Key) : Option ℕ :=
  match k.body with
  | .prep oid => some oid
  | _ => none

/-- `node_EnsureWritable`. -/
def ensureWritable (oid : ℕ) : Handler Unit := fun w =>
  if (w.nodes oid).dirty ∧ ¬(w.nodes oid).kro then .done () w
  else if !w.ckptActive ∧ (w.nodes oid).kro then .halt .assertion w
  else if w.canDirty oid then
    .done () ((if (w.nodes oid).kro then w.mitigateKRO oid else w).setDirty oid)
  else .yield w

/-- `pageH_EnsureWritable`. -/
def ensurePageWritable (oid : ℕ) : Handler Unit := fun w =>
  if w.canDirty oid then .done () w else .yield w

/-- The content of a node. -/
def readNode (oid : ℕ) : Handler NodeContent := do
  let w ← Prog.get
  pure (w.nodes oid).content

theorem readNode_bind_apply {α : Type} (oid : ℕ) (f : NodeContent → Handler α) (w : World) :
    (readNode oid >>= f) w = f (w.nodes oid).content w := rfl

def writeNode (oid : ℕ) (f : NodeContent → NodeContent) : Handler Unit :=
  Prog.modify fun w => w.setContent oid (f (w.nodes oid).content)

/-- The content of a page. -/
def readPage (oid : ℕ) : Handler PageData := do
  let w ← Prog.get
  pure (w.pages oid)

def writePage (oid : ℕ) (d : PageData) : Handler Unit := Prog.modify fun w => w.setPage oid d

/-- `keyBits_IsGateKey`. -/
def isGateKey (k : Key) : Bool := k.isType .start || k.isType .resume

/-- `inv_InvokeGateOrVoid`. -/
def invokeGateOrVoid (k : Key) (passed : Option Key) : Handler Reply :=
  if isGateKey k then pure (.gate k passed) else answer .void

def desensitize (k : Key) : Key :=
  match k.keyType with
  | .node | .gpt => k.restrict (memoryReadOnly ||| memoryNoCall ||| memoryWeak)
  | .page => k.restrict memoryReadOnly
  | .number | .discrim => k
  | _ => .void

def nodeSetSlot (oid : ℕ) (slot : Fin 32) (k : Key) : Handler Unit := do
  ensureWritable oid
  writeNode oid fun c => c.setSlot slot k

def swapSlot (oid : ℕ) (slot : Fin 32) (k : Key) : Handler Reply := do
  ensureWritable oid
  let c ← readNode oid
  writeNode oid fun c => c.setSlot slot k
  answerKey (c.slots slot)

/-- `key_SetToNumber`: a number key is marked read-only. -/
def numberKeyOf (hi mid lo : BitVec 32) : Key :=
  ⟨.number, memoryReadOnly, 0, .words lo.toNat mid.toNat hi.toNat⟩

def nodeClone (oid : ℕ) (fromKey : Key) (fromOid : ℕ) : Handler Unit := do
  let src ← readNode fromOid
  writeNode oid fun _ =>
    { src with slots := fun i =>
        if fromKey.hasPerm memoryWeak then desensitize (src.slots i) else src.slots i }

/-- The number of zero bits below the lowest one bit, `ffs64`. -/
def trailingZeros : ℕ → ℕ → ℕ
  | 0, _ => 0
  | fuel + 1, n => if n % 2 = 1 then 0 else trailingZeros fuel (n / 2) + 1

/-- `key_CalcGuard`: the guard's eight bits and its `l2g`. -/
def calcGuard (guard : ℕ) : Option (ℕ × ℕ) :=
  if guard = 0 then some (0, 0)
  else
    let fs := trailingZeros 64 guard
    if guard / 2 ^ fs < 256 then some (guard / 2 ^ fs, fs) else none

/-- `key_GetGuard`. -/
def getGuard (k : Key) : ℕ := if 64 ≤ k.l2g then 0 else k.guard * 2 ^ k.l2g % 2 ^ 64

/-- The cases `makeGuarded`. -/
def makeGuarded (k : Key) (m : Message) : Handler Reply :=
  match calcGuard m.w1.toNat with
  | none => answer .unrepresentableGuard
  | some (guard, l2g) => answerKey (k.setGuardData guard l2g)

/-- Where `WalkExtended` ends. -/
inductive Walk where
  | fault (code : ExitCode)
  | found (oid : ℕ) (slot : Fin 32)

/-- The check of the guard in `WalkExtended`: the rest of the address. -/
def checkGuard (k : Key) (addr : BitVec 32) : Option (BitVec 32) :=
  if 32 ≤ k.l2g then
    if k.guard ≠ 0 then none else some addr
  else if (addr >>> k.l2g).toNat < k.guard then none
  else some (addr - BitVec.ofNat 32 k.guard <<< k.l2g)

/-- The slot that `WalkExtended` goes to in a node. -/
def slotAt (c : NodeContent) (addr : BitVec 32) : Option (Fin 32) :=
  let ndx := (addr >>> c.l2v).toNat
  if h : ndx < 32 then
    if c.hasKeeper ∧ ndx = 31 then none else some ⟨ndx, h⟩
  else none

/-- The loop of `WalkExtended`. The `l2v` must decrease, so that the number of rounds is bounded
by its first value. -/
def walkFrom (nodes : ℕ → Node) (write : Bool) :
    ℕ → Key → BitVec 32 → BitVec 5 → ℕ → Walk
  | 0, _, _, _, _ => .fault .nondecreasing
  | n + 1, curKey, addr, restrictions, curL2v =>
      match checkGuard curKey addr with
      | none => .fault .noAddr
      | some addr =>
          let restrictions := restrictions ||| curKey.keyPerms
          if write ∧ restrictions &&& nodeReadOnly ≠ 0 then .fault .noAccess
          else
            match objectOf curKey with
            | none => .fault .noAddr
            | some oid =>
                let c := (nodes oid).content
                if c.l2v ≥ curL2v then .fault .nondecreasing
                else
                  match slotAt c addr with
                  | none => .fault .noAddr
                  | some slot =>
                      if c.l2v = 0 then .found oid slot
                      else if (c.slots slot).isType .node then
                        walkFrom nodes write n (c.slots slot)
                          (addr &&& (BitVec.ofNat 32 (2 ^ c.l2v) - 1)) restrictions c.l2v
                      else .fault .noAddr

/-- The walk of `WalkExtended` from a key. -/
def walk (nodes : ℕ → Node) (write : Bool) (k : Key) (addr : BitVec 32) : Walk :=
  walkFrom nodes write 64 k addr 0 64

def walkExtended (k : Key) (m : Message) (write : Bool) : Handler Reply := do
  let w ← Prog.get
  match walk w.nodes write k m.w1 with
  | .fault code => answer code
  | .found oid slot =>
      if write then swapSlot oid slot m.key0
      else answerKey ((w.nodes oid).content.slots slot)

/-- The label `check_keeper` of `NodeKey`. -/
def checkKeeper (c : NodeContent) : Handler Reply :=
  if c.hasKeeper then invokeGateOrVoid (c.slots keeperSlot) none else answer .unknownRequest

/-- The case of `NodeKey` for an operation that a non-opaque key only has. -/
def unlessOpaque (k : Key) (c : NodeContent) (m : Handler Reply) : Handler Reply :=
  if k.hasPerm memoryOpaque then checkKeeper c else m

/-- A case of `NodeKey` that the restriction `readOnly` rules out. -/
def unlessFetch (k : Key) (m : Handler Reply) : Handler Reply :=
  if k.hasPerm nodeReadOnly then answer .noAccess else m

/-- A case that checks the number of a slot. -/
def withSlot (w1 : BitVec 32) (f : Fin 32 → Handler Reply) : Handler Reply :=
  if h : w1.toNat < 32 then f ⟨w1.toNat, h⟩ else answer .requestError

/-- The case `writeNumber` of `NodeKey`, behind its checks. -/
def writeNumber (oid : ℕ) (slot : Fin 32) (str : List (BitVec 32)) : Handler Reply :=
  match str with
  | [v0, v1, v2] => do
      ensureWritable oid
      writeNode oid fun c => c.setSlot slot (numberKeyOf v2 v1 v0)
      answer .ok
  | _ => answer .requestError

/-- The cases `clone`: the argument must be a key of the same type. -/
def cloneFrom (oid : ℕ) (keyType : KeyType) (k : Key) : Handler Reply :=
  match objectOf k with
  | some fromOid =>
      if k.isType keyType then do
        nodeClone oid k fromOid
        answer .ok
      else answer .requestError
  | none => answer .requestError

/-- The switch of `NodeKey`, for the node `oid` with content `c`. -/
def nodeRequest (k : Key) (oid : ℕ) (c : NodeContent) (m : Message) : Handler Reply :=
  match m.op with
  | .getType =>
      if c.hasKeeper then invokeGateOrVoid (c.slots keeperSlot) none
      else answerType .node
  | .nodeGetSlot =>
      -- the keys fetched through a weak key are not weakened: `isSense` is constantly false
      unlessOpaque k c (withSlot m.w1 fun slot => answerKey (c.slots slot))
  | .nodeSwapSlot =>
      unlessOpaque k c (unlessFetch k (withSlot m.w1 fun slot => swapSlot oid slot m.key0))
  | .nodeGetSlotExtended =>
      if k.hasPerm memoryOpaque ∧ c.isBlocked then checkKeeper c else walkExtended k m false
  | .nodeSwapSlotExtended =>
      if k.hasPerm memoryOpaque ∧ c.isBlocked then checkKeeper c else walkExtended k m true
  | .nodeReduce =>
      if m.w1 &&& ~~~3 ≠ 0 then answer .requestError
      else answerKey (k.restrict (m.w1.truncate 5))
  | .nodeWriteNumber =>
      unlessOpaque k c (unlessFetch k (withSlot m.w1 fun slot => writeNumber oid slot m.str))
  | .nodeGetL2v => unlessOpaque k c (answer .ok c.l2v)
  | .nodeSetL2v =>
      unlessOpaque k c (
        if m.w1.toNat < 32 then do
          writeNode oid fun c => c.setL2v m.w1.toNat
          answer .ok
        else answer .requestError)
  | .nodeMakeGuarded => unlessOpaque k c (makeGuarded k m)
  | .nodeGetGuard => unlessOpaque k c (answer .ok (getGuard k))
  | .nodeSetKeeper =>
      unlessOpaque k c (do
        nodeSetSlot oid keeperSlot m.key0
        writeNode oid fun c => c.setBit nodeKeeper
        answer .ok)
  | .nodeClearKeeper =>
      unlessOpaque k c (do
        writeNode oid fun c => c.clearBit nodeKeeper
        answer .ok)
  | .nodeSetBlocked =>
      unlessOpaque k c (do
        writeNode oid fun c => c.setBit nodeBlocked
        answer .ok)
  | .nodeClearBlocked =>
      unlessOpaque k c (do
        writeNode oid fun c => c.clearBit nodeBlocked
        answer .ok)
  | .nodeClone =>
      unlessOpaque k c (unlessFetch k (do
        ensureWritable oid
        cloneFrom oid .node m.key0))
  | _ => checkKeeper c

def nodeKey (k : Key) (m : Message) : Handler Reply :=
  match objectOf k with
  | none => answer .void
  | some oid => do
      let c ← readNode oid
      nodeRequest k oid c m

def memoryKey (k : Key) (m : Message) : Handler Reply :=
  match m.op with
  | .memoryGetRestrictions => answer .ok k.keyPerms.toNat
  | .memoryReduce =>
      if m.w1 &&& ~~~15 ≠ 0 then answer .requestError
      else answerKey (k.restrict (m.w1.truncate 5))
  | .memoryMakeGuarded => makeGuarded k m
  | .memoryGetGuard => answer .ok (getGuard k)
  | _ => answer .unknownRequest

/-- A case of `GPTKey` that an opaque key does not have. -/
def gptUnlessOpaque (k : Key) (m : Handler Reply) : Handler Reply :=
  if k.hasPerm memoryOpaque then answer .requestError else m

/-- The checks of `setWindow`, which give the offset. -/
def windowOffset (c : NodeContent) (m : Message) : Option (BitVec 64) :=
  match m.str with
  | [lo, hi] =>
      let offset : BitVec 64 := hi ++ lo
      if (m.w2.toNat < 32 ∨ m.w2.toNat = windowBaseSlot) ∧ m.w3 &&& ~~~14 = 0 ∧
          offset.toNat % 2 ^ c.l2v = 0 then some offset
      else none
  | _ => none

/-- The case `setWindow` of `GPTKey`. -/
def setWindow (oid : ℕ) (c : NodeContent) (m : Message) : Handler Reply :=
  withSlot m.w1 fun slot =>
    match windowOffset c m with
    | none => answer .requestError
    | some offset => do
        ensureWritable oid
        writeNode oid fun c => c.setSlot slot
          (numberKeyOf ((m.w3 <<< 8) + m.w2) ((offset >>> 32).truncate 32) (offset.truncate 32))
        answer .ok

def erosPageLgsize : ℕ := 12

/-- The switch of `GPTKey`, for the GPT `oid` with content `c`. -/
def gptRequest (k : Key) (oid : ℕ) (c : NodeContent) (m : Message) : Handler Reply :=
  match m.op with
  | .gptGetL2v => gptUnlessOpaque k (answer .ok c.l2v)
  | .gptSetL2v =>
      gptUnlessOpaque k (
        if m.w1.toNat < 64 ∧ erosPageLgsize ≤ m.w1.toNat then do
          writeNode oid fun c => c.setL2v m.w1.toNat
          answer .ok
        else answer .requestError)
  | .gptGetSlot => gptUnlessOpaque k (withSlot m.w1 fun slot => answerKey (c.slots slot))
  | .gptSetSlot =>
      gptUnlessOpaque k (withSlot m.w1 fun slot => do
        nodeSetSlot oid slot m.key0
        answer .ok)
  | .gptSetWindow => gptUnlessOpaque k (setWindow oid c m)
  | .gptClone =>
      gptUnlessOpaque k (do
        ensureWritable oid
        cloneFrom oid .gpt m.key0)
  | .getType => answerType .gpt
  | .gptSetKeeper =>
      gptUnlessOpaque k (do
        nodeSetSlot oid keeperSlot m.key0
        writeNode oid fun c => c.setBit nodeKeeper
        answer .ok)
  | .gptClearKeeper =>
      gptUnlessOpaque k (do
        writeNode oid fun c => c.clearBit nodeKeeper
        answer .ok)
  | .gptSetBackground =>
      gptUnlessOpaque k (do
        nodeSetSlot oid backgroundSlot m.key0
        writeNode oid fun c => c.setBit nodeBlocked
        answer .ok)
  | .gptClearBackground =>
      gptUnlessOpaque k (do
        writeNode oid fun c => c.clearBit nodeBlocked
        answer .ok)
  | _ => memoryKey k m

/-- An opaque GPT key without other restrictions passes all messages to the keeper. -/
def gptCallsKeeper (k : Key) (c : NodeContent) : Prop :=
  k.hasPerm memoryOpaque ∧ c.hasKeeper ∧ ¬k.hasPerm memoryReadOnly ∧ ¬k.isNoCall ∧
    ¬k.hasPerm memoryWeak

instance (k : Key) (c : NodeContent) : Decidable (gptCallsKeeper k c) :=
  inferInstanceAs (Decidable (_ ∧ _))

def gptKey (k : Key) (m : Message) : Handler Reply :=
  match objectOf k with
  | none => answer .void
  | some oid => do
      let c ← readNode oid
      if gptCallsKeeper k c then
        invokeGateOrVoid (c.slots keeperSlot)
          (some { k with keyPerms := k.keyPerms &&& ~~~memoryOpaque })
      else gptRequest k oid c m

/-- The case `clone` of `PageKey`, behind its check. -/
def pageClone (oid : ℕ) (k : Key) : Handler Reply :=
  match objectOf k with
  | some fromOid =>
      if k.isType .page then do
        ensurePageWritable oid
        let d ← readPage fromOid
        writePage oid d
        answer .ok
      else answer .requestError
  | none => answer .requestError

/-- The case `getNthPage` of `PageKey`. -/
def getNthPage (k : Key) (oid ordinal : ℕ) : Handler Reply := do
  let w ← Prog.get
  match w.nthPage oid ordinal with
  | none => answer .requestError
  | some page => answerKey ⟨.page, k.keyPerms, 0, .prep page⟩

/-- A case of `PageKey` that the restriction `readOnly` rules out. -/
def unlessReadOnly (k : Key) (m : Handler Reply) : Handler Reply :=
  if k.hasPerm memoryReadOnly then answer .noAccess else m

def pageKey (k : Key) (m : Message) : Handler Reply :=
  match objectOf k with
  | none => answer .void
  | some oid =>
      match m.op with
      | .getType => answerType .page
      | .pageZero =>
          unlessReadOnly k (do
            ensurePageWritable oid
            writePage oid fun _ => 0
            answer .ok)
      | .pageClone => unlessReadOnly k (pageClone oid m.key0)
      | .pageGetNthPage => getNthPage k oid m.w1.toNat
      | _ => memoryKey k m

/-- `NumberKey`, without the words of the number. -/
def numberKey (m : Message) : Handler Reply :=
  match m.op with
  | .numberGet => answer .ok
  | .getType => answerType .number
  | _ => answer .unknownRequest

/-- The case `verify` of `DiscrimKey`: the key is discreet. -/
def discreet (k : Key) : Bool :=
  match k.keyType with
  | .page => k.hasPerm memoryReadOnly
  | .node | .gpt => k.hasPerm memoryReadOnly && k.isNoCall && k.hasPerm memoryWeak
  | .number | .discrim | .void => true
  | _ => false

/-- The codes `capros_Discrim_cl*`. -/
def classify (k : Key) : ℕ :=
  match k.keyType with
  | .void => 0
  | .number => 1
  | .resume => 2
  | .page | .node | .gpt => 3
  | .sched => 4
  | _ => 255

/-- The case `compare` of `DiscrimKey`. The words of keys that are not object keys are compared
with themselves. -/
def compareKeys (a b : Key) : Bool :=
  decide (a.keyType = b.keyType) && (!a.isObjectKey || decide (objectOf a = objectOf b)) &&
    decide (a.keyData = b.keyData)

def discrimKey (m : Message) : Handler Reply :=
  match m.op with
  | .discrimClassify => answer .ok (classify m.key0)
  | .discrimVerify => answer .ok (discreet m.key0).toNat
  | .discrimCompare => answer .ok (compareKeys m.key0 m.key1).toNat
  | .getType => answerType .discrim
  | _ => answer .unknownRequest

def voidKey : Handler Reply := answer .void

/-- The invocation of a key of one of these types. -/
def send (k : Key) (m : Message) : Option (Handler Reply) :=
  match k.keyType with
  | .node => some (nodeKey k m)
  | .gpt => some (gptKey k m)
  | .page => some (pageKey k m)
  | .number => some (numberKey m)
  | .discrim => some (discrimKey m)
  | .void => some voidKey
  | _ => none

end CapROS.NodeKey
