import CapROS.ObjectCache.Pages
import Mathlib.Data.Fintype.Pi

/-!
# Cleaning of nodes

Nodes are cleaned into log pots: candidates are collected until there are enough to fill a pot, or
until a pot is forced out, and then a pot is made of them in a page frame of its own. The names are
those of `kern_ObjectCache.c`, `kern_DiskNode.c`, `kern_Key.c` and `kern_ObjectHeader.c`.
-/

namespace CapROS.ObjectCache

open Yielding

/-- Read a node frame. -/
def readNode (n : ℕ) : Kernel NodeFrame := fun s => .done (s.nodes n) s

def updateNode (n : ℕ) (g : NodeFrame → NodeFrame) : Kernel Unit :=
  Prog.modify fun s => s.setNode n (g (s.nodes n))

/-- The frame of the node with this OID. -/
def State.findNode (cfg : Config) (s : State) (oid : ℕ) : Option ℕ :=
  (List.range cfg.nNodes).find? fun n => (s.nodes n).inUse && decide ((s.nodes n).oid = oid)

/-- The frame that `objH_Lookup` finds for a page or pot of type `t`. -/
def State.findFrame (cfg : Config) (s : State) (t : PageType) (oid : ℕ) : Option ℕ :=
  (List.range cfg.nPages).find? fun f =>
    decide ((s.frames f).obType = t) && decide ((s.frames f).oid = oid)

/-- The count that an unprepared key to the object gets: the call count for a Resume key. -/
def State.countFor (cfg : Config) (s : State) (isResume : Bool) (oid : ℕ) : ℕ :=
  match s.findNode cfg oid with
  | some n => if isResume then (s.nodes n).callCount else (s.nodes n).allocCount
  | none =>
      match s.findFrame cfg .dataPage oid with
      | some f => (s.frames f).allocCount
      | none => 0

/-- `key_MakeUnpreparedCopy`. -/
def makeUnpreparedCopy (cfg : Config) (s : State) (k : Key) : Key :=
  match k.body with
  | .prep oid =>
      if k.isObjectKey then
        { k with body := .unprep oid (s.countFor cfg (k.isType .resume) oid) }
      else k
  | _ => k

/-- `node_CopyToDiskNode`. -/
def copyToDiskNode (cfg : Config) (s : State) (nd : NodeFrame) : DiskNode where
  oid := nd.oid
  allocCount := nd.allocCount
  callCount := nd.callCount
  nodeData := nd.nodeData
  slots i := makeUnpreparedCopy cfg s (nd.slots i)

/-- `node_IsNull`. -/
def NodeFrame.IsNull (nd : NodeFrame) : Prop :=
  nd.nodeData = 0 ∧ ∀ i, (nd.slots i).keyType = .void

instance (nd : NodeFrame) : Decidable nd.IsNull := inferInstanceAs (Decidable (_ ∧ _))

/-- What stands in a pot behind the nodes that were put there. -/
def DiskNode.null : DiskNode := ⟨0, 0, 0, 0, fun _ => .void⟩

def addNodeToClean (n : ℕ) : Kernel Unit := do
  let nd ← readNode n
  kcheck nd.dirty
  let s ← Prog.get
  kcheck (s.nodesToClean.length < diskNodesPerPage)
  Prog.when (n ∉ s.nodesToClean)
    (Prog.modify fun s => { s with nodesToClean := s.nodesToClean ++ [n] })

/-- `numKRONodes--`, and the node is no longer kernel-read-only. -/
def nodeClearKRO (n : ℕ) : Kernel Unit := do
  Prog.modify fun s => { s with numKRONodes := s.numKRONodes - 1 }
  let s ← Prog.get
  kcheck (0 ≤ s.numKRONodes)
  updateNode n fun nd => { nd with kro := false }

def nodeClearDirty (n : ℕ) : Kernel Unit := do
  let nd ← readNode n
  Prog.when (nd.kro = true) (nodeClearKRO n)
  updateNode n fun nd => { nd with dirty := false }

/-- The node is no longer a candidate: it was referenced and is not kernel-read-only, or it was
freed. -/
def NodeFrame.noCandidate (nd : NodeFrame) : Bool :=
  (decide (nd.objAge < ageSteal) && !nd.kro) || !nd.inUse

/-- `nodesToClean[i--] = nodesToClean[--numNodesToClean]`. -/
def swapRemove (l : List ℕ) (i : ℕ) : List ℕ := (l.set i (l.getD (l.length - 1) 0)).dropLast

/-- The loop of `CleanAPotOfNodes` that drops candidates. Each round goes on to the next candidate
or makes the list shorter, so there are at most as many rounds as candidates. -/
def dropCandidates (gone : ℕ → Bool) (force : Bool) : ℕ → ℕ → List ℕ → Bool × List ℕ
  | 0, _, l => (true, l)
  | fuel + 1, i, l =>
      if i < l.length then
        if gone (l.getD i 0) then
          if force then dropCandidates gone force fuel i (swapRemove l i)
          else (false, swapRemove l i)
        else dropCandidates gone force fuel (i + 1) l
      else (true, l)

/-- Drop the candidates that no longer are, and say whether a pot is to be made. -/
def reviewCandidates (force : Bool) : Kernel Bool := fun s =>
  let gone := fun n => (s.nodes n).noCandidate
  let (go, l) := dropCandidates gone force s.nodesToClean.length 0 s.nodesToClean
  .done go { s with nodesToClean := l }

/-- The pot made of the nodes. -/
def makePot (cfg : Config) (s : State) (l : List ℕ) : FrameData :=
  .pot fun i =>
    if h : i.val < l.length then copyToDiskNode cfg s (s.nodes (l.get ⟨i.val, h⟩)) else .null

/-- The node has been put into the pot, at the location `logLoc`. -/
def recordNode (n logLoc : ℕ) : Kernel Unit := do
  nodeClearDirty n
  let nd ← readNode n
  recordLocation nd.oid nd.allocCount nd.callCount logLoc .node

/-- The part of `CleanAPotOfNodes` that is committed to creating a log pot, in the frame `f`. -/
def createLogPot (cfg : Config) (res : Resources) (f : ℕ) : Kernel Unit := do
  let lid ← nextLogLoc cfg
  let s ← Prog.get
  let pot := makePot cfg s s.nodesToClean
  noteLogged lid pot
  Prog.forEach (fun (n, i) => recordNode n (lid + i)) s.nodesToClean.zipIdx
  Prog.modify fun s => { s with nodesToClean := [] }
  updateFrame f fun _ =>
    { obType := .logPot
      oid := lid
      data := pot
      keyRing := some [] }
  -- clean it right away if possible
  Prog.when (res.hasRequest = true) (cleanLogPot cfg f)

/-- `CleanAPotOfNodes`: true if it freed some nodes. -/
def cleanAPotOfNodes (cfg : Config) (res : Resources) (force : Bool) : Kernel Bool := do
  let s ← Prog.get
  if s.nodesToClean.length < diskNodesPerPage ∧ ¬force then pure false
  else do
    let go ← reviewCandidates force
    if go then do
      let f ← grabPageFrame cfg res.alloc
      createLogPot cfg res f
      pure true
    else pure false

/-- `node_Clean`: true if it cleaned the node, false if it queued it to be cleaned. -/
def nodeClean (cfg : Config) (res : Resources) (n : ℕ) : Kernel Bool := do
  let nd ← readNode n
  if nd.IsNull then do
    recordLocation nd.oid nd.allocCount nd.callCount 0 .node
    nodeClearDirty n
    pure true
  else do
    addNodeToClean n
    cleanAPotOfNodes cfg res false

def releaseNodeFrame (n : ℕ) : Kernel Unit := do
  let nd ← readNode n
  kcheck (nd.inUse = true)
  kcheck (¬nd.dirty)
  updateNode n fun _ => {}

/-- `objC_AgeNodeFrames`, for a node whose age is `age_Steal`. -/
def ageNodeSteal (cfg : Config) (res : Resources) (n : ℕ) : Kernel Unit := do
  let nd ← readNode n
  let s ← Prog.get
  if nd.inUse ∧ nd.cleanable ∧ nd.objAge = ageSteal then
    if nd.dirty then
      -- during a checkpoint, the current version can't be cleaned
      if s.ckptIsActive ∧ ¬nd.kro then pure ()
      else do
        let cleaned ← nodeClean cfg res n
        Prog.when (cleaned = true) (releaseNodeFrame n)
    else releaseNodeFrame n
  else pure ()

/-- Force out the last pot. -/
def forceLastPot (cfg : Config) (res : Resources) : Kernel Unit := do
  let s ← Prog.get
  if s.nodesToClean = [] then pure ()
  else do
    let _ ← cleanAPotOfNodes cfg res true
    pure ()

/-- `CleanAKRONode`: true if it cleaned one, false if there are no more. -/
def cleanAKRONode (cfg : Config) (res : Resources) : Kernel Bool := do
  let s ← Prog.get
  kcheck (s.nodesToClean.length < diskNodesPerPage)
  match (List.range cfg.nNodes).find? fun n => decide (s.kroNodeCleanCursor ≤ n) && (s.nodes n).kro
  with
  | some n => do
      Prog.modify fun s => { s with kroNodeCleanCursor := n + 1 }
      let _ ← nodeClean cfg res n
      pure true
  | none => do
      Prog.modify fun s => { s with kroNodeCleanCursor := cfg.nNodes }
      forceLastPot cfg res
      let s ← Prog.get
      kcheck (s.numKRONodes = 0)
      pure false

/-- The loop of `node_MitigateKRO`: keep cleaning nodes until the node `n` is cleaned. -/
def cleanUntilWritable (cfg : Config) (res : ℕ → Resources) (n : ℕ) : ℕ → Kernel Unit
  | 0 => Prog.halt .diverged
  | fuel + 1 => do
      let nd ← readNode n
      if nd.kro then do
        let _ ← cleanAKRONode cfg (res fuel)
        cleanUntilWritable cfg res n fuel
      else pure ()

/-- `node_MitigateKRO`. The loop comes to the end of the nodes in `nNodes + 1` rounds. -/
def nodeMitigateKRO (cfg : Config) (res : ℕ → Resources) (n : ℕ) : Kernel Unit := do
  let nd ← readNode n
  kcheck (nd.inUse = true)
  kcheck (nd.cleanable ∧ nd.dirty ∧ nd.kro)
  let _ ← cleanAPotOfNodes cfg (res (cfg.nNodes + 3)) false
  let nd ← readNode n
  if nd.kro then do
    let cleaned ← nodeClean cfg (res (cfg.nNodes + 2)) n
    if cleaned then pure () else cleanUntilWritable cfg res n (cfg.nNodes + 2)
  else pure ()

/-- The part of `objH_EnsureWritable` at and after the label `ckptActive`, for a node. -/
def ensureWritableNodeActive (cfg : Config) (res : ℕ → Resources) (sp : Space) (n : ℕ) :
    Kernel Unit := do
  checkNextSpace sp
  let nd ← readNode n
  Prog.when (nd.kro = true) (nodeMitigateKRO cfg res n)
  updateNode n fun nd => { nd with dirty := true }

/-- The part of `objH_EnsureWritable` for a node while no checkpoint is active. -/
def ensureWritableNodeInactive (cfg : Config) (res : ℕ → Resources) (sp : Space) (n : ℕ) :
    Kernel Unit := do
  let nd ← readNode n
  kcheck (¬nd.kro)
  if sp.low then do
    declareDemarcationEvent
    ensureWritableNodeActive cfg res sp n
  else do
    kcheck sp.enoughWorkingDirEnts
    updateNode n fun nd => { nd with dirty := true }

/-- `objH_EnsureWritable`, for a node. -/
def ensureWritableNode (cfg : Config) (res : ℕ → Resources) (sp : Space) (n : ℕ) :
    Kernel Unit := do
  let nd ← readNode n
  if nd.dirty ∧ ¬nd.kro then pure ()
  else do
    kcheck nd.cleanable
    let s ← Prog.get
    if s.ckptState = .notActive then ensureWritableNodeInactive cfg res sp n
    else ensureWritableNodeActive cfg res sp n

/-- The content of a node is changed, which is done only while it is dirty and not
kernel-read-only. -/
def storeNode (n : ℕ) (nodeData : BitVec 16) (slots : Fin 32 → Key) (callCount : ℕ) :
    Kernel Unit := do
  let nd ← readNode n
  Prog.when (nd.inUse ∧ nd.dirty ∧ ¬nd.kro)
    (updateNode n fun nd => { nd with nodeData, slots, callCount })

/-- A node is referenced, or grows older. -/
def setNodeAge (n objAge : ℕ) : Kernel Unit := updateNode n fun nd => { nd with objAge }

/-- `pageH_GetNodeFromPot`, with `node_SetEqualTo`, into the free node frame `n`. -/
def getNodeFromPot (n f : ℕ) (obIndex : Fin diskNodesPerPage) : Kernel Unit := do
  let nd ← readNode n
  let fr ← readFrame f
  if nd.inUse ∨ fr.fetching then Prog.yield
  else
    match fr.data with
    | .pot nodes =>
        let dn := nodes obIndex
        updateNode n fun _ =>
          { inUse := true
            oid := dn.oid
            allocCount := dn.allocCount
            callCount := dn.callCount
            nodeData := dn.nodeData
            slots := dn.slots
            cleanable := true }
    | .page _ => Prog.yield

/-- `CreateNewNullObject`, for a node, into the free node frame `n`. -/
def createNewNullNode (n oid allocCount : ℕ) : Kernel Unit := do
  let nd ← readNode n
  if nd.inUse then Prog.yield
  else
    updateNode n fun _ =>
      { inUse := true
        oid
        allocCount
        callCount := allocCount
        dirty := true
        cleanable := oidIsPersistent oid }

/-- The body of the loop over all nodes in `DoPhase1Work`. -/
def demarcateNode (n : ℕ) : Kernel Unit := do
  let nd ← readNode n
  if nd.inUse ∧ oidIsPersistent nd.oid ∧ nd.dirty then do
    kcheck (¬nd.kro)
    Prog.modify fun s => { s with numKRONodes := s.numKRONodes + 1 }
    updateNode n fun nd => { nd with kro := true }
  else pure ()

end CapROS.ObjectCache
