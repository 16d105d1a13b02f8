import CapROS.ObjSpace.Basic
import CapROS.RbTree.Basic
import CapROS.SpaceBank.Limits

/-!
# The allocation trees

The allocation tree of a bank (`AllocTree.c`) tells which objects the bank has allocated. Each node of
the tree stands for eight frames and has a map for each of them, in which a bit is set for each object
in use. The trees of all banks, and the list of the free nodes, share their nodes and `TREE_NIL`. What
is only printed is left out; `kpanic` prints, and the space bank goes on. `malloc` always finds room: the pages
that it takes for the nodes are not counted.

* `allocTreeInsertOIDs`, `clearOID`, `allocTreeFindOID`: the objects of one tree.
-/

namespace CapROS.SpaceBank

open LinkedTree ObjSpace
open RbTree (Failure Heap nullPtr treeFind treeInsert treeRemove)

def sbFramesPerTreenode : ℕ := 8

def sbObjectsPerTreenode : ℕ := ObjSpace.objectsPerFrame * sbFramesPerTreenode

def mapBits : ℕ := 16

/-- `TREEBODY`. The type of a frame is valid only if its map is not 0. -/
structure TreeBody where
  type : Fin 8 → BaseType
  map : Fin 8 → BitVec 16

/-- The fields of the nodes, the head of the list of the free nodes, which are linked by their parent
links, and the first address that `malloc` has not handed out. -/
structure TreeNodes where
  links : Links
  value : ℕ → ℕ
  body : ℕ → TreeBody
  freehead : ℕ
  top : ℕ

namespace TreeNodes

variable (N : TreeNodes)

/-- The tree with the given root, as the library sees it. -/
def heap (root : ℕ) : Heap ℕ := { links := N.links.setRoot root, value := N.value }

/-- What the library has made of the nodes. -/
def setHeap (H : Heap ℕ) : TreeNodes := { N with links := H.links, value := H.value }

def setBody (n : ℕ) (b : TreeBody) : TreeNodes := { N with body := Function.update N.body n b }

end TreeNodes

/-- The key of the node for an object, `FLOOR2(oid, SB_OBJECTS_PER_TREENODE)`. -/
def treeKey (oid : ℕ) : ℕ := oid / sbObjectsPerTreenode * sbObjectsPerTreenode

/-- The frame of the object within the node. -/
def frameOffset (oid : ℕ) : Fin 8 := Fin.ofNat 8 (oid / ObjSpace.objectsPerFrame)

/-- The number of the object within its frame. -/
def objNum (oid : ℕ) : ℕ := oid % ObjSpace.objectsPerFrame

/-! ## The list of the free nodes -/

/-- `NUM_NODES` new nodes are put on the list, the last one first. -/
def addNodes : ℕ → TreeNodes → TreeNodes
  | 0, N => N
  | x + 1, N => addNodes x { N with links := N.links.setParent (N.top + x) N.freehead, freehead := N.top + x }

/-- The part of `tree_newNode` that gets more nodes from `malloc`. -/
def refill (N : TreeNodes) : TreeNodes :=
  if N.freehead = nullPtr then { addNodes 8 N with top := N.top + 8 } else N

/-- `tree_newNode`. The types are left as they are. -/
def treeNewNode (N : TreeNodes) (key : ℕ) : ℕ × TreeNodes :=
  let N := refill N
  let newNode := N.freehead
  let L := ((N.links.setChild .left newNode 0).setChild .right newNode 0).setParent newNode 0
  (newNode, { N with
    freehead := N.links.parent newNode
    links := L.setColor newNode .black
    value := Function.update N.value newNode key
    body := Function.update N.body newNode { N.body newNode with map := fun _ => 0#16 } })

def treeDeleteNode (N : TreeNodes) (node : ℕ) : TreeNodes :=
  if node ≠ nullPtr ∧ node ≠ 0 then
    { N with links := N.links.setParent node N.freehead, freehead := node }
  else N

/-! ## The objects of one tree -/

/-- The object whose node was used last is looked for in that node. `TREE_NIL` has a value that is no
key. -/
def findFrom (fuel : ℕ) (N : TreeNodes) (root last oid : ℕ) : Except Failure ℕ :=
  if treeKey oid = N.value last then .ok last else treeFind fuel (N.heap root) (treeKey oid)

/-- The bits for `count` objects from the object on. -/
def insertMask (oid count : ℕ) : BitVec 16 := BitVec.ofNat 16 ((2 ^ count - 1) * 2 ^ objNum oid)

/-- The part of `allocTree_insertOIDs` that finds the node, or makes one. -/
def insertNode (fuel : ℕ) (N : TreeNodes) (T : AllocTree) (oid : ℕ) :
    Except Failure (ℕ × TreeNodes × AllocTree) := do
  RbTree.assert (treeKey oid ≠ N.value T.lastInsert → T.root ≠ nullPtr)
  let theNode ← findFrom fuel N T.root T.lastInsert oid
  if theNode = 0 then do
    let (theNode, N) := treeNewNode N (treeKey oid)
    let H ← treeInsert fuel (N.heap T.root) theNode
    .ok (theNode, N.setHeap H, { T with root := H.links.root, lastInsert := theNode })
  else .ok (theNode, N, { T with lastInsert := theNode })

/-- `allocTree_insertOIDs`, with its result. A frame has `perFrame` objects of its type. -/
def allocTreeInsertOIDs (perFrame : BaseType → ℕ) (fuel : ℕ) (N : TreeNodes) (T : AllocTree) (type : BaseType)
    (oid count : ℕ) : Except Failure (Bool × TreeNodes × AllocTree) := do
  let (theNode, N, T) ← insertNode fuel N T oid
  let b := N.body theNode
  let offset := frameOffset oid
  if b.map offset ≠ 0#16 ∧ b.type offset ≠ type then .ok (false, N, T)
  else if perFrame type < count + objNum oid then .ok (false, N, T)
  else
    let types := if b.map offset = 0#16 then Function.update b.type offset type else b.type
    let maps := Function.update b.map offset (b.map offset ||| insertMask oid count)
    .ok (true, N.setBody theNode { type := types, map := maps }, T)

/-- What `allocTree_removeOID` finds. -/
inductive RemoveResult where
  /-- The object is not in the tree, or has another type. -/
  | notFound
  /-- The object was in the tree, and others of its frame still are. -/
  | removed
  /-- The object was the last one of its frame. -/
  | frameEmpty
  deriving DecidableEq, Repr

/-- The part of `allocTree_removeOID` for a node none of whose frames has objects any more. -/
def removeNode (fuel : ℕ) (N : TreeNodes) (T : AllocTree) (theNode : ℕ) :
    Except Failure (TreeNodes × AllocTree) := do
  let H ← treeRemove fuel (N.heap T.root) theNode
  .ok (treeDeleteNode (N.setHeap H) theNode, { root := H.links.root, lastInsert := 0, lastRemove := 0 })

/-- `allocTree_removeOID`, up to the release of a frame that has become empty. -/
def clearOID (fuel : ℕ) (N : TreeNodes) (T : AllocTree) (type : BaseType) (oid : ℕ) :
    Except Failure (RemoveResult × TreeNodes × AllocTree) := do
  let theNode ← findFrom fuel N T.root T.lastRemove oid
  if theNode = 0 then .ok (.notFound, N, T)
  else do
    let T := { T with lastRemove := theNode }
    let b := N.body theNode
    let curMap := b.map (frameOffset oid)
    if curMap = 0#16 then .ok (.notFound, N, T)
    else if b.type (frameOffset oid) ≠ type then .ok (.notFound, N, T)
    else if curMap.getLsbD (objNum oid) = false then .ok (.notFound, N, T)
    else do
      let curMap := curMap &&& ~~~(1#16 <<< objNum oid)
      let maps := Function.update b.map (frameOffset oid) curMap
      let N := N.setBody theNode { b with map := maps }
      if curMap = 0#16 then
        if ∀ x, maps x = 0#16 then do
          let (N, T) ← removeNode fuel N T theNode
          .ok (.frameEmpty, N, T)
        else .ok (.frameEmpty, N, T)
      else .ok (.removed, N, T)

/-- The first bit of the map that `allocTree_findOID` sees: its mask has eight bits. -/
def findSubOb (map : BitVec 16) : Option ℕ :=
  (List.range mapBits).find? fun subOb => (map &&& (BitVec.ofNat 8 (2 ^ subOb)).setWidth 16) ≠ 0#16

/-- The loop of `allocTree_findOID` over the frames of a node. -/
def findInBody (value : ℕ) (b : TreeBody) : Option ℕ :=
  (List.finRange 8).findSome? fun index =>
    (findSubOb (b.map index)).map fun subOb => value + index.val * ObjSpace.objectsPerFrame + subOb

def allocTreeFindOID (N : TreeNodes) (T : AllocTree) : Option ℕ :=
  if T.root = 0 then none else findInBody (N.value T.root) (N.body T.root)

/-! ## Two trees -/

/-- The frames of `b` are added to those of `a`. -/
def TreeBody.merge (a b : TreeBody) : TreeBody where
  type idx := if b.map idx ≠ 0#16 then b.type idx else a.type idx
  map idx := if b.map idx ≠ 0#16 then b.map idx else a.map idx

/-- The loop of `allocTree_mergeTrees`, for the root of the destination and that of the source, with
the root of the destination at the end. -/
def mergeLoop (fuel : ℕ) : ℕ → TreeNodes → ℕ → ℕ → Except Failure (ℕ × TreeNodes)
  | 0, _, _, _ => .error .diverged
  | n + 1, N, dest, curNode =>
      if curNode = 0 then .ok (dest, N)
      else do
        let H ← treeRemove fuel (N.heap curNode) curNode
        let N := N.setHeap H
        let src := H.links.root
        let destNode ← treeFind fuel (N.heap dest) (N.value curNode)
        if destNode = 0 then do
          let H ← treeInsert fuel (N.heap dest) curNode
          mergeLoop fuel n (N.setHeap H) H.links.root src
        else
          let N := N.setBody destNode ((N.body destNode).merge (N.body curNode))
          mergeLoop fuel n (treeDeleteNode N curNode) dest src

/-- `allocTree_mergeTrees`, with the nodes, the destination and the source at the end. -/
def allocTreeMergeTrees (fuel : ℕ) (N : TreeNodes) (dest src : AllocTree) :
    Except Failure (TreeNodes × AllocTree × AllocTree) := do
  let (root, N) ← mergeLoop fuel fuel N dest.root src.root
  .ok (N, { dest with root := root }, { root := 0, lastInsert := 0, lastRemove := 0 })

end CapROS.SpaceBank
