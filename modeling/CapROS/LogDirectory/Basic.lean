import CapROS.Kernel.Types
import CapROS.Theory.LinkedTree

/-!
# The log directory

The log directory (`kern_LogDirectory.c`) records where in the log each object is. Its entries are
`TreeNode`s. Each node in use stands in a red-black tree, ordered by OID, and in the chain of its
generation, a circular doubly linked list. The nodes that are not in use form the free list.

`logDirNodes[i]` has the address `i + 1`. The address 0 is `TREE_NIL` in the links of the tree and
the null pointer in those of the chains. The fields of the nodes are functions of the address. The
two rotations, and the two halves of each of the two procedures that restore the colours, are each
other's mirror images and are written once, for a direction.
-/

namespace CapROS.LogDirectory

open LinkedTree
open Function (update)

/-- The ways in which a procedure of the log directory stops the kernel. -/
inductive Failure where
  /-- An assertion fails, other than the next one. -/
  | assertion
  /-- `alloc_node` finds the free list empty. -/
  | outOfNodes
  /-- `get_generation_index` is called for a generation that is not in the table. -/
  | invalidGeneration
  /-- `ld_recordLocation` finds no room for a new generation in the table. -/
  | tooManyGenerations
  /-- The null pointer is dereferenced. -/
  | nullDeref
  /-- A loop goes round more often than there are nodes. -/
  | diverged
  deriving DecidableEq, Repr

/-- `assert(p)`, or another check. -/
def ensure (p : Prop) [Decidable p] (e : Failure) : Except Failure Unit :=
  if p then .ok () else .error e

structure ObjectDescriptor where
  oid : ℕ
  allocCount : ℕ
  callCount : ℕ
  logLoc : ℕ
  obType : ℕ
  deriving DecidableEq, Repr

/-- `GT`: an entry of the generation table. -/
structure GT where
  head : ℕ := 0
  cursor : ℕ := 0
  count : ℕ := 0
  deriving DecidableEq, Repr

def ldMaxGenerations : ℕ := 15

/-- The variables of the log directory, with the fields of all the `TreeNode`s. -/
structure Directory where
  numLogDirEntries : ℕ
  /-- `log_directory`, and the fields `left`, `right`, `parent` and `color` of the nodes. -/
  tree : Links
  generation : ℕ → ℕ
  od : ℕ → ObjectDescriptor
  ppGenerationDelta : ℕ → ℕ
  ppLogLoc : ℕ → ℕ
  next : ℕ → ℕ
  prev : ℕ → ℕ
  freeList : ℕ
  /-- `generation_table`, whose index is below `LD_MAX_GENERATIONS`. -/
  table : ℕ → GT
  highestGeneration : ℕ
  logEntryCount : ℕ
  lastRetiredGeneration : ℕ

/-- More rounds than any loop over the nodes of the tree makes. -/
def Directory.fuel (D : Directory) : ℕ := D.numLogDirEntries + 2

/-! ## Nodes and chains -/

def allocNode (D : Directory) : Except Failure (ℕ × Directory) := do
  ensure (D.freeList ≠ 0) .outOfNodes
  .ok (D.freeList,
    { D with freeList := D.next D.freeList, logEntryCount := D.logEntryCount + 1 })

def freeNode (D : Directory) (tn : ℕ) : Except Failure Directory := do
  ensure (0 < D.logEntryCount) .assertion
  .ok { D with
    next := update D.next tn D.freeList
    freeList := tn
    logEntryCount := D.logEntryCount - 1 }

def getGenerationIndex (D : Directory) (generation : ℕ) : Except Failure ℕ := do
  ensure (generation ≤ D.highestGeneration ∧
    D.highestGeneration - generation < ldMaxGenerations) .invalidGeneration
  .ok (D.highestGeneration - generation)

/-- `chain_node`, after the index has been found: the new node comes after the head. -/
def chainAt (D : Directory) (gti n : ℕ) : Except Failure Directory :=
  let g := D.table gti
  if g.head = 0 then
    .ok { D with
      table := update D.table gti { g with head := n, count := g.count + 1 }
      next := update D.next n n
      prev := update D.prev n n }
  else do
    let next := update D.next n (D.next g.head)
    ensure (next g.head ≠ 0) .nullDeref
    .ok { D with
      table := update D.table gti { g with count := g.count + 1 }
      next := update next g.head n
      prev := update (update D.prev (next g.head) n) n g.head }

def chainNode (D : Directory) (n : ℕ) : Except Failure Directory := do
  let gti ← getGenerationIndex D (D.generation n)
  chainAt D gti n

/-- The head after `n` has been taken out of the chain. -/
def GT.headWithout (g : GT) (prev : ℕ → ℕ) (n : ℕ) : ℕ :=
  let head := if g.head = n then prev n else g.head
  if head = n then 0 else head

/-- The cursor after `n` has been taken out of the chain. -/
def GT.cursorWithout (g : GT) (next prev : ℕ → ℕ) (n : ℕ) : ℕ :=
  let cursor := if g.cursor = n then next n else g.cursor
  if cursor = g.headWithout prev n then 0 else cursor

/-- `unchain_node`, after the index has been found. -/
def unchainAt (D : Directory) (gti n : ℕ) : Except Failure Directory := do
  let g := D.table gti
  ensure (0 < g.count) .assertion
  ensure (D.prev n ≠ 0 ∧ D.next n ≠ 0) .nullDeref
  .ok { D with
    table := update D.table gti
      { head := g.headWithout D.prev n
        cursor := g.cursorWithout D.next D.prev n
        count := g.count - 1 }
    next := update (update D.next (D.prev n) (D.next n)) n n
    prev := update (update D.prev (D.next n) (D.prev n)) n n }

def unchainNode (D : Directory) (n : ℕ) : Except Failure Directory := do
  let gti ← getGenerationIndex D (D.generation n)
  unchainAt D gti n

/-! ## The red-black tree -/

/-- `if (i != TREE_NIL) i->parent = v`. -/
def setParentIf (L : Links) (i v : ℕ) : Links := if i ≠ 0 then L.setParent i v else L

/-- The link to `y` from its parent, or from the head of the tree, becomes a link to `x`. If `y` is
not the child on side `d` of its parent, it is taken to be the other one. -/
def replaceChild (d : Dir) (L : Links) (y x : ℕ) : Links :=
  if L.parent y = 0 then L.setRoot x
  else if y = L.child d (L.parent y) then L.setChild d (L.parent y) x
  else L.setChild d.flip (L.parent y) x

/-- `rb_tree_leftrotate` and `rb_tree_rightrotate`: `y` goes down on side `d`, and its child on the
other side takes its place. -/
def rotate (d : Dir) (L : Links) (y : ℕ) : Except Failure Links := do
  let x := L.child d.flip y
  ensure (x ≠ 0) .assertion
  let L := L.setChild d.flip y (L.child d x)
  let L := setParentIf L (L.child d.flip y) y
  let L := L.setParent x (L.parent y)
  let L := replaceChild d L y x
  let L := L.setChild d x y
  let L := setParentIf L y x
  ensure (L.parent L.root = 0) .assertion
  .ok L

/-- The side of its parent on which `x` is taken to be. -/
def sideOf (L : Links) (x : ℕ) : Dir := if x = L.child .left (L.parent x) then .left else .right

/-- The part of `tree_insert_fixup` that turns an inner grandchild into an outer one: the node to go
on with. -/
def straighten (L : Links) (e : Dir) (x : ℕ) : Except Failure (ℕ × Links) :=
  if x = L.child e.flip (L.parent x) then do
    let L' ← rotate e L (L.parent x)
    .ok (L.parent x, L')
  else .ok (x, L)

/-- The last steps of `tree_insert_fixup` for a node whose uncle is black. -/
def rotateGrandparent (L : Links) (e : Dir) (x : ℕ) : Except Failure Links :=
  let L := L.setColor (L.parent x) .black
  let L := L.setColor (L.parent (L.parent x)) .red
  rotate e.flip L (L.parent (L.parent x))

/-- The loop of `tree_insert_fixup`. -/
def insertFixupLoop : ℕ → Links → ℕ → Except Failure Links
  | 0, _, _ => .error .diverged
  | fuel + 1, L, x =>
      if x ≠ L.root ∧ L.color (L.parent x) = .red then
        let e := sideOf L (L.parent x)
        let y := L.child e.flip (L.parent (L.parent x))
        if L.color y = .red then
          let L := L.setColor (L.parent x) .black
          let L := L.setColor y .black
          let L := L.setColor (L.parent (L.parent x)) .red
          insertFixupLoop fuel L (L.parent (L.parent x))
        else do
          let (x, L) ← straighten L e x
          let L ← rotateGrandparent L e x
          insertFixupLoop fuel L x
      else .ok L

def treeInsertFixup (fuel : ℕ) (L : Links) (x : ℕ) : Except Failure Links := do
  ensure (L.color 0 = .black) .assertion
  let L ← insertFixupLoop fuel L x
  ensure (L.color 0 = .black) .assertion
  .ok L

/-- The first step of a round of `remove_fixup`: a red sibling is rotated away. -/
def liftRedSibling (d : Dir) (L : Links) (x : ℕ) : Except Failure Links :=
  let w := L.child d.flip (L.parent x)
  if L.color w = .red then
    let L := L.setColor w .black
    let L := L.setColor (L.parent x) .red
    rotate d L (L.parent x)
  else .ok L

/-- The step of `remove_fixup` that makes the outer child of the sibling red. -/
def reddenOuter (d : Dir) (L : Links) (x : ℕ) : Except Failure Links :=
  let w := L.child d.flip (L.parent x)
  if L.color (L.child d.flip w) = .black then
    let L := L.setColor (L.child d w) .black
    let L := L.setColor w .red
    rotate d.flip L w
  else .ok L

/-- The last steps of `remove_fixup` for a sibling with a red outer child. -/
def rotateParent (d : Dir) (L : Links) (x : ℕ) : Except Failure Links :=
  let w := L.child d.flip (L.parent x)
  let L := L.setColor w (L.color (L.parent x))
  let L := L.setColor (L.parent x) .black
  let L := L.setColor (L.child d.flip w) .black
  rotate d L (L.parent x)

/-- The loop of `remove_fixup`, with the node at which it ends. The left half asserts that there is
a sibling; the right half does not. -/
def removeFixupLoop : ℕ → Links → ℕ → Except Failure (ℕ × Links)
  | 0, _, _ => .error .diverged
  | fuel + 1, L, x =>
      if x ≠ L.root ∧ L.color x = .black then do
        let d := sideOf L x
        ensure (d = .left → L.child .right (L.parent x) ≠ 0) .assertion
        let L ← liftRedSibling d L x
        let w := L.child d.flip (L.parent x)
        if L.color (L.child .left w) = .black ∧ L.color (L.child .right w) = .black then
          removeFixupLoop fuel (L.setColor w .red) (L.parent x)
        else do
          let L ← reddenOuter d L x
          let L ← rotateParent d L x
          removeFixupLoop fuel L L.root
      else .ok (x, L)

def removeFixup (fuel : ℕ) (L : Links) (x : ℕ) : Except Failure Links := do
  ensure (L.color 0 = .black) .assertion
  if L.parent x = 0 then .ok L
  else do
    let (x, L) ← removeFixupLoop fuel L x
    let L := L.setColor x .black
    ensure (L.parent L.root = 0) .assertion
    ensure (L.color 0 = .black) .assertion
    .ok L

/-- The loop of `rbtree_do_min`. -/
def doMinLoop (L : Links) : ℕ → ℕ → Except Failure ℕ
  | 0, _ => .error .diverged
  | fuel + 1, n => if L.child .left n ≠ 0 then doMinLoop L fuel (L.child .left n) else .ok n

def rbtreeDoMin (fuel : ℕ) (L : Links) (n : ℕ) : Except Failure ℕ :=
  if n = 0 then .ok 0 else doMinLoop L fuel n

/-- The loop of `rbtree_succ` that climbs the tree. -/
def climbLoop (L : Links) : ℕ → ℕ → ℕ → Except Failure ℕ
  | 0, _, _ => .error .diverged
  | fuel + 1, x, y =>
      if y ≠ 0 ∧ x = L.child .right y then climbLoop L fuel y (L.parent y) else .ok y

def rbtreeSucc (fuel : ℕ) (L : Links) (x : ℕ) : Except Failure ℕ :=
  if x = 0 then .ok 0
  else if L.child .right x ≠ 0 then rbtreeDoMin fuel L (L.child .right x)
  else climbLoop L fuel x (L.parent x)

/-- The loop of `find_node`; 0 stands for `NULL`. -/
def findLoop (D : Directory) (oid : ℕ) : ℕ → ℕ → Except Failure ℕ
  | 0, _ => .error .diverged
  | fuel + 1, n =>
      if n = 0 then .ok 0
      else if oid = (D.od n).oid then .ok n
      else if oid < (D.od n).oid then findLoop D oid fuel (D.tree.child .left n)
      else findLoop D oid fuel (D.tree.child .right n)

def findNode (D : Directory) (oid : ℕ) : Except Failure ℕ := findLoop D oid D.fuel D.tree.root

/-! ## Insertion -/

/-- Where the search of `binary_insert` ends. -/
inductive InsertAt where
  /-- There is a node for the object. -/
  | found (x : ℕ)
  /-- There is none, and `y` is to be the parent of a new one. -/
  | under (y : ℕ)
  deriving DecidableEq, Repr

/-- The children of `x` have `x` as their parent. -/
def ChildrenLinked (L : Links) (x : ℕ) : Prop :=
  (L.child .left x = 0 ∨ L.parent (L.child .left x) = x) ∧
    (L.child .right x = 0 ∨ L.parent (L.child .right x) = x)

instance (L : Links) (x : ℕ) : Decidable (ChildrenLinked L x) := inferInstanceAs (Decidable (_ ∧ _))

/-- The loop of `binary_insert`. -/
def insertSearch (D : Directory) (oid : ℕ) : ℕ → ℕ → ℕ → Except Failure InsertAt
  | 0, _, _ => .error .diverged
  | fuel + 1, y, x =>
      if x = 0 then .ok (.under y)
      else do
        ensure (ChildrenLinked D.tree x) .assertion
        if oid = (D.od x).oid then .ok (.found x)
        else if oid < (D.od x).oid then insertSearch D oid fuel x (D.tree.child .left x)
        else insertSearch D oid fuel x (D.tree.child .right x)

/-- The old location is kept as the previous one if it may be needed for a journal write. -/
def KeepsPrevious (D : Directory) (x : ℕ) (od : ObjectDescriptor) (generation : ℕ) : Prop :=
  D.generation x < generation ∧ D.lastRetiredGeneration < D.generation x ∧
    (D.od x).allocCount = od.allocCount ∧ (D.od x).callCount = od.callCount ∧
    (D.od x).obType = od.obType

instance (D : Directory) (x : ℕ) (od : ObjectDescriptor) (generation : ℕ) :
    Decidable (KeepsPrevious D x od generation) :=
  inferInstanceAs (Decidable (_ ∧ _ ∧ _ ∧ _ ∧ _))

/-- The fields of `x` after the new location has been recorded. -/
def setPrevious (D : Directory) (x : ℕ) (od : ObjectDescriptor) (generation : ℕ) :
    Except Failure Directory :=
  if KeepsPrevious D x od generation then do
    ensure (generation - D.generation x < 0xff) .assertion
    .ok { D with
      ppGenerationDelta := update D.ppGenerationDelta x (generation - D.generation x)
      ppLogLoc := update D.ppLogLoc x (D.od x).logLoc }
  else .ok { D with ppGenerationDelta := update D.ppGenerationDelta x 0 }

/-- `x->od = *od; x->generation = generation`. -/
def setEntry (D : Directory) (x : ℕ) (od : ObjectDescriptor) (generation : ℕ) : Directory :=
  { D with
    od := update D.od x od
    generation := update D.generation x generation }

/-- The part of `binary_insert` for an object that has a node. -/
def updateNode (D : Directory) (x : ℕ) (od : ObjectDescriptor) (generation : ℕ) :
    Except Failure Directory := do
  let D ← unchainNode D x
  let D ← setPrevious D x od generation
  chainNode (setEntry D x od generation) x

/-- The links of a new node below `y`. -/
def attachLeaf (L : Links) (left : Bool) (tn y : ℕ) : Links :=
  let L := ((L.setChild .left tn 0).setChild .right tn 0).setParent tn y
  if y = 0 then L.setRoot tn
  else if left then L.setChild .left y tn
  else L.setChild .right y tn

/-- The part of `binary_insert` for an object that has no node. -/
def insertNode (D : Directory) (y : ℕ) (od : ObjectDescriptor) (generation : ℕ) :
    Except Failure (ℕ × Directory) := do
  let (tn, D) ← allocNode D
  let D := setEntry { D with ppGenerationDelta := update D.ppGenerationDelta tn 0 } tn od
    generation
  let D ← chainNode D tn
  let L := attachLeaf D.tree (decide (od.oid < (D.od y).oid)) tn y
  ensure (y ≠ 0 → ChildrenLinked L y) .assertion
  ensure (L.parent L.root = 0) .assertion
  .ok (tn, { D with tree := L })

/-- The part of `ld_recordLocation` after the insertion of a new node. -/
def colorNewNode (fuel : ℕ) (L : Links) (tn : ℕ) : Except Failure Links := do
  let L ← treeInsertFixup fuel (L.setColor tn .red) tn
  let L := L.setColor L.root .black
  ensure (L.parent L.root = 0) .assertion
  ensure (L.color 0 = .black) .assertion
  .ok L

/-- `binary_insert`, with what `ld_recordLocation` does after it. -/
def binaryInsert (D : Directory) (od : ObjectDescriptor) (generation : ℕ) :
    Except Failure Directory := do
  match ← insertSearch D od.oid D.fuel 0 D.tree.root with
  | .found x => updateNode D x od generation
  | .under y => do
      let (tn, D) ← insertNode D y od generation
      let L ← colorNewNode D.fuel D.tree tn
      .ok { D with tree := L }

/-! ## Removal -/

/-- The node that `tree_remove_node` takes out of the tree. -/
def nodeToSplice (fuel : ℕ) (L : Links) (z : ℕ) : Except Failure ℕ :=
  if L.child .left z = 0 ∨ L.child .right z = 0 then .ok z else rbtreeSucc fuel L z

/-- The only child of the node that is taken out. -/
def onlyChild (L : Links) (y : ℕ) : ℕ :=
  if L.child .left y ≠ 0 then L.child .left y else L.child .right y

/-- The child `x` takes the place of `y`. -/
def spliceOut (L : Links) (y x : ℕ) : Links :=
  replaceChild .left (L.setParent x (L.parent y)) y x

/-- The node `z` gives its entry up for another one. -/
def swapEntry (D : Directory) (z : ℕ) (od : ObjectDescriptor) (generation : ℕ) :
    Except Failure Directory := do
  let D ← unchainNode D z
  chainNode (setEntry D z od generation) z

/-- The node `y` takes the place of `z` in the tree. -/
def replaceNode (L : Links) (y z : ℕ) : Links :=
  let L := L.setParent y (L.parent z)
  let L := (L.setChild .left y (L.child .left z)).setChild .right y (L.child .right z)
  let L := L.setColor y (L.color z)
  let L := if L.parent y ≠ 0 then
      if L.child .left (L.parent y) = z then L.setChild .left (L.parent y) y
      else L.setChild .right (L.parent y) y
    else L
  let L := setParentIf L (L.child .left y) y
  let L := setParentIf L (L.child .right y) y
  if L.root = z then L.setRoot y else L

/-- The restoring of the colours, if the node that was taken out is black. -/
def fixupIfBlack (fuel : ℕ) (L : Links) (y x : ℕ) : Except Failure Links :=
  if L.color y = .black then removeFixup fuel L x else .ok L

/-- The case of `tree_remove_node` in which `z` itself is taken out. -/
def removeSpliced (D : Directory) (z x : ℕ) : Except Failure Directory := do
  let L ← fixupIfBlack D.fuel D.tree z x
  .ok { D with tree := L }

/-- The case of `tree_remove_node` in which the successor `y` of `z` is taken out: `z` has the
entry of `y` while the colours are restored, and then `y` takes the place of `z`. -/
def removeExchanged (D : Directory) (z y x : ℕ) : Except Failure Directory := do
  let zvalue := D.od z
  let generation := D.generation z
  let D ← swapEntry D z (D.od y) (D.generation y)
  let L ← fixupIfBlack D.fuel D.tree y x
  let D ← swapEntry { D with tree := L } z zvalue generation
  let L := replaceNode D.tree y z
  ensure (L.color 0 = .black) .assertion
  .ok { D with tree := L }

def treeRemoveNode (D : Directory) (z : ℕ) : Except Failure Directory := do
  ensure (D.tree.parent D.tree.root = 0) .assertion
  ensure (D.tree.color 0 = .black) .assertion
  ensure (z ≠ 0) .assertion
  let y ← nodeToSplice D.fuel D.tree z
  ensure (y ≠ 0) .assertion
  let x := onlyChild D.tree y
  let D := { D with tree := spliceOut D.tree y x }
  let D ← if y = z then removeSpliced D z x else removeExchanged D z y x
  let D ← unchainNode D z
  let D ← freeNode D z
  ensure (D.tree.color 0 = .black) .assertion
  .ok D

/-! ## The interface -/

/-- The free list is chained, and the table is empty: the first location is being recorded. -/
def initTable (D : Directory) : Except Failure Directory := do
  let D ← (List.range D.numLogDirEntries).foldlM (fun D i => freeNode D (i + 1))
    { D with table := fun _ => {}, logEntryCount := D.numLogDirEntries }
  ensure (D.logEntryCount = 0) .assertion
  .ok D

/-- The table is moved by so many places. -/
def shiftTable (table : ℕ → GT) (ms : ℕ) : ℕ → GT := fun i => if i < ms then {} else table (i - ms)

/-- The part of `ld_recordLocation` that makes room for a new generation. -/
def openGeneration (D : Directory) (generation : ℕ) : Except Failure Directory :=
  if D.highestGeneration < generation then
    if D.highestGeneration = 0 then do
      let D ← initTable D
      .ok { D with highestGeneration := generation }
    else do
      let ms := min (generation - D.highestGeneration) ldMaxGenerations
      ensure (∀ i < ldMaxGenerations, ldMaxGenerations - ms ≤ i → (D.table i).head = 0)
        .tooManyGenerations
      .ok { D with table := shiftTable D.table ms, highestGeneration := generation }
  else .ok D

/-- `ld_recordLocation`. -/
def recordLocation (D : Directory) (od : ObjectDescriptor) (generation : ℕ) :
    Except Failure Directory := do
  ensure (D.tree.color 0 = .black) .assertion
  let D ← openGeneration D generation
  binaryInsert D od generation

/-- `ld_findObject`. -/
def findObject (D : Directory) (oid : ℕ) : Except Failure (Option ObjectDescriptor) := do
  let n ← findNode D oid
  .ok (if n ≠ 0 then some (D.od n) else none)

/-- `ld_findObjectForJournal`. -/
def findObjectForJournal (D : Directory) (oid generation : ℕ) : Except Failure (Option ℕ) := do
  let n ← findNode D oid
  if n = 0 then .ok none
  else if D.generation n < generation ∧ D.lastRetiredGeneration < D.generation n then
    .ok (some (D.ppLogLoc n))
  else if D.ppGenerationDelta n = 0 then .ok none
  else
    let nppgen := D.generation n - D.ppGenerationDelta n
    if nppgen < generation ∧ D.lastRetiredGeneration < nppgen then .ok (some (D.ppLogLoc n))
    else .ok none

/-- `ld_resetScan`. -/
def resetScan (D : Directory) (generation : ℕ) : Except Failure Directory := do
  let gti ← getGenerationIndex D generation
  let g := D.table gti
  .ok { D with table := update D.table gti { g with cursor := g.head } }

/-- `ld_findNextObject`. -/
def findNextObject (D : Directory) (generation : ℕ) :
    Except Failure (Option ObjectDescriptor × Directory) := do
  let gti ← getGenerationIndex D generation
  let g := D.table gti
  if g.cursor = 0 then .ok (none, D)
  else
    let cursor := if D.next g.cursor = g.head then 0 else D.next g.cursor
    .ok (some (D.od g.cursor),
      { D with table := update D.table gti { g with cursor := cursor } })

/-- The loop of `ld_clearGeneration` over a chain. -/
def clearChain : ℕ → Directory → ℕ → Except Failure Directory
  | 0, _, _ => .error .diverged
  | fuel + 1, D, tn =>
      if D.next tn ≠ tn then do
        let D ← treeRemoveNode D (D.next tn)
        clearChain fuel D tn
      else treeRemoveNode D tn

/-- The part of `ld_clearGeneration` for one place of the table. -/
def clearAt (D : Directory) (gti : ℕ) : Except Failure Directory :=
  let tn := (D.table gti).head
  if tn = 0 then .ok D
  else do
    let D ← clearChain D.fuel D tn
    ensure ((D.table gti).head = 0) .assertion
    ensure ((D.table gti).cursor = 0) .assertion
    .ok D

/-- `ld_clearGeneration`. -/
def clearGeneration (D : Directory) (generation : ℕ) : Except Failure Directory := do
  let gti ← getGenerationIndex D generation
  (List.range' gti (ldMaxGenerations - gti)).foldlM clearAt D

/-- `ld_generationRetired`. -/
def generationRetired (D : Directory) (generation : ℕ) : Except Failure Directory := do
  ensure (D.lastRetiredGeneration ≤ generation) .assertion
  .ok { D with lastRetiredGeneration := generation }

/-- 32-bit subtraction. -/
def sub32 (a b : ℕ) : ℕ := (a + (2 ^ 32 - b % 2 ^ 32)) % 2 ^ 32

/-- The loop of `ld_numAvailableEntries`, from place `i` on, with so many places left. -/
def availableFrom (D : Directory) (generation : ℕ) : ℕ → ℕ → ℕ → ℕ
  | 0, _, count => count
  | places + 1, i, count =>
      if sub32 D.highestGeneration i ≤ generation then count
      else availableFrom D generation places (i + 1) (sub32 count (D.table i).count)

/-- `ld_numAvailableEntries`. -/
def numAvailableEntries (D : Directory) (generation : ℕ) : ℕ :=
  availableFrom D generation ldMaxGenerations 0 D.numLogDirEntries

/-- `ld_numWorkingEntries`. -/
def numWorkingEntries (D : Directory) : ℕ := (D.table 0).count

/-- `ld_removeObjectEntry`. -/
def removeObjectEntry (D : Directory) (oid : ℕ) : Except Failure Directory := do
  let n ← findNode D oid
  if n = 0 then .ok D else treeRemoveNode D n

end CapROS.LogDirectory
