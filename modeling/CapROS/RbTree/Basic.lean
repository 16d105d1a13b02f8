import CapROS.LogDirectory.Basic

/-!
# The red-black tree library

The red-black trees of the user programs (`base/lib/rbtree`, compiled with `RB_TREE` and without
`NDEBUG`). The client provides the nodes, each with a value, and the comparison of the values. The
log directory of the kernel has a copy of the library; the changes of links that the two have in
common are taken from there. `TREE_NIL` has the address 0, and the null pointer the address 1.

The two rotations, and the two halves of each of the two fixups, are written once, for a direction.
What is only printed is left out.

* `treeInsert`, `treeRemove`, `treeFind`: the library.
-/

namespace CapROS.RbTree

open LinkedTree
open LogDirectory (ChildrenLinked onlyChild replaceChild replaceNode setParentIf sideOf spliceOut)

/-- The ways in which the library stops the client. -/
inductive Failure where
  /-- An assertion fails. -/
  | assertion
  /-- A loop or a recursion goes deeper than the tree has nodes. -/
  | diverged
  deriving DecidableEq, Repr

/-- `assert(p)`. -/
def assert (p : Prop) [Decidable p] : Except Failure Unit :=
  if p then .ok () else .error .assertion

/-- The null pointer. -/
def nullPtr : ℕ := 1

/-- The fields of the nodes. The `root` that the procedures take and return is that of the links. -/
structure Heap (α : Type) where
  links : Links
  value : ℕ → α

variable {α : Type} [LinearOrder α]

def treeCompare (H : Heap α) (a b : ℕ) : Ordering := cmp (H.value a) (H.value b)

/-! ## Validation and searching -/

/-- What `tree_validate` checks of a child: its parent, and how its value compares. -/
def ChildValid (H : Heap α) (node : ℕ) (d : Dir) (o : Ordering) : Prop :=
  H.links.child d node ≠ 0 →
    H.links.parent (H.links.child d node) = node ∧ treeCompare H (H.links.child d node) node = o

instance (H : Heap α) (node : ℕ) (d : Dir) (o : Ordering) : Decidable (ChildValid H node d o) :=
  inferInstanceAs (Decidable (_ → _))

/-- What `tree_validate` checks of a node. -/
def NodeValid (H : Heap α) (node : ℕ) : Prop :=
  (H.links.parent node ≠ nullPtr ∧ H.links.child .left node ≠ nullPtr ∧
      H.links.child .right node ≠ nullPtr) ∧
    (node = H.links.root → H.links.parent node = 0) ∧
    (node ≠ H.links.root → H.links.parent node ≠ 0) ∧
    ChildValid H node .left .lt ∧ ChildValid H node .right .gt

instance (H : Heap α) (node : ℕ) : Decidable (NodeValid H node) :=
  inferInstanceAs (Decidable ((_ ∧ _ ∧ _) ∧ (_ → _) ∧ (_ → _) ∧ _ ∧ _))

/-- `tree_validate(root, node)`. -/
def treeValidate (H : Heap α) : ℕ → ℕ → Except Failure Bool
  | 0, _ => .error .diverged
  | fuel + 1, node =>
      if node = 0 then .ok true
      else if NodeValid H node then do
        let left ← treeValidate H fuel (H.links.child .left node)
        if left = false then .ok false else treeValidate H fuel (H.links.child .right node)
      else .ok false

/-- `assert(tree_validate(root, root))`. -/
def assertValid (fuel : ℕ) (H : Heap α) : Except Failure Unit := do
  let valid ← treeValidate H fuel H.links.root
  assert (valid = true)

/-- `tree_contains(tree, node)`. -/
def treeContains (L : Links) (node : ℕ) : ℕ → ℕ → Except Failure Bool
  | 0, _ => .error .diverged
  | fuel + 1, tree =>
      if tree = 0 then .ok false
      else if tree = node then .ok true
      else do
        assert (L.child .left tree ≠ tree)
        assert (L.child .right tree ≠ tree)
        let left ← treeContains L node fuel (L.child .left tree)
        if left = true then .ok true else treeContains L node fuel (L.child .right tree)

/-- The loop of `tree_find`. -/
def findLoop (H : Heap α) (key : α) : ℕ → ℕ → Except Failure ℕ
  | 0, _ => .error .diverged
  | fuel + 1, n =>
      if n = 0 then .ok 0
      else
        match cmp (H.value n) key with
        | .eq => .ok n
        | .gt => findLoop H key fuel (H.links.child .left n)
        | .lt => findLoop H key fuel (H.links.child .right n)

def treeFind (fuel : ℕ) (H : Heap α) (key : α) : Except Failure ℕ := findLoop H key fuel H.links.root

/-- The loop of `tree_min`. -/
def minLoop (L : Links) : ℕ → ℕ → Except Failure ℕ
  | 0, _ => .error .diverged
  | fuel + 1, x => if L.child .left x ≠ 0 then minLoop L fuel (L.child .left x) else .ok x

def treeMin (fuel : ℕ) (L : Links) (x : ℕ) : Except Failure ℕ :=
  if x = 0 then .ok 0 else minLoop L fuel x

/-- The loop of `tree_succ` that climbs the tree. -/
def climbLoop (L : Links) : ℕ → ℕ → ℕ → Except Failure ℕ
  | 0, _, _ => .error .diverged
  | fuel + 1, x, y =>
      if y ≠ 0 ∧ x = L.child .right y then climbLoop L fuel y (L.parent y) else .ok y

def treeSucc (fuel : ℕ) (L : Links) (x : ℕ) : Except Failure ℕ :=
  if x = 0 then .ok 0
  else if L.child .right x ≠ 0 then treeMin fuel L (L.child .right x)
  else climbLoop L fuel x (L.parent x)

/-! ## Insertion -/

/-- `rb_tree_leftrotate` and `rb_tree_rightrotate`: `y` goes down on side `d`, and its child on the
other side takes its place. Unlike in the kernel, it is not asserted that there is such a child, and
both rotations look first whether `y` is a left child. -/
def rotate (d : Dir) (L : Links) (y : ℕ) : Except Failure Links := do
  let x := L.child d.flip y
  let L := L.setChild d.flip y (L.child d x)
  let L := setParentIf L (L.child d.flip y) y
  let L := L.setParent x (L.parent y)
  let L := replaceChild .left L y x
  let L := L.setChild d x y
  let L := L.setParent y x
  assert (L.parent L.root = 0)
  .ok L

/-- The first steps of `binary_insert`: the links of the new node are cleared. -/
def clearNode (L : Links) (z : ℕ) : Links :=
  ((L.setParent z 0).setChild .left z 0).setChild .right z 0

/-- The loop of `binary_insert`: the parent of the new node. -/
def insertSearch (H : Heap α) (z : ℕ) : ℕ → ℕ → ℕ → Except Failure ℕ
  | 0, _, _ => .error .diverged
  | fuel + 1, y, x =>
      if x = 0 then .ok y
      else do
        assert (ChildrenLinked H.links x)
        if treeCompare H z x = .lt then insertSearch H z fuel x (H.links.child .left x)
        else insertSearch H z fuel x (H.links.child .right x)

/-- The new node `z` becomes a child of `y`. -/
def linkBelow (L : Links) (less : Bool) (z y : ℕ) : Links :=
  let L := L.setParent z y
  if y = 0 then L.setRoot z
  else if less then L.setChild .left y z
  else L.setChild .right y z

def binaryInsert (fuel : ℕ) (H : Heap α) (z : ℕ) : Except Failure (Heap α) := do
  let H := { H with links := clearNode H.links z }
  assertValid fuel H
  let y ← insertSearch H z fuel 0 H.links.root
  let H := { H with links := linkBelow H.links (decide (treeCompare H z y = .lt)) z y }
  assert (y ≠ 0 → ChildrenLinked H.links y)
  assert (H.links.parent H.links.root = 0)
  assertValid fuel H
  .ok H

/-- The part of the insertion fixup that turns an inner grandchild into an outer one: the node to go
on with. -/
def straighten (L : Links) (e : Dir) (x : ℕ) : Except Failure (ℕ × Links) :=
  if x = L.child e.flip (L.parent x) then do
    let L' ← rotate e L (L.parent x)
    .ok (L.parent x, L')
  else .ok (x, L)

/-- The last steps of the insertion fixup for a node whose uncle is black. The left half asserts
that the grandparent is not the null pointer, the right half that it is not `TREE_NIL`. -/
def rotateGrandparent (L : Links) (e : Dir) (x : ℕ) : Except Failure Links := do
  let L := L.setColor (L.parent x) .black
  assert (L.parent (L.parent x) ≠ if e = .left then nullPtr else 0)
  let L := L.setColor (L.parent (L.parent x)) .red
  rotate e.flip L (L.parent (L.parent x))

/-- The loop of `tree_insert`. -/
def insertFixupLoop : ℕ → Links → ℕ → Except Failure Links
  | 0, _, _ => .error .diverged
  | fuel + 1, L, x =>
      if x ≠ L.root ∧ L.color (L.parent x) = .red then do
        assert (L.parent (L.parent x) ≠ nullPtr)
        let e := sideOf L (L.parent x)
        let y := L.child e.flip (L.parent (L.parent x))
        if L.color y = .red then do
          let L := L.setColor (L.parent x) .black
          let L := L.setColor y .black
          assert (e = .right → L.parent (L.parent x) ≠ 0)
          let L := L.setColor (L.parent (L.parent x)) .red
          insertFixupLoop fuel L (L.parent (L.parent x))
        else do
          let (x, L) ← straighten L e x
          let L ← rotateGrandparent L e x
          insertFixupLoop fuel L x
      else .ok L

def treeInsert (fuel : ℕ) (H : Heap α) (x : ℕ) : Except Failure (Heap α) := do
  let H ← binaryInsert fuel H x
  let L ← insertFixupLoop fuel (H.links.setColor x .red) x
  let H := { H with links := L.setColor L.root .black }
  assert (H.links.parent H.links.root = 0)
  assertValid fuel H
  .ok H

/-! ## Removal -/

/-- The first step of a round of `rb_remove_fixup`: a red sibling is rotated away. -/
def liftRedSibling (d : Dir) (L : Links) (x : ℕ) : Except Failure Links :=
  let w := L.child d.flip (L.parent x)
  if L.color w = .red then do
    let L := L.setColor w .black
    assert (L.parent x ≠ 0)
    let L := L.setColor (L.parent x) .red
    rotate d L (L.parent x)
  else .ok L

/-- The step of `rb_remove_fixup` that makes the outer child of the sibling red. -/
def reddenOuter (d : Dir) (L : Links) (x : ℕ) : Except Failure Links :=
  let w := L.child d.flip (L.parent x)
  if L.color (L.child d.flip w) = .black then do
    let L := L.setColor (L.child d w) .black
    assert (w ≠ 0)
    let L := L.setColor w .red
    rotate d.flip L w
  else .ok L

/-- The last steps of `rb_remove_fixup` for a sibling with a red outer child. -/
def rotateParent (d : Dir) (L : Links) (x : ℕ) : Except Failure Links :=
  let w := L.child d.flip (L.parent x)
  let L := L.setColor w (L.color (L.parent x))
  let L := L.setColor (L.parent x) .black
  let L := L.setColor (L.child d.flip w) .black
  rotate d L (L.parent x)

/-- The loop of `rb_remove_fixup`, with the node at which it ends. -/
def removeFixupLoop : ℕ → Links → ℕ → Except Failure (ℕ × Links)
  | 0, _, _ => .error .diverged
  | fuel + 1, L, x =>
      if x ≠ L.root ∧ L.color x = .black then do
        let d := sideOf L x
        let L ← liftRedSibling d L x
        let w := L.child d.flip (L.parent x)
        if L.color (L.child .left w) = .black ∧ L.color (L.child .right w) = .black then do
          assert (w ≠ 0)
          removeFixupLoop fuel (L.setColor w .red) (L.parent x)
        else do
          let L ← reddenOuter d L x
          let L ← rotateParent d L x
          removeFixupLoop fuel L L.root
      else .ok (x, L)

/-- `rb_remove_fixup`. It returns at once if `x` has become the root, also if `x` is not
`TREE_NIL`. -/
def rbRemoveFixup (fuel : ℕ) (L : Links) (x : ℕ) : Except Failure Links :=
  if L.parent x = 0 then .ok L
  else do
    let (x, L) ← removeFixupLoop fuel L x
    let L := L.setColor x .black
    assert (L.parent L.root = 0)
    .ok L

/-- The node that `tree_remove` takes out of the tree. -/
def nodeToSplice (fuel : ℕ) (L : Links) (z : ℕ) : Except Failure ℕ :=
  if L.child .left z = 0 ∨ L.child .right z = 0 then .ok z else treeSucc fuel L z

/-- The part of `tree_remove` after `y` has been taken out in place of `z`: `z` has the value of `y`
while the colours are restored, and then `y` takes its place. -/
def finishRemoval (fuel : ℕ) (H : Heap α) (z y x : ℕ) : Except Failure (Heap α) := do
  let zvalue := H.value z
  let H := if y ≠ z then { H with value := Function.update H.value z (H.value y) } else H
  let L ← (if H.links.color y = .black then rbRemoveFixup fuel H.links x else .ok H.links)
  let H := { H with links := L }
  let _ ← treeContains H.links (if y ≠ z then y else z) fuel H.links.root
  assertValid fuel H
  if y ≠ z then do
    let _ ← treeContains H.links y fuel H.links.root
    .ok { links := replaceNode H.links y z, value := Function.update H.value z zvalue }
  else .ok H

def treeRemove (fuel : ℕ) (H : Heap α) (z : ℕ) : Except Failure (Heap α) := do
  assertValid fuel H
  let H := { H with links := H.links.setColor 0 .black }
  assert (z ≠ 0)
  let y ← nodeToSplice fuel H.links z
  assert (y ≠ 0)
  let x := onlyChild H.links y
  let H := { H with links := spliceOut H.links y x }
  let _ ← treeContains H.links y fuel H.links.root
  let H ← finishRemoval fuel H z y x
  let _ ← treeContains H.links z fuel H.links.root
  assertValid fuel H
  .ok H

/-! ## The client -/

/-- A client with one tree, and the nodes that it has inserted and not removed. -/
structure State (α : Type) where
  heap : Heap α
  nodes : List ℕ

/-- More rounds than any loop over the nodes of the tree makes. -/
def State.fuel (s : State α) : ℕ := s.nodes.length + 3

/-- What the client asks for. -/
inductive Request (α : Type) where
  /-- The node `z` gets the value `v` and is inserted. -/
  | insert (z : ℕ) (v : α)
  | remove (z : ℕ)
  deriving DecidableEq, Repr

/-- The nodes are distinct: the new node is not in the tree, nor is a node that compares as equal
to it. Only nodes in the tree are removed. -/
def Request.Allowed (s : State α) : Request α → Prop
  | .insert z v => z ≠ 0 ∧ z ≠ nullPtr ∧ z ∉ s.nodes ∧ ∀ n ∈ s.nodes, s.heap.value n ≠ v
  | .remove z => z ∈ s.nodes

instance (s : State α) : DecidablePred (Request.Allowed s)
  | .insert _ _ => inferInstanceAs (Decidable (_ ∧ _ ∧ _ ∧ _))
  | .remove _ => inferInstanceAs (Decidable (_ ∈ _))

def step (s : State α) : Request α → Except Failure (State α)
  | .insert z v => do
      let H ← treeInsert s.fuel { s.heap with value := Function.update s.heap.value z v } z
      .ok { heap := H, nodes := z :: s.nodes }
  | .remove z => do
      let H ← treeRemove s.fuel s.heap z
      .ok { heap := H, nodes := s.nodes.erase z }

/-- The empty tree, after `tree_init`. -/
structure Init (s : State α) : Prop where
  nodes : s.nodes = []
  root : s.heap.links.root = 0
  nilChild : ∀ d, s.heap.links.child d 0 = 0
  nilParent : s.heap.links.parent 0 = 0
  nilColor : s.heap.links.color 0 = .black

end CapROS.RbTree
