import CapROS.NodeKey.Basic
import CapROS.Theory.Calls

/-!
# The keeper of a supernode

A supernode (`supernode.c`) is a tree of nodes that stores keys for its clients. They hold an opaque
key to the root of the tree, through which they fetch and swap keys at extended addresses; the kernel
walks the tree for them. Their requests to allocate and deallocate ranges of addresses go to the
keeper of the root, which changes the tree with one call of the kernel after another.

The key registers of the keeper are the variables of its program; what is left of them is counted,
because each level of the tree takes one. Addresses have 32 bits.

* `ensureHeight`, `deallocateRange`, `allocateRange`: the procedures of the keeper.
-/

namespace CapROS.SuperNode

open NodeKey Calls

/-- `capros_Node_nSlots`. -/
def nSlots : ℕ := 32

/-- `capros_Node_keeperSlot`. -/
def keeperSlot : ℕ := 31

/-- `capros_Node_l2nSlots`. -/
def l2nSlots : ℕ := 5

def l2v5Shift (l2v5 : ℕ) : ℕ := l2v5 * l2nSlots

/-! ## The nodes -/

/-- The number of the root of the tree. Other objects are known by their OIDs, which are smaller, and
the nodes that the bank sells to the keeper by greater numbers. -/
def root : ℕ := 2 ^ 64

/-- The nodes, and the space bank. -/
structure Store where
  nodes : ℕ → NodeContent
  /-- The node that the bank sells next. -/
  next : ℕ
  /-- Whether the bank has a node left, at each time that it is asked. -/
  grants : ℕ → Bool
  asked : ℕ

/-- A result code. -/
inductive Result where
  | exit (code : ExitCode)
  /-- `RC_capros_SpaceBank_LimitReached`. -/
  | limitReached
  deriving DecidableEq, Repr

abbrev rcOk : Result := .exit .ok

/-- The calls of the keeper. -/
inductive Request where
  | alloc1
  | free1 (key : Key)
  | getSlot (node : Key) (slot : ℕ)
  | swapSlot (node : Key) (slot : ℕ) (key : Key)
  | getL2v (node : Key)
  | setL2v (node : Key) (l2v : ℕ)
  | getGuard (node : Key)
  | makeGuarded (node : Key) (guard : ℕ)
  | clone (node source : Key)
  | setBlocked (node : Key)
  | clearBlocked (node : Key)
  | clearKeeper (node : Key)

/-- The answer to a call. -/
structure Answer where
  code : Result := rcOk
  w1 : ℕ := 0
  key : Key := .void

/-- A key to a node, without a guard and without restrictions. -/
def keyTo (oid : ℕ) : Key := ⟨.node, 0, 0, .prep oid⟩

/-- A node from the bank. -/
def emptyNode : NodeContent := ⟨fun _ => .void, 0⟩

namespace Store

def setNode (s : Store) (oid : ℕ) (c : NodeContent) : Store :=
  { s with nodes := Function.update s.nodes oid c }

/-- All keys to the node are void. -/
def rescind (s : Store) (oid : ℕ) : Store :=
  { s with
    nodes := fun p =>
      { s.nodes p with
        slots := fun i => if objectOf ((s.nodes p).slots i) = some oid then .void else (s.nodes p).slots i } }

end Store

/-- A call of a node key. -/
def withNode (k : Key) (s : Store) (f : ℕ → Answer × Store) : Answer × Store :=
  match objectOf k with
  | some oid => if k.isType .node then f oid else ({ code := .exit .unknownRequest }, s)
  | none => ({ code := .exit .void }, s)

/-- A call of a node key that has the number of a slot. -/
def withSlot (slot : ℕ) (s : Store) (f : Fin 32 → Answer × Store) : Answer × Store :=
  if h : slot < 32 then f ⟨slot, h⟩ else ({ code := .exit .requestError }, s)

/-- The bank and the kernel. -/
def exec : Service Request Answer Store
  | .alloc1, s =>
      if s.grants s.asked = true then
        ({ key := keyTo s.next },
          { s.setNode s.next emptyNode with next := s.next + 1, asked := s.asked + 1 })
      else ({ code := .limitReached }, { s with asked := s.asked + 1 })
  | .free1 key, s => withNode key s fun oid => ({}, s.rescind oid)
  | .getSlot node slot, s => withNode node s fun oid => withSlot slot s fun i =>
      ({ key := (s.nodes oid).slots i }, s)
  | .swapSlot node slot key, s => withNode node s fun oid => withSlot slot s fun i =>
      ({ key := (s.nodes oid).slots i }, s.setNode oid ((s.nodes oid).setSlot i key))
  | .getL2v node, s => withNode node s fun oid => ({ w1 := (s.nodes oid).l2v }, s)
  | .setL2v node l2v, s => withNode node s fun oid =>
      if l2v < 32 then ({}, s.setNode oid ((s.nodes oid).setL2v l2v))
      else ({ code := .exit .requestError }, s)
  | .getGuard node, s => withNode node s fun _ => ({ w1 := getGuard node }, s)
  | .makeGuarded node guard, s => withNode node s fun _ =>
      match calcGuard guard with
      | some (g, l2g) => ({ key := node.setGuardData g l2g }, s)
      | none => ({ code := .exit .unrepresentableGuard }, s)
  | .clone node source, s => withNode node s fun oid => withNode source s fun fromOid =>
      ({}, s.setNode oid (s.nodes fromOid))
  | .setBlocked node, s => withNode node s fun oid =>
      ({}, s.setNode oid ((s.nodes oid).setBit nodeBlocked))
  | .clearBlocked node, s => withNode node s fun oid =>
      ({}, s.setNode oid ((s.nodes oid).clearBit nodeBlocked))
  | .clearKeeper node, s => withNode node s fun oid =>
      ({}, s.setNode oid ((s.nodes oid).clearBit nodeKeeper))

/-- Programs of the keeper. -/
abbrev Program (α : Type) := Calls Request Answer α

/-- A call whose result is asserted to be `RC_OK`. -/
def expectOk (o : Request) : Program Answer := do
  let a ← ask o
  check (a.code = rcOk)
  pure a

/-! ## The procedures -/

structure GlobalState where
  lowestAllocated : ℕ
  lastSlotInSupernode : ℕ
  topL2v5 : ℕ
  deriving DecidableEq, Repr

/-- The key in `KR_TREE`. -/
def krTree : Key := keyTo root

/-- The key registers from `KR_TREE + 1` up to `KR_TEMP0`. -/
def registers : ℕ := 17

def calcL2v5 (x : ℕ) : ℕ :=
  let (r, x) := if x < 2 ^ l2v5Shift 4 then (7 - 4, x) else (7, x / 2 ^ l2v5Shift 4)
  let (r, x) := if x < 2 ^ l2v5Shift 2 then (r - 2, x) else (r, x / 2 ^ l2v5Shift 2)
  if x < 2 ^ l2v5Shift 1 then r - 1 else r

/-- Void keys are put into the slots of a node. -/
def clearSlots (node : Key) : List ℕ → Program Unit
  | [] => pure ()
  | i :: is => do
      let _ ← expectOk (.swapSlot node i .void)
      clearSlots node is

/-- The part of `ensureHeight` for a root in which nothing is allocated. -/
def growEmpty (shift : ℕ) : Program Result := do
  let _ ← expectOk (.setL2v krTree shift)
  clearSlots krTree (List.range keeperSlot)
  pure rcOk

/-- The part of `ensureHeight` that puts a copy of the root below the root. -/
def growRoot (shift : ℕ) : Program Result := do
  let a ← ask .alloc1
  if a.code ≠ rcOk then pure a.code
  else do
    let a ← expectOk (.makeGuarded a.key 0)
    let temp := a.key
    let _ ← expectOk (.clone temp krTree)
    let _ ← expectOk (.setBlocked krTree)
    let _ ← expectOk (.clearKeeper temp)
    let _ ← expectOk (.swapSlot temp keeperSlot .void)
    let _ ← expectOk (.swapSlot krTree 0 temp)
    clearSlots krTree (List.range' 1 (keeperSlot - 1))
    let _ ← expectOk (.setL2v krTree shift)
    let _ ← expectOk (.clearBlocked krTree)
    pure rcOk

/-- The level that `ensureHeight` asks for: the slot of the keeper cannot be used. -/
def neededHeight (last : ℕ) : ℕ :=
  let l2v5 := calcL2v5 last
  if keeperSlot ≤ last / 2 ^ l2v5Shift l2v5 then l2v5 + 1 else l2v5

/-- The last slot under a root of this level. -/
def lastSlotAt (l2v5 : ℕ) : ℕ :=
  let endSlot := keeperSlot * 2 ^ l2v5Shift l2v5 % 2 ^ 32
  if endSlot / 2 ^ l2v5Shift l2v5 ≠ keeperSlot then 2 ^ 32 - 1 else endSlot - 1

def ensureHeight (g : GlobalState) (last : ℕ) : Program (Result × GlobalState) := do
  let l2v5 := neededHeight last
  if g.topL2v5 < l2v5 then do
    let result ← (if g.topL2v5 = 0 ∧ nSlots ≤ g.lowestAllocated then growEmpty (l2v5Shift l2v5)
      else growRoot (l2v5Shift l2v5))
    if result ≠ rcOk then pure (result, g)
    else pure (rcOk, { g with topL2v5 := l2v5, lastSlotInSupernode := lastSlotAt l2v5 })
  else pure (rcOk, g)

/-- The slots of a node of a level that hold a range of addresses. -/
def slotsOf (l2v5 first last : ℕ) : List ℕ :=
  List.range' (first / 2 ^ l2v5Shift l2v5)
    (last / 2 ^ l2v5Shift l2v5 + 1 - first / 2 ^ l2v5Shift l2v5)

/-- The first address of the range in the slot `j`. -/
def firstIn (l2v5 first j : ℕ) : ℕ :=
  if j = first / 2 ^ l2v5Shift l2v5 then first - j * 2 ^ l2v5Shift l2v5 else 0

/-- The last address of the range in the slot `j`. -/
def lastIn (l2v5 last j : ℕ) : ℕ :=
  if j = last / 2 ^ l2v5Shift l2v5 then last - j * 2 ^ l2v5Shift l2v5 else 2 ^ l2v5Shift l2v5 - 1

/-- A loop in `deallocateRange` that is meant to look at slots of the node: it asks for the level of
the node itself. -/
def anyNonvoid (node : Key) : ℕ → Program Bool
  | 0 => pure false
  | n + 1 => do
      let a ← ask (.getL2v node)
      if a.code ≠ .exit .void then pure true else anyNonvoid node n

/-- A loop that goes over all slots and tells whether any is nonempty. -/
def anyNonempty (body : ℕ → Program Bool) : List ℕ → Program Bool
  | [] => pure false
  | j :: js => do
      let b ← body j
      let rest ← anyNonempty body js
      pure (b || rest)

/-- `deallocateRange`. The result is `none` if the node is known to be nonempty, and otherwise has the
first and the last of the slots known to be empty. -/
def deallocateRange : ℕ → Key → ℕ → ℕ → ℕ → Program (Option (ℕ × ℕ))
  | regs, thisNode, thisL2v5, first, last => do
    check (first ≤ last)
    if thisL2v5 = 0 then do
      check (last < nSlots)
      if first = 0 ∧ last = nSlots - 1 then pure (some (first, last)) else pure none
    else do
      check (last / 2 ^ l2v5Shift thisL2v5 < nSlots)
      let nonempty ← anyNonempty
        (fun j =>
          match regs with
          | 0 => stop
          | regs + 1 => do
            let nextFirst := firstIn thisL2v5 first j
            let nextLast := lastIn thisL2v5 last j
            let a ← expectOk (.getSlot thisNode j)
            let nextNode := a.key
            let a ← ask (.getL2v nextNode)
            if a.code ≠ rcOk then do
              check (a.code = .exit .void)
              pure false
            else do
              let nextL2v5 := a.w1 / l2nSlots
              check (nextL2v5 * l2nSlots = a.w1)
              let nextMax := 2 ^ l2v5Shift (nextL2v5 + 1) - 1
              let a ← expectOk (.getGuard nextNode)
              let guard := a.w1
              let firstRelative := if nextFirst ≤ guard then 0 else nextFirst - guard
              if nextLast < guard ∨ nextMax < firstRelative then pure true
              else do
                let lastRelative := min (nextLast - guard) nextMax
                let empty ← deallocateRange regs nextNode nextL2v5 firstRelative lastRelative
                match empty with
                | none => pure true
                | some (nextFirstEmpty, nextLastEmpty) => do
                  let before ← anyNonvoid nextNode nextFirstEmpty
                  let nonempty ← (if before = true then pure true
                    else anyNonvoid nextNode (nSlots - 1 - nextLastEmpty))
                  if nonempty = true then pure true
                  else do
                    let _ ← ask (.free1 nextNode)
                    pure false)
        (slotsOf thisL2v5 first last)
      if nonempty = true then pure none
      else pure (some (first / 2 ^ l2v5Shift thisL2v5, last / 2 ^ l2v5Shift thisL2v5))

/-- `x >> n << n`. -/
def floor2 (x n : ℕ) : ℕ := x / 2 ^ n * 2 ^ n

/-- The loop in `allocateRange` that makes a guard. It goes up with the level until the guard can be
represented. -/
def guardFor (nextNode : Key) (slotFirst : ℕ) : ℕ → ℕ → Program (Key × ℕ × ℕ)
  | 0, _ => stop
  | fuel + 1, nextL2v5 => do
      let guard := floor2 slotFirst (l2v5Shift (nextL2v5 + 1))
      let a ← ask (.makeGuarded nextNode guard)
      if a.code = rcOk then pure (a.key, nextL2v5, guard)
      else do
        check (a.code = .exit .unrepresentableGuard)
        guardFor nextNode slotFirst fuel (nextL2v5 + 1)

/-- The part of `allocateRange` for a void slot `j`. The result has the key in `nextNode`, the level of
the node and the guard. -/
def fillSlot (thisNode : Key) (j slotFirst slotLast : ℕ) :
    Program (Except Result (Key × ℕ × ℕ)) := do
  let a ← ask .alloc1
  if a.code ≠ rcOk then pure (.error a.code)
  else do
    let (nextNode, nextL2v5, guard) ← guardFor a.key slotFirst 8 (calcL2v5 (slotFirst ^^^ slotLast))
    let _ ← expectOk (.setL2v nextNode (l2v5Shift nextL2v5))
    let _ ← expectOk (.swapSlot thisNode j nextNode)
    pure (.ok (nextNode, nextL2v5, guard))

/-- The part of `allocateRange` for a slot `j` with a node of the level `nextL2v5`: if the range does
not fit under this node, a node is inserted above it. -/
def widenSlot (thisNode : Key) (thisL2v5 j : ℕ) (nextNode : Key) (nextL2v5 slotFirst slotLast : ℕ) :
    Program (Except Result (Key × ℕ × ℕ)) := do
  let a ← expectOk (.getGuard nextNode)
  let guard := a.w1
  let existingLast := guard + 2 ^ l2v5Shift (nextL2v5 + 1) - 1
  let neededL2v5 := calcL2v5 (min guard slotFirst ^^^ max existingLast slotLast)
  check (neededL2v5 < thisL2v5)
  check (nextL2v5 ≤ neededL2v5)
  if nextL2v5 < neededL2v5 then do
    let a ← ask .alloc1
    if a.code ≠ rcOk then pure (.error a.code)
    else do
      let temp := a.key
      let highGuard := floor2 guard (l2v5Shift (neededL2v5 + 1))
      let guard := guard - highGuard
      let slot := guard / 2 ^ l2v5Shift neededL2v5
      let guard := guard - slot * 2 ^ l2v5Shift neededL2v5
      let a ← expectOk (.makeGuarded nextNode guard)
      let _ ← expectOk (.swapSlot temp slot a.key)
      let a ← expectOk (.makeGuarded temp highGuard)
      let nextNode := a.key
      let _ ← expectOk (.setL2v nextNode (l2v5Shift neededL2v5))
      let _ ← expectOk (.swapSlot thisNode j nextNode)
      pure (.ok (nextNode, neededL2v5, highGuard))
  else pure (.ok (nextNode, nextL2v5, guard))

def allocateRange : ℕ → Key → ℕ → ℕ → ℕ → Program Result
  | regs, thisNode, thisL2v5, first, last => do
    check (first ≤ last)
    if thisL2v5 = 0 then pure rcOk
    else do
      check (last / 2 ^ l2v5Shift thisL2v5 < nSlots)
      forEach rcOk
        (fun j =>
          match regs with
          | 0 => stop
          | regs + 1 => do
            let slotFirst := firstIn thisL2v5 first j
            let slotLast := lastIn thisL2v5 last j
            let a ← expectOk (.getSlot thisNode j)
            let nextNode := a.key
            let a ← ask (.getL2v nextNode)
            let next ← (if a.code ≠ rcOk then do
                check (a.code = .exit .void)
                fillSlot thisNode j slotFirst slotLast
              else do
                check (a.w1 / l2nSlots * l2nSlots = a.w1)
                widenSlot thisNode thisL2v5 j nextNode (a.w1 / l2nSlots) slotFirst slotLast)
            match next with
            | .error result => pure result
            | .ok (nextNode, nextL2v5, guard) =>
                allocateRange regs nextNode nextL2v5 (slotFirst - guard) (slotLast - guard))
        (slotsOf thisL2v5 first last)

/-! ## The requests -/

/-- `OC_capros_SuperNode_allocateRange`. -/
def allocateRequest (g : GlobalState) (first last : ℕ) : Program (Result × GlobalState) :=
  if last < first then pure (.exit .requestError, g)
  else do
    let (result, g) ← ensureHeight g last
    if result ≠ rcOk then pure (result, g)
    else do
      let result ← allocateRange registers krTree g.topL2v5 first last
      if result ≠ rcOk then pure (result, g)
      else pure (rcOk, { g with lowestAllocated := min g.lowestAllocated first })

/-- `OC_capros_SuperNode_deallocateRange`. -/
def deallocateRequest (g : GlobalState) (first last : ℕ) : Program (Result × GlobalState) :=
  if last < first then pure (.exit .requestError, g)
  else if first ≤ g.lastSlotInSupernode then do
    let last := min last g.lastSlotInSupernode
    let _ ← deallocateRange registers krTree g.topL2v5 first last
    if first ≤ g.lowestAllocated then
      pure (rcOk, { g with lowestAllocated := max g.lowestAllocated ((last + 1) % 2 ^ 32) })
    else pure (rcOk, g)
  else pure (rcOk, g)

/-- The state of the keeper when it accepts requests. -/
def initState : GlobalState where
  lowestAllocated := nSlots
  lastSlotInSupernode := keeperSlot - 1
  topL2v5 := 0

/-- The nodes when the keeper accepts requests: the root is empty but for the key to the keeper. -/
def initStore (keeper : Key) (grants : ℕ → Bool) : Store where
  nodes := Function.update (fun _ => emptyNode) root
    ((emptyNode.setSlot NodeKey.keeperSlot keeper).setBit nodeKeeper)
  next := root + 1
  grants := grants
  asked := 0

/-! ## The clients -/

/-- The key that clients hold. -/
def clientKey : Key := krTree.restrict memoryOpaque

/-- The walk of the kernel from a key to the root. -/
def clientWalk (k : Key) (write : Bool) (addr : BitVec 32) (s : Store) : Walk :=
  walk (fun oid => ⟨s.nodes oid, true, false⟩) write k addr

/-- The root is blocked: the operations of clients go to the keeper. -/
def Store.blocked (s : Store) : Bool := (s.nodes root).isBlocked

/-- `getSlotExtended`: the key, if the address can be reached. -/
def clientFetch (k : Key) (addr : BitVec 32) (s : Store) : Option Key :=
  match clientWalk k false addr s with
  | .found oid slot => some ((s.nodes oid).slots slot)
  | .fault _ => none

/-- `swapSlotExtended`: the nodes after it, if the address can be reached. -/
def clientSwap (k : Key) (addr : BitVec 32) (key : Key) (s : Store) : Option Store :=
  match clientWalk k true addr s with
  | .found oid slot => some (s.setNode oid ((s.nodes oid).setSlot slot key))
  | .fault _ => none

end CapROS.SuperNode
