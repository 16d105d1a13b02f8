import CapROS.KeyRing.ResumeKeys
import CapROS.ProcessCache.Flushing

/-!
# Nodes on the disk

When a node is cleaned, `node_CopyToDiskNode` writes it to a pot (`kern_DiskNode.c`), and when it is fetched again
`node_SetEqualTo` makes a node of what is there. A prepared key has a pointer to its object, or to the `Process` of
its object, in the place where an unprepared key has an OID and a count, and a slot that is hazarded may have
its value elsewhere: in the registers of a process, or in its key registers.

* `System`: keys, nodes and processes. `nodeClearHazard`: values are moved back to the slots.
* `keyMakeUnpreparedCopy`, `nodeCopyToDiskNode`, `nodeSetEqualTo`: the code.
* `System.held`: what a slot holds. `System.WellFormed`: what a hazard means.
* `nodeSetEqualTo_nodeCopyToDiskNode`: the node that is read is the one that was written.
-/

namespace CapROS.KeyRing.DiskNodes

open ProcessCache (FixRegs Hazards unloadRegs procSched procAddrSpace procGenKeys procIoSpace procFirstRootRegSlot)
open Function (update update_self update_of_ne)

/-! ## Nodes and processes -/

/-- The `obType` of a node, with the `Process` that it is prepared for. -/
inductive ObType where
  | ntUnprepared
  | ntSegment
  | ntProcessRoot (context : ℕ)
  | ntKeyRegs (context : ℕ)
  deriving DecidableEq

/-- A node, but for its header and its keys. -/
structure Node where
  obType : ObType
  nodeData : BitVec 16
  /-- `OFLG_DIRTY`. -/
  dirty : Bool

/-- A `Process`, but for its root and its key registers. -/
structure Process where
  keysNode : Option ℕ
  hazards : Hazards
  regs : FixRegs

/-- The keys in memory, the nodes and the processes. The header of the node `n` is `keys.objH n`. -/
structure System where
  keys : State
  node : ℕ → Node
  proc : ℕ → Process

/-- The key in a slot of a node. -/
def slot (n : ℕ) (i : Fin 32) : ℕ := 64 * n + i

/-- The key in a key register of a process. -/
def keyReg (p : ℕ) (i : Fin 32) : ℕ := 64 * p + 32 + i

/-- `node_GetKeyAtSlot`. -/
def System.keyAtSlot (s : System) (n : ℕ) (i : Fin 32) : KeyBits := s.keys.key (slot n i)

/-- Set all slots of a node. -/
def setSlots (keys : State) (n : ℕ) (slots : Fin 32 → KeyBits) : State :=
  { keys with key := fun k => if h : k / 64 = n ∧ k % 64 < 32 then slots ⟨k % 64, h.2⟩ else keys.key k }

/-- `keyBits_UnHazard` of the key in a slot. -/
def System.unHazard (s : System) (n : ℕ) (i : Fin 32) : System :=
  { s with keys := s.keys.put (slot n i) (s.keyAtSlot n i).unHazard }

/-! ## Clearing hazards -/

/-- One key of `proc_FlushKeyRegs`. -/
def flushKeyReg (kn p : ℕ) (keys : State) (k : Fin 32) : Except Halt State :=
  keyNHMove (slot kn k) (keyReg p k) (keys.put (slot kn k) (keys.key (slot kn k)).unHazard)

def procFlushKeyRegs (p : ℕ) (s : System) : Except Halt System :=
  match (s.proc p).keysNode with
  | none => .error .assertion
  | some kn => do
    kassert ((s.proc p).hazards.keyRegs = false)
    kassert ((s.node kn).dirty = true)
    let keys ← (List.finRange 32).foldlM (flushKeyReg kn p) s.keys
    let proc := s.proc p
    let s : System := {
      keys
      node := update s.node kn { s.node kn with obType := .ntUnprepared }
      proc := update s.proc p
        { proc with keysNode := none, hazards := { proc.hazards with keyRegs := true } } }
    .ok (s.unHazard (s.keys.procRoot p) procGenKeys)

/-- The words `u.nk.value` of a key. -/
def words : Body → Fin 3 → ℕ
  | .nk value0 value1 value2 => ![value0, value1, value2]
  | .unprep oid count => ![oid % 2 ^ 32, oid / 2 ^ 32, count]
  | .ok _ => 0

/-- What `UNLOAD_FIX_REGS` makes of the key in a slot of a process root. -/
def unloadKey (regs : FixRegs) (i : Fin 32) (key : KeyBits) : KeyBits :=
  if 8 ≤ i ∧ i ≤ 14 then
    let value := unloadRegs regs i (words key.u)
    { key with u := .nk (value 0) (value 1) (value 2) }
  else key

/-- The loop of `proc_FlushFixRegs`, for the key in one slot. -/
def flushRegSlot (k : Fin 32) (key : KeyBits) : Except Halt KeyBits :=
  if procFirstRootRegSlot ≤ k then do
    kassert (key.rdHazard = true)
    kassert (key.wrHazard = true)
    .ok key.unHazard
  else .ok key

def procFlushFixRegs (p : ℕ) (s : System) : Except Halt System := do
  let proc := s.proc p
  let procRoot := s.keys.procRoot p
  kassert (proc.hazards.domRoot = false)
  kassert ((s.node procRoot).dirty = true)
  let slots ← SlotLoop.run flushRegSlot (s.keyAtSlot procRoot)
  kassert ((slots procIoSpace).wrHazard = true)
  let slots := update slots procIoSpace (slots procIoSpace).unHazard
  let slots := fun k => unloadKey proc.regs k (slots k)
  let slots := update slots procSched (slots procSched).unHazard
  .ok { s with
    keys := setSlots s.keys procRoot slots
    proc := update s.proc p
      { proc with hazards := { proc.hazards with domRoot := true, schedule := true } } }

/-- `proc_FlushProcessSlot`. The mapping tables of the process are left out. -/
def procFlushProcessSlot (p : ℕ) (whichKey : Fin 32) (s : System) : Except Halt System :=
  let proc := s.proc p
  let procRoot := s.keys.procRoot p
  if whichKey = procGenKeys then do
    kassert (proc.hazards.keyRegs = false)
    procFlushKeyRegs p s
  else if whichKey = procAddrSpace then .ok (s.unHazard procRoot procAddrSpace)
  else if whichKey = procSched then
    let s := s.unHazard procRoot whichKey
    .ok { s with
      proc := update s.proc p { proc with hazards := { proc.hazards with schedule := true } } }
  else do
    kassert (proc.hazards.domRoot = false)
    procFlushFixRegs p s

/-- `node_ClearGPTHazard`, and `Depend_InvalidateKey`: what is done to keys, and not to mapping tables. -/
def nodeClearGPTHazard (n : ℕ) (i : Fin 32) (s : System) : System := s.unHazard n i

/-- The `switch` of `node_ClearHazard`. -/
def clearSlot (n : ℕ) (i : Fin 32) (s : System) : Except Halt System :=
  match (s.node n).obType with
  | .ntSegment => if (s.keyAtSlot n i).rdHazard then .error .fatal else .ok (nodeClearGPTHazard n i s)
  | .ntProcessRoot p =>
    if i = procAddrSpace then .ok (s.unHazard n i)
    else if i = procGenKeys then procFlushKeyRegs p s
    else procFlushProcessSlot p i s
  | .ntKeyRegs p => procFlushKeyRegs p s
  | .ntUnprepared => .error .fatal

def nodeClearHazard (n : ℕ) (i : Fin 32) (s : System) : Except Halt System :=
  if (s.keyAtSlot n i).isHazard = false then .ok s
  else do
    let s ← clearSlot n i s
    kassert ((s.keyAtSlot n i).isHazard = false)
    .ok s

/-! ## Copying -/

/-- A copy of a key, without `KFL_HAZARD_BITS` and `KFL_PREPARED`. -/
def unpreparedCopy (src : KeyBits) : KeyBits :=
  { src with rdHazard := false, wrHazard := false, prepared := false }

def keyMakeUnpreparedCopy (src : KeyBits) (s : State) : Except Halt (KeyBits × State) :=
  let dst := unpreparedCopy src
  if src.isObjectKey = false ∨ src.prepared = false then .ok (dst, s)
  else if src.isProcessType then
    match src.u with
    | .ok (.proc pContext) =>
      let o := s.procRoot pContext
      let pObj := s.objH o
      if src.keyType = .resume then
        .ok ({ dst with u := .unprep pObj.oid pObj.callCount },
          { s with objH := update s.objH o { pObj with callCntUsed := true } })
      else
        .ok ({ dst with u := .unprep pObj.oid pObj.allocCount },
          { s with objH := update s.objH o { pObj with allocCntUsed := true } })
    | _ => .error .nullDeref
  else
    match src.u with
    | .ok (.obj o) =>
      let pObj := s.objH o
      .ok ({ dst with u := .unprep pObj.oid pObj.allocCount },
        { s with objH := update s.objH o { pObj with allocCntUsed := true } })
    | _ => .error .nullDeref

structure DiskNode where
  oid : ℕ
  allocCount : ℕ
  callCount : ℕ
  nodeData : BitVec 16
  slot : Fin 32 → KeyBits

/-- The loop of `node_CopyToDiskNode`, for one slot. -/
def copySlot (n : ℕ) (x : DiskNode × System) (i : Fin 32) : Except Halt (DiskNode × System) := do
  let s ← nodeClearHazard n i x.2
  let (key, keys) ← keyMakeUnpreparedCopy (s.keyAtSlot n i) s.keys
  .ok ({ x.1 with slot := update x.1.slot i key }, { s with keys })

/-- `node_CopyToDiskNode`, where `dn` is what was in the pot before. -/
def nodeCopyToDiskNode (n : ℕ) (dn : DiskNode) (s : System) : Except Halt (DiskNode × System) :=
  let pObj := s.keys.objH n
  (List.finRange 32).foldlM (copySlot n)
    (⟨pObj.oid, pObj.allocCount, pObj.callCount, (s.node n).nodeData, dn.slot⟩, s)

/-- The loop of assertions in `node_SetEqualTo`, for the key in one slot. -/
def assertClear (_ : Fin 32) (key : KeyBits) : Except Halt Unit := do
  kassert (key.isHazard = false)
  kassert (key.prepared = false)

def nodeSetEqualTo (n : ℕ) (other : DiskNode) (s : System) : Except Halt System := do
  kassert (s.keys.next (.obj n) = .obj n)
  kassert ((s.node n).obType = .ntUnprepared)
  let keys := { s.keys with
    objH := update s.keys.objH n ⟨other.oid, other.allocCount, other.callCount, true, true⟩ }
  let _ ← SlotLoop.run assertClear (s.keyAtSlot n)
  .ok { s with
    keys := setSlots keys n other.slot
    node := update s.node n { s.node n with nodeData := other.nodeData } }

/-! ## What slots hold -/

/-- The key that a slot holds. If the slot is read-hazarded, the key is in the process. -/
def System.held (s : System) (n : ℕ) (i : Fin 32) : KeyBits :=
  if (s.keyAtSlot n i).rdHazard then
    match (s.node n).obType with
    | .ntProcessRoot p => unloadKey (s.proc p).regs i (s.keyAtSlot n i).unHazard
    | .ntKeyRegs p => s.keys.key (keyReg p i)
    | _ => (s.keyAtSlot n i).unHazard
  else (s.keyAtSlot n i).unHazard

/-- The registers of a process are loaded from its root. -/
structure RegsLoaded (s : System) (n p : ℕ) : Prop where
  domRoot : (s.proc p).hazards.domRoot = false
  dirty : (s.node n).dirty = true
  rdHazard : ∀ i, procFirstRootRegSlot ≤ i → (s.keyAtSlot n i).rdHazard = true
  wrHazard : ∀ i, procFirstRootRegSlot ≤ i → (s.keyAtSlot n i).wrHazard = true
  number : ∀ i, procFirstRootRegSlot ≤ i → (s.keyAtSlot n i).keyType = .number
  ioSpace : (s.keyAtSlot n procIoSpace).wrHazard = true

/-- What a hazard of a process root means. -/
structure RootOk (s : System) (n p : ℕ) : Prop where
  procRoot : s.keys.procRoot p = n
  regs : ∀ i, procFirstRootRegSlot ≤ i ∨ i = procIoSpace → (s.keyAtSlot n i).isHazard = true → RegsLoaded s n p
  genKeys : (s.keyAtSlot n procGenKeys).isHazard = true → (s.proc p).hazards.keyRegs = false ∧
    ∃ kn, (s.proc p).keysNode = some kn ∧ (s.node kn).obType = .ntKeyRegs p
  others : ∀ i, (s.keyAtSlot n i).isHazard = true → i = procSched ∨ i = procAddrSpace ∨ i = procGenKeys ∨
    procFirstRootRegSlot ≤ i ∨ i = procIoSpace

/-- The key registers of a process are loaded from this node. -/
structure KeysOk (s : System) (n p : ℕ) : Prop where
  keysNode : (s.proc p).keysNode = some n
  keyRegs : (s.proc p).hazards.keyRegs = false
  dirty : (s.node n).dirty = true
  rdHazard : ∀ i, (s.keyAtSlot n i).rdHazard = true
  unprepared : ∀ i, (s.keyAtSlot n i).prepared = false
  loaded : ∀ i, (s.keys.key (keyReg p i)).isHazard = false
  root : (s.node (s.keys.procRoot p)).obType = .ntProcessRoot p

/-- What a hazard means (`disk/Key-inline.h`). -/
structure System.WellFormed (s : System) : Prop where
  unprepared : ∀ n, (s.node n).obType = .ntUnprepared → ∀ i, (s.keyAtSlot n i).isHazard = false
  segment : ∀ n, (s.node n).obType = .ntSegment → ∀ i, (s.keyAtSlot n i).rdHazard = false
  root : ∀ n p, (s.node n).obType = .ntProcessRoot p → RootOk s n p
  keys : ∀ n p, (s.node n).obType = .ntKeyRegs p → KeysOk s n p

/-- An object has the same OID and counts. -/
def SameHeader (h h' : ObjectHeader) : Prop :=
  h'.oid = h.oid ∧ h'.allocCount = h.allocCount ∧ h'.callCount = h.callCount

/-- Nothing that a slot holds has changed. -/
structure Keeps (s s' : System) : Prop where
  wellFormed : s'.WellFormed
  held : ∀ n i, s'.held n i = s.held n i
  procRoot : s'.keys.procRoot = s.keys.procRoot
  objH : ∀ o, SameHeader (s.keys.objH o) (s'.keys.objH o)
  nodeData : ∀ n, (s'.node n).nodeData = (s.node n).nodeData

variable {s s' t : System} {keys keys' : State} {key : KeyBits} {n m p q kn : ℕ} {i j : Fin 32}

theorem Keeps.refl (h : s.WellFormed) : Keeps s s :=
  ⟨h, fun _ _ => rfl, rfl, fun _ => ⟨rfl, rfl, rfl⟩, fun _ => rfl⟩

theorem Keeps.trans (h : Keeps s s') (h' : Keeps s' t) : Keeps s t where
  wellFormed := h'.wellFormed
  held n i := (h'.held n i).trans (h.held n i)
  procRoot := h'.procRoot.trans h.procRoot
  objH := by
    intro o
    obtain ⟨hoid, halloc, hcall⟩ := h.objH o
    obtain ⟨hoid', halloc', hcall'⟩ := h'.objH o
    exact ⟨hoid'.trans hoid, halloc'.trans halloc, hcall'.trans hcall⟩
  nodeData n := (h'.nodeData n).trans (h.nodeData n)

/-! ## Slots and key registers -/

theorem slot_inj : slot n i = slot m j ↔ n = m ∧ i = j := by
  unfold slot
  constructor
  · intro h
    exact ⟨by omega, Fin.ext (by omega)⟩
  · rintro ⟨rfl, rfl⟩
    rfl

theorem slot_ne_keyReg : slot n i ≠ keyReg p j := by
  unfold slot keyReg
  omega

theorem keyReg_inj : keyReg p i = keyReg q j ↔ p = q ∧ i = j := by
  unfold keyReg
  constructor
  · intro h
    exact ⟨by omega, Fin.ext (by omega)⟩
  · rintro ⟨rfl, rfl⟩
    rfl

theorem setSlots_slot (keys : State) (n : ℕ) (slots : Fin 32 → KeyBits) (i : Fin 32) :
    (setSlots keys n slots).key (slot n i) = slots i := by
  have hi := i.isLt
  have hdiv : slot n i / 64 = n := by
    unfold slot
    omega
  have hmod : slot n i % 64 = i := by
    unfold slot
    omega
  refine (dif_pos ⟨hdiv, hmod.trans_lt hi⟩).trans ?_
  congr 1
  exact Fin.ext hmod

variable {k oid count oid' count' : ℕ}

theorem setSlots_of_ne (slots : Fin 32 → KeyBits) (h : ∀ i, k ≠ slot n i) :
    (setSlots keys n slots).key k = keys.key k := by
  apply dif_neg
  rintro ⟨hdiv, hlt⟩
  apply h ⟨k % 64, hlt⟩
  rw [← hdiv]
  exact (Nat.div_add_mod k 64).symm

theorem unHazard_keyAtSlot (s : System) (n : ℕ) (i : Fin 32) (j : Fin 32) :
    (s.unHazard n i).keyAtSlot n j = if j = i then (s.keyAtSlot n i).unHazard else s.keyAtSlot n j := by
  unfold System.unHazard System.keyAtSlot
  by_cases hj : j = i
  · rw [if_pos hj, hj, put_same]
  · rw [if_neg hj]
    exact put_other _ _ fun h => hj (slot_inj.mp h).2

theorem unHazard_of_ne (s : System) (n : ℕ) (i : Fin 32) (h : ∀ i, k ≠ slot n i) :
    (s.unHazard n i).keys.key k = s.keys.key k := put_other _ _ (h i)

@[simp]
theorem isHazard_unHazard (key : KeyBits) : key.unHazard.isHazard = false := rfl

theorem unHazard_eq_self (h : key.isHazard = false) : key.unHazard = key := by
  obtain ⟨keyType, prepared, rdHazard, wrHazard, keyPerms, keyData, u⟩ := key
  obtain ⟨hrd, hwr⟩ : rdHazard = false ∧ wrHazard = false := by simpa [KeyBits.isHazard] using h
  simp only [KeyBits.unHazard, hrd, hwr]

theorem rdHazard_of_isHazard (h : key.isHazard = false) : key.rdHazard = false := by
  simp only [KeyBits.isHazard, Bool.or_eq_false_iff] at h
  exact h.1

theorem held_of_unhazarded (h : (s.keyAtSlot n i).isHazard = false) : s.held n i = s.keyAtSlot n i := by
  rw [System.held, rdHazard_of_isHazard h, if_neg Bool.false_ne_true, unHazard_eq_self h]

/-! ## What stays -/

theorem RegsLoaded.frame (h : RegsLoaded s n p)
    (hdomRoot : (s'.proc p).hazards.domRoot = (s.proc p).hazards.domRoot)
    (hdirty : (s'.node n).dirty = (s.node n).dirty)
    (hslot : ∀ i, procFirstRootRegSlot ≤ i ∨ i = procIoSpace → s'.keyAtSlot n i = s.keyAtSlot n i) :
    RegsLoaded s' n p where
  domRoot := hdomRoot.trans h.domRoot
  dirty := hdirty.trans h.dirty
  rdHazard := by
    intro i hi
    rw [hslot i (.inl hi)]
    exact h.rdHazard i hi
  wrHazard := by
    intro i hi
    rw [hslot i (.inl hi)]
    exact h.wrHazard i hi
  number := by
    intro i hi
    rw [hslot i (.inl hi)]
    exact h.number i hi
  ioSpace := by
    rw [hslot procIoSpace (.inr rfl)]
    exact h.ioSpace

theorem RootOk.frame (h : RootOk s m q) (hroot : s'.keys.procRoot = s.keys.procRoot)
    (hslot : ∀ i, s'.keyAtSlot m i = s.keyAtSlot m i) (hproc : s'.proc q = s.proc q)
    (hdirty : (s'.node m).dirty = (s.node m).dirty)
    (hkeys : ∀ kn, (s.node kn).obType = .ntKeyRegs q → (s'.node kn).obType = .ntKeyRegs q) : RootOk s' m q where
  procRoot := by rw [hroot, h.procRoot]
  regs := by
    intro i hi hhaz
    rw [hslot] at hhaz
    exact (h.regs i hi hhaz).frame (by rw [hproc]) hdirty fun j _ => hslot j
  genKeys := by
    intro hhaz
    rw [hslot] at hhaz
    obtain ⟨hregs, kn, hkn, hob⟩ := h.genKeys hhaz
    rw [hproc]
    exact ⟨hregs, kn, hkn, hkeys kn hob⟩
  others := by
    intro i hhaz
    rw [hslot] at hhaz
    exact h.others i hhaz

theorem KeysOk.frame (h : KeysOk s m q) (hroot : s'.keys.procRoot = s.keys.procRoot)
    (hslot : ∀ i, s'.keyAtSlot m i = s.keyAtSlot m i)
    (hreg : ∀ i, s'.keys.key (keyReg q i) = s.keys.key (keyReg q i))
    (hkeysNode : (s'.proc q).keysNode = (s.proc q).keysNode)
    (hkeyRegs : (s'.proc q).hazards.keyRegs = (s.proc q).hazards.keyRegs)
    (hdirty : (s'.node m).dirty = (s.node m).dirty)
    (hob : (s'.node (s.keys.procRoot q)).obType = (s.node (s.keys.procRoot q)).obType) : KeysOk s' m q := by
  constructor <;> simp only [hkeysNode, hkeyRegs, hdirty, hslot, hreg, hroot, hob]
  · exact h.keysNode
  · exact h.keyRegs
  · exact h.dirty
  · exact h.rdHazard
  · exact h.unprepared
  · exact h.loaded
  · exact h.root

theorem held_frame (hob : (s'.node m).obType = (s.node m).obType)
    (hslot : s'.keyAtSlot m i = s.keyAtSlot m i)
    (hroot : ∀ q, (s.node m).obType = .ntProcessRoot q → (s'.proc q).regs = (s.proc q).regs)
    (hkeys : ∀ q, (s.node m).obType = .ntKeyRegs q → s'.keys.key (keyReg q i) = s.keys.key (keyReg q i)) :
    s'.held m i = s.held m i := by
  unfold System.held
  rw [hob, hslot]
  cases hobm : (s.node m).obType with
  | ntUnprepared | ntSegment => rfl
  | ntProcessRoot q => simp only [hroot q hobm]
  | ntKeyRegs q => simp only [hkeys q hobm]

theorem System.WellFormed.changeRoot (h : s.WellFormed) (hob : (s.node n).obType = .ntProcessRoot p)
    (hnode : s'.node = s.node) (hroot : s'.keys.procRoot = s.keys.procRoot)
    (hkey : ∀ k, (∀ i, k ≠ slot n i) → s'.keys.key k = s.keys.key k)
    (hproc : ∀ q, q ≠ p → s'.proc q = s.proc q) (hkeysNode : (s'.proc p).keysNode = (s.proc p).keysNode)
    (hkeyRegs : (s'.proc p).hazards.keyRegs = (s.proc p).hazards.keyRegs) (hok : RootOk s' n p) :
    s'.WellFormed ∧ ∀ m, m ≠ n → ∀ i, s'.held m i = s.held m i := by
  have hslot : ∀ m, m ≠ n → ∀ i, s'.keyAtSlot m i = s.keyAtSlot m i := fun m hm i =>
    hkey _ fun j hj => hm (slot_inj.mp hj).1
  have hreg : ∀ q i, s'.keys.key (keyReg q i) = s.keys.key (keyReg q i) := fun q i =>
    hkey _ fun j hj => slot_ne_keyReg hj.symm
  have hne : ∀ m ob, (s.node m).obType = ob → ob ≠ .ntProcessRoot p → m ≠ n := by
    rintro m ob hobm hdiff rfl
    exact hdiff (hobm.symm.trans hob)
  -- The other roots are those of other processes.
  have hother : ∀ m q, m ≠ n → (s.node m).obType = .ntProcessRoot q → q ≠ p := by
    rintro m q hm hobm rfl
    exact hm ((h.root m q hobm).procRoot.symm.trans (h.root n q hob).procRoot)
  refine ⟨⟨?_, ?_, ?_, ?_⟩, ?_⟩
  -- Each node other than `n` is as before.
  · intro m hobm i
    rw [hnode] at hobm
    rw [hslot m (hne m _ hobm (by simp))]
    exact h.unprepared m hobm i
  · intro m hobm i
    rw [hnode] at hobm
    rw [hslot m (hne m _ hobm (by simp))]
    exact h.segment m hobm i
  · intro m q hobm
    rw [hnode] at hobm
    by_cases hm : m = n
    · subst hm
      obtain rfl : p = q := ObType.ntProcessRoot.inj (hob.symm.trans hobm)
      exact hok
    · refine (h.root m q hobm).frame hroot (hslot m hm) (hproc q (hother m q hm hobm)) ?_ ?_ <;> rw [hnode]
      exact fun _ hkn => hkn
  · intro m q hobm
    rw [hnode] at hobm
    have hkeys := h.keys m q hobm
    have hm := hne m _ hobm (by simp)
    by_cases hq : q = p
    · -- The keys node of the process needs only what was not changed of it.
      subst hq
      exact hkeys.frame hroot (hslot m hm) (hreg q) hkeysNode hkeyRegs (by rw [hnode]) (by rw [hnode])
    · have hproc' := hproc q hq
      exact hkeys.frame hroot (hslot m hm) (hreg q) (by rw [hproc']) (by rw [hproc']) (by rw [hnode]) (by rw [hnode])
  · intro m hm i
    apply held_frame (by rw [hnode]) (hslot m hm i)
    · intro q hobm
      rw [hproc q (hother m q hm hobm)]
    · exact fun q _ => hreg q i

/-! ## Slots of a segment, and of a process root -/

theorem keeps_unHazard_segment (h : s.WellFormed) (hob : (s.node n).obType = .ntSegment) (i : Fin 32) :
    Keeps s (s.unHazard n i) := by
  have hslot : ∀ m, m ≠ n → ∀ j, (s.unHazard n i).keyAtSlot m j = s.keyAtSlot m j := fun m hm j =>
    unHazard_of_ne s n i fun j' hj' => hm (slot_inj.mp hj').1
  have hreg : ∀ q j, (s.unHazard n i).keys.key (keyReg q j) = s.keys.key (keyReg q j) := fun q j =>
    unHazard_of_ne s n i fun j' hj' => slot_ne_keyReg hj'.symm
  have hne : ∀ m ob, (s.node m).obType = ob → ob ≠ .ntSegment → m ≠ n := by
    rintro m ob hobm hdiff rfl
    exact hdiff (hobm.symm.trans hob)
  refine ⟨⟨?_, ?_, ?_, ?_⟩, ?_, rfl, fun _ => ⟨rfl, rfl, rfl⟩, fun _ => rfl⟩
  · intro m hobm j
    rw [hslot m (hne m _ hobm (by simp))]
    exact h.unprepared m hobm j
  · intro m hobm j
    by_cases hm : m = n
    · subst hm
      rw [unHazard_keyAtSlot]
      split
      · rfl
      · exact h.segment m hobm j
    · rw [hslot m hm]
      exact h.segment m hobm j
  · intro m q hobm
    exact (h.root m q hobm).frame rfl (hslot m (hne m _ hobm (by simp))) rfl rfl fun _ hkn => hkn
  · intro m q hobm
    exact (h.keys m q hobm).frame rfl (hslot m (hne m _ hobm (by simp))) (hreg q) rfl rfl rfl rfl
  · intro m j
    by_cases hm : m = n
    · subst hm
      by_cases hj : j = i
      · -- A slot of a segment is not read-hazarded.
        subst hj
        have hclear : ((s.unHazard m j).keyAtSlot m j).isHazard = false := by
          rw [unHazard_keyAtSlot, if_pos rfl, isHazard_unHazard]
        rw [held_of_unhazarded hclear, unHazard_keyAtSlot, if_pos rfl, System.held, h.segment m hob j,
          if_neg Bool.false_ne_true]
      · have hsame : (s.unHazard m i).keyAtSlot m j = s.keyAtSlot m j := by
          rw [unHazard_keyAtSlot, if_neg hj]
        exact held_frame rfl hsame (fun _ _ => rfl) fun q _ => hreg q j
    · exact held_frame rfl (hslot m hm j) (fun _ _ => rfl) fun q _ => hreg q j

theorem unloadKey_of_lt (regs : FixRegs) (key : KeyBits) (hi : i < procFirstRootRegSlot) :
    unloadKey regs i key = key := if_neg fun h => absurd (h.1.trans_lt hi) (lt_irrefl _)

theorem held_root_of_lt (hob : (s.node n).obType = .ntProcessRoot p) (hi : i < procFirstRootRegSlot) :
    s.held n i = (s.keyAtSlot n i).unHazard := by
  unfold System.held
  rw [hob]
  split
  · exact unloadKey_of_lt _ _ hi
  · rfl

theorem held_root_of_le (hob : (s.node n).obType = .ntProcessRoot p) (h : RegsLoaded s n p)
    (hi : procFirstRootRegSlot ≤ i) : s.held n i = unloadKey (s.proc p).regs i (s.keyAtSlot n i).unHazard := by
  unfold System.held
  rw [if_pos (h.rdHazard i hi), hob]

theorem regSlot_ne : ∀ i : Fin 32, procFirstRootRegSlot ≤ i ∨ i = procIoSpace →
    i ≠ procSched ∧ i ≠ procAddrSpace ∧ i ≠ procGenKeys := by decide

theorem keeps_unHazard_root (h : s.WellFormed) (hob : (s.node n).obType = .ntProcessRoot p)
    (hi : i = procSched ∨ i = procAddrSpace) (hkeys : s'.keys = (s.unHazard n i).keys) (hnode : s'.node = s.node)
    (hproc : ∀ q, q ≠ p → s'.proc q = s.proc q) (hregs : (s'.proc p).regs = (s.proc p).regs)
    (hkeysNode : (s'.proc p).keysNode = (s.proc p).keysNode)
    (hkeyRegs : (s'.proc p).hazards.keyRegs = (s.proc p).hazards.keyRegs)
    (hdomRoot : (s'.proc p).hazards.domRoot = (s.proc p).hazards.domRoot) : Keeps s s' := by
  have hslot : ∀ j, s'.keyAtSlot n j = if j = i then (s.keyAtSlot n i).unHazard else s.keyAtSlot n j := by
    intro j
    rw [← unHazard_keyAtSlot, System.keyAtSlot, hkeys]
    rfl
  have hsame : ∀ j, j ≠ i → s'.keyAtSlot n j = s.keyAtSlot n j := by
    intro j hj
    rw [hslot, if_neg hj]
  have hreg : ∀ j, procFirstRootRegSlot ≤ j ∨ j = procIoSpace → j ≠ i := by
    intro j hj
    obtain ⟨hsched, hspace, -⟩ := regSlot_ne j hj
    rcases hi with rfl | rfl
    · exact hsched
    · exact hspace
  have hold := h.root n p hob
  have hok : RootOk s' n p := by
    constructor
    · rw [hkeys]
      exact hold.procRoot
    · intro j hj hhaz
      rw [hsame j (hreg j hj)] at hhaz
      exact (hold.regs j hj hhaz).frame hdomRoot (by rw [hnode]) fun k hk => hsame k (hreg k hk)
    · intro hhaz
      have hne : procGenKeys ≠ i := by
        rintro rfl
        rcases hi with hi | hi <;> exact absurd hi (by decide)
      rw [hsame procGenKeys hne] at hhaz
      rw [hkeyRegs, hkeysNode, hnode]
      exact hold.genKeys hhaz
    · intro j hhaz
      by_cases hj : j = i
      · rcases hi with hi | hi
        · exact .inl (hj.trans hi)
        · exact .inr (.inl (hj.trans hi))
      · rw [hsame j hj] at hhaz
        exact hold.others j hhaz
  have hroot : s'.keys.procRoot = s.keys.procRoot := by
    rw [hkeys]
    rfl
  have hkey : ∀ k, (∀ j, k ≠ slot n j) → s'.keys.key k = s.keys.key k := by
    intro k hk
    rw [hkeys]
    exact unHazard_of_ne s n i hk
  obtain ⟨hwf, hheld⟩ := h.changeRoot hob hnode hroot hkey hproc hkeysNode hkeyRegs hok
  refine ⟨hwf, ?_, hroot, ?_, ?_⟩
  · intro m j
    by_cases hm : m = n
    · subst hm
      by_cases hj : j = i
      · -- The slot is not for registers, so it holds its own key before and after.
        have hlt : j < procFirstRootRegSlot := by
          subst hj
          rcases hi with rfl | rfl <;> decide
        rw [held_root_of_lt (by rw [hnode, hob]) hlt, held_root_of_lt hob hlt, hslot, if_pos hj, hj]
        rfl
      · apply held_frame (by rw [hnode]) (hsame j hj)
        · intro q hobq
          obtain rfl : p = q := ObType.ntProcessRoot.inj (hob.symm.trans hobq)
          exact hregs
        · intro q hobq
          exact hkey _ fun j' hj' => slot_ne_keyReg hj'.symm
    · exact hheld m hm j
  · intro o
    rw [hkeys]
    exact ⟨rfl, rfl, rfl⟩
  · intro m
    rw [hnode]

/-! ## Flushing registers -/

/-- The keys in the slots of a process root after `proc_FlushFixRegs`. -/
def flushedSlot (regs : FixRegs) (i : Fin 32) (key : KeyBits) : KeyBits :=
  if procFirstRootRegSlot ≤ i then unloadKey regs i key.unHazard
  else if i = procSched ∨ i = procIoSpace then key.unHazard
  else key

/-- The process after `proc_FlushFixRegs`. -/
def flushedProc (proc : Process) : Process :=
  { proc with hazards := { proc.hazards with domRoot := true, schedule := true } }

/-- The system after `proc_FlushFixRegs`. -/
def System.flushedRegs (s : System) (n p : ℕ) : System where
  keys := setSlots s.keys n fun i => flushedSlot (s.proc p).regs i (s.keyAtSlot n i)
  node := s.node
  proc := update s.proc p (flushedProc (s.proc p))

theorem procFlushFixRegs_eq (h : RegsLoaded s n p) (hroot : s.keys.procRoot p = n) :
    procFlushFixRegs p s = .ok (s.flushedRegs n p) := by
  have hrun : SlotLoop.run flushRegSlot (s.keyAtSlot n) = .ok fun k =>
      if procFirstRootRegSlot ≤ k then (s.keyAtSlot n k).unHazard else s.keyAtSlot n k := by
    apply SlotLoop.run_eq_ok_iff.mpr
    intro k
    unfold flushRegSlot
    split
    · rename_i hk
      rw [kassert_pos (h.rdHazard k hk), kassert_pos (h.wrHazard k hk), ok_bind, ok_bind]
    · rfl
  have hio : ¬ procFirstRootRegSlot ≤ procIoSpace := by decide
  unfold procFlushFixRegs
  simp only [hroot]
  rw [kassert_pos h.domRoot, kassert_pos h.dirty, ok_bind, ok_bind, hrun, ok_bind]
  simp only [if_neg hio]
  rw [kassert_pos h.ioSpace, ok_bind]
  congr 3
  ext i : 1
  -- The hazard of the register slots and of two other slots is cleared.
  unfold flushedSlot
  by_cases hsched : i = procSched
  · subst hsched
    rw [update_self, update_of_ne (by decide), if_neg (by decide), if_neg (by decide),
      if_pos (.inl rfl), unloadKey_of_lt _ _ (by decide)]
  rw [update_of_ne hsched]
  by_cases hi : i = procIoSpace
  · subst hi
    rw [update_self, if_neg hio, if_pos (.inr rfl), unloadKey_of_lt _ _ (by decide)]
  rw [update_of_ne hi]
  by_cases hle : procFirstRootRegSlot ≤ i
  · rw [if_pos hle, if_pos hle]
  · rw [if_neg hle, if_neg hle, if_neg (not_or.mpr ⟨hsched, hi⟩), unloadKey_of_lt _ _ (not_le.mp hle)]

theorem unloadKey_isHazard (regs : FixRegs) (i : Fin 32) (key : KeyBits) :
    (unloadKey regs i key).isHazard = key.isHazard := by
  unfold unloadKey
  split <;> rfl

theorem flushedSlot_isHazard (regs : FixRegs) (hi : procFirstRootRegSlot ≤ i ∨ i = procIoSpace) :
    (flushedSlot regs i key).isHazard = false := by
  unfold flushedSlot
  rcases hi with hle | rfl
  · rw [if_pos hle, unloadKey_isHazard, isHazard_unHazard]
  · rfl

theorem flushedSlot_of_lt (regs : FixRegs) (key : KeyBits) (hi : i < procFirstRootRegSlot) :
    flushedSlot regs i key = key.unHazard ∨ flushedSlot regs i key = key := by
  unfold flushedSlot
  rw [if_neg (not_le.mpr hi)]
  split
  · exact .inl rfl
  · exact .inr rfl

theorem flushedRegs_keyAtSlot (s : System) (n p : ℕ) (i : Fin 32) :
    (s.flushedRegs n p).keyAtSlot n i = flushedSlot (s.proc p).regs i (s.keyAtSlot n i) :=
  setSlots_slot s.keys n (fun i => flushedSlot (s.proc p).regs i (s.keyAtSlot n i)) i

theorem flushedRegs_key (h : ∀ i, k ≠ slot n i) : (s.flushedRegs n p).keys.key k = s.keys.key k :=
  setSlots_of_ne (fun i => flushedSlot (s.proc p).regs i (s.keyAtSlot n i)) h

theorem flushedRegs_keeps (h : s.WellFormed) (hob : (s.node n).obType = .ntProcessRoot p)
    (hloaded : RegsLoaded s n p) : Keeps s (s.flushedRegs n p) := by
  have hold := h.root n p hob
  have hproc : (s.flushedRegs n p).proc p = flushedProc (s.proc p) := update_self ..
  have hclear : ∀ i, procFirstRootRegSlot ≤ i ∨ i = procIoSpace →
      ((s.flushedRegs n p).keyAtSlot n i).isHazard = false := by
    intro i hi
    rw [flushedRegs_keyAtSlot]
    exact flushedSlot_isHazard _ hi
  have hok : RootOk (s.flushedRegs n p) n p := by
    constructor
    · exact hold.procRoot
    · intro i hi hhaz
      rw [hclear i hi] at hhaz
      cases hhaz
    · intro hhaz
      have hgen : (s.flushedRegs n p).keyAtSlot n procGenKeys = s.keyAtSlot n procGenKeys := by
        rw [flushedRegs_keyAtSlot]
        rfl
      rw [hgen] at hhaz
      rw [hproc]
      exact hold.genKeys hhaz
    · intro i hhaz
      by_cases hi : procFirstRootRegSlot ≤ i ∨ i = procIoSpace
      · rw [hclear i hi] at hhaz
        cases hhaz
      · rw [flushedRegs_keyAtSlot] at hhaz
        obtain hslot | hslot := flushedSlot_of_lt (s.proc p).regs (s.keyAtSlot n i)
          (not_le.mp fun hle => hi (.inl hle)) <;> rw [hslot] at hhaz
        · cases hhaz
        · exact hold.others i hhaz
  obtain ⟨hwf, hheld⟩ : (s.flushedRegs n p).WellFormed ∧
      ∀ m, m ≠ n → ∀ i, (s.flushedRegs n p).held m i = s.held m i :=
    h.changeRoot hob rfl rfl (fun k hk => flushedRegs_key hk) (fun q hq => update_of_ne hq ..)
      (by rw [hproc]; rfl) (by rw [hproc]; rfl) hok
  refine ⟨hwf, ?_, rfl, fun _ => ⟨rfl, rfl, rfl⟩, fun _ => rfl⟩
  intro m i
  by_cases hm : m = n
  swap
  · exact hheld m hm i
  subst hm
  by_cases hle : procFirstRootRegSlot ≤ i
  · -- What was in the registers is in the slot now.
    rw [held_of_unhazarded (hclear i (.inl hle)), held_root_of_le hob hloaded hle, flushedRegs_keyAtSlot, flushedSlot,
      if_pos hle]
  · have hlt := not_le.mp hle
    rw [held_root_of_lt (s := s.flushedRegs m p) hob hlt, held_root_of_lt hob hlt, flushedRegs_keyAtSlot]
    rcases flushedSlot_of_lt (s.proc p).regs (s.keyAtSlot m i) hlt with hslot | hslot <;> rw [hslot]
    rfl

/-! ## Flushing key registers -/

theorem keyNHMove_eq (keys : State) (dst src : ℕ) (hdst : (keys.key dst).isHazard = false)
    (hsrc : (keys.key src).isHazard = false) (hprep : (keys.key dst).prepared = false) :
    ∃ keys', keyNHMove dst src keys = .ok keys' ∧ keys'.objH = keys.objH ∧ keys'.procRoot = keys.procRoot ∧
      (dst ≠ src → keys'.key dst = keys.key src) ∧ ∀ k, k ≠ src → k ≠ dst → keys'.key k = keys.key k := by
  unfold keyNHMove
  rw [kassert_pos hdst, kassert_pos hsrc, kassert_pos hprep]
  refine ⟨_, rfl, ?_, ?_, ?_, ?_⟩
  · split <;> rfl
  · split <;> rfl
  · intro hne
    rw [put_other _ _ hne]
    split <;> exact put_same ..
  · intro k hks hkd
    rw [put_other _ _ hks]
    split <;> exact put_other _ _ hkd

theorem flushKeyReg_loop (l : List (Fin 32)) (hl : l.Nodup) :
    ∀ keys : State, (∀ i ∈ l, (keys.key (slot kn i)).prepared = false) →
      (∀ i ∈ l, (keys.key (keyReg p i)).isHazard = false) →
      ∃ keys', l.foldlM (flushKeyReg kn p) keys = .ok keys' ∧ keys'.objH = keys.objH ∧
        keys'.procRoot = keys.procRoot ∧ (∀ i ∈ l, keys'.key (slot kn i) = keys.key (keyReg p i)) ∧
        ∀ k, (∀ i ∈ l, k ≠ slot kn i ∧ k ≠ keyReg p i) → keys'.key k = keys.key k := by
  induction l with
  | nil => exact fun keys _ _ => ⟨keys, rfl, rfl, rfl, by simp, fun _ _ => rfl⟩
  | cons i l ih =>
    obtain ⟨hi, hl⟩ := List.nodup_cons.mp hl
    intro keys hprep hreg
    -- One key is moved.
    have hput : (keys.put (slot kn i) (keys.key (slot kn i)).unHazard).key (keyReg p i) = keys.key (keyReg p i) :=
      put_other _ _ fun h => slot_ne_keyReg h.symm
    obtain ⟨keys₁, hrun₁, hobj₁, hroot₁, hmoved, hother⟩ := keyNHMove_eq
      (keys.put (slot kn i) (keys.key (slot kn i)).unHazard) (slot kn i) (keyReg p i) (by rw [put_same]; rfl)
      (by rw [hput]; exact hreg i List.mem_cons_self) (by rw [put_same]; exact hprep i List.mem_cons_self)
    have hmoved := (hmoved slot_ne_keyReg).trans hput
    have hkey : ∀ k, k ≠ slot kn i → k ≠ keyReg p i → keys₁.key k = keys.key k := fun k hk hk' =>
      (hother k hk' hk).trans (put_other _ _ hk)
    have hslot₁ : ∀ j ∈ l, keys₁.key (slot kn j) = keys.key (slot kn j) := by
      intro j hj
      apply hkey _ _ slot_ne_keyReg
      rintro h
      obtain ⟨-, rfl⟩ := slot_inj.mp h
      exact hi hj
    have hreg₁ : ∀ j ∈ l, keys₁.key (keyReg p j) = keys.key (keyReg p j) := by
      intro j hj
      apply hkey _ (fun h => slot_ne_keyReg h.symm)
      rintro h
      obtain ⟨-, rfl⟩ := keyReg_inj.mp h
      exact hi hj
    -- The other keys are moved.
    obtain ⟨keys₂, hrun₂, hobj₂, hroot₂, hslots₂, hother₂⟩ := ih hl keys₁
      (fun j hj => by rw [hslot₁ j hj]; exact hprep j (List.mem_cons_of_mem i hj))
      (fun j hj => by rw [hreg₁ j hj]; exact hreg j (List.mem_cons_of_mem i hj))
    refine ⟨keys₂, ?_, hobj₂.trans hobj₁, hroot₂.trans hroot₁, ?_, ?_⟩
    · rw [List.foldlM_cons, flushKeyReg, hrun₁]
      exact hrun₂
    · intro j hj
      rcases List.mem_cons.mp hj with rfl | hj
      · refine (hother₂ _ fun j' hj' => ⟨?_, slot_ne_keyReg⟩).trans hmoved
        rintro h
        obtain ⟨-, rfl⟩ := slot_inj.mp h
        exact hi hj'
      · rw [hslots₂ j hj, hreg₁ j hj]
    · intro k hk
      obtain ⟨hks, hkr⟩ := hk i List.mem_cons_self
      rw [hother₂ k fun j hj => hk j (List.mem_cons_of_mem i hj), hkey k hks hkr]

/-- What `proc_FlushKeyRegs` does to a process, its root `r` and its keys node. -/
structure FlushedKeys (s s' : System) (p r kn : ℕ) : Prop where
  slot : ∀ i, s'.keyAtSlot kn i = s.keys.key (keyReg p i)
  genKeys : s'.keyAtSlot r procGenKeys = (s.keyAtSlot r procGenKeys).unHazard
  root : ∀ i, i ≠ procGenKeys → s'.keyAtSlot r i = s.keyAtSlot r i
  other : ∀ m, m ≠ kn → m ≠ r → ∀ i, s'.keyAtSlot m i = s.keyAtSlot m i
  keyReg : ∀ q, q ≠ p → ∀ i, s'.keys.key (keyReg q i) = s.keys.key (keyReg q i)
  objH : s'.keys.objH = s.keys.objH
  procRoot : s'.keys.procRoot = s.keys.procRoot
  node : s'.node = update s.node kn { s.node kn with obType := .ntUnprepared }
  proc : s'.proc = update s.proc p
    { s.proc p with keysNode := none, hazards := { (s.proc p).hazards with keyRegs := true } }

theorem procFlushKeyRegs_spec (h : KeysOk s kn p) (hob : (s.node kn).obType = .ntKeyRegs p) :
    ∃ s', procFlushKeyRegs p s = .ok s' ∧ FlushedKeys s s' p (s.keys.procRoot p) kn := by
  have hne : s.keys.procRoot p ≠ kn := by
    intro heq
    have hroot := h.root
    rw [heq, hob] at hroot
    cases hroot
  obtain ⟨keys, hrun, hobj, hroot, hslots, hother⟩ := flushKeyReg_loop (List.finRange 32) (List.nodup_finRange 32)
    s.keys (fun i _ => h.unprepared i) fun i _ => h.loaded i
  have hsame : ∀ m, m ≠ kn → ∀ i, keys.key (slot m i) = s.keyAtSlot m i := fun m hm i =>
    hother _ fun j _ => ⟨fun heq => hm (slot_inj.mp heq).1, slot_ne_keyReg⟩
  unfold procFlushKeyRegs
  rw [h.keysNode]
  simp only [kassert_pos h.keyRegs, kassert_pos h.dirty, ok_bind, hrun, hroot]
  refine ⟨_, rfl, ?_, ?_, ?_, ?_, ?_, hobj, hroot, rfl, rfl⟩
  · intro i
    refine (unHazard_of_ne _ _ _ fun j heq => hne (slot_inj.mp heq).1.symm).trans ?_
    exact hslots i (List.mem_finRange i)
  · rw [unHazard_keyAtSlot, if_pos rfl]
    exact congrArg KeyBits.unHazard (hsame _ hne _)
  · intro i hi
    rw [unHazard_keyAtSlot, if_neg hi]
    exact hsame _ hne i
  · intro m hm hr i
    refine (unHazard_of_ne _ _ _ fun j heq => hr (slot_inj.mp heq).1).trans ?_
    exact hsame m hm i
  · intro q hq i
    refine (unHazard_of_ne _ _ _ fun j heq => slot_ne_keyReg heq.symm).trans ?_
    exact hother _ fun j _ => ⟨fun heq => slot_ne_keyReg heq.symm, fun heq => hq (keyReg_inj.mp heq).1⟩

theorem FlushedKeys.rootOk (hf : FlushedKeys s s' p (s.keys.procRoot p) kn) (h : RootOk s (s.keys.procRoot p) p)
    (hdirty : (s'.node (s.keys.procRoot p)).dirty = (s.node (s.keys.procRoot p)).dirty) :
    RootOk s' (s.keys.procRoot p) p := by
  refine ⟨by rw [hf.procRoot], ?_, ?_, ?_⟩
  · intro i hi hhaz
    have hsame : ∀ j, procFirstRootRegSlot ≤ j ∨ j = procIoSpace →
        s'.keyAtSlot (s.keys.procRoot p) j = s.keyAtSlot (s.keys.procRoot p) j := fun j hj =>
      hf.root j (regSlot_ne j hj).2.2
    rw [hsame i hi] at hhaz
    exact (h.regs i hi hhaz).frame (by rw [hf.proc, update_self]) hdirty hsame
  · intro hhaz
    rw [hf.genKeys, isHazard_unHazard] at hhaz
    cases hhaz
  · intro i hhaz
    by_cases hi : i = procGenKeys
    · exact .inr (.inr (.inl hi))
    · rw [hf.root i hi] at hhaz
      exact h.others i hhaz

theorem FlushedKeys.keeps (hf : FlushedKeys s s' p (s.keys.procRoot p) kn) (h : s.WellFormed)
    (hob : (s.node kn).obType = .ntKeyRegs p) : Keeps s s' := by
  have hk := h.keys kn p hob
  have hne : ∀ m ob, (s.node m).obType = ob → ob ≠ .ntKeyRegs p → m ≠ kn := by
    rintro m ob hobm hdiff rfl
    exact hdiff (hobm.symm.trans hob)
  have hneroot : ∀ m ob, (s.node m).obType = ob → ob ≠ .ntProcessRoot p → m ≠ s.keys.procRoot p := by
    rintro m ob hobm hdiff rfl
    exact hdiff (hobm.symm.trans hk.root)
  have hnode : ∀ m, m ≠ kn → s'.node m = s.node m := by
    intro m hm
    rw [hf.node, update_of_ne hm]
  have hproc : ∀ q, q ≠ p → s'.proc q = s.proc q := by
    intro q hq
    rw [hf.proc, update_of_ne hq]
  have hkn : (s'.node kn).obType = .ntUnprepared := by rw [hf.node, update_self]
  have hold : ∀ m ob, (s'.node m).obType = ob → ob ≠ .ntUnprepared → m ≠ kn ∧ (s.node m).obType = ob := by
    intro m ob hobm hdiff
    have hm : m ≠ kn := by
      rintro rfl
      exact hdiff (hobm.symm.trans hkn)
    rw [hnode m hm] at hobm
    exact ⟨hm, hobm⟩
  refine ⟨⟨?_, ?_, ?_, ?_⟩, ?_, hf.procRoot, ?_, ?_⟩
  · intro m hobm i
    by_cases hm : m = kn
    · -- The key registers were not hazarded.
      rw [hm, hf.slot]
      exact hk.loaded i
    · rw [hnode m hm] at hobm
      rw [hf.other m hm (hneroot m _ hobm (by simp))]
      exact h.unprepared m hobm i
  · intro m hobm i
    obtain ⟨hm, hobm⟩ := hold m _ hobm (by simp)
    rw [hf.other m hm (hneroot m _ hobm (by simp))]
    exact h.segment m hobm i
  · intro m q hobm
    obtain ⟨hm, hobm⟩ := hold m _ hobm (by simp)
    have hm' := h.root m q hobm
    by_cases hq : q = p
    · -- The root of the process.
      subst hq
      obtain rfl : s.keys.procRoot q = m := hm'.procRoot
      exact hf.rootOk hm' (by rw [hnode _ hm])
    · have hmr : m ≠ s.keys.procRoot p := hneroot m _ hobm fun heq => hq (ObType.ntProcessRoot.inj heq)
      refine hm'.frame hf.procRoot (hf.other m hm hmr) (hproc q hq) (by rw [hnode m hm]) ?_
      intro k hobk
      rw [hnode k (hne k _ hobk fun heq => hq (ObType.ntKeyRegs.inj heq))]
      exact hobk
  · intro m q hobm
    obtain ⟨hm, hobm⟩ := hold m _ hobm (by simp)
    have hm' := h.keys m q hobm
    have hq : q ≠ p := by
      rintro rfl
      exact hm (Option.some.inj (hm'.keysNode.symm.trans hk.keysNode))
    have hmr : m ≠ s.keys.procRoot p := hneroot m _ hobm (by simp)
    have hqr : s.keys.procRoot q ≠ kn := hne _ _ hm'.root (by simp)
    exact hm'.frame hf.procRoot (hf.other m hm hmr) (hf.keyReg q hq) (by rw [hproc q hq]) (by rw [hproc q hq])
      (by rw [hnode m hm]) (by rw [hnode _ hqr])
  · intro m i
    by_cases hm : m = kn
    · -- What was in the key registers is in the slots now.
      subst hm
      rw [held_of_unhazarded (by rw [hf.slot]; exact hk.loaded i), hf.slot, System.held, if_pos (hk.rdHazard i), hob]
    · by_cases hmr : m = s.keys.procRoot p
      · subst hmr
        have hob' : (s'.node (s.keys.procRoot p)).obType = .ntProcessRoot p := by
          rw [hnode _ hm]
          exact hk.root
        by_cases hi : i = procGenKeys
        · subst hi
          rw [held_root_of_lt hob' (by decide), held_root_of_lt hk.root (by decide), hf.genKeys]
          rfl
        · apply held_frame (by rw [hnode _ hm]) (hf.root i hi)
          · intro q hobq
            obtain rfl : p = q := ObType.ntProcessRoot.inj (hk.root.symm.trans hobq)
            rw [hf.proc, update_self]
          · intro q hobq
            rw [hk.root] at hobq
            cases hobq
      · apply held_frame (by rw [hnode m hm]) (hf.other m hm hmr i)
        · intro q hobq
          have hq : q ≠ p := by
            rintro rfl
            exact hmr (h.root m q hobq).procRoot.symm
          rw [hproc q hq]
        · intro q hobq
          have hq : q ≠ p := by
            rintro rfl
            exact hm (Option.some.inj ((h.keys m q hobq).keysNode.symm.trans hk.keysNode))
          exact hf.keyReg q hq i
  · intro o
    rw [hf.objH]
    exact ⟨rfl, rfl, rfl⟩
  · intro m
    by_cases hm : m = kn
    · rw [hm, hf.node, update_self]
    · rw [hnode m hm]

/-! ## Clearing the hazard of a slot -/

theorem clearSlot_root (h : s.WellFormed) (hob : (s.node n).obType = .ntProcessRoot p)
    (hhaz : (s.keyAtSlot n i).isHazard = true) :
    ∃ s', clearSlot n i s = .ok s' ∧ Keeps s s' ∧ (s'.keyAtSlot n i).isHazard = false := by
  have hok := h.root n p hob
  have hself : ((s.unHazard n i).keyAtSlot n i).isHazard = false := by
    rw [unHazard_keyAtSlot, if_pos rfl, isHazard_unHazard]
  unfold clearSlot
  rw [hob]
  by_cases hspace : i = procAddrSpace
  · refine ⟨s.unHazard n i, if_pos hspace, ?_, hself⟩
    exact keeps_unHazard_root h hob (.inr hspace) rfl rfl (fun _ _ => rfl) rfl rfl rfl rfl
  by_cases hgen : i = procGenKeys
  · subst hgen
    obtain ⟨-, kn, -, hkn⟩ := hok.genKeys hhaz
    obtain ⟨s', hrun, hf⟩ := procFlushKeyRegs_spec (h.keys kn p hkn) hkn
    refine ⟨s', hrun, hf.keeps h hkn, ?_⟩
    rw [hok.procRoot] at hf
    rw [hf.genKeys, isHazard_unHazard]
  -- The other slots are left to `proc_FlushProcessSlot`.
  simp only [if_neg hspace, if_neg hgen, procFlushProcessSlot, hok.procRoot]
  by_cases hsched : i = procSched
  · refine ⟨_, if_pos hsched, ?_, hself⟩
    refine keeps_unHazard_root h hob (.inl hsched) ?_ ?_ ?_ ?_ ?_ ?_ ?_
    · rfl
    · rfl
    · exact fun q hq => update_of_ne hq ..
    all_goals simp only [update_self]
  · -- What is left are the slots for registers, and `ProcIoSpace`.
    have hreg : procFirstRootRegSlot ≤ i ∨ i = procIoSpace := by
      rcases hok.others i hhaz with hi | hi | hi | hi
      · exact absurd hi hsched
      · exact absurd hi hspace
      · exact absurd hi hgen
      · exact hi
    have hloaded := hok.regs i hreg hhaz
    refine ⟨s.flushedRegs n p, ?_, flushedRegs_keeps h hob hloaded, ?_⟩
    · rw [if_neg hsched, kassert_pos hloaded.domRoot, ok_bind, procFlushFixRegs_eq hloaded hok.procRoot]
    · rw [flushedRegs_keyAtSlot]
      exact flushedSlot_isHazard _ hreg

theorem nodeClearHazard_keeps (h : s.WellFormed) (n : ℕ) (i : Fin 32) :
    ∃ s', nodeClearHazard n i s = .ok s' ∧ Keeps s s' ∧ (s'.keyAtSlot n i).isHazard = false := by
  unfold nodeClearHazard
  by_cases hhaz : (s.keyAtSlot n i).isHazard = false
  · exact ⟨s, if_pos hhaz, .refl h, hhaz⟩
  rw [if_neg hhaz]
  rw [Bool.not_eq_false] at hhaz
  have hclear : ∃ s', clearSlot n i s = .ok s' ∧ Keeps s s' ∧ (s'.keyAtSlot n i).isHazard = false := by
    cases hob : (s.node n).obType with
    | ntUnprepared =>
      -- An unprepared node has no hazards.
      rw [h.unprepared n hob i] at hhaz
      cases hhaz
    | ntSegment =>
      refine ⟨s.unHazard n i, ?_, keeps_unHazard_segment h hob i, ?_⟩
      · unfold clearSlot
        rw [hob]
        exact if_neg (by rw [h.segment n hob i]; exact Bool.false_ne_true)
      · rw [unHazard_keyAtSlot, if_pos rfl, isHazard_unHazard]
    | ntProcessRoot p => exact clearSlot_root h hob hhaz
    | ntKeyRegs p =>
      obtain ⟨s', hrun, hf⟩ := procFlushKeyRegs_spec (h.keys n p hob) hob
      refine ⟨s', ?_, hf.keeps h hob, ?_⟩
      · unfold clearSlot
        rw [hob]
        exact hrun
      · rw [hf.slot]
        exact (h.keys n p hob).loaded i
  obtain ⟨s', hrun, hkeeps, hslot⟩ := hclear
  refine ⟨s', ?_, hkeeps, hslot⟩
  rw [hrun, ok_bind, kassert_pos hslot, ok_bind]

/-! ## The process cache -/

/-- The `obType` of a node in the process cache. -/
def ofObType : ProcessCache.ObType → ObType
  | .unprepared => .ntUnprepared
  | .processRoot p => .ntProcessRoot p
  | .keyRegs p => .ntKeyRegs p

/-- A state of the process cache, with the keys as they are in memory. -/
structure Represents (c : ProcessCache.System) (s : System) : Prop where
  obType : ∀ n, (s.node n).obType = ofObType (c.node n).obType
  dirty : ∀ n, (s.node n).dirty = (c.node n).dirty
  hazards : ∀ n i, ((s.keyAtSlot n i).rdHazard, (s.keyAtSlot n i).wrHazard) = ((c.node n).slot i).hazards
  keyType : ∀ n i, (s.keyAtSlot n i).keyType = ((c.node n).slot i).key.keyType
  void : ∀ n i, ((c.node n).slot i).toProperKey = .void → (s.keyAtSlot n i).prepared = false
  procRoot : ∀ p r, (c.proc p).procRoot = some r → s.keys.procRoot p = r
  keysNode : ∀ p, (s.proc p).keysNode = (c.proc p).keysNode
  procHazards : ∀ p, (s.proc p).hazards = (c.proc p).hazards
  keyReg : ∀ p i, (s.keys.key (keyReg p i)).isHazard = false

theorem rootHazards_ioSpace (proc : ProcessCache.Process) :
    ProcessCache.rootHazards proc procIoSpace = (false, !proc.hazards.domRoot) := rfl

theorem rootHazards_genKeys (proc : ProcessCache.Process) :
    ProcessCache.rootHazards proc procGenKeys = (false, !proc.hazards.keyRegs) := rfl

namespace Represents

variable {c : ProcessCache.System}

theorem isHazard (h : Represents c s) (n : ℕ) (i : Fin 32) :
    (s.keyAtSlot n i).isHazard = false ↔ ((c.node n).slot i).hazards = (false, false) := by
  rw [← h.hazards, Prod.mk.injEq, KeyBits.isHazard, Bool.or_eq_false_iff]

theorem rootOk (h : Represents c s) (hc : c.WellFormed) (hob : (c.node n).obType = .processRoot p) :
    RootOk s n p := by
  have hr := (hc.root_iff p n).mpr hob
  have hok := hc.root p n hr
  have hhazard : ∀ i, (s.keyAtSlot n i).isHazard = true → ProcessCache.rootHazards (c.proc p) i ≠ (false, false) := by
    intro i hhaz heq
    rw [(h.isHazard n i).mpr ((hok.hazards i).trans heq)] at hhaz
    cases hhaz
  constructor
  · exact h.procRoot p n hr
  · intro i hi hhaz
    -- The slot is hazarded, so the registers are loaded.
    have hdom : (c.proc p).hazards.domRoot = false := by
      have hne := hhazard i hhaz
      rcases hi with hle | rfl
      · rw [ProcessCache.rootHazards_regSlot hle] at hne
        simpa using hne
      · rw [rootHazards_ioSpace] at hne
        simpa using hne
    have hboth : ∀ j, procFirstRootRegSlot ≤ j → (s.keyAtSlot n j).rdHazard = true ∧
        (s.keyAtSlot n j).wrHazard = true := by
      intro j hj
      have hslot := (h.hazards n j).trans (hok.hazards j)
      rw [ProcessCache.rootHazards_regSlot hj, hdom] at hslot
      exact Prod.mk.inj hslot
    refine ⟨by rw [h.procHazards, hdom], by rw [h.dirty, hok.dirty hdom], fun j hj => (hboth j hj).1,
      fun j hj => (hboth j hj).2, fun j hj => by rw [h.keyType, hok.number hdom j hj], ?_⟩
    have hslot := (h.hazards n procIoSpace).trans (hok.hazards procIoSpace)
    rw [rootHazards_ioSpace, hdom] at hslot
    exact congrArg Prod.snd hslot
  · intro hhaz
    have hkeyRegs : (c.proc p).hazards.keyRegs = false := by
      have hne := hhazard procGenKeys hhaz
      rw [rootHazards_genKeys] at hne
      simpa using hne
    have hsome := (hc.keyRegs p).keysNode.mpr ⟨by rw [hr]; rfl, hkeyRegs⟩
    obtain ⟨kn, hkn⟩ := Option.isSome_iff_exists.mp hsome
    refine ⟨by rw [h.procHazards, hkeyRegs], kn, by rw [h.keysNode, hkn], ?_⟩
    rw [h.obType, (hc.keys_iff p kn).mp hkn]
    rfl
  · intro i hhaz
    by_contra hnot
    simp only [not_or] at hnot
    apply hhazard i hhaz
    simp [ProcessCache.rootHazards, hnot]

theorem keysOk (h : Represents c s) (hc : c.WellFormed) (hob : (c.node n).obType = .keyRegs p) : KeysOk s n p := by
  have hk := (hc.keys_iff p n).mpr hob
  have hok := hc.keys p n hk
  obtain ⟨hroot, hkeyRegs⟩ := (hc.keyRegs p).keysNode.mp (by rw [hk]; rfl)
  obtain ⟨r, hr⟩ := Option.isSome_iff_exists.mp hroot
  constructor
  · rw [h.keysNode, hk]
  · rw [h.procHazards, hkeyRegs]
  · rw [h.dirty, hok.dirty]
  · intro i
    exact congrArg Prod.fst ((h.hazards n i).trans (hok.hazards i))
  · intro i
    exact h.void n i (hok.void i)
  · exact h.keyReg p
  · rw [h.procRoot p r hr, h.obType, (hc.root_iff p r).mp hr]
    rfl

theorem wellFormed (h : Represents c s) (hc : c.WellFormed) : s.WellFormed := by
  have hob : ∀ n ob, (s.node n).obType = ob → ofObType (c.node n).obType = ob := fun n ob hn =>
    (h.obType n).symm.trans hn
  constructor
  · intro n hn i
    have hcn := hob n _ hn
    apply (h.isHazard n i).mpr
    cases hob' : (c.node n).obType <;> rw [hob'] at hcn <;> cases hcn
    exact hc.unprepared n hob' i
  · intro n hn
    have hcn := hob n _ hn
    cases hob' : (c.node n).obType <;> rw [hob'] at hcn <;> cases hcn
  · intro n p hn
    have hcn := hob n _ hn
    cases hob' : (c.node n).obType <;> rw [hob'] at hcn <;> cases hcn
    exact h.rootOk hc hob'
  · intro n p hn
    have hcn := hob n _ hn
    cases hob' : (c.node n).obType <;> rw [hob'] at hcn <;> cases hcn
    exact h.keysOk hc hob'

end Represents

/-! ## Keys on the disk -/

/-- The object that a key designates, by its OID, and the count that goes with it. -/
inductive Designates (s : State) (key : KeyBits) : ℕ → ℕ → Prop where
  /-- An unprepared key has both. -/
  | unprepared (oid count : ℕ) (hprep : key.prepared = false) (hu : key.u = .unprep oid count) :
      Designates s key oid count
  /-- A prepared key to a page or a node has a pointer to its header. -/
  | object (pObj : ℕ) (hprep : key.prepared = true) (hu : key.u = .ok (.obj pObj)) :
      Designates s key (s.objH pObj).oid (s.objH pObj).allocCount
  /-- A prepared key to a process has a pointer to it, and the process one to its root. -/
  | process (pContext : ℕ) (hprep : key.prepared = true) (hu : key.u = .ok (.proc pContext))
      (htype : key.keyType ≠ .resume) :
      Designates s key (s.objH (s.procRoot pContext)).oid (s.objH (s.procRoot pContext)).allocCount
  /-- The call count goes with a Resume key. -/
  | resume (pContext : ℕ) (hprep : key.prepared = true) (hu : key.u = .ok (.proc pContext))
      (htype : key.keyType = .resume) :
      Designates s key (s.objH (s.procRoot pContext)).oid (s.objH (s.procRoot pContext)).callCount

/-- The key `key'` is `key`, but unprepared. -/
structure SameKey (s : State) (key : KeyBits) (s' : State) (key' : KeyBits) : Prop where
  keyType : key'.keyType = key.keyType
  keyPerms : key'.keyPerms = key.keyPerms
  keyData : key'.keyData = key.keyData
  unprepared : key'.prepared = false
  unhazarded : key'.isHazard = false
  /-- It designates what the key designates. -/
  target : key.isObjectKey = true → ∀ oid count, Designates s' key' oid count ↔ Designates s key oid count
  /-- A prepared object key does designate something. -/
  prepared : key.isPreparedObjectKey = true → ∃ oid count, Designates s key oid count
  /-- If it is no object key, it has the same value. -/
  value : key.isObjectKey = false → key'.u = key.u

/-- A prepared object key points to a header, as is so in all runs. -/
def Pointed (key : KeyBits) : Prop :=
  key.isPreparedObjectKey = true → ∃ header, key.u = .ok header ∧ key.Suits header

theorem pointed_of_reach (h : Reach keys) (k : ℕ) : Pointed (keys.key k) := by
  obtain ⟨ring, hinv⟩ := h.wf
  exact hinv.suits k

theorem designates_unprepared (hprep : key.prepared = false)
    (hu : key.u = .unprep oid count) : Designates keys key oid' count' ↔ oid' = oid ∧ count' = count := by
  constructor
  · intro h
    cases h with
    | unprepared _ _ _ hu' =>
      rw [hu] at hu'
      cases hu'
      exact ⟨rfl, rfl⟩
    | object _ hprep' | process _ hprep' | resume _ hprep' => cases hprep.symm.trans hprep'
  · rintro ⟨rfl, rfl⟩
    exact .unprepared _ _ hprep hu

theorem Designates.unique (h : Designates keys key oid count)
    (h' : Designates keys key oid' count') : oid' = oid ∧ count' = count := by
  cases h with
  | unprepared _ _ hprep hu => exact (designates_unprepared hprep hu).mp h'
  | object pObj hprep hu =>
    cases h' with
    | unprepared _ _ hprep' => cases hprep.symm.trans hprep'
    | object _ _ hu' =>
      cases hu.symm.trans hu'
      exact ⟨rfl, rfl⟩
    | process _ _ hu' | resume _ _ hu' => cases hu.symm.trans hu'
  | process pContext hprep hu htype =>
    cases h' with
    | unprepared _ _ hprep' => cases hprep.symm.trans hprep'
    | object _ _ hu' => cases hu.symm.trans hu'
    | process _ _ hu' =>
      cases hu.symm.trans hu'
      exact ⟨rfl, rfl⟩
    | resume _ _ _ htype' => exact absurd htype' htype
  | resume pContext hprep hu htype =>
    cases h' with
    | unprepared _ _ hprep' => cases hprep.symm.trans hprep'
    | object _ _ hu' => cases hu.symm.trans hu'
    | process _ _ _ htype' => exact absurd htype htype'
    | resume _ _ hu' =>
      cases hu.symm.trans hu'
      exact ⟨rfl, rfl⟩

theorem sameKey_unpreparedCopy (h : key.isObjectKey = false ∨ key.prepared = false) (keys t : State) :
    SameKey keys key t (unpreparedCopy key) := by
  refine ⟨rfl, rfl, rfl, rfl, rfl, ?_, ?_, fun _ => rfl⟩
  · intro hobj oid count
    have hprep : key.prepared = false := by
      rcases h with hno | hprep
      · cases hobj.symm.trans hno
      · exact hprep
    constructor
    · intro hd
      cases hd with
      | unprepared _ _ _ hu => exact .unprepared _ _ hprep hu
      | object _ hp | process _ hp | resume _ hp => cases hp
    · intro hd
      cases hd with
      | unprepared _ _ _ hu => exact .unprepared _ _ rfl hu
      | object _ hp | process _ hp | resume _ hp => cases hprep.symm.trans hp
  · intro hprep
    simp only [KeyBits.isPreparedObjectKey, Bool.and_eq_true] at hprep
    rcases h with hno | hno
    · cases hno.symm.trans hprep.1
    · cases hno.symm.trans hprep.2

theorem sameKey_of_designates (hobj : key.isObjectKey = true)
    (hd : Designates keys key oid count) (t : State) :
    SameKey keys key t { unpreparedCopy key with u := .unprep oid count } := by
  refine ⟨rfl, rfl, rfl, rfl, rfl, ?_, fun _ => ⟨oid, count, hd⟩, ?_⟩
  · intro _ oid' count'
    rw [designates_unprepared rfl rfl]
    constructor
    · rintro ⟨rfl, rfl⟩
      exact hd
    · exact hd.unique
  · intro hno
    cases hobj.symm.trans hno

variable {h : ObjectHeader}

theorem sameHeader_update {o : ℕ} (hsame : SameHeader (keys.objH o) h) (o' : ℕ) :
    SameHeader (keys.objH o') (update keys.objH o h o') := by
  by_cases ho : o' = o
  · rw [ho, update_self]
    exact hsame
  · rw [update_of_ne ho]
    exact ⟨rfl, rfl, rfl⟩

/-- The copy of a key is the key, unprepared. Nothing is done to keys, and no count is changed. -/
theorem keyMakeUnpreparedCopy_spec (h : Pointed key) (keys : State) :
    ∃ dst keys', keyMakeUnpreparedCopy key keys = .ok (dst, keys') ∧ (∀ t, SameKey keys key t dst) ∧
      keys'.key = keys.key ∧ keys'.procRoot = keys.procRoot ∧
      ∀ o, SameHeader (keys.objH o) (keys'.objH o) := by
  unfold keyMakeUnpreparedCopy
  by_cases hplain : key.isObjectKey = false ∨ key.prepared = false
  · rw [if_pos hplain]
    exact ⟨_, _, rfl, sameKey_unpreparedCopy hplain keys, rfl, rfl, fun _ => ⟨rfl, rfl, rfl⟩⟩
  rw [if_neg hplain]
  obtain ⟨hobj, hprep⟩ : key.isObjectKey = true ∧ key.prepared = true := by simpa using hplain
  obtain ⟨header, hu, hsuits⟩ := h (by rw [KeyBits.isPreparedObjectKey, hobj, hprep]; rfl)
  rw [hu]
  cases header with
  | key k => exact hsuits.elim
  | obj o =>
    rw [if_neg (by rw [show key.isProcessType = false from hsuits]; exact Bool.false_ne_true)]
    refine ⟨_, _, rfl, sameKey_of_designates hobj (.object o hprep hu), rfl, rfl, ?_⟩
    exact sameHeader_update ⟨rfl, rfl, rfl⟩
  | proc p =>
    -- The header that counts is that of the root of the process.
    rw [if_pos (show key.isProcessType = true from hsuits)]
    by_cases hresume : key.keyType = .resume
    · simp only [if_pos hresume]
      refine ⟨_, _, rfl, sameKey_of_designates hobj (.resume p hprep hu hresume), rfl, rfl, ?_⟩
      exact sameHeader_update ⟨rfl, rfl, rfl⟩
    · simp only [if_neg hresume]
      refine ⟨_, _, rfl, sameKey_of_designates hobj (.process p hprep hu hresume), rfl, rfl, ?_⟩
      exact sameHeader_update ⟨rfl, rfl, rfl⟩

/-! ## Nodes on the disk -/

theorem Designates.congr (h : Designates keys key oid count)
    (hroot : keys'.procRoot = keys.procRoot) (hobj : ∀ o, SameHeader (keys.objH o) (keys'.objH o)) :
    Designates keys' key oid count := by
  cases h with
  | unprepared oid count hprep hu => exact .unprepared oid count hprep hu
  | object pObj hprep hu =>
    obtain ⟨hoid, halloc, -⟩ := hobj pObj
    rw [← hoid, ← halloc]
    exact .object pObj hprep hu
  | process pContext hprep hu htype =>
    obtain ⟨hoid, halloc, -⟩ := hobj (keys.procRoot pContext)
    rw [← hoid, ← halloc, ← hroot]
    exact .process pContext hprep hu htype
  | resume pContext hprep hu htype =>
    obtain ⟨hoid, -, hcall⟩ := hobj (keys.procRoot pContext)
    rw [← hoid, ← hcall, ← hroot]
    exact .resume pContext hprep hu htype

theorem SameHeader.symm {h' : ObjectHeader} (hsame : SameHeader h h') : SameHeader h' h :=
  ⟨hsame.1.symm, hsame.2.1.symm, hsame.2.2.symm⟩

theorem SameKey.of_keeps {t : State} {key' : KeyBits} (h : SameKey s'.keys key t key') (hkeeps : Keeps s s') :
    SameKey s.keys key t key' := by
  have hiff : ∀ oid count, Designates s'.keys key oid count ↔ Designates s.keys key oid count := fun oid count =>
    ⟨fun hd => hd.congr hkeeps.procRoot.symm fun o => (hkeeps.objH o).symm,
      fun hd => hd.congr hkeeps.procRoot hkeeps.objH⟩
  refine ⟨h.keyType, h.keyPerms, h.keyData, h.unprepared, h.unhazarded, ?_, ?_, h.value⟩
  · intro hobj oid count
    exact (h.target hobj oid count).trans (hiff oid count)
  · intro hprep
    obtain ⟨oid, count, hd⟩ := h.prepared hprep
    exact ⟨oid, count, (hiff oid count).mp hd⟩

theorem keeps_of_key (h : s.WellFormed) (hkey : keys.key = s.keys.key) (hroot : keys.procRoot = s.keys.procRoot)
    (hobj : ∀ o, SameHeader (s.keys.objH o) (keys.objH o)) : Keeps s { s with keys } := by
  have hslot : ∀ m i, ({ s with keys } : System).keyAtSlot m i = s.keyAtSlot m i := fun m i => congrFun hkey _
  have hreg : ∀ q i, keys.key (keyReg q i) = s.keys.key (keyReg q i) := fun q i => congrFun hkey _
  refine ⟨⟨?_, ?_, ?_, ?_⟩, ?_, hroot, hobj, fun _ => rfl⟩
  · intro m hob i
    rw [hslot]
    exact h.unprepared m hob i
  · intro m hob i
    rw [hslot]
    exact h.segment m hob i
  · intro m q hob
    exact (h.root m q hob).frame hroot (hslot m) rfl rfl fun _ hkn => hkn
  · intro m q hob
    exact (h.keys m q hob).frame hroot (hslot m) (hreg q) rfl rfl rfl rfl
  · intro m i
    exact held_frame rfl (hslot m i) (fun _ _ => rfl) fun q _ => hreg q i

theorem copySlot_spec (h : s.WellFormed) (hkeys : ∀ i, Pointed (s.held n i)) (dn : DiskNode) (i : Fin 32) :
    ∃ key s', copySlot n (dn, s) i = .ok ({ dn with slot := update dn.slot i key }, s') ∧ Keeps s s' ∧
      ∀ t, SameKey s.keys (s.held n i) t key := by
  obtain ⟨s₁, hclear, hkeeps₁, hslot⟩ := nodeClearHazard_keeps h n i
  -- As the slot is not hazarded any more, its key is what it held.
  have hheld : s₁.keyAtSlot n i = s.held n i := by rw [← held_of_unhazarded hslot, hkeeps₁.held]
  obtain ⟨key, keys', hcopy, hsame, hkey, hroot, hobj⟩ := keyMakeUnpreparedCopy_spec (hkeys i) s₁.keys
  refine ⟨key, { s₁ with keys := keys' }, ?_, ?_, ?_⟩
  · unfold copySlot
    rw [hclear, ok_bind, hheld, hcopy]
    rfl
  · exact hkeeps₁.trans (keeps_of_key hkeeps₁.wellFormed hkey hroot hobj)
  · intro t
    exact (hsame t).of_keeps hkeeps₁

/-- The loop of `node_CopyToDiskNode`. What is done for a slot does not change the slots that were copied before it,
nor what is in those that come after it. -/
theorem copySlot_loop (n : ℕ) (l : List (Fin 32)) :
    ∀ (dn : DiskNode) (s : System), s.WellFormed → (∀ i, Pointed (s.held n i)) →
      ∃ slots s', l.foldlM (copySlot n) (dn, s) = .ok ({ dn with slot := slots }, s') ∧ Keeps s s' ∧
        (∀ i ∈ l, ∀ t, SameKey s.keys (s.held n i) t (slots i)) ∧ ∀ i ∉ l, slots i = dn.slot i := by
  induction l with
  | nil => exact fun dn s h _ => ⟨dn.slot, s, rfl, .refl h, by simp, fun _ _ => rfl⟩
  | cons i l ih =>
    intro dn s h hkeys
    obtain ⟨key, s₁, hrun₁, hkeeps₁, hsame₁⟩ := copySlot_spec h hkeys dn i
    obtain ⟨slots, s₂, hrun₂, hkeeps₂, hsame₂, hrest⟩ := ih { dn with slot := update dn.slot i key } s₁
      hkeeps₁.wellFormed fun j => by rw [hkeeps₁.held]; exact hkeys j
    refine ⟨slots, s₂, ?_, hkeeps₁.trans hkeeps₂, ?_, ?_⟩
    · rw [List.foldlM_cons, hrun₁]
      exact hrun₂
    · intro j hj t
      -- A slot that comes again is copied again, and from the same key.
      by_cases hjl : j ∈ l
      · have hsame := (hsame₂ j hjl t).of_keeps hkeeps₁
        rwa [hkeeps₁.held] at hsame
      · obtain rfl : j = i := (List.mem_cons.mp hj).resolve_right hjl
        have hslot : slots j = key := (hrest j hjl).trans (update_self ..)
        rw [hslot]
        exact hsame₁ t
    · intro j hj
      obtain ⟨hji, hjl⟩ := not_or.mp fun hor => hj (List.mem_cons.mpr hor)
      rw [hrest j hjl]
      exact update_of_ne hji ..

theorem nodeCopyToDiskNode_spec (h : s.WellFormed) (hkeys : ∀ i, Pointed (s.held n i)) (dn : DiskNode) :
    ∃ slots s', nodeCopyToDiskNode n dn s = .ok (⟨(s.keys.objH n).oid, (s.keys.objH n).allocCount,
        (s.keys.objH n).callCount, (s.node n).nodeData, slots⟩, s') ∧ Keeps s s' ∧
      ∀ i t, SameKey s.keys (s.held n i) t (slots i) := by
  obtain ⟨slots, s', hrun, hkeeps, hsame, -⟩ := copySlot_loop n (List.finRange 32) ⟨(s.keys.objH n).oid,
    (s.keys.objH n).allocCount, (s.keys.objH n).callCount, (s.node n).nodeData, dn.slot⟩ s h hkeys
  exact ⟨slots, s', hrun, hkeeps, fun i => hsame i (List.mem_finRange i)⟩

/-- A node frame that a node can be read into. -/
structure System.FreeFor (s : System) (n : ℕ) : Prop where
  keyRing : s.keys.next (.obj n) = .obj n
  obType : (s.node n).obType = .ntUnprepared
  unhazarded : ∀ i, (s.keyAtSlot n i).isHazard = false
  unprepared : ∀ i, (s.keyAtSlot n i).prepared = false

theorem nodeSetEqualTo_spec (h : s.FreeFor n) (other : DiskNode) :
    ∃ s', nodeSetEqualTo n other s = .ok s' ∧
      s'.keys.objH n = ⟨other.oid, other.allocCount, other.callCount, true, true⟩ ∧
      (s'.node n).nodeData = other.nodeData ∧ ∀ i, s'.keyAtSlot n i = other.slot i := by
  have hloop : SlotLoop.run assertClear (s.keyAtSlot n) = .ok fun _ => () := by
    apply SlotLoop.run_eq_ok_iff.mpr
    intro i
    rw [assertClear, kassert_pos (h.unhazarded i), kassert_pos (h.unprepared i), ok_bind]
  unfold nodeSetEqualTo
  rw [kassert_pos h.keyRing, kassert_pos h.obType, ok_bind, ok_bind, hloop]
  refine ⟨_, rfl, update_self .., ?_, fun i => setSlots_slot _ _ other.slot i⟩
  simp only [update_self]

/-- The node in the frame `m` is the one that was in the frame `n`, with all keys unprepared. -/
structure SameNode (s : System) (n : ℕ) (s' : System) (m : ℕ) : Prop where
  oid : (s'.keys.objH m).oid = (s.keys.objH n).oid
  allocCount : (s'.keys.objH m).allocCount = (s.keys.objH n).allocCount
  callCount : (s'.keys.objH m).callCount = (s.keys.objH n).callCount
  nodeData : (s'.node m).nodeData = (s.node n).nodeData
  slot : ∀ i, SameKey s.keys (s.held n i) s'.keys (s'.held m i)

theorem held_pointed (h : s.WellFormed) (hkeys : ∀ k, Pointed (s.keys.key k)) (n : ℕ) (i : Fin 32) :
    Pointed (s.held n i) := by
  have hslot : Pointed (s.keyAtSlot n i).unHazard := hkeys (slot n i)
  unfold System.held
  split
  swap
  · exact hslot
  rename_i hrd
  cases hob : (s.node n).obType with
  | ntUnprepared | ntSegment => exact hslot
  | ntKeyRegs p => exact hkeys (keyReg p i)
  | ntProcessRoot p =>
    by_cases hi : procFirstRootRegSlot ≤ i
    · -- The slots for registers have Number keys.
      have hhaz : (s.keyAtSlot n i).isHazard = true := by rw [KeyBits.isHazard, hrd, Bool.true_or]
      have hnumber := ((h.root n p hob).regs i (.inl hi) hhaz).number i hi
      have htype : (unloadKey (s.proc p).regs i (s.keyAtSlot n i).unHazard).keyType = .number := by
        unfold unloadKey
        split <;> exact hnumber
      intro hprep
      simp only [KeyBits.isPreparedObjectKey, KeyBits.isObjectKey, htype, Bool.false_and] at hprep
      cases hprep
    · simp only [unloadKey_of_lt _ _ (not_le.mp hi)]
      exact hslot

/-- A node that was written by `node_CopyToDiskNode` and is read by `node_SetEqualTo` is the one that it was: with the
same OID, counts, data and keys, where each key is unprepared and designates the same object with the same count. -/
theorem nodeSetEqualTo_nodeCopyToDiskNode (hkeys : ∀ k, Pointed (s.keys.key k)) (h : s.WellFormed) (n : ℕ)
    (dn : DiskNode) : ∃ dn' s', nodeCopyToDiskNode n dn s = .ok (dn', s') ∧ Keeps s s' ∧
      ∀ t m, t.FreeFor m → ∃ t', nodeSetEqualTo m dn' t = .ok t' ∧ SameNode s n t' m := by
  obtain ⟨slots, s', hrun, hkeeps, hsame⟩ := nodeCopyToDiskNode_spec h (held_pointed h hkeys n) dn
  refine ⟨_, s', hrun, hkeeps, ?_⟩
  intro t m hfree
  obtain ⟨t', hset, hobj, hdata, hslot⟩ := nodeSetEqualTo_spec hfree ⟨(s.keys.objH n).oid,
    (s.keys.objH n).allocCount, (s.keys.objH n).callCount, (s.node n).nodeData, slots⟩
  refine ⟨t', hset, by rw [hobj], by rw [hobj], by rw [hobj], hdata, ?_⟩
  intro i
  have hi := hsame i t'.keys
  have hclear : (t'.keyAtSlot m i).isHazard = false := by
    rw [hslot]
    exact hi.unhazarded
  rw [held_of_unhazarded hclear, hslot]
  exact hi

/-- All keys are void. The node 1 is the root of a process. -/
def voidKeys : State := { State.empty with objH := fun o => ⟨100 + o, 3, 7, false, false⟩, procRoot := fun _ => 1 }

/-- The node 2 has a prepared Resume key to the process. -/
def resumeSystem : System where
  keys := procBuildResumeKey 0 (slot 2 5) voidKeys
  node n := ⟨if n = 1 then .ntProcessRoot 0 else .ntUnprepared, 0, false⟩
  proc _ := ⟨none, ⟨false, true, true, true⟩, ⟨0, 0, 0, 0, 0, 0⟩⟩

theorem resumeSystem_isHazard (n : ℕ) (i : Fin 32) : (resumeSystem.keyAtSlot n i).isHazard = false := by
  have hkey : ∀ k, (resumeSystem.keys.key k).isHazard = false := by
    intro k
    by_cases hk : k = slot 2 5
    · rw [hk]
      rfl
    · rw [show resumeSystem.keys.key k = voidKeys.key k from put_other _ _ hk]
      rfl
  exact hkey _

theorem resumeSystem_wellFormed : resumeSystem.WellFormed := by
  constructor
  · exact fun n _ => resumeSystem_isHazard n
  · exact fun n _ i => rdHazard_of_isHazard (resumeSystem_isHazard n i)
  · intro n p hob
    simp only [resumeSystem] at hob
    split at hob <;> cases hob
    rename_i hn
    subst hn
    constructor
    · rfl
    · intro i _ hhaz
      cases (resumeSystem_isHazard 1 i).symm.trans hhaz
    · intro hhaz
      cases (resumeSystem_isHazard 1 _).symm.trans hhaz
    · intro i hhaz
      cases (resumeSystem_isHazard 1 i).symm.trans hhaz
  · intro n p hob
    simp only [resumeSystem] at hob
    split at hob <;> cases hob

theorem resumeSystem_reach : Reach resumeSystem.keys := by
  have hinit : Reach voidKeys := .init ⟨fun _ => rfl, fun _ => rfl, fun _ _ => ⟨rfl, rfl⟩⟩
  exact hinit.step (.buildResumeKey 0 (slot 2 5)) trivial rfl

/-- The Resume key designates the root of the process, with its call count. -/
theorem nodeSetEqualTo_nodeCopyToDiskNode_resume : Designates resumeSystem.keys (resumeSystem.held 2 5) 101 7 ∧
    ∃ dn s', nodeCopyToDiskNode 2 ⟨0, 0, 0, 0, fun _ => voidKeys.key 0⟩ resumeSystem = .ok (dn, s') ∧
      Keeps resumeSystem s' ∧ ∀ t m, t.FreeFor m → ∃ t', nodeSetEqualTo m dn t = .ok t' ∧
        SameNode resumeSystem 2 t' m :=
  ⟨.resume 0 rfl rfl rfl, nodeSetEqualTo_nodeCopyToDiskNode (pointed_of_reach resumeSystem_reach)
    resumeSystem_wellFormed 2 _⟩

end CapROS.KeyRing.DiskNodes
