import CapROS.Kernel.Key

/-!
# Keys and key rings

Every prepared object key is linked on a ring: that of the header of its object, or, if it is a key to
a process, that of the `Process` structure. The body of a prepared key holds the links and the pointer
to the object. Resume keys go on the `prev` side of the header of the ring and all other keys on the
`next` side.

* `keyNHSet`, `keyNHMove`, `keySetToObj`, `keySetToProcess`, `keyNHUnprepare`, `keyDoPrepare`,
  `keyDoValidate`, `xchgKey`: the operations on keys.
* `keyRZapResumeKeys`, `keyRRescindAll`, `keyRUnprepareAll`: the operations on rings.
-/

namespace CapROS.KeyRing

open Function (update)

/-- What can be linked: a key, or the header of a ring in an `ObjectHeader` or in a `Process`. -/
inductive Loc where
  | key (k : ℕ)
  | obj (o : ℕ)
  | proc (p : ℕ)
  deriving DecidableEq

/-- What the union in a key holds, but for the links of a prepared object key. -/
inductive Body where
  /-- `u.nk` -/
  | nk (value0 value1 value2 : ℕ)
  /-- `u.unprep` -/
  | unprep (oid count : ℕ)
  /-- `u.ok.pObj` or `u.gk.pContext`: the header of the ring -/
  | ok (header : Loc)
  deriving DecidableEq

structure KeyBits where
  keyType : KeyType
  prepared : Bool
  rdHazard : Bool
  wrHazard : Bool
  keyPerms : ℕ
  keyData : ℕ
  u : Body
  deriving DecidableEq

namespace KeyBits

/-- `keyBits_InitType`. -/
def initType (key : KeyBits) (t : KeyType) : KeyBits := ⟨t, false, false, false, 0, 0, key.u⟩

/-- `keyBits_InitToVoid`. -/
def initToVoid (key : KeyBits) : KeyBits := { key.initType .void with u := .nk 0 0 0 }

/-- `keyBits_IsHazard`. -/
def isHazard (key : KeyBits) : Bool := key.rdHazard || key.wrHazard

/-- `keyBits_UnHazard`. -/
def unHazard (key : KeyBits) : KeyBits := { key with rdHazard := false, wrHazard := false }

/-- `keyBits_IsObjectKey`. -/
def isObjectKey (key : KeyBits) : Bool :=
  match key.keyType with
  | .start | .resume | .process | .forwarder | .node | .gpt | .page => true
  | _ => false

/-- `keyBits_IsProcessType`. -/
def isProcessType (key : KeyBits) : Bool :=
  match key.keyType with
  | .start | .resume | .process => true
  | _ => false

/-- `keyBits_IsPreparedObjectKey`. -/
def isPreparedObjectKey (key : KeyBits) : Bool := key.isObjectKey && key.prepared

/-- `keyBits_IsPreparedResumeKey`. -/
def isPreparedResumeKey (key : KeyBits) : Bool := key.keyType = .resume && key.prepared

end KeyBits

/-- What keys need of an `ObjectHeader`, and of its node. -/
structure ObjectHeader where
  oid : ℕ
  allocCount : ℕ
  callCount : ℕ
  /-- `OFLG_AllocCntUsed` -/
  allocCntUsed : Bool
  /-- `OFLG_CallCntUsed` -/
  callCntUsed : Bool
  deriving DecidableEq

/-- The keys in memory, and the rings. -/
structure State where
  key : ℕ → KeyBits
  next : Loc → Loc
  prev : Loc → Loc
  objH : ℕ → ObjectHeader
  /-- The header of the root node of each process: `procRoot`. -/
  procRoot : ℕ → ℕ

/-- The key is set, without its links. -/
def State.put (s : State) (k : ℕ) (key : KeyBits) : State := { s with key := update s.key k key }

@[simp] theorem put_same (s : State) (k : ℕ) (key : KeyBits) : (s.put k key).key k = key := by
  simp [State.put]

theorem put_other (s : State) {k j : ℕ} (key : KeyBits) (h : j ≠ k) : (s.put k key).key j = s.key j := by
  simp [State.put, h]

@[simp] theorem put_put (s : State) (k : ℕ) (key key' : KeyBits) : (s.put k key).put k key' = s.put k key' := by
  simp [State.put]

/-! ## Links -/

def linkUnlink (l : Loc) (s : State) : State :=
  { s with
    next := update (update s.next (s.prev l) (s.next l)) l l
    prev := update (update s.prev (s.next l) (s.prev l)) l l }

def linkInsertBetween (l p n : Loc) (s : State) : State :=
  { s with
    next := update (update s.next p l) l n
    prev := update (update s.prev n l) l p }

def linkInsertAfter (p l : Loc) (s : State) : State := linkInsertBetween l p (s.next p) s

def linkInsertBefore (n l : Loc) (s : State) : State := linkInsertBetween l (s.prev n) n s

/-! ## Operations on keys -/

/-- `keyBits_Unchain`. -/
def keyUnchain (k : ℕ) (s : State) : State :=
  if (s.key k).isPreparedObjectKey then linkUnlink (.key k) s else s

def keyNHSetToVoid (k : ℕ) (s : State) : State :=
  let s := keyUnchain k s
  s.put k (s.key k).initToVoid

def keySetToNumber (k : ℕ) (hi mid lo : ℕ) (s : State) : State :=
  let s := keyUnchain k s
  s.put k { (s.key k).initType .number with keyPerms := 8, u := .nk lo mid hi }

/-- `key_NH_Set`. The links are copied with the value, and then fixed up. -/
def keyNHSet (k kb : ℕ) (s : State) : State :=
  if kb = k then s
  else
    let s := keyUnchain k s
    let s := s.put k (s.key kb).unHazard
    if (s.key k).isPreparedObjectKey then
      { s with
        next := update (update s.next (s.prev (.key kb)) (.key k)) (.key k) (.key kb)
        prev := update (update s.prev (.key k) (s.prev (.key kb))) (.key kb) (.key k) }
    else s

def keyNHMove (dst src : ℕ) (s : State) : Except Halt State := do
  kassert ((s.key dst).isHazard = false)
  kassert ((s.key src).isHazard = false)
  kassert ((s.key dst).prepared = false)
  let s₁ := s.put dst (s.key src)
  let s₂ : State :=
    if (s.key src).isPreparedObjectKey then
      -- Fix up chain pointers.
      { s₁ with
        next := update (update s.next (.key dst) (s.next (.key src)))
          (s.prev (.key src)) (.key dst)
        prev := update (update s.prev (.key dst) (s.prev (.key src)))
          (s.next (.key src)) (.key dst) }
    else s₁
  .ok (s₂.put src (s₂.key src).initToVoid)

/-- `key_SetToObj`. The key must already be unchained. -/
def keySetToObj (k o : ℕ) (kkt : KeyType) (keyPerms keyData : ℕ) (s : State) : Except Halt State := do
  kassert ((s.key k).isHazard = false)
  let s := s.put k ⟨kkt, true, false, false, keyPerms, keyData, .ok (.obj o)⟩
  .ok (linkInsertAfter (.obj o) (.key k) s)

/-- `key_SetToProcess`. The key must already be unchained. -/
def keySetToProcess (k p : ℕ) (keyType : KeyType) (keyData : ℕ) (s : State) : State :=
  let s := s.put k ⟨keyType, true, false, false, 0, keyData, .ok (.proc p)⟩
  linkInsertAfter (.proc p) (.key k) s

/-- `proc_BuildResumeKey`, also the end of `OC_capros_Process_makeResumeKey`. -/
def procBuildResumeKey (p k : ℕ) (s : State) : State :=
  let s := keyUnchain k s
  let s := s.put k ⟨.resume, true, false, false, 0, 0, .ok (.proc p)⟩
  linkInsertBefore (.proc p) (.key k) s

/-- The object of a prepared object key. -/
def keyObject (s : State) : Loc → ℕ
  | .obj o => o
  | .proc p => s.procRoot p
  | .key _ => 0

def keyNHUnprepare (k : ℕ) (s : State) : Except Halt State := do
  kassert ((s.key k).isHazard = false)
  if (s.key k).prepared = false then .ok s
  else if (s.key k).isObjectKey then
    match (s.key k).u with
    | .ok header =>
      let o := keyObject s header
      let h := s.objH o
      let isResume := decide ((s.key k).keyType = .resume)
      let s := { s with
        objH := update s.objH o
          (if isResume then { h with callCntUsed := true } else { h with allocCntUsed := true }) }
      let s := keyUnchain k s
      .ok (s.put k { s.key k with
        prepared := false, u := .unprep h.oid (if isResume then h.callCount else h.allocCount) })
    | _ => .error .nullDeref
  else .ok (s.put k { s.key k with prepared := false })

/-- What the object cache answers for the OID of a key. -/
structure Lookup where
  /-- `CheckObjectType` finds the type that is needed. -/
  typeOK : Bool
  /-- `GetObjectCount`: the allocation count or, for a Resume key, the call count. -/
  count : ℕ
  /-- `GetObject`: the header in memory. -/
  obj : Option ℕ
  /-- `node_GetProcess` -/
  proc : ℕ
  deriving DecidableEq

/-- The count in an unprepared key. -/
def Body.count : Body → ℕ
  | .unprep _ count => count
  | .nk _ _ value2 => value2
  | .ok _ => 0

def prepareKeyToProcess (k p : ℕ) (s : State) : State :=
  let s := s.put k { s.key k with u := .ok (.proc p), prepared := true }
  -- On the left or the right, according to the type.
  if (s.key k).keyType = .resume then linkInsertBefore (.proc p) (.key k) s
  else linkInsertAfter (.proc p) (.key k) s

/-- The key is linked on the ring of the object. -/
def linkToObject (k o : ℕ) (s : State) : State :=
  let s := s.put k { s.key k with u := .ok (.obj o), prepared := true }
  linkInsertAfter (.obj o) (.key k) s

/-- The end of `key_DoPrepare` for a key that is rescinded. -/
def voidRescinded (k : ℕ) (s : State) : Except Halt (State × Bool) := do
  kassert ((s.key k).isHazard = false)
  let s := keyNHSetToVoid k s
  .ok (s.put k { s.key k with prepared := true }, true)

/-- `key_DoPrepare`: prepare the key, and tell whether it was voided. -/
def keyDoPrepare (k : ℕ) (a : Lookup) (s : State) : Except Halt (State × Bool) := do
  kassert ((s.key k).prepared = false)
  if (s.key k).isProcessType then
    if a.typeOK && a.count = (s.key k).u.count then .ok (prepareKeyToProcess k a.proc s, false)
    else voidRescinded k s
  else if (s.key k).isObjectKey then
    -- `DoGetObject`
    match (if a.typeOK && a.count = (s.key k).u.count then a.obj else none) with
    | some o => .ok (linkToObject k o s, false)
    | none => voidRescinded k s
  else .ok (s.put k { s.key k with prepared := true }, false)

/-- `key_DoValidate`: prepare the key if its object is in memory, and tell whether it was voided. -/
def keyDoValidate (k : ℕ) (a : Lookup) (s : State) : Except Halt (State × Bool) := do
  kassert ((s.key k).prepared = false)
  if (s.key k).isObjectKey then
    if a.typeOK && a.count = (s.key k).u.count then
      match a.obj with
      | some o =>
        .ok (if (s.key k).isProcessType then prepareKeyToProcess k a.proc s else linkToObject k o s, false)
      | none => .ok (s, false)
    else do
      kassert ((s.key k).isHazard = false)
      .ok (keyNHSetToVoid k s, true)
  else .ok (s, false)

def krVoid : ℕ := 0

/-- `copy_key`. The key registers of the process are at `keyReg`. -/
def copyKey (keyReg : ℕ → ℕ) (fromSlot toSlot : ℕ) (s : State) : State :=
  if toSlot ≠ krVoid then keyNHSet (keyReg toSlot) (keyReg fromSlot) s else s

/-- `xchg_key`, with a temporary key at `tmp`. -/
def xchgKey (keyReg : ℕ → ℕ) (tmp slot0 slot1 : ℕ) (s : State) : State :=
  -- Never overwrite `KR_VOID`.
  if slot0 = krVoid then copyKey keyReg slot0 slot1 s
  else
    let s := s.put tmp (s.key tmp).initToVoid
    let s := keyNHSet tmp (keyReg slot0) s
    let s := keyNHSet (keyReg slot0) (keyReg slot1) s
    let s := if slot1 ≠ krVoid then keyNHSet (keyReg slot1) tmp s else s
    let s := keyUnchain tmp s
    -- The temporary key is no more.
    s.put tmp (s.key tmp).initToVoid

/-! ## Operations on rings -/

/-- What `node_ClearHazard` does to keys. -/
inductive HazardOp where
  /-- `keyBits_UnHazard` -/
  | unHazard (k : ℕ)
  /-- A key register is moved back to its node. -/
  | move (dst src : ℕ)
  /-- A number key of the process root gets the value of registers. -/
  | setValue (k value0 value1 value2 : ℕ)

/-- One step of `node_ClearHazard`. -/
def HazardOp.run (s : State) : HazardOp → Except Halt State
  | .unHazard k => .ok (s.put k (s.key k).unHazard)
  | .move dst src => keyNHMove dst src s
  | .setValue k value0 value1 value2 =>
    .ok (if (s.key k).keyType = .number then s.put k { s.key k with u := .nk value0 value1 value2 } else s)

/-- What `key_ClearHazard` does to a key in a state. -/
abbrev ClearHazard := ℕ → State → List HazardOp

/-- The loop of `keyR_RescindAll` and of `keyR_UnprepareAll`, with what they do to a key. -/
def keyRLoop (act : ℕ → State → Except Halt State) (clear : ClearHazard) (header : Loc) :
    ℕ → State → Except Halt State
  | 0, _ => .error .diverged
  | fuel + 1, s =>
    if s.next header = header then .ok s
    else
      match s.next header with
      | .key k => do
        kassert ((s.key k).isPreparedObjectKey = true)
        if (s.key k).isHazard then
          -- The key may not even be on this ring any more.
          let s ← (clear k s).foldlM HazardOp.run s
          keyRLoop act clear header fuel s
        else do
          let s ← act k s
          keyRLoop act clear header fuel s
      | _ => .error .assertion

def keyRRescindAll (clear : ClearHazard) (header : Loc) (fuel : ℕ) (s : State) : Except Halt State :=
  keyRLoop (fun k s => .ok (keyNHSetToVoid k s)) clear header fuel s

def keyRUnprepareAll (clear : ClearHazard) (header : Loc) (fuel : ℕ) (s : State) : Except Halt State :=
  keyRLoop keyNHUnprepare clear header fuel s

/-- `keyR_ZapResumeKeys`, for the ring of a process. -/
def keyRZapResumeKeys (p : ℕ) : ℕ → State → Except Halt State
  | 0, _ => .error .diverged
  | fuel + 1, s =>
    match s.prev (.proc p) with
    | .key k =>
      if (s.key k).isPreparedResumeKey then do
        kassert ((s.key k).isHazard = false)
        let s := { s with prev := update s.prev (.proc p) (s.prev (.key k)) }
        keyRZapResumeKeys p fuel (s.put k (s.key k).initToVoid)
      else .ok { s with next := update s.next (.key k) (.proc p) }
    | l => .ok { s with next := update s.next l (.proc p) }

/-! ## The runs -/

/-- The operations on keys. -/
inductive Op where
  | set (k kb : ℕ)
  | move (dst src : ℕ)
  | setToVoid (k : ℕ)
  | setToNumber (k hi mid lo : ℕ)
  /-- `key_NH_Unchain` and `key_SetToObj` -/
  | setToObj (k o : ℕ) (kkt : KeyType) (keyPerms keyData : ℕ)
  /-- `key_NH_Unchain` and `key_SetToProcess` -/
  | setToProcess (k p : ℕ) (keyType : KeyType) (keyData : ℕ)
  | buildResumeKey (p k : ℕ)
  | unprepare (k : ℕ)
  | prepare (k : ℕ) (a : Lookup)
  | validate (k : ℕ) (a : Lookup)
  | exchange (keyReg : ℕ → ℕ) (tmp slot0 slot1 : ℕ)
  | zapResumeKeys (p fuel : ℕ)
  | rescindAll (clear : ClearHazard) (header : Loc) (fuel : ℕ)
  | unprepareAll (clear : ClearHazard) (header : Loc) (fuel : ℕ)
  /-- A slot of a node is hazarded. -/
  | setHazard (k : ℕ) (rdHazard wrHazard : Bool)
  | clearHazard (op : HazardOp)
  /-- The restrictions or the data of a key are changed in place. -/
  | setData (k keyPerms keyData : ℕ)
  /-- The counts of an object are changed. -/
  | setHeader (o : ℕ) (h : ObjectHeader)
  /-- A process is loaded for a root node. -/
  | setProcRoot (p o : ℕ)

def Op.run (s : State) : Op → Except Halt State
  | .set k kb => .ok (keyNHSet k kb s)
  | .move dst src => keyNHMove dst src s
  | .setToVoid k => .ok (keyNHSetToVoid k s)
  | .setToNumber k hi mid lo => .ok (keySetToNumber k hi mid lo s)
  | .setToObj k o kkt keyPerms keyData => keySetToObj k o kkt keyPerms keyData (keyUnchain k s)
  | .setToProcess k p keyType keyData => .ok (keySetToProcess k p keyType keyData (keyUnchain k s))
  | .buildResumeKey p k => .ok (procBuildResumeKey p k s)
  | .unprepare k => keyNHUnprepare k s
  | .prepare k a => (keyDoPrepare k a s).map Prod.fst
  | .validate k a => (keyDoValidate k a s).map Prod.fst
  | .exchange keyReg tmp slot0 slot1 => .ok (xchgKey keyReg tmp slot0 slot1 s)
  | .zapResumeKeys p fuel => keyRZapResumeKeys p fuel s
  | .rescindAll clear header fuel => keyRRescindAll clear header fuel s
  | .unprepareAll clear header fuel => keyRUnprepareAll clear header fuel s
  | .setHazard k rdHazard wrHazard =>
    .ok (s.put k { s.key k with rdHazard := rdHazard, wrHazard := wrHazard })
  | .clearHazard op => op.run s
  | .setData k keyPerms keyData => .ok (s.put k { s.key k with keyPerms := keyPerms, keyData := keyData })
  | .setHeader o h => .ok { s with objH := update s.objH o h }
  | .setProcRoot p o => .ok { s with procRoot := update s.procRoot p o }

/-- The types that `key_SetToObj` is called with. -/
def isObjType : KeyType → Bool
  | .page | .node | .forwarder | .gpt => true
  | _ => false

/-- What the callers ensure: the type of key that is made, that the temporary key is a new one, and that
no Resume key is hazarded. -/
def Op.Allowed (s : State) : Op → Prop
  | .setToObj _ _ kkt _ _ => isObjType kkt = true
  | .setToProcess _ _ keyType _ => keyType = .start ∨ keyType = .process
  | .exchange keyReg tmp slot0 slot1 =>
    (s.key tmp).isPreparedObjectKey = false ∧ tmp ≠ keyReg slot0 ∧ tmp ≠ keyReg slot1
  | .setHazard k _ _ => (s.key k).keyType ≠ .resume
  | .rescindAll _ header _ => ∀ k, header ≠ .key k
  | .unprepareAll _ header _ => ∀ k, header ≠ .key k
  | _ => True

/-- No key is prepared, and the rings are empty. -/
def State.Initial (s : State) : Prop :=
  (∀ k, (s.key k).prepared = false) ∧ (∀ k, (s.key k).isHazard = false) ∧
    ∀ l, (∀ k, l ≠ .key k) → s.next l = l ∧ s.prev l = l

inductive Reach : State → Prop where
  | init {s} : s.Initial → Reach s
  | step {s s'} (op : Op) : Reach s → op.Allowed s → op.run s = .ok s' → Reach s'

end CapROS.KeyRing
