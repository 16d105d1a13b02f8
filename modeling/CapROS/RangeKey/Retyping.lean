import CapROS.LogDirectory.Refinement
import CapROS.RangeKey.Basic

/-!
# Retyping a persistent frame

`retypeFrame` makes the objects of a frame objects of another base type: a page, or seven nodes. The objects of the
old type are taken out of memory, and null objects of the new type are put into the log directory. The entries that
the log directory has of the old objects are not taken out ("Destroy any log directory entry" is a comment with no
code), so that an entry stays if the frame has no object of that number any more; and keys that are prepared to a
process are not on the key ring of its node.

* `getObjectType`, `getObjectCount`, `keyDoValidate`: where an object is found, and which keys to it are valid.
* `retypeFrame`: what the request does for a persistent frame. `rangeKey_retypeFrame`: it is what the handler does.
* `RetypeOk`, `retypeFrame_iff`: when a request that succeeds does it.
-/

namespace CapROS.RangeKey.Retyping

open LogDirectory (Directory Failure ObjectDescriptor ensure findObject recordLocation)

/-- The base types of objects. -/
inductive BaseType where
  | page
  | node
  deriving DecidableEq, Repr

def BaseType.code : BaseType → ℕ
  | .page => otPage
  | .node => otNode

/-- The table `objectsPerFrame`. -/
def BaseType.objectsPerFrame : BaseType → ℕ
  | .page => 1
  | .node => diskNodesPerPage

/-! ## Objects -/

structure MemObject where
  baseType : BaseType
  allocCount : ℕ
  /-- The call count, if it is a node. -/
  callCount : ℕ
  /-- `OFLG_DIRTY`. -/
  dirty : Bool
  /-- Some slot of the node is hazarded. -/
  hazarded : Bool
  deriving DecidableEq, Repr

/-- What a mounted home range holds: the tag and the count that the tag pot has of each frame, and the counts that
the node pots have of each node. -/
structure Home where
  tag : ℕ → ℕ
  count : ℕ → ℕ
  nodeAllocCount : ℕ → ℕ
  nodeCallCount : ℕ → ℕ

/-- Where persistent objects and the keys to them are. -/
structure State (α : Type) where
  /-- The log directory. -/
  dir : Directory
  workingGenerationNumber : ℕ
  /-- `objH_Lookup(oid, 0)`. -/
  memory : ℕ → Option MemObject
  home : Home
  /-- The keys by their places, in memory and on the disk, but for those in the nodes of the frame. -/
  keys : α → Key

/-- `ObjectLocator`: where the object is, and its type. -/
inductive Location where
  | objectHeader (obj : MemObject)
  | objectDescriptor (od : ObjectDescriptor)
  | tagPot

structure ObjectLocator where
  location : Location
  objType : ℕ

variable {α : Type}

/-- The part of `GetObjectType` for a persistent object that is not in memory: the log directory, and then the home
range. -/
def storedLocator (st : State α) (oid : ℕ) : Except Failure ObjectLocator := do
  match ← findObject st.dir oid with
  | some od => .ok ⟨.objectDescriptor od, od.obType⟩
  | none => .ok ⟨.tagPot, st.home.tag (oidToFrame oid)⟩

/-- `GetObjectType`, for a persistent object. -/
def getObjectType (st : State α) (oid : ℕ) : Except Failure ObjectLocator :=
  match st.memory oid with
  | some obj => .ok ⟨.objectHeader obj, obj.baseType.code⟩
  | none => storedLocator st oid

def getObjectCount (home : Home) (oid : ℕ) (objLoc : ObjectLocator) (callCount : Bool) : ℕ :=
  match objLoc.location with
  | .objectHeader obj => if callCount ∧ obj.baseType = .node then obj.callCount else obj.allocCount
  | .objectDescriptor od => if callCount then od.callCount else od.allocCount
  | .tagPot =>
    if objLoc.objType = otPage then home.count (oidToFrame oid)
    else if callCount then home.nodeCallCount oid
    else home.nodeAllocCount oid

/-- The base type of the object that an object key is to. -/
def baseTypeOfKey (k : Key) : BaseType := if k.keyType = .page then .page else .node

/-- The type that `CheckObjectType` leaves in the locator. -/
def ObjectLocator.resolve (objLoc : ObjectLocator) (baseType : BaseType) : ObjectLocator :=
  if objLoc.objType = otNone then { objLoc with objType := baseType.code } else objLoc

/-- The object has the type and the count of the key. Resume keys have the call count. -/
def ObjectLocator.admits (home : Home) (objLoc : ObjectLocator) (k : Key) (oid count : ℕ) : Bool :=
  let objLoc := objLoc.resolve (baseTypeOfKey k)
  decide (objLoc.objType = (baseTypeOfKey k).code) &&
    decide (getObjectCount home oid objLoc (k.isType .resume) = count)

/-- `key_DoValidate`, for an object key: whether the key is voided. -/
def keyDoValidate (st : State α) (k : Key) : Except Failure Bool :=
  match k.body with
  | .unprep oid count => do
    let objLoc ← getObjectType st oid
    .ok (!objLoc.admits st.home k oid count)
  | _ => .error .assertion

/-! ## The request -/

/-- The key is on the key ring of the object. Prepared keys to a process are on that of its `Process`. -/
def OnKeyRing (oid : ℕ) (k : Key) : Prop :=
  k.body = .prep oid ∧ (k.keyType = .page ∨ k.keyType = .node ∨ k.keyType = .forwarder ∨ k.keyType = .gpt)

instance (oid : ℕ) (k : Key) : Decidable (OnKeyRing oid k) := by
  unfold OnKeyRing
  infer_instance

/-- `keyR_UnprepareAll`, for one key. -/
def unprepareFrom (oid : ℕ) (obj : MemObject) (k : Key) : Key :=
  if OnKeyRing oid k then { k with body := .unprep oid obj.allocCount } else k

/-- One round of `RetypeDestroyOldObjects`, with `ReleaseNodeFrame` and `ReleaseObjPageFrame`. -/
def destroyObject (st : State α) (oid : ℕ) : Except Failure (State α) :=
  match st.memory oid with
  | none => .ok st
  | some obj => do
    -- discard data
    let obj := { obj with dirty := false }
    ensure (obj.dirty = false) .assertion
    ensure (obj.baseType = .node → obj.hazarded = false) .assertion
    .ok { st with
      memory := Function.update st.memory oid none
      keys := fun place => unprepareFrom oid obj (st.keys place) }

def retypeDestroyOldObjects (st : State α) (oldType : BaseType) (oid : ℕ) : Except Failure (State α) :=
  (successiveOids oid oldType.objectsPerFrame).foldlM destroyObject st

/-- The descriptor of a null object. -/
def nullDesc (newType : BaseType) (allocationCount oid : ℕ) : ObjectDescriptor :=
  ⟨oid, allocationCount, allocationCount, 0, newType.code⟩

/-- "Make new null objects in the log directory": one round. -/
def recordNullObject (newType : BaseType) (allocationCount : ℕ) (st : State α) (oid : ℕ) :
    Except Failure (State α) := do
  let dir ← recordLocation st.dir (nullDesc newType allocationCount oid) st.workingGenerationNumber
  .ok { st with dir := dir }

/-- The case `retypeFrame` of the handler, for a persistent frame. -/
def retypeFrame (st : State α) (rng : Range) (offset : ℕ) (oldType newType : BaseType) (allocationCount : ℕ) :
    Except Failure (ExitCode × State α) :=
  let oid := add64 offset rng.start
  if oid > rng.last ∨ oidToObIndex oid ≠ 0 then .ok (.rangeErr, st)
  else do
    let st ← retypeDestroyOldObjects st oldType oid
    let st ← (successiveOids oid newType.objectsPerFrame).foldlM (recordNullObject newType allocationCount) st
    .ok (.ok, st)

/-! ## What the request is for -/

/-- The key is to this object. -/
def Names (k : Key) (oid : ℕ) : Prop :=
  k.isObjectKey = true ∧ (k.body = .prep oid ∨ ∃ count, k.body = .unprep oid count)

/-- `oldType` is the current base type of the frame, as the interface of Range keys has it: the objects of the frame
that are in memory are those of that type. -/
def HasBaseType (st : State α) (oid : ℕ) (oldType : BaseType) : Prop :=
  ∀ o obj, oidToFrame o = oidToFrame oid → st.memory o = some obj →
    obj.baseType = oldType ∧ o ∈ successiveOids oid oldType.objectsPerFrame

/-- The frame has been retyped. -/
structure Retyped (st st' : State α) (oid : ℕ) (oldType newType : BaseType) (allocationCount : ℕ) : Prop where
  /-- There is no entry for an object of the old type. -/
  old_gone : ∀ o ∈ successiveOids oid oldType.objectsPerFrame, ∀ od, findObject st'.dir o = .ok (some od) →
    od = nullDesc newType allocationCount o
  /-- The entries of the new type are those of the objects that the frame now has. -/
  new_entries : ∀ o, oidToFrame o = oidToFrame oid →
    ((∃ od, findObject st'.dir o = .ok (some od) ∧ od.obType = newType.code) ↔
      o ∈ successiveOids oid newType.objectsPerFrame)
  rescinded : ∀ place o, oidToFrame o = oidToFrame oid → Names (st.keys place) o →
    keyDoValidate st' (st'.keys place) = .ok true
  others : ∀ o, oidToFrame o ≠ oidToFrame oid → findObject st'.dir o = findObject st.dir o

/-- The count of the key, or the one it has when it is unprepared. A prepared key to a process stays prepared. -/
def countOf (st : State α) (k : Key) : Option ℕ :=
  match k.body with
  | .unprep _ count => some count
  | .prep oid => if OnKeyRing oid k then (st.memory oid).map MemObject.allocCount else none
  | _ => none

/-- The object that a key finds after the request: if the frame still has an object of that number it is the new
null object, otherwise what there is in the log directory, or else in the home range. -/
def Finds (st : State α) (oid : ℕ) (newType : BaseType) (allocationCount : ℕ) (k : Key) (o count : ℕ) : Prop :=
  if o ∈ successiveOids oid newType.objectsPerFrame then
    baseTypeOfKey k = newType ∧ allocationCount = count
  else ∃ objLoc, storedLocator st o = .ok objLoc ∧ objLoc.admits st.home k o count = true

/-- When the request does what it is for. No entry is there, before it, of an object of the old type or of one of the
new type whose number the frame does not have after it; and the keys to the objects of the frame can be unprepared,
and do not have the type and the count of what they find then. -/
structure RetypeOk (st : State α) (oid : ℕ) (oldType newType : BaseType) (allocationCount : ℕ) : Prop where
  no_entry : ∀ o, oidToFrame o = oidToFrame oid → o ∉ successiveOids oid newType.objectsPerFrame →
    ∀ od, findObject st.dir o = .ok (some od) →
      o ∉ successiveOids oid oldType.objectsPerFrame ∧ od.obType ≠ newType.code
  keys : ∀ place o, oidToFrame o = oidToFrame oid → Names (st.keys place) o →
    ∃ count, countOf st (st.keys place) = some count ∧
      ¬ Finds st oid newType allocationCount (st.keys place) o count

variable {st st' : State α} {oldType newType : BaseType} {oid o n count allocationCount : ℕ} {k : Key} {place : α}

/-! ## The objects of a frame -/

theorem BaseType.objectsPerFrame_le (t : BaseType) : t.objectsPerFrame ≤ diskNodesPerPage := by
  cases t <;> decide

theorem BaseType.code_injective {t t' : BaseType} (h : t.code = t'.code) : t = t' := by
  cases t <;> cases t'
  · rfl
  · cases h
  · cases h
  · rfl

theorem BaseType.code_ne_none (t : BaseType) : t.code ≠ otNone := by
  cases t <;> decide

theorem objectsPerFrame_code (layer : ObjectLayer) (t : BaseType) :
    RangeKey.objectsPerFrame layer t.code = t.objectsPerFrame := by
  cases t <;> rfl

theorem mem_successiveOids (hndx : oidToObIndex oid = 0) (hoid : oid < wordSize) (hn : n ≤ diskNodesPerPage) :
    o ∈ successiveOids oid n ↔ oid ≤ o ∧ o < oid + n := by
  have hword : wordSize = 256 * 2 ^ 56 := rfl
  have hpage : diskNodesPerPage = 7 := rfl
  have hmod : oid % 256 = 0 := hndx
  have hadd : ∀ i < n, add64 oid i = oid + i := by
    intro i hi
    exact Nat.mod_eq_of_lt (by omega)
  unfold successiveOids
  rw [List.mem_map]
  constructor
  · rintro ⟨i, hi, rfl⟩
    rw [List.mem_range] at hi
    rw [hadd i hi]
    omega
  · rintro ⟨hlo, hhi⟩
    refine ⟨o - oid, List.mem_range.2 (by omega), ?_⟩
    rw [hadd _ (by omega)]
    omega

theorem frame_of_mem (hndx : oidToObIndex oid = 0) (hoid : oid < wordSize) (hn : n ≤ diskNodesPerPage)
    (h : o ∈ successiveOids oid n) : oidToFrame o = oidToFrame oid := by
  rw [mem_successiveOids hndx hoid hn] at h
  have hmod : oid % 256 = 0 := hndx
  have hpage : diskNodesPerPage = 7 := rfl
  change o / 256 = oid / 256
  omega

/-! ## The handler -/

/-- The state after the request is that after the accesses that the handler makes: it destroys the objects of the old
type and records those of the new type. -/
theorem rangeKey_retypeFrame (layer : ObjectLayer) (rng : Range) (w1 w2 w3 : BitVec 32) (newCode : BitVec 8)
    (allocationCount : BitVec 32) (hold : w3.toNat = oldType.code) (hnew : newCode.toNat = newType.code)
    (hpers : oidIsPersistent (add64 (wordOffset w1 w2) rng.start) = true) :
    rangeKey layer rng (.retypeFrame w1 w2 w3 (some (newCode, allocationCount))) [] =
      let oid := add64 (wordOffset w1 w2) rng.start
      if oid > rng.last ∨ oidToObIndex oid ≠ 0 then .done { code := .rangeErr } []
      else .done { code := .ok } ((successiveOids oid oldType.objectsPerFrame).map .destroy ++
        (successiveOids oid newType.objectsPerFrame).map
          fun o => .recordLocation newType.code o allocationCount.toNat) := by
  change RangeKey.retypeFrame layer rng (wordOffset w1 w2) w3.toNat (some (newCode, allocationCount)) [] = _
  unfold RangeKey.retypeFrame
  dsimp only
  split
  · rfl
  · rw [retypeObjects, if_pos hpers, hold, hnew, RangeKey.retypeDestroyOldObjects, objectsPerFrame_code,
      objectsPerFrame_code]
    rfl

/-! ## What a request does -/

theorem OnKeyRing.unique (h : OnKeyRing oid k) (h' : OnKeyRing o k) : oid = o := by
  have hbody := h.1.symm.trans h'.1
  injection hbody

theorem unprepareFrom_of_not (obj : MemObject) (h : ¬ OnKeyRing oid k) : unprepareFrom oid obj k = k := if_neg h

/-- The objects `oids` have been destroyed: they are not in memory, and the keys on their rings are unprepared. -/
structure Destroyed (st : State α) (oids : List ℕ) (st' : State α) : Prop where
  dir : st'.dir = st.dir
  generation : st'.workingGenerationNumber = st.workingGenerationNumber
  home : st'.home = st.home
  memory : ∀ o, st'.memory o = if o ∈ oids then none else st.memory o
  elsewhere : ∀ place, (∀ o ∈ oids, ¬ OnKeyRing o (st.keys place)) → st'.keys place = st.keys place
  absent : ∀ place o, OnKeyRing o (st.keys place) → st.memory o = none → st'.keys place = st.keys place
  ring : ∀ place o obj, o ∈ oids → OnKeyRing o (st.keys place) → st.memory o = some obj →
    st'.keys place = { st.keys place with body := .unprep o obj.allocCount }

theorem destroyObject_ok (h : destroyObject st oid = .ok st') : Destroyed st [oid] st' := by
  unfold destroyObject at h
  cases hmem : st.memory oid with
  | none =>
    rw [hmem] at h
    obtain rfl := Except.ok.inj h
    refine ⟨rfl, rfl, rfl, fun o => ?_, fun _ _ => rfl, fun _ _ _ _ => rfl, fun place o obj ho _ hobj => ?_⟩
    · split
      · rename_i ho
        rw [List.mem_singleton.1 ho, hmem]
      · rfl
    · rw [List.mem_singleton.1 ho, hmem] at hobj
      cases hobj
  | some obj =>
    rw [hmem] at h
    obtain ⟨-, -, h⟩ := of_bind_ok h
    obtain ⟨-, -, h⟩ := of_bind_ok h
    obtain rfl := Except.ok.inj h
    refine ⟨rfl, rfl, rfl, fun o => ?_, fun place hnot => ?_, fun place o hon hnone => ?_,
      fun place o obj' ho hon hobj => ?_⟩
    · simp only [Function.update_apply, List.mem_singleton]
    · exact unprepareFrom_of_not _ (hnot oid (List.mem_singleton_self oid))
    · refine unprepareFrom_of_not _ fun hon' => ?_
      rw [hon'.unique hon, hnone] at hmem
      cases hmem
    · obtain rfl := List.mem_singleton.1 ho
      obtain rfl := Option.some.inj (hmem.symm.trans hobj)
      exact if_pos hon

/-- One object and then others. A key is unprepared just once, when its own object is destroyed. -/
theorem Destroyed.cons {a : ℕ} {oids : List ℕ} {st₁ : State α} (h₁ : Destroyed st [a] st₁)
    (h : Destroyed st₁ oids st') : Destroyed st (a :: oids) st' where
  dir := h.dir.trans h₁.dir
  generation := h.generation.trans h₁.generation
  home := h.home.trans h₁.home
  memory := by
    intro o
    rw [h.memory o, h₁.memory o]
    by_cases ho : o = a
    · rw [if_pos (List.mem_singleton.2 ho), if_pos (List.mem_cons.2 (.inl ho)), ite_self]
    · rw [if_neg (fun hc => ho (List.mem_singleton.1 hc))]
      simp only [List.mem_cons, ho, false_or]
  elsewhere := by
    intro place hnot
    have hsame : st₁.keys place = st.keys place :=
      h₁.elsewhere place fun o ho => hnot o (List.mem_cons.2 (.inl (List.mem_singleton.1 ho)))
    refine (h.elsewhere place fun o ho => ?_).trans hsame
    rw [hsame]
    exact hnot o (List.mem_cons_of_mem a ho)
  absent := by
    intro place o hon hmem
    have hsame := h₁.absent place o hon hmem
    refine (h.absent place o ?_ ?_).trans hsame
    · rw [hsame]
      exact hon
    · rw [h₁.memory o, hmem, ite_self]
  ring := by
    intro place o obj ho hon hmem
    by_cases ha : o = a
    · have hunprep := h₁.ring place o obj (List.mem_singleton.2 ha) hon hmem
      refine (h.elsewhere place fun o' _ hon' => ?_).trans hunprep
      rw [hunprep] at hon'
      cases hon'.1
    · have hsame : st₁.keys place = st.keys place := by
        refine h₁.elsewhere place fun o' ho' hon' => ha ?_
        rw [← List.mem_singleton.1 ho']
        exact hon.unique hon'
      have hmem₁ : st₁.memory o = some obj := by
        rw [h₁.memory o, if_neg (fun hc => ha (List.mem_singleton.1 hc)), hmem]
      have hrest := h.ring place o obj ((List.mem_cons.1 ho).resolve_left ha) (hsame.symm ▸ hon) hmem₁
      rw [hrest, hsame]

theorem destroyed_of_foldlM (oids : List ℕ) (h : oids.foldlM destroyObject st = .ok st') :
    Destroyed st oids st' := by
  induction oids generalizing st with
  | nil =>
    obtain rfl := Except.ok.inj h
    exact ⟨rfl, rfl, rfl, fun _ => rfl, fun _ _ => rfl, fun _ _ _ _ => rfl,
      fun _ _ _ ho => absurd ho List.not_mem_nil⟩
  | cons a oids ih =>
    rw [List.foldlM_cons] at h
    obtain ⟨st₁, hstep, hrest⟩ := of_bind_ok h
    exact (destroyObject_ok hstep).cons (ih hrest)

variable {V : LogDirectory.View}

theorem recorded_of_foldlM (oids : List ℕ) (hV : LogDirectory.Holds st.dir V)
    (h : oids.foldlM (recordNullObject newType allocationCount) st = .ok st') :
    st'.memory = st.memory ∧ st'.home = st.home ∧ st'.keys = st.keys ∧
    ∀ o, findObject st'.dir o =
      if o ∈ oids then .ok (some (nullDesc newType allocationCount o)) else findObject st.dir o := by
  induction oids generalizing st V with
  | nil =>
    obtain rfl := Except.ok.inj h
    exact ⟨rfl, rfl, rfl, fun _ => rfl⟩
  | cons a oids ih =>
    rw [List.foldlM_cons] at h
    obtain ⟨st₁, hstep, hrest⟩ := of_bind_ok h
    obtain ⟨dir, hrec, heq⟩ := of_bind_ok hstep
    obtain rfl := Except.ok.inj heq
    obtain ⟨V₁, hV₁, hfind₁⟩ := LogDirectory.recordLocation_find hV hrec
    obtain ⟨hmem, hhome, hkeys, hfind⟩ := ih hV₁ hrest
    refine ⟨hmem, hhome, hkeys, fun o => ?_⟩
    rw [hfind o]
    rw [hfind₁ o]
    by_cases ho : o ∈ oids
    · rw [if_pos ho, if_pos (List.mem_cons_of_mem a ho)]
    · rw [if_neg ho]
      by_cases ha : o = a
      · subst ha
        rw [if_pos List.mem_cons_self]
        exact if_pos rfl
      · rw [if_neg (fun hc => (List.mem_cons.1 hc).elim ha ho)]
        exact if_neg ha

/-- A request that succeeds has destroyed the objects of the old type and recorded those of the new type. -/
structure Effect (st : State α) (oid : ℕ) (oldType newType : BaseType) (allocationCount : ℕ) (st' : State α) :
    Prop where
  find : ∀ o, findObject st'.dir o = if o ∈ successiveOids oid newType.objectsPerFrame then
    .ok (some (nullDesc newType allocationCount o)) else findObject st.dir o
  home : st'.home = st.home
  memory : ∀ o, st'.memory o = if o ∈ successiveOids oid oldType.objectsPerFrame then none else st.memory o
  keys : ∃ st₁, Destroyed st (successiveOids oid oldType.objectsPerFrame) st₁ ∧ st'.keys = st₁.keys

theorem retypeFrame_ok {rng : Range} {offset : ℕ} (hV : LogDirectory.Holds st.dir V)
    (h : retypeFrame st rng offset oldType newType allocationCount = .ok (.ok, st')) :
    add64 offset rng.start ≤ rng.last ∧ oidToObIndex (add64 offset rng.start) = 0 ∧
      Effect st (add64 offset rng.start) oldType newType allocationCount st' := by
  unfold retypeFrame at h
  dsimp only at h
  split at h
  · cases h
  rename_i hchecks
  obtain ⟨hlast, hndx⟩ := not_or.1 hchecks
  obtain ⟨st₁, hdestroy, h⟩ := of_bind_ok h
  obtain ⟨st₂, hrecord, h⟩ := of_bind_ok h
  obtain rfl := (Prod.mk.inj (Except.ok.inj h)).2
  have hd := destroyed_of_foldlM _ hdestroy
  obtain ⟨hmem, hhome, hkeys, hfind⟩ := recorded_of_foldlM _ (hd.dir ▸ hV) hrecord
  refine ⟨not_lt.1 hlast, not_not.1 hndx, fun o => ?_, hhome.trans hd.home, fun o => ?_, st₁, hd, hkeys⟩
  · rw [hfind o, hd.dir]
  · rw [hmem, hd.memory o]

/-- A key to an object of the frame after the request: it is unprepared, or it stays prepared. -/
theorem Effect.key (h : Effect st oid oldType newType allocationCount st') (hbase : HasBaseType st oid oldType)
    (hframe : oidToFrame o = oidToFrame oid) (hk : Names (st.keys place) o) :
    (∃ count, countOf st (st.keys place) = some count ∧
      st'.keys place = { st.keys place with body := .unprep o count }) ∨
    countOf st (st.keys place) = none ∧ (st'.keys place).body = .prep o := by
  obtain ⟨st₁, hd, hkeys⟩ := h.keys
  rw [hkeys]
  obtain ⟨-, hprep | ⟨count, hunprep⟩⟩ := hk
  · have hcount : countOf st (st.keys place) =
        if OnKeyRing o (st.keys place) then (st.memory o).map MemObject.allocCount else none := by
      unfold countOf
      rw [hprep]
    rw [hcount]
    by_cases hon : OnKeyRing o (st.keys place)
    · rw [if_pos hon]
      cases hmem : st.memory o with
      | none =>
        rw [hd.absent place o hon hmem]
        exact .inr ⟨rfl, hprep⟩
      | some obj =>
        rw [hd.ring place o obj (hbase o obj hframe hmem).2 hon hmem]
        exact .inl ⟨obj.allocCount, rfl, rfl⟩
    · -- a prepared key to a process
      rw [if_neg hon, hd.elsewhere place fun o' _ hon' => ?_]
      · exact .inr ⟨rfl, hprep⟩
      · have hsame := hon'.1.symm.trans hprep
        injection hsame with hsame
        exact hon (hsame ▸ hon')
  · refine .inl ⟨count, ?_, ?_⟩
    · unfold countOf
      rw [hunprep]
    · rw [hd.elsewhere place fun o' _ hon' => ?_]
      · rw [← hunprep]
      · have hsame := hon'.1.symm.trans hunprep
        cases hsame

theorem admits_nullDesc (home : Home) :
    ObjectLocator.admits home ⟨.objectDescriptor (nullDesc newType allocationCount o), newType.code⟩ k o count = true ↔
      baseTypeOfKey k = newType ∧ allocationCount = count := by
  unfold ObjectLocator.admits ObjectLocator.resolve
  rw [if_neg newType.code_ne_none, Bool.and_eq_true, decide_eq_true_iff, decide_eq_true_iff]
  refine and_congr ⟨fun h => (BaseType.code_injective h).symm, fun h => congrArg BaseType.code h.symm⟩ ?_
  unfold getObjectCount nullDesc
  dsimp only
  rw [ite_self]

theorem exists_storedLocator (hV : LogDirectory.Holds st.dir V) (o : ℕ) :
    ∃ objLoc, storedLocator st o = .ok objLoc := by
  obtain ⟨M, hM⟩ := hV.exists_mapOf
  unfold storedLocator
  rw [hM.find hV o]
  cases M o with
  | none | some e => exact ⟨_, rfl⟩

theorem Effect.storedLocator_new (h : Effect st oid oldType newType allocationCount st')
    (ho : o ∈ successiveOids oid newType.objectsPerFrame) :
    storedLocator st' o = .ok ⟨.objectDescriptor (nullDesc newType allocationCount o), newType.code⟩ := by
  unfold storedLocator
  rw [h.find o, if_pos ho]
  rfl

theorem Effect.storedLocator_old (h : Effect st oid oldType newType allocationCount st')
    (ho : o ∉ successiveOids oid newType.objectsPerFrame) : storedLocator st' o = storedLocator st o := by
  unfold storedLocator
  rw [h.find o, if_neg ho, h.home]

/-- After the request, an unprepared key to an object of the frame is voided just if it does not find its object. -/
theorem Effect.validate (hV : LogDirectory.Holds st.dir V)
    (h : Effect st oid oldType newType allocationCount st') (hbase : HasBaseType st oid oldType)
    (hframe : oidToFrame o = oidToFrame oid) :
    keyDoValidate st' { k with body := .unprep o count } = .ok true ↔
      ¬ Finds st oid newType allocationCount k o count := by
  have hmem : st'.memory o = none := by
    rw [h.memory o]
    cases hobj : st.memory o with
    | none => exact ite_self _
    | some obj => exact if_pos (hbase o obj hframe hobj).2
  have hval : ∀ objLoc, storedLocator st' o = .ok objLoc →
      keyDoValidate st' { k with body := .unprep o count } = .ok (!objLoc.admits st.home k o count) := by
    intro objLoc hloc
    unfold keyDoValidate getObjectType
    dsimp only
    rw [hmem]
    rw [hloc, h.home]
    rfl
  unfold Finds
  by_cases ho : o ∈ successiveOids oid newType.objectsPerFrame
  · rw [if_pos ho, hval _ (h.storedLocator_new ho), Except.ok.injEq, Bool.not_eq_true', Bool.eq_false_iff,
      Ne, admits_nullDesc]
  · rw [if_neg ho]
    obtain ⟨objLoc, hloc⟩ := exists_storedLocator hV o
    rw [hval objLoc ((h.storedLocator_old ho).trans hloc), hloc, Except.ok.injEq, Bool.not_eq_true',
      Bool.eq_false_iff]
    refine not_congr ⟨fun hadm => ⟨objLoc, rfl, hadm⟩, ?_⟩
    rintro ⟨objLoc', heq, hadm⟩
    rw [Except.ok.inj heq]
    exact hadm

/-! ## When the request does what it is for -/

/-- In every state of the log directory, a request that retypes a persistent frame and succeeds does what it is for
just if there is no entry that should have been destroyed, and no key finds an object that it should not find. -/
theorem retypeFrame_iff {D₀ : Directory} (h0 : LogDirectory.Initial D₀)
    (hreach : LogDirectory.Reach (fun _ _ => True) D₀ st.dir) (rng : Range) (offset : ℕ)
    (hbase : HasBaseType st (add64 offset rng.start) oldType)
    (hret : retypeFrame st rng offset oldType newType allocationCount = .ok (.ok, st')) :
    Retyped st st' (add64 offset rng.start) oldType newType allocationCount ↔
      RetypeOk st (add64 offset rng.start) oldType newType allocationCount := by
  obtain ⟨V, hV⟩ := hreach.holds h0
  obtain ⟨hlast, hndx, heff⟩ := retypeFrame_ok hV hret
  have hoid : add64 offset rng.start < wordSize := hlast.trans_lt rng.last_lt
  generalize add64 offset rng.start = oid at *
  have hin : ∀ (t : BaseType) (o : ℕ), o ∈ successiveOids oid t.objectsPerFrame → oidToFrame o = oidToFrame oid :=
    fun t o ho => frame_of_mem hndx hoid t.objectsPerFrame_le ho
  constructor
  · intro h
    refine ⟨fun o hframe hnew od hod => ⟨fun hold => ?_, fun htype => ?_⟩, fun place o hframe hk => ?_⟩
    · have hod' : findObject st'.dir o = .ok (some od) := by
        rw [heff.find o, if_neg hnew, hod]
      have hnull := h.old_gone o hold od hod'
      refine hnew ((h.new_entries o hframe).1 ⟨od, hod', ?_⟩)
      rw [hnull]
      rfl
    · refine hnew ((h.new_entries o hframe).1 ⟨od, ?_, htype⟩)
      rw [heff.find o, if_neg hnew, hod]
    · have hvoid := h.rescinded place o hframe hk
      obtain ⟨count, hcount, hkey⟩ | ⟨-, hprep⟩ := heff.key hbase hframe hk
      · rw [hkey] at hvoid
        exact ⟨count, hcount, (heff.validate hV hbase hframe).1 hvoid⟩
      · unfold keyDoValidate at hvoid
        rw [hprep] at hvoid
        cases hvoid
  · intro h
    refine ⟨fun o hold od hod => ?_, fun o hframe => ⟨?_, fun hnew => ?_⟩, fun place o hframe hk => ?_,
      fun o hframe => ?_⟩
    · rw [heff.find o] at hod
      split at hod
      · exact (Option.some.inj (Except.ok.inj hod)).symm
      · rename_i hnew
        exact absurd hold (h.no_entry o (hin oldType o hold) hnew od hod).1
    · rintro ⟨od, hod, htype⟩
      by_contra hnew
      rw [heff.find o, if_neg hnew] at hod
      exact (h.no_entry o hframe hnew od hod).2 htype
    · exact ⟨_, (heff.find o).trans (if_pos hnew), rfl⟩
    · obtain ⟨count, hcount, hnot⟩ := h.keys place o hframe hk
      obtain ⟨count', hcount', hkey⟩ | ⟨hnone, -⟩ := heff.key hbase hframe hk
      · obtain rfl := Option.some.inj (hcount.symm.trans hcount')
        rw [hkey]
        exact (heff.validate hV hbase hframe).2 hnot
      · rw [hnone] at hcount
        cases hcount
    · rw [heff.find o]
      exact if_neg fun hnew => hframe (hin newType o hnew)

/-- A range of one persistent frame. -/
def oneFrame : Range where
  start := firstPersistentOID
  last := firstPersistentOID + 255
  start_le_last := by decide
  last_lt := by decide
  not_all := by decide

/-- A page in memory, with a key that is prepared to it. -/
def pageFrame : State Unit where
  dir := LogDirectory.startup 8
  workingGenerationNumber := 1
  memory := fun oid => if oid = firstPersistentOID then some ⟨.page, 5, 0, true, false⟩ else none
  home := ⟨fun _ => otPage, fun _ => 4, fun _ => 0, fun _ => 0⟩
  keys := fun _ => ⟨.page, 0, 0, .prep firstPersistentOID⟩

theorem retypeFrame_iff_page : ∃ st', retypeFrame pageFrame oneFrame 0 .page .node 6 = .ok (.ok, st') ∧
    Retyped pageFrame st' firstPersistentOID .page .node 6 := by
  have hbase : HasBaseType pageFrame (add64 0 oneFrame.start) .page := by
    intro o obj _ hmem
    obtain ⟨ho, hobj⟩ := Option.ite_none_right_eq_some.1 hmem
    rw [← Option.some.inj hobj, ho]
    exact ⟨rfl, by decide⟩
  have hcode : (retypeFrame pageFrame oneFrame 0 .page .node 6).map Prod.fst = .ok .ok := by decide +kernel
  obtain ⟨st', hret⟩ : ∃ st', retypeFrame pageFrame oneFrame 0 .page .node 6 = .ok (.ok, st') := by
    cases hr : retypeFrame pageFrame oneFrame 0 .page .node 6 with
    | error e =>
      rw [hr] at hcode
      cases hcode
    | ok p =>
      rw [hr] at hcode
      exact ⟨p.2, congrArg Except.ok (Prod.ext (Except.ok.inj hcode) rfl)⟩
  refine ⟨st', hret, (retypeFrame_iff (LogDirectory.initial_startup 8) .refl oneFrame 0 hbase hret).2
    ⟨fun o _ _ od hod => ?_, fun place o hframe hk => ⟨5, rfl, fun hfinds => ?_⟩⟩⟩
  · cases hod
  · obtain ⟨-, hprep | ⟨count, hunprep⟩⟩ := hk
    · injection hprep with ho
      unfold Finds at hfinds
      rw [← ho, if_pos (by decide)] at hfinds
      cases hfinds.1
    · cases hunprep

/-- A frame of nodes, of which node 1 has an entry in the log directory, and a key to it. -/
def nodeFrame (dir : Directory) : State Unit where
  dir := dir
  workingGenerationNumber := 1
  memory := fun _ => none
  home := ⟨fun _ => otNode, fun _ => 4, fun _ => 4, fun _ => 4⟩
  keys := fun _ => ⟨.node, 0, 0, .unprep (firstPersistentOID + 1) 5⟩

/-- The frame becomes that of a page. Node 1 is still in the log directory, and the key to it is valid. -/
theorem retypeFrame_keeps_entry : ∃ dir st',
    LogDirectory.Reach (fun _ _ => True) (LogDirectory.startup 3) dir ∧
    HasBaseType (nodeFrame dir) firstPersistentOID .node ∧
    retypeFrame (nodeFrame dir) oneFrame 0 .node .page 6 = .ok (.ok, st') ∧
    findObject st'.dir (firstPersistentOID + 1) = .ok (some ⟨firstPersistentOID + 1, 5, 5, 768, otNode⟩) ∧
    keyDoValidate st' (st'.keys ()) = .ok false ∧
    ¬ Retyped (nodeFrame dir) st' firstPersistentOID .node .page 6 := by
  obtain ⟨dir, hrun⟩ : ∃ dir, LogDirectory.Op.run (LogDirectory.startup 3)
      (.record ⟨firstPersistentOID + 1, 5, 5, 768, otNode⟩ 1) = .ok dir := ⟨_, rfl⟩
  obtain ⟨st', hret, hfind, hval⟩ : ∃ st',
      retypeFrame (nodeFrame dir) oneFrame 0 .node .page 6 = .ok (.ok, st') ∧
      findObject st'.dir (firstPersistentOID + 1) = .ok (some ⟨firstPersistentOID + 1, 5, 5, 768, otNode⟩) ∧
      keyDoValidate st' (st'.keys ()) = .ok false := by
    cases hrun
    exact ⟨_, rfl, rfl, rfl⟩
  refine ⟨dir, st', .step .refl trivial hrun, ?_, hret, hfind, hval, fun h => ?_⟩
  · intro o obj _ hobj
    cases hobj
  have hvoid := h.rescinded () (firstPersistentOID + 1) (by decide) ⟨rfl, .inr ⟨5, rfl⟩⟩
  rw [hval] at hvoid
  cases hvoid

end CapROS.RangeKey.Retyping
