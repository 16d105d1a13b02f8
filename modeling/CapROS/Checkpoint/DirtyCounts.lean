import CapROS.Checkpoint.Basic
import CapROS.Checkpoint.LogSpace
import CapROS.Theory.Census

/-!
# The numbers of dirty objects

`objH_EnsureWritable` decides whether an object can be made dirty from the numbers of dirty objects of the working and
of the next generation, `numDirtyObjectsWorking` and `numDirtyObjectsNext`. It increments them; nothing in the kernel
ever takes cleaned objects out of them again, or moves the objects of the next generation to the working one.

Objects are in frames, of which there are any number. The object that a frame holds can be a working copy, which is
kernel-read-only.

* `ensureWritable`: `objH_EnsureWritable`.
* `Op`, `Run`: what else happens to the objects.
* `dirtyCounts_proper`: they are right in runs in which nothing has to be taken out of them.
-/

namespace CapROS.Checkpoint

open Yielding Census
open ObjectCache (BaseType CkptState)

/-! ## The state -/

/-- An object in a frame. -/
structure Object where
  baseType : BaseType
  /-- `OFLG_Cleanable`: the object is persistent. -/
  cleanable : Bool
  /-- `OFLG_Fetching`. -/
  fetching : Bool := false
  /-- `OFLG_DIRTY`. -/
  dirty : Bool := false
  /-- `OFLG_KRO`. -/
  kro : Bool := false
  deriving DecidableEq, Repr

/-- The frames, the phase of the checkpoint, and the numbers of dirty objects. -/
structure DirtyState (ι : Type) where
  objects : ι → Option Object
  ckptState : CkptState
  numDirtyObjectsWorking : BaseType → BitVec 32
  numDirtyObjectsNext : BaseType → BitVec 32

/-- What `objH_EnsureWritable` reads of the other parts of the kernel. -/
structure Environment where
  log : LogState
  /-- `sizeof(ObjectDescriptor)` goes so often into a page. -/
  dirEntsPerPage : BitVec 32
  maxProcDirFrames : BitVec 32
  numDirtyLogPots : BitVec 32
  /-- `objC_nPages + objC_nNodes`. -/
  softLimit : BitVec 32
  /-- `ld_numAvailableEntries(retiredGeneration)`. -/
  availWorkingDirEnts : BitVec 32
  /-- `ld_numWorkingEntries()`. -/
  numWorkingEntries : BitVec 32
  /-- `ld_numAvailableEntries(nextRetiredGenNum)`. -/
  availNextDirEnts : BitVec 32
  workingGenerationNumber : BitVec 32
  /-- `GetNextRetiredGeneration()`. -/
  nextRetiredGenNum : BitVec 32

/-- What `node_MitigateKRO` and `pageH_MitigateKRO` come to. -/
inductive Mitigation (ι : Type) where
  /-- So many nodes are cleaned, among them this one if it does not yield. -/
  | nodes (cleaned : List ι) (yields : Bool)
  /-- There is no page frame, or no I/O request. -/
  | noFrame
  /-- The page is zero and is cleaned. -/
  | zero
  /-- Another frame gets a copy, which is the working version. -/
  | copy (new : ι)
  /-- Another frame gets a copy, which is the current version. -/
  | move (new : ι)

namespace DirtyState

variable {ι : Type} [DecidableEq ι]

/-- The flags of an object change. -/
def update (s : DirtyState ι) (i : ι) (g : Object → Object) : DirtyState ι :=
  { s with objects := Function.update s.objects i ((s.objects i).map g) }

/-- `numDirtyObjectsWorking[baseType] += k`. -/
def addWorking (s : DirtyState ι) (t : BaseType) (k : BitVec 32) : DirtyState ι :=
  { s with numDirtyObjectsWorking := Function.update s.numDirtyObjectsWorking t (s.numDirtyObjectsWorking t + k) }

/-- `numDirtyObjectsNext[baseType] += k`. -/
def addNext (s : DirtyState ι) (t : BaseType) (k : BitVec 32) : DirtyState ι :=
  { s with numDirtyObjectsNext := Function.update s.numDirtyObjectsNext t (s.numDirtyObjectsNext t + k) }

end DirtyState

/-! ## The space that is needed -/

def calcLogReservation (env : Environment) (numDirtyObjects : BaseType → BitVec 32) (existingLogEntries : BitVec 32) :
    BitVec 32 :=
  (numDirtyObjects .node + BitVec.ofNat 32 diskNodesPerPage - 1) / BitVec.ofNat 32 diskNodesPerPage +
    numDirtyObjects .page + env.numDirtyLogPots +
    (existingLogEntries + numDirtyObjects .node + numDirtyObjects .page + env.dirEntsPerPage - 1) / env.dirEntsPerPage +
    env.maxProcDirFrames + 1

def enoughWorkingDirEnts (env : Environment) (numDirtyObjectsWorking : BaseType → BitVec 32) : Bool :=
  ¬env.availWorkingDirEnts < numDirtyObjectsWorking .node + numDirtyObjectsWorking .page

/-- Space runs low: in the log, in the generation, or in the log directory. -/
def spaceLow (env : Environment) (numDirtyObjectsWorking : BaseType → BitVec 32) : Bool :=
  let tentRes := calcLogReservation env numDirtyObjectsWorking env.numWorkingEntries
  notEnoughLog tentRes env.log.retGenFrames ||
    decide (env.log.logSizeLimited < env.log.wkgSpace + tentRes.setWidth 64) ||
    decide (env.availWorkingDirEnts < env.softLimit)

/-- There are enough directory entries to clean the objects of both generations. -/
def enoughNextDirEnts (env : Environment) (working next : BaseType → BitVec 32) : Bool :=
  ¬env.availNextDirEnts < working .node + working .page + next .node + next .page

/-- There is enough log to complete both checkpoints, and a place in the next root. -/
def enoughNextLog (env : Environment) (working next : BaseType → BitVec 32) : Bool :=
  let tentRes := calcLogReservation env working env.numWorkingEntries + calcLogReservation env next 0
  ¬(notEnoughLog tentRes env.log.nextRetGenFrames ∨
    BitVec.ofNat 32 maxUnmigratedGenerations < env.workingGenerationNumber - env.nextRetiredGenNum)

/-! ## Making an object writeable -/

variable {ι : Type} [DecidableEq ι]

/-- `node_ClearDirty`. -/
def clearDirty (o : Object) : Object := { o with dirty := false, kro := false }

/-- `objH_EnsureWritable` mitigates an object that is kernel-read-only. -/
def mitigateKRO (i : ι) (m : Mitigation ι) : Prog Halt (DirtyState ι) Unit := fun s =>
  match m with
  | .nodes cleaned yields =>
    let s' := cleaned.foldl (fun s j => s.update j clearDirty) s
    if yields then .yield s' else .done () (s'.update i clearDirty)
  | .noFrame => .yield s
  | .zero => .done () (s.update i clearDirty)
  | .copy new =>
    match s.objects i, s.objects new with
    | some o, none =>
      -- The copy has `OFLG_DIRTY | OFLG_KRO | OFLG_Cleanable`, and the page is no longer kernel-read-only.
      if o.dirty then
        .done () { s with
          objects := Function.update (Function.update s.objects new
            (some { baseType := o.baseType, cleanable := true, dirty := true, kro := true }))
            i (some { o with kro := false }) }
      else .halt .assertion s
    | _, _ => .yield s
  | .move new =>
    match s.objects i, s.objects new with
    | some o, none =>
      .yield { s with objects := Function.update s.objects new (some { o with dirty := true, kro := false }) }
    | _, _ => .yield s

/-- `objH_SetDirtyFlag`. -/
def setDirtyFlag (i : ι) : Prog Halt (DirtyState ι) Unit :=
  Prog.modify fun s => s.update i fun o => { o with dirty := true }

/-- Undo the tentative count, and stop. -/
def notComplete (t : BaseType) : Prog Halt (DirtyState ι) Unit := do
  Prog.modify fun s => s.addNext t (-1)
  Prog.halt .assertion

/-- The part of `objH_EnsureWritable` at and after the label `ckptActive`. -/
def ensureWritableActive (env : Environment) (m : Mitigation ι) (i : ι) (o : Object) :
    Prog Halt (DirtyState ι) Unit := do
  let s ← Prog.get
  Prog.check (enoughWorkingDirEnts env s.numDirtyObjectsWorking = true) .assertion
  -- Tentatively count this object as dirty.
  Prog.modify fun s => s.addNext o.baseType 1
  let s ← Prog.get
  if enoughNextDirEnts env s.numDirtyObjectsWorking s.numDirtyObjectsNext = true ∧
      enoughNextLog env s.numDirtyObjectsWorking s.numDirtyObjectsNext = true then do
    -- Undo the tentative count, because the mitigation may yield.
    Prog.modify fun s => s.addNext o.baseType (-1)
    Prog.when (o.kro = true) (mitigateKRO i m)
    Prog.modify fun s => s.addNext o.baseType 1
    setDirtyFlag i
  else notComplete o.baseType

/-- `DeclareDemarcationEvent`. -/
def declareDemarcation : Prog Halt (DirtyState ι) Unit := do
  let s ← Prog.get
  Prog.check (s.ckptState = .notActive) .assertion
  Prog.modify fun s => { s with ckptState := .phase1 }

/-- The part of `objH_EnsureWritable` while no checkpoint is active. -/
def ensureWritableInactive (env : Environment) (m : Mitigation ι) (i : ι) (o : Object) :
    Prog Halt (DirtyState ι) Unit := do
  Prog.check (o.kro = false) .assertion
  -- Tentatively count this object as dirty.
  Prog.modify fun s => s.addWorking o.baseType 1
  let s ← Prog.get
  if spaceLow env s.numDirtyObjectsWorking = true then do
    Prog.modify fun s => s.addWorking o.baseType (-1)
    declareDemarcation
    ensureWritableActive env m i o
  else if enoughWorkingDirEnts env s.numDirtyObjectsWorking = true then setDirtyFlag i
  else do
    Prog.modify fun s => s.addWorking o.baseType (-1)
    Prog.halt .assertion

/-- `objH_EnsureWritable`. -/
def ensureWritable (env : Environment) (m : Mitigation ι) (i : ι) : Prog Halt (DirtyState ι) Unit := do
  let s ← Prog.get
  match s.objects i with
  | none => Prog.yield
  | some o =>
    if o.dirty = true ∧ o.kro = false then pure ()
    else do
      Prog.check (o.cleanable = true) .assertion
      Prog.check (o.fetching = false) .assertion
      if s.ckptState = .notActive then ensureWritableInactive env m i o else ensureWritableActive env m i o

/-! ## Runs -/

/-- What happens to the objects. -/
inductive DirtyOp (ι : Type) where
  | ensureWritable (env : Environment) (m : Mitigation ι) (i : ι)
  /-- A node or a zero page is cleaned. -/
  | clean (i : ι)
  /-- A page begins to be cleaned. -/
  | startCleaning (i : ι)
  /-- `DoneCleaningPage`: a page has been written. -/
  | doneCleaning (i : ι)
  /-- The frame gets another object, or none. -/
  | replace (i : ι) (new : Option Object)
  | declareDemarcationEvent
  /-- The moment of demarcation, with the pages that are being cleaned. -/
  | demarcate (beingCleaned : ι → Bool)
  /-- The checkpoint goes on. -/
  | nextPhase

/-- A persistent object is dirty. -/
def Object.isDirty (o : Object) : Bool := o.cleanable && o.dirty

/-- A node or a page at the moment of demarcation. -/
def Object.demarcate (o : Object) (beingCleaned : Bool) : Object :=
  if o.isDirty || (o.cleanable && beingCleaned && !o.fetching) then { o with kro := true } else o

/-- Nothing that is kernel-read-only is still dirty. -/
def AllClean [Fintype ι] (s : DirtyState ι) : Prop :=
  ∀ i, (s.objects i).all (fun o => !(o.isDirty && o.kro)) = true

instance [Fintype ι] (s : DirtyState ι) : Decidable (AllClean s) := inferInstanceAs (Decidable (∀ _, _))

def DirtyOp.exec [Fintype ι] : DirtyOp ι → Prog Halt (DirtyState ι) Unit
  | .ensureWritable env m i => Checkpoint.ensureWritable env m i
  | .clean i => Prog.modify fun s => s.update i clearDirty
  | .startCleaning i => Prog.modify fun s => s.update i fun o => { o with dirty := false }
  | .doneCleaning i => Prog.modify fun s => s.update i fun o => if o.dirty then o else { o with kro := false }
  | .replace i new => fun s =>
    -- Dirty objects stay in memory. An object that is fetched or made is not counted.
    if (s.objects i).all (fun o => !o.isDirty) = true ∧ new.all (fun o => !o.isDirty && !o.kro) = true then
      .done () { s with objects := Function.update s.objects i new }
    else .yield s
  | .declareDemarcationEvent => fun s => if s.ckptState = .notActive then declareDemarcation s else .yield s
  | .demarcate beingCleaned => fun s =>
    if s.ckptState = .phase1 then (do
      Prog.check (AllClean s) .assertion
      Prog.modify fun s => { s with
        objects := fun i => (s.objects i).map fun o => o.demarcate (beingCleaned i)
        ckptState := .phase2 } : Prog Halt (DirtyState ι) Unit) s
    else .yield s
  | .nextPhase => fun s =>
    match s.ckptState with
    | .notActive | .phase1 => .yield s
    | .phase2 => if AllClean s then .done () { s with ckptState := .phase3 } else .yield s
    | .phase3 => .done () { s with ckptState := .phase4 }
    | .phase4 => .done () { s with ckptState := .phase5 }
    -- `PostCheckpointProcessing`.
    | .phase5 => .done () { s with ckptState := .notActive }

/-- The states that are reached by operations that are admitted, from one in which no persistent object is dirty. -/
inductive DirtyRun [Fintype ι] (admitted : DirtyState ι → DirtyOp ι → Prop) : DirtyState ι → Prop where
  | init (objects : ι → Option Object) (h : ∀ i o, objects i = some o → o.isDirty = false) :
      DirtyRun admitted ⟨objects, .notActive, fun _ => 0, fun _ => 0⟩
  | done {s s' : DirtyState ι} (op : DirtyOp ι) (h : DirtyRun admitted s) (hop : admitted s op)
      (hexec : op.exec s = .done () s') : DirtyRun admitted s'
  | yield {s s' : DirtyState ι} (op : DirtyOp ι) (h : DirtyRun admitted s) (hop : admitted s op)
      (hexec : op.exec s = .yield s') : DirtyRun admitted s'

/-! ## The numbers -/

/-- A dirty object of the working generation. What is kernel-read-only belongs to it, and before the demarcation
everything does. -/
def Object.working (demarcated : Bool) (o : Object) : Bool := o.isDirty && (o.kro || !demarcated)

/-- A dirty object of the next generation. -/
def Object.next (demarcated : Bool) (o : Object) : Bool := o.isDirty && !o.kro && demarcated

/-- The frame has such an object of this type. -/
def holds (p : Object → Bool) (t : BaseType) (o : Option Object) : Bool := o.any fun o => decide (o.baseType = t) && p o

variable [Fintype ι]

/-- The number of dirty objects of the working generation. -/
def numWorking (s : DirtyState ι) (t : BaseType) : ℕ := census (holds (·.working s.ckptState.demarcated) t) s.objects

/-- The number of dirty objects of the next generation. -/
def numNext (s : DirtyState ι) (t : BaseType) : ℕ := census (holds (·.next s.ckptState.demarcated) t) s.objects

/-- The numbers are right. -/
structure Counted (s : DirtyState ι) : Prop where
  working : ∀ t, s.numDirtyObjectsWorking t = BitVec.ofNat 32 (numWorking s t)
  next : ∀ t, s.numDirtyObjectsNext t = BitVec.ofNat 32 (numNext s t)

/-- The object in the frame is not a dirty persistent one. -/
def NotDirty (s : DirtyState ι) (i : ι) : Prop := ∀ o, s.objects i = some o → o.isDirty = false

/-- The mitigation cleans nothing that is dirty, and does not move the page. -/
def ProperMitigation (s : DirtyState ι) (i : ι) : Mitigation ι → Prop
  | .nodes cleaned yields => (∀ j ∈ cleaned, NotDirty s j) ∧ (yields = false → NotDirty s i)
  | .noFrame => True
  | .zero => NotDirty s i
  | .copy _ => True
  | .move new => s.objects new ≠ none

/-- Nothing that is counted is cleaned; no object is made dirty between the declaration of a demarcation event and the
demarcation; and a checkpoint does not end while an object of the next generation is dirty. -/
def ProperDirty (s : DirtyState ι) : DirtyOp ι → Prop
  | .ensureWritable env m i => ∀ o, s.objects i = some o → (o.dirty = true ∧ o.kro = false) ∨
    (s.ckptState = .notActive ∧ spaceLow env (s.addWorking o.baseType 1).numDirtyObjectsWorking = false) ∨
    (s.ckptState.demarcated = true ∧ (o.kro = true → ProperMitigation s i m))
  | .clean i | .startCleaning i => NotDirty s i
  | .nextPhase => s.ckptState = .phase5 → ∀ i o, s.objects i = some o → o.next true = false
  | _ => True

/-! ## The exits of `objH_EnsureWritable` -/

section Exits

omit [Fintype ι]

variable {s s' : DirtyState ι} {i : ι} {o : Object}

/-- The numbers are the same. -/
def SameCounts (s s' : DirtyState ι) : Prop :=
  s'.numDirtyObjectsWorking = s.numDirtyObjectsWorking ∧ s'.numDirtyObjectsNext = s.numDirtyObjectsNext

omit [DecidableEq ι] in
theorem addWorking_undo (s : DirtyState ι) (t : BaseType) : (s.addWorking t 1).addWorking t (-1) = s := by
  have hundo : s.numDirtyObjectsWorking t + 1 + -1 = s.numDirtyObjectsWorking t := by
    rw [BitVec.add_assoc]
    exact BitVec.add_zero _
  simp only [DirtyState.addWorking, Function.update_self, Function.update_idem, hundo, Function.update_eq_self]

omit [DecidableEq ι] in
theorem addNext_undo (s : DirtyState ι) (t : BaseType) : (s.addNext t 1).addNext t (-1) = s := by
  have hundo : s.numDirtyObjectsNext t + 1 + -1 = s.numDirtyObjectsNext t := by
    rw [BitVec.add_assoc]
    exact BitVec.add_zero _
  simp only [DirtyState.addNext, Function.update_self, Function.update_idem, hundo, Function.update_eq_self]

theorem sameCounts_foldl (l : List ι) (s : DirtyState ι) :
    SameCounts s (l.foldl (fun s j => s.update j clearDirty) s) := by
  induction l generalizing s with
  | nil => exact ⟨rfl, rfl⟩
  | cons j l ih => exact ih (s.update j clearDirty)

theorem mitigateKRO_sameCounts (i : ι) (m : Mitigation ι) (s : DirtyState ι) :
    (mitigateKRO i m s).Sat (fun _ => SameCounts s) (SameCounts s) (fun _ => SameCounts s) := by
  cases m with
  | nodes cleaned yields =>
    cases yields with
    | true | false => exact sameCounts_foldl cleaned s
  | noFrame | zero => exact ⟨rfl, rfl⟩
  | copy new =>
    rw [mitigateKRO]
    split
    · split_ifs
      · exact ⟨rfl, rfl⟩
      · exact ⟨rfl, rfl⟩
    · exact ⟨rfl, rfl⟩
  | move new =>
    rw [mitigateKRO]
    split
    · exact ⟨rfl, rfl⟩
    · exact ⟨rfl, rfl⟩

/-- What comes after the mitigation. -/
def countNext (i : ι) (t : BaseType) (s : DirtyState ι) : DirtyState ι :=
  (s.addNext t 1).update i fun o => { o with dirty := true }

theorem ensureWritableActive_eq (env : Environment) (m : Mitigation ι) (i : ι) (o : Object) (s : DirtyState ι) :
    ensureWritableActive env m i o s = (Prog.when (o.kro = true) (mitigateKRO i m) s).andThen
        (fun _ s => .done () (countNext i o.baseType s)) ∨
      ensureWritableActive env m i o s = .halt .assertion s := by
  by_cases henough : enoughWorkingDirEnts env s.numDirtyObjectsWorking = true
  · by_cases hnext : enoughNextDirEnts env (s.addNext o.baseType 1).numDirtyObjectsWorking
        (s.addNext o.baseType 1).numDirtyObjectsNext = true ∧
      enoughNextLog env (s.addNext o.baseType 1).numDirtyObjectsWorking
        (s.addNext o.baseType 1).numDirtyObjectsNext = true
    · left
      simp only [ensureWritableActive, bind_apply, get_apply, andThen_done, check_pos henough, pure_apply, modify_apply]
      rw [if_pos hnext]
      simp only [bind_apply, modify_apply, andThen_done, addNext_undo]
      rfl
    · right
      simp only [ensureWritableActive, bind_apply, get_apply, andThen_done, check_pos henough, pure_apply, modify_apply]
      rw [if_neg hnext]
      simp only [notComplete, bind_apply, modify_apply, andThen_done, addNext_undo, halt_apply]
  · right
    simp only [ensureWritableActive, bind_apply, get_apply, andThen_done, check_neg henough, halt_apply, andThen_halt]

/-- What `objH_EnsureWritable` does: nothing; or the object is counted in the working generation; or the checkpoint is
active, possibly since now, and the object is mitigated and counted in the next generation; or the kernel stops. -/
inductive Ensured (env : Environment) (m : Mitigation ι) (i : ι) (s : DirtyState ι) :
    Outcome Halt (DirtyState ι) Unit → Prop where
  | absent (h : s.objects i = none) : Ensured env m i s (.yield s)
  | writable {o : Object} (h : s.objects i = some o) (hw : o.dirty = true ∧ o.kro = false) : Ensured env m i s (.done () s)
  | working {o : Object} (h : s.objects i = some o) (hc : o.cleanable = true) (hd : o.dirty = false) (hk : o.kro = false)
      (hinactive : s.ckptState = .notActive) (hlow : spaceLow env (s.addWorking o.baseType 1).numDirtyObjectsWorking = false) :
      Ensured env m i s (.done () ((s.addWorking o.baseType 1).update i fun o => { o with dirty := true }))
  | declared {o : Object} (h : s.objects i = some o) (hinactive : s.ckptState = .notActive)
      (hw : ¬(o.dirty = true ∧ o.kro = false))
      (hlow : spaceLow env (s.addWorking o.baseType 1).numDirtyObjectsWorking = true) :
      Ensured env m i s (.done () (countNext i o.baseType { s with ckptState := .phase1 }))
  | active {o : Object} (h : s.objects i = some o) (hc : o.cleanable = true) (hw : ¬(o.dirty = true ∧ o.kro = false))
      (hactive : s.ckptState ≠ .notActive) :
      Ensured env m i s ((Prog.when (o.kro = true) (mitigateKRO i m) s).andThen
        fun _ s => .done () (countNext i o.baseType s))
  | stops {s' : DirtyState ι} (h : SameCounts s s') : Ensured env m i s (.halt .assertion s')

theorem ensureWritable_ensured (env : Environment) (m : Mitigation ι) (i : ι) (s : DirtyState ι) :
    Ensured env m i s (ensureWritable env m i s) := by
  rw [ensureWritable, bind_apply, get_apply, andThen_done]
  cases hi : s.objects i with
  | none => exact .absent hi
  | some o =>
    dsimp only
    by_cases hw : o.dirty = true ∧ o.kro = false
    · rw [if_pos hw]
      exact .writable hi hw
    · rw [if_neg hw, bind_apply]
      by_cases hc : o.cleanable = true
      · rw [check_pos hc, pure_apply, andThen_done, bind_apply]
        by_cases hf : o.fetching = false
        · rw [check_pos hf, pure_apply, andThen_done]
          by_cases hinactive : s.ckptState = .notActive
          · rw [if_pos hinactive, ensureWritableInactive, bind_apply]
            by_cases hk : o.kro = false
            · have hd : o.dirty = false := by
                rw [← Bool.not_eq_true]
                exact fun hd => hw ⟨hd, hk⟩
              rw [check_pos hk, pure_apply, andThen_done, bind_apply, modify_apply, andThen_done, bind_apply, get_apply,
                andThen_done]
              by_cases hlow : spaceLow env (s.addWorking o.baseType 1).numDirtyObjectsWorking = true
              · -- A demarcation event is declared.
                have hnotActive : s.ckptState = .notActive := hinactive
                rw [if_pos hlow, bind_apply, modify_apply, andThen_done, addWorking_undo, bind_apply, declareDemarcation,
                  bind_apply, get_apply, andThen_done, bind_apply, check_pos hnotActive, pure_apply, andThen_done,
                  modify_apply, andThen_done]
                obtain heq | heq := ensureWritableActive_eq env m i o { s with ckptState := .phase1 }
                · rw [heq, hk, when_neg (by simp)]
                  exact .declared hi hinactive hw hlow
                · rw [heq]
                  exact .stops ⟨rfl, rfl⟩
              · rw [if_neg hlow]
                split_ifs
                · exact .working hi hc hd hk hinactive (Bool.eq_false_of_not_eq_true hlow)
                · rw [bind_apply, modify_apply, andThen_done, addWorking_undo]
                  exact .stops ⟨rfl, rfl⟩
            · rw [check_neg hk]
              exact .stops ⟨rfl, rfl⟩
          · rw [if_neg hinactive]
            obtain heq | heq := ensureWritableActive_eq env m i o s
            · rw [heq]
              exact .active hi hc hw hinactive
            · rw [heq]
              exact .stops ⟨rfl, rfl⟩
        · rw [check_neg hf]
          exact .stops ⟨rfl, rfl⟩
      · rw [check_neg hc]
        exact .stops ⟨rfl, rfl⟩

theorem ensureWritable_exits (env : Environment) (m : Mitigation ι) (i : ι) (s : DirtyState ι) :
    (ensureWritable env m i s).Sat (fun _ _ => True) (SameCounts s) (fun _ => SameCounts s) := by
  have hensured := ensureWritable_ensured env m i s
  generalize ensureWritable env m i s = result at hensured ⊢
  cases hensured with
  | absent h => exact ⟨rfl, rfl⟩
  | writable h hw | working h hc hd hk hinactive hlow | declared h hinactive hw hlow =>
    exact trivial
  | @active o h hc hw hactive =>
    by_cases hk : o.kro = true
    · rw [when_pos hk]
      have hsame := mitigateKRO_sameCounts i m s
      cases hm : mitigateKRO i m s with
      | done a s' => exact trivial
      | yield s' | halt e s' =>
        rw [hm] at hsame
        exact hsame
    · rw [when_neg hk]
      exact trivial
  | stops h => exact h

end Exits

/-! ## The numbers stay right -/

section Counting

variable {s s' : DirtyState ι} {i : ι} {o : Object} {t : BaseType}

omit [DecidableEq ι] in
theorem Counted.same (h : Counted s) (hsame : SameCounts s s') (hworking : ∀ t, numWorking s' t = numWorking s t)
    (hnext : ∀ t, numNext s' t = numNext s t) : Counted s' := by
  refine ⟨fun t => ?_, fun t => ?_⟩
  · rw [hsame.1, h.working, hworking]
  · rw [hsame.2, h.next, hnext]

/-- The object of one frame is replaced: the old one is no longer counted, and the new one is. -/
theorem Counted.set (h : Counted s) {v : Option Object} (hobjects : s'.objects = Function.update s.objects i v)
    (hphase : s'.ckptState.demarcated = s.ckptState.demarcated)
    (hworking : ∀ t, s'.numDirtyObjectsWorking t +
        BitVec.ofNat 32 (holds (·.working s.ckptState.demarcated) t (s.objects i)).toNat =
      s.numDirtyObjectsWorking t + BitVec.ofNat 32 (holds (·.working s.ckptState.demarcated) t v).toNat)
    (hnext : ∀ t, s'.numDirtyObjectsNext t +
        BitVec.ofNat 32 (holds (·.next s.ckptState.demarcated) t (s.objects i)).toNat =
      s.numDirtyObjectsNext t + BitVec.ofNat 32 (holds (·.next s.ckptState.demarcated) t v).toNat) : Counted s' := by
  refine ⟨fun t => ?_, fun t => ?_⟩
  · have hcensus := congrArg (BitVec.ofNat 32)
      (census_update (holds (·.working s.ckptState.demarcated) t) s.objects i v)
    rw [← hobjects, BitVec.ofNat_add, BitVec.ofNat_add] at hcensus
    have hstep := hworking t
    rw [h.working t, numWorking, ← hcensus] at hstep
    rw [numWorking, hphase]
    exact (BitVec.add_left_inj _).1 hstep
  · have hcensus := congrArg (BitVec.ofNat 32)
      (census_update (holds (·.next s.ckptState.demarcated) t) s.objects i v)
    rw [← hobjects, BitVec.ofNat_add, BitVec.ofNat_add] at hcensus
    have hstep := hnext t
    rw [h.next t, numNext, ← hcensus] at hstep
    rw [numNext, hphase]
    exact (BitVec.add_left_inj _).1 hstep

theorem Counted.setClean (h : Counted s) {v : Option Object} (hi : (s.objects i).all (fun o => !o.isDirty) = true)
    (hv : v.all (fun o => !o.isDirty) = true) : Counted { s with objects := Function.update s.objects i v } := by
  have hzero : ∀ (p : Object → Bool) (t : BaseType) (v : Option Object), (∀ o, o.isDirty = false → p o = false) →
      v.all (fun o => !o.isDirty) = true → holds p t v = false := by
    intro p t v hp hv
    cases v with
    | none => rfl
    | some o =>
      have ho : o.isDirty = false := by simpa using hv
      simp [holds, hp o ho]
  have hworking : ∀ o : Object, o.isDirty = false → o.working s.ckptState.demarcated = false := fun o ho => by
    rw [Object.working, ho, Bool.false_and]
  have hnext : ∀ o : Object, o.isDirty = false → o.next s.ckptState.demarcated = false := fun o ho => by
    rw [Object.next, ho, Bool.false_and, Bool.false_and]
  refine h.set (i := i) (v := v) rfl rfl (fun t => ?_) fun t => ?_
  · rw [hzero _ t _ hworking hi, hzero _ t _ hworking hv]
  · rw [hzero _ t _ hnext hi, hzero _ t _ hnext hv]

omit [Fintype ι] [DecidableEq ι] in
theorem NotDirty.all (h : NotDirty s i) : (s.objects i).all (fun o => !o.isDirty) = true := by
  cases hi : s.objects i with
  | none => rfl
  | some o => simp [h o hi]

theorem Counted.update (h : Counted s) {g : Object → Object} (hi : NotDirty s i)
    (hg : ∀ o, s.objects i = some o → (g o).isDirty = false) : Counted (s.update i g) := by
  refine h.setClean hi.all ?_
  cases ho : s.objects i with
  | none => rfl
  | some o => simp [hg o ho]

theorem Counted.addWorking (h : Counted s) (hi : s.objects i = some o) (hc : o.cleanable = true) (hd : o.dirty = false)
    (hdem : s.ckptState.demarcated = false) :
    Counted ((s.addWorking o.baseType 1).update i fun o => { o with dirty := true }) := by
  refine h.set (i := i) (v := some { o with dirty := true })
    (by simp only [DirtyState.update, DirtyState.addWorking, hi, Option.map_some]) rfl (fun t => ?_) fun t => ?_
  · by_cases ht : o.baseType = t
    · subst ht
      simp [DirtyState.update, DirtyState.addWorking, hi, holds, Object.working, Object.isDirty, hc, hd, hdem]
    · simp [DirtyState.update, DirtyState.addWorking, hi, holds, ht, Function.update_of_ne (Ne.symm ht)]
  · simp [DirtyState.update, DirtyState.addWorking, hi, holds, Object.next, hdem]

theorem Counted.countNext (h : Counted s) (hi : s.objects i = some o) (ht : o.baseType = t) (hc : o.cleanable = true)
    (hd : o.dirty = false) (hk : o.kro = false) (hdem : s.ckptState.demarcated = true) : Counted (countNext i t s) := by
  refine h.set (i := i) (v := some { o with dirty := true })
    (by simp only [Checkpoint.countNext, DirtyState.update, DirtyState.addNext, hi, Option.map_some]) rfl (fun t' => ?_)
    fun t' => ?_
  · simp [Checkpoint.countNext, DirtyState.update, DirtyState.addNext, hi, holds, Object.working, hk, hdem]
  · by_cases ht' : t = t'
    · subst ht'
      simp [Checkpoint.countNext, DirtyState.update, DirtyState.addNext, hi, holds, Object.next, Object.isDirty, hc, hd, hk,
        hdem, ht]
    · simp [Checkpoint.countNext, DirtyState.update, DirtyState.addNext, hi, holds, ht, ht',
        Function.update_of_ne (Ne.symm ht')]

@[simp]
theorem isDirty_clearDirty (o : Object) : (clearDirty o).isDirty = false := Bool.and_false _

theorem Counted.foldl_clearDirty (h : Counted s) {l : List ι} (hl : ∀ j ∈ l, NotDirty s j) :
    Counted (l.foldl (fun s j => s.update j clearDirty) s) ∧
      (l.foldl (fun s j => s.update j clearDirty) s).ckptState = s.ckptState ∧
      ∀ j, (l.foldl (fun s j => s.update j clearDirty) s).objects j = s.objects j ∨
        (l.foldl (fun s j => s.update j clearDirty) s).objects j = (s.objects j).map clearDirty := by
  induction l generalizing s with
  | nil => exact ⟨h, rfl, fun j => .inl rfl⟩
  | cons k l ih =>
    have hobjects : ∀ j, (s.update k clearDirty).objects j = s.objects j ∨
        (s.update k clearDirty).objects j = (s.objects j).map clearDirty := by
      intro j
      by_cases hj : j = k
      · subst hj
        exact .inr (Function.update_self _ _ _)
      · exact .inl (Function.update_of_ne hj _ _)
    have hnot : ∀ j ∈ l, NotDirty (s.update k clearDirty) j := by
      intro j hj o ho
      obtain heq | heq := hobjects j
      · exact hl j (List.mem_cons_of_mem _ hj) o (heq ▸ ho)
      · rw [heq] at ho
        obtain ⟨o', -, rfl⟩ := Option.map_eq_some_iff.1 ho
        exact isDirty_clearDirty o'
    obtain ⟨hcounted, hphase, hrest⟩ := ih (h.update (hl k List.mem_cons_self) fun o _ => isDirty_clearDirty o) hnot
    refine ⟨hcounted, hphase, fun j => ?_⟩
    -- Cleaning an object twice is the same as cleaning it once.
    have htwice : ∀ o : Option Object, (o.map clearDirty).map clearDirty = o.map clearDirty := fun o => by
      cases o <;> rfl
    obtain heq | heq := hrest j
    · rw [List.foldl_cons, heq]
      exact hobjects j
    · rw [List.foldl_cons, heq]
      obtain heq' | heq' := hobjects j
      · exact .inr (by rw [heq'])
      · exact .inr (by rw [heq', htwice])

/-- An object that was kernel-read-only, and not dirty, is made dirty after it has been cleaned. -/
theorem Counted.cleared (h : Counted s) (hi : s.objects i = some o ∨ s.objects i = some (clearDirty o))
    (hc : o.cleanable = true) (hd : o.dirty = false) (hdem : s.ckptState.demarcated = true) :
    Counted (Checkpoint.countNext i o.baseType (s.update i clearDirty)) := by
  have hobject : (s.update i clearDirty).objects i = some (clearDirty o) := by
    obtain hi | hi := hi
    · simp [DirtyState.update, hi]
    · simp [DirtyState.update, hi, clearDirty]
  have hnot : NotDirty s i := by
    intro o' ho'
    obtain hi | hi := hi
    · rw [hi, Option.some_inj] at ho'
      rw [← ho', Object.isDirty, hd, Bool.and_false]
    · rw [hi, Option.some_inj] at ho'
      exact ho' ▸ isDirty_clearDirty o
  exact (h.update hnot fun o _ => isDirty_clearDirty o).countNext hobject rfl hc rfl rfl hdem

theorem Counted.copy (h : Counted s) (hi : s.objects i = some o) (hc : o.cleanable = true) (hd : o.dirty = true)
    (hk : o.kro = true) (hdem : s.ckptState.demarcated = true) {new : ι} (hnew : s.objects new = none) :
    Counted (Checkpoint.countNext i o.baseType { s with
      objects := Function.update (Function.update s.objects new
        (some { baseType := o.baseType, cleanable := true, dirty := true, kro := true })) i (some { o with kro := false }) }) := by
  have hne : i ≠ new := by
    rintro rfl
    rw [hi] at hnew
    cases hnew
  -- First the page gets counted, then the copy takes its place in the working generation.
  have hpage : Counted { s with
      objects := Function.update s.objects i (some { o with kro := false })
      numDirtyObjectsWorking :=
        Function.update s.numDirtyObjectsWorking o.baseType (s.numDirtyObjectsWorking o.baseType - 1)
      numDirtyObjectsNext := Function.update s.numDirtyObjectsNext o.baseType (s.numDirtyObjectsNext o.baseType + 1) } := by
    refine h.set (i := i) rfl rfl (fun t => ?_) fun t => ?_
    · by_cases ht : o.baseType = t
      · subst ht
        simp [hi, holds, Object.working, Object.isDirty, hc, hd, hk, hdem]
      · simp [hi, holds, ht, Function.update_of_ne (Ne.symm ht)]
    · by_cases ht : o.baseType = t
      · subst ht
        simp [hi, holds, Object.next, Object.isDirty, hc, hd, hk, hdem]
      · simp [hi, holds, ht, Function.update_of_ne (Ne.symm ht)]
  refine hpage.set (i := new)
    (v := some { baseType := o.baseType, cleanable := true, dirty := true, kro := true }) ?_ rfl (fun t => ?_) fun t => ?_
  · simp only [Checkpoint.countNext, DirtyState.update, DirtyState.addNext, Function.update_self, Option.map_some,
      Function.update_idem]
    rw [Function.update_comm hne]
    have hsame : { o with dirty := true, kro := false } = { o with kro := false } := by rw [← hd]
    rw [hsame]
  · by_cases ht : o.baseType = t
    · subst ht
      simp [Checkpoint.countNext, DirtyState.update, DirtyState.addNext, Function.update_of_ne (Ne.symm hne), hnew, holds,
        Object.working, Object.isDirty]
    · simp [Checkpoint.countNext, DirtyState.update, DirtyState.addNext, Function.update_of_ne (Ne.symm hne), hnew, holds,
        ht, Function.update_of_ne (Ne.symm ht)]
  · simp [Checkpoint.countNext, DirtyState.update, DirtyState.addNext, Function.update_of_ne (Ne.symm hne), hnew, holds,
        Object.next]

theorem Counted.mitigate (h : Counted s) (hi : s.objects i = some o) (hc : o.cleanable = true) (hk : o.kro = true)
    (hdem : s.ckptState.demarcated = true) {m : Mitigation ι} (hproper : ProperMitigation s i m) :
    ((mitigateKRO i m s).andThen fun _ s => .done () (Checkpoint.countNext i o.baseType s)).Sat (fun _ => Counted) Counted
      (fun _ _ => True) := by
  have hclean : NotDirty s i → o.dirty = false := fun hnot => by
    have hdirty := hnot o hi
    rwa [Object.isDirty, hc, Bool.true_and] at hdirty
  cases m with
  | nodes cleaned yields =>
    obtain ⟨hcounted, hphase, hobjects⟩ := h.foldl_clearDirty hproper.1
    cases yields with
    | true => exact hcounted
    | false =>
      refine hcounted.cleared ?_ hc (hclean (hproper.2 rfl)) (hphase ▸ hdem)
      rw [← Option.map_some (f := clearDirty), ← hi]
      exact hobjects i
  | noFrame => exact h
  | zero => exact h.cleared (.inl hi) hc (hclean hproper) hdem
  | copy new =>
    rw [mitigateKRO]
    cases hnew : s.objects new with
    | none =>
      simp only [hi]
      by_cases hd : o.dirty = true
      · rw [if_pos hd]
        exact h.copy hi hc hd hk hdem hnew
      · rw [if_neg hd]
        exact trivial
    | some o' =>
      simp only [hi]
      exact h
  | move new =>
    rw [mitigateKRO]
    cases hnew : s.objects new with
    | none => exact absurd hnew hproper
    | some o' =>
      simp only [hi]
      exact h

/-- A proper call of `objH_EnsureWritable` keeps the numbers right. -/
theorem Counted.ensureWritable (h : Counted s) {env : Environment} {m : Mitigation ι}
    (hproper : ProperDirty s (.ensureWritable env m i)) :
    (Checkpoint.ensureWritable env m i s).Sat (fun _ => Counted) Counted (fun _ _ => True) := by
  have hensured := ensureWritable_ensured env m i s
  generalize Checkpoint.ensureWritable env m i s = result at hensured ⊢
  cases hensured with
  | absent hi | writable hi hw => exact h
  | working hi hc hd hk hinactive hlow =>
    refine h.addWorking hi hc hd ?_
    rw [hinactive]
    rfl
  | declared hi hinactive hw hlow =>
    obtain hw' | ⟨-, hlow'⟩ | ⟨hdem, -⟩ := hproper _ hi
    · exact absurd hw' hw
    · rw [hlow] at hlow'
      cases hlow'
    · rw [hinactive] at hdem
      cases hdem
  | @active o hi hc hw hactive =>
    obtain hw' | ⟨hinactive, -⟩ | ⟨hdem, hmitigation⟩ := hproper _ hi
    · exact absurd hw' hw
    · exact absurd hinactive hactive
    · by_cases hk : o.kro = true
      · rw [when_pos hk]
        exact h.mitigate hi hc hk hdem (hmitigation hk)
      · rw [when_neg hk]
        have hk' := Bool.eq_false_of_not_eq_true hk
        have hd : o.dirty = false := Bool.eq_false_of_not_eq_true fun hd => hw ⟨hd, hk'⟩
        exact h.countNext hi rfl hc hd hk' hdem
  | stops hsame => exact trivial

omit [DecidableEq ι] in
theorem Counted.demarcate (h : Counted s) (hphase : s.ckptState = .phase1) (beingCleaned : ι → Bool) :
    Counted { s with
      objects := fun i => (s.objects i).map fun o => o.demarcate (beingCleaned i)
      ckptState := .phase2 } := by
  have hbase : ∀ (o : Object) b, (o.demarcate b).baseType = o.baseType := fun o b => by
    rw [Object.demarcate]
    split_ifs <;> rfl
  have hdirty : ∀ (o : Object) b, (o.demarcate b).isDirty = o.isDirty := fun o b => by
    rw [Object.demarcate]
    split_ifs <;> rfl
  have hkro : ∀ (o : Object) b, o.isDirty = true → (o.demarcate b).kro = true := fun o b ho => by
    rw [Object.demarcate, ho, Bool.true_or, if_pos rfl]
  refine h.same ⟨rfl, rfl⟩ (fun t => census_congr fun i => ?_) fun t => census_congr fun i => ?_
  · cases hi : s.objects i with
    | none => simp [holds, hi]
    | some o =>
      cases ho : o.isDirty with
      | true => simp [holds, hi, Object.working, hbase, hdirty, hkro, ho, hphase, CkptState.demarcated]
      | false => simp [holds, hi, Object.working, hbase, hdirty, ho]
  · cases hi : s.objects i with
    | none => simp [holds, hi]
    | some o =>
      cases ho : o.isDirty with
      | true => simp [holds, hi, Object.next, hbase, hdirty, hkro, ho, hphase, CkptState.demarcated]
      | false => simp [holds, hi, Object.next, hbase, hdirty, ho]

omit [DecidableEq ι] in
theorem Counted.phase (h : Counted s) {p : CkptState} (hp : p.demarcated = s.ckptState.demarcated) :
    Counted { s with ckptState := p } :=
  h.same ⟨rfl, rfl⟩ (fun t => by simp only [numWorking, hp]) fun t => by simp only [numNext, hp]

omit [DecidableEq ι] in
theorem Counted.complete (h : Counted s) (hphase : s.ckptState = .phase5)
    (hnone : ∀ i o, s.objects i = some o → o.next true = false) : Counted { s with ckptState := .notActive } := by
  refine h.same ⟨rfl, rfl⟩ (fun t => census_congr fun i => ?_) fun t => census_congr fun i => ?_
  · cases hi : s.objects i with
    | none => simp [holds]
    | some o =>
      have hnext := hnone i o hi
      cases ho : o.isDirty with
      | false => simp [holds, Object.working, ho]
      | true =>
        have hk : o.kro = true := by simpa [Object.next, ho] using hnext
        simp [holds, Object.working, ho, hk]
  · cases hi : s.objects i with
    | none => simp [holds]
    | some o =>
      have hnext := hnone i o hi
      simp only [holds, Option.any_some, hphase, CkptState.demarcated, hnext]
      simp [Object.next]

theorem Counted.exec (h : Counted s) {op : DirtyOp ι} (hproper : ProperDirty s op) :
    (op.exec s).Sat (fun _ => Counted) Counted (fun _ _ => True) := by
  cases op with
  | ensureWritable env m i => exact h.ensureWritable hproper
  | clean i => exact h.update hproper fun o _ => isDirty_clearDirty o
  | startCleaning i => exact h.update hproper fun o _ => Bool.and_false _
  | doneCleaning i =>
    refine h.set (i := i) rfl rfl (fun t => ?_) fun t => ?_
    · cases hi : s.objects i with
      | none => rfl
      | some o => cases hd : o.dirty <;> simp [DirtyState.update, holds, Object.working, Object.isDirty, hd]
    · cases hi : s.objects i with
      | none => rfl
      | some o => cases hd : o.dirty <;> simp [DirtyState.update, holds, Object.next, Object.isDirty, hd]
  | replace i new =>
    rw [DirtyOp.exec]
    dsimp only
    split_ifs with hreplace
    · refine h.setClean hreplace.1 ?_
      have hnew := hreplace.2
      cases new with
      | none => rfl
      | some o =>
        simp only [Option.all_some, Bool.and_eq_true] at hnew ⊢
        exact hnew.1
    · exact h
  | declareDemarcationEvent =>
    rw [DirtyOp.exec]
    dsimp only
    split_ifs with hinactive
    · rw [declareDemarcation, bind_apply, get_apply, andThen_done, bind_apply, check_pos hinactive, pure_apply, andThen_done]
      refine h.phase ?_
      rw [hinactive]
      rfl
    · exact h
  | demarcate beingCleaned =>
    rw [DirtyOp.exec]
    dsimp only
    split_ifs with hphase
    · rw [bind_apply]
      by_cases hclean : AllClean s
      · rw [check_pos hclean, pure_apply, andThen_done]
        exact h.demarcate hphase beingCleaned
      · rw [check_neg hclean]
        exact trivial
    · exact h
  | nextPhase =>
    have hstep : ∀ p : CkptState, s.ckptState.demarcated = true → p.demarcated = true →
        Counted { s with ckptState := p } := fun p hs hp => h.phase (hp.trans hs.symm)
    rw [DirtyOp.exec]
    dsimp only
    cases hphase : s.ckptState with
    | notActive | phase1 => exact h
    | phase2 =>
      split_ifs
      · exact hstep _ (by rw [hphase]; rfl) rfl
      · exact h
    | phase3 | phase4 => exact hstep _ (by rw [hphase]; rfl) rfl
    | phase5 => exact h.complete hphase (hproper hphase)

omit [DecidableEq ι] in
theorem Counted.init {objects : ι → Option Object} (h : ∀ i o, objects i = some o → o.isDirty = false) :
    Counted ⟨objects, .notActive, fun _ => 0, fun _ => 0⟩ := by
  refine ⟨fun t => ?_, fun t => ?_⟩
  · rw [numWorking, census_eq_zero]
    · rfl
    · intro i
      cases hi : objects i with
      | none => simp [holds, hi]
      | some o => simp [holds, hi, Object.working, h i o hi]
  · rw [numNext, census_eq_zero]
    · rfl
    · intro i
      cases hi : objects i with
      | none => simp [holds, hi]
      | some o => simp [holds, hi, Object.next, h i o hi]

theorem DirtyRun.counted (h : DirtyRun ProperDirty s) : Counted s := by
  induction h with
  | init objects hobjects => exact .init hobjects
  | done op _ hproper hexec ih | yield op _ hproper hexec ih =>
    have hcounted := ih.exec hproper
    rwa [hexec] at hcounted

end Counting

/-- In a run of proper operations the numbers are right, and a call that does not succeed leaves them as they were. -/
theorem dirtyCounts_proper {s : DirtyState ι} (h : DirtyRun ProperDirty s) : Counted s ∧
    ∀ env m i (s' : DirtyState ι), (ensureWritable env m i s').Sat (fun _ _ => True) (SameCounts s')
      (fun _ => SameCounts s') :=
  ⟨h.counted, ensureWritable_exits⟩

/-! ## Two frames -/

/-- Enough space for everything, with places for a few thousand directory entries. -/
def ampleSpace : Environment where
  log := {
    logCursor := 1280
    logWrapPoint := 65536
    oldestNonRetiredGenLid := 25600
    workingGenFirstLid := 1024
    oldestNonNextRetiredGenLid := 25600
    logSizeLimited := 200 }
  dirEntsPerPage := 128
  maxProcDirFrames := 0
  numDirtyLogPots := 0
  softLimit := 2
  availWorkingDirEnts := 1000
  numWorkingEntries := 0
  availNextDirEnts := 1000
  workingGenerationNumber := 3
  nextRetiredGenNum := 2

/-- A persistent node and a persistent page. -/
def twoObjects : DirtyState Bool where
  objects i := some { baseType := if i then .node else .page, cleanable := true }
  ckptState := .notActive
  numDirtyObjectsWorking _ := 0
  numDirtyObjectsNext _ := 0

/-- The node has been made dirty. -/
def dirtyNode : DirtyState Bool :=
  (twoObjects.addWorking .node 1).update true fun o => { o with dirty := true }

theorem ensureWritable_twoObjects : (DirtyOp.ensureWritable ampleSpace .noFrame true).exec twoObjects = .done () dirtyNode :=
  rfl

theorem twoObjects_run (P : DirtyState Bool → DirtyOp Bool → Prop) : DirtyRun P twoObjects :=
  .init _ fun i o ho => by
    rw [← Option.some_inj.1 ho]
    rfl

/-- The node is counted. -/
theorem dirtyCounts_proper_node : Counted dirtyNode ∧ dirtyNode.numDirtyObjectsWorking .node = 1 := by
  have hproper : ProperDirty twoObjects (.ensureWritable ampleSpace .noFrame true) := by
    intro o ho
    obtain rfl := Option.some_inj.1 ho
    exact .inr (.inl ⟨rfl, rfl⟩)
  exact ⟨(dirtyCounts_proper (.done _ (twoObjects_run _) hproper ensureWritable_twoObjects)).1, rfl⟩

/-- The node is cleaned, and it is still counted. -/
theorem dirtyCounts_drift : ¬∀ s : DirtyState Bool, DirtyRun (fun _ _ => True) s → Counted s := by
  intro h
  have hrun : DirtyRun (fun _ _ => True) dirtyNode := .done _ (twoObjects_run _) trivial ensureWritable_twoObjects
  have hcounted := (h _ (.done (.clean true) hrun trivial rfl)).working .node
  exact absurd hcounted (by decide)

end CapROS.Checkpoint
