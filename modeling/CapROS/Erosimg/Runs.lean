import CapROS.Erosimg.Table

/-!
# Runs on the division table

What a program does that adds and deletes divisions, closes the volume and opens it again, with the divisions that it
has added and not deleted.
-/

namespace CapROS.Erosimg

/-- A division that was added and not deleted. -/
structure Added where
  type : DivType
  start : ℕ
  size : ℕ
  /-- The field `flags`, as it was when the division was added. -/
  flags : UInt8
  needsInit : Bool
  deriving DecidableEq, Repr

/-- An entry of the table is about this division. -/
structure Added.Is (e : Added) (d : Division) (needsInit : Bool) : Prop where
  type : d.type = e.type.code
  start : d.start.toNat = e.start
  stop : d.stop.toNat = e.start + e.size
  startOid : d.startOid = 0
  endOid : d.endOid = 0
  flags : d.flags = e.flags
  needsInit : needsInit = e.needsInit

/-- A volume with the divisions that were added to it. -/
structure System where
  volume : Volume
  added : List Added

/-- The operations. -/
inductive Op where
  | addFixed (type : DivType) (start sz : UInt32)
  | addAdjustable (type : DivType) (sz : UInt32)
  | delete (ndx : ℕ)
  | reopen

/-- The flags that the next entry has before a division is added. -/
def Volume.nextFlags (v : Volume) : UInt8 := (v.divTable v.topDiv).flags

/-- An operation is carried out. -/
def Op.run (σ : System) : Op → Except Stop System
  | .addFixed type start sz => do
    let (_, v) ← addFixedDivision σ.volume type start sz
    .ok ⟨v, σ.added ++ [⟨type, start.toNat, sz.toNat, σ.volume.nextFlags, true⟩]⟩
  | .addAdjustable type sz => do
    let (div, v) ← addAdjustableDivision σ.volume type sz
    .ok ⟨v, σ.added ++ [⟨type, (v.divTable div).start.toNat, sz.toNat, σ.volume.nextFlags, true⟩]⟩
  | .delete ndx => do
    let v ← delDivision σ.volume ndx
    .ok ⟨v, σ.added.eraseIdx ndx⟩
  | .reopen => do
    let file ← close σ.volume
    let v ← openVolume file
    .ok ⟨v, σ.added.map fun e => { e with needsInit := false }⟩

/-- The two divisions of a new volume. -/
def standardItems (heapTable : ℕ → Division) : List Added :=
  [⟨.boot, 0, diskBootstrapSectors, (heapTable 0).flags, false⟩,
    ⟨.divTbl, diskBootstrapSectors, pageSectors, (heapTable 1).flags, false⟩]

/-- The runs from a new volume whose operations all meet a condition, with what each of them ends in. -/
inductive Run (P : System → Op → Prop) : Except Stop System → Prop
  | init (heapHdr : ℕ → UInt8) (heapTable : ℕ → Division) (iplSysId : ℕ) (boot : Option (List UInt8)) :
    Run P ((create heapHdr heapTable iplSysId boot).map fun v => ⟨v, standardItems heapTable⟩)
  | step {σ : System} {op : Op} (h : Run P (.ok σ)) (hp : P σ op) : Run P (op.run σ)

/-- The operations one after the other, if all meet the condition and none ends the program. -/
def runIf (P : System → Op → Prop) [∀ σ op, Decidable (P σ op)] : List Op → System → Option System
  | [], σ => some σ
  | op :: ops, σ =>
    if P σ op then
      match op.run σ with
      | .ok σ' => runIf P ops σ'
      | .error _ => none
    else none

/-- A run on a new volume without a boot image, in memory that was cleared. -/
def runFrom (P : System → Op → Prop) [∀ σ op, Decidable (P σ op)] (ops : List Op) : Option System :=
  let heapTable : ℕ → Division := fun _ => ⟨0, 0, 0, 0, 0, 0, 0, 0⟩
  match create (fun _ => 0) heapTable 0 none with
  | .ok v => runIf P ops ⟨v, standardItems heapTable⟩
  | .error _ => none

theorem run_of_runIf {P : System → Op → Prop} [∀ σ op, Decidable (P σ op)] {ops : List Op} {σ σ' : System}
    (hσ : Run P (.ok σ)) (h : runIf P ops σ = some σ') : Run P (.ok σ') := by
  induction ops generalizing σ with
  | nil => exact Option.some.inj h ▸ hσ
  | cons op ops ih =>
    unfold runIf at h
    split at h
    case isFalse => cases h
    case isTrue hp =>
      have hs := Run.step hσ hp
      split at h
      case h_1 hr => exact ih (hr ▸ hs) h
      case h_2 => cases h

theorem run_of_runFrom {P : System → Op → Prop} [∀ σ op, Decidable (P σ op)] {ops : List Op} {σ : System}
    (h : runFrom P ops = some σ) : Run P (.ok σ) := by
  unfold runFrom at h
  simp only at h
  split at h
  case h_1 v hv =>
    refine run_of_runIf ?_ h
    have hinit := Run.init (P := P) (fun _ => 0) (fun _ => ⟨0, 0, 0, 0, 0, 0, 0, 0⟩) 0 none
    rw [hv] at hinit
    exact hinit
  case h_2 => cases h

/-- The entries below `topDiv` are those of the divisions that were added and not deleted, in their order, and those of
them that are not empty are disjoint. -/
structure Sound (σ : System) : Prop where
  count : σ.volume.topDiv = σ.added.length
  entries : ∀ i < σ.volume.topDiv, ∃ e, σ.added[i]? = some e ∧ e.Is (σ.volume.divTable i) (σ.volume.divNeedsInit i)
  disjoint : σ.added.Pairwise fun d e => 0 < d.size → 0 < e.size →
    d.start + d.size ≤ e.start ∨ e.start + e.size ≤ d.start

/-- A run has ended with a fatal diagnostic, or every call has ended and the table is right. -/
def Correct : Except Stop System → Prop
  | .ok σ => Sound σ
  | .error (.fatal _ _) => True
  | .error _ => False

end CapROS.Erosimg
