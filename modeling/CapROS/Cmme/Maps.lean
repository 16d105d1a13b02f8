import CapROS.PhysMem.Basic
import Mathlib.Data.Nat.Log

/-!
# The maps area

The allocator of the address space at `LK_MAPS_BASE` (`cmmemaps.c`), which hands out whole pages. A page is named
by its offset within the area. It is a buddy system: the free blocks of `2 ^ j` pages are in the list
`avail_list[j]`, and the `mpage` of the first page of a free block is marked and has its order.

The links of the free lists are lists here.

* `State`: the array `mpages` and the free lists.
* `mapsLiberateLocked`, `mapsReserveLocked`, `mapsInit`: the operations.
-/

namespace CapROS.Cmme

open PhysMem (ffs32 fls32)

/-- The ways in which a process is stopped by these procedures. -/
inductive Stop where
  | assertion
  /-- The link of a page that is on no list is unlinked. -/
  | nullLink
  /-- An element outside the array is used. -/
  | wildPointer
  /-- A loop does not end. -/
  | unending
  deriving DecidableEq, Repr

/-- `assert(p)`. -/
def check (p : Prop) [Decidable p] : Except Stop Unit :=
  if p then .ok () else .error .assertion

/-- `logMaxBlockSize`, in pages. -/
def logMaxBlockSize : ℕ := 7

def numpages : ℕ := 128

/-- `struct mpage`, without its link. -/
structure MPage where
  kval : ℕ
  isFree : Bool
  deriving DecidableEq, Repr

/-- The allocator. -/
structure State where
  /-- The array `mpages`. -/
  mpages : ℕ → MPage
  /-- The free blocks of each order, the first one of the list first. -/
  availList : ℕ → List ℕ

/-- `&mpages[page]`. -/
def mpage (page : ℕ) : Except Stop ℕ := if page < numpages then .ok page else .error .wildPointer

/-- `mpages[page].isFree = b`. -/
def State.setFree (s : State) (page : ℕ) (b : Bool) : State :=
  { s with mpages := Function.update s.mpages page { s.mpages page with isFree := b } }

/-- A page is taken from the list it is on. -/
def State.unlink (s : State) (page : ℕ) : State :=
  { s with availList := fun j => (s.availList j).erase page }

/-- The page is on a free list. -/
def State.Listed (s : State) (page : ℕ) : Prop := ∃ j ∈ List.range (logMaxBlockSize + 1), page ∈ s.availList j

instance (s : State) (page : ℕ) : Decidable (s.Listed page) := by
  unfold State.Listed
  infer_instance

/-- `link_UnlinkUnsafe`. It leaves null pointers in the link. -/
def linkUnlinkUnsafe (page : ℕ) (s : State) : Except Stop State :=
  if s.Listed page then .ok (s.unlink page) else .error .nullLink

def State.liberateOneBlock (s : State) (jAddr j : ℕ) : State :=
  { mpages := Function.update s.mpages jAddr ⟨j, true⟩
    availList := Function.update s.availList j (jAddr :: s.availList j) }

/-- The part of `maps_liberate_locked` from the label `recheck` on, for the block at `jAddr` whose order is `left`
less than the largest: the block that is made of it by merging. The source does not change `jSize` when it
merges, and does not take the mark from the buddy. -/
def recheck (jSize : ℕ) : ℕ → ℕ → State → Except Stop ((ℕ × ℕ) × State)
  | 0, jAddr, s => .ok ((jAddr, logMaxBlockSize), s)
  | left + 1, jAddr, s =>
    let j := logMaxBlockSize - (left + 1)
    let pAddr := jAddr ^^^ jSize
    if pAddr < numpages ∧ (s.mpages pAddr).isFree = true ∧ (s.mpages pAddr).kval = j then do
      let s ← linkUnlinkUnsafe pAddr s
      recheck jSize left (if pAddr < jAddr then pAddr else jAddr) s
    else .ok ((jAddr, j), s)

/-- The order of the block that `maps_liberate_locked` frees next, at the end of `numPages` pages. -/
def lastOrder (numPages : ℕ) : ℕ := min (ffs32 numPages) logMaxBlockSize

/-- The loop of `maps_liberate_locked`. -/
def liberateFrom (pageAddr : ℕ) : ℕ → ℕ → State → Except Stop State
  | 0, _, _ => .error .unending
  | fuel + 1, numPages, s => do
    let j := lastOrder numPages
    let jSize := 2 ^ j
    let jAddr ← mpage (pageAddr + numPages - jSize)
    check ((s.mpages jAddr).isFree = false)
    let ((jAddr, j), s) ← recheck jSize (logMaxBlockSize - j) jAddr s
    check (jSize ≤ numPages)
    let s := s.liberateOneBlock jAddr j
    if numPages - jSize = 0 then .ok s
    else liberateFrom pageAddr fuel (numPages - jSize) s

def mapsLiberateLocked (pageAddr numPages : ℕ) (s : State) : Except Stop State :=
  liberateFrom pageAddr numPages numPages s

/-- The first block of the first of these lists that has one, with its order. -/
def firstBlock (s : State) (orders : List ℕ) : Option (ℕ × ℕ) :=
  orders.findSome? (fun j => (s.availList j).head?.map (fun page => (page, j)))

/-- The loop of `maps_reserve_locked` that liberates what is not needed of the block of `2 ^ j` pages at `x`. -/
def carve : ℕ → ℕ → ℕ → State → Except Stop State
  | 0, numPages, _, s => if 1 = numPages then .ok s else .error .wildPointer
  | j + 1, numPages, x, s =>
    if 2 ^ (j + 1) = numPages then .ok s
    else do
      let upper ← mpage (x + 2 ^ j)
      if numPages ≤ 2 ^ j then carve j numPages x (s.liberateOneBlock upper j)
      else carve j (numPages - 2 ^ j) upper (s.setFree upper false)

def mapsReserveLocked (numPages : ℕ) (s : State) : Except Stop (Option ℕ × State) := do
  let k := fls32 ((numPages + 2 ^ 32 - 1) % 2 ^ 32)
  check (k ≤ logMaxBlockSize)
  match firstBlock s (List.range' k (logMaxBlockSize + 1 - k)) with
  | none => .ok (none, s)
  | some (block, j) =>
    check ((s.mpages block).isFree = true)
    let s ← linkUnlinkUnsafe block s
    let s ← carve j numPages block (s.setFree block false)
    .ok (some block, s)

/-- `maps_init`, as far as it sets up the allocator. -/
def mapsInit : Except Stop State :=
  mapsLiberateLocked 0 numpages { mpages := fun _ => ⟨0, false⟩, availList := fun _ => [] }

/-- Pages that are reserved: all of a block, or what is left of it when parts of it have been liberated. -/
structure Reserved where
  /-- What `maps_reserve_locked` returned. -/
  block : ℕ
  /-- How many pages it was asked for. -/
  numPages : ℕ
  /-- The first page that is still reserved. -/
  start : ℕ
  /-- How many pages from there on are. -/
  length : ℕ
  deriving DecidableEq, Repr

/-- The page is one of these. -/
def Reserved.Has (r : Reserved) (x : ℕ) : Prop := r.start ≤ x ∧ x < r.start + r.length

/-- Some of these pages are liberated. -/
def Reserved.Contains (r : Reserved) (pageAddr numPages : ℕ) : Prop :=
  r.start ≤ pageAddr ∧ pageAddr + numPages ≤ r.start + r.length

instance (r : Reserved) (pageAddr numPages : ℕ) : Decidable (r.Contains pageAddr numPages) := by
  unfold Reserved.Contains
  infer_instance

/-- What is left of these pages, before and after the liberated ones. -/
def Reserved.without (r : Reserved) (pageAddr numPages : ℕ) : List Reserved :=
  if r.Contains pageAddr numPages then
    [{ r with length := pageAddr - r.start },
      { r with
        start := pageAddr + numPages
        length := r.start + r.length - (pageAddr + numPages) }].filter (0 < ·.length)
  else [r]

/-- The allocator with the pages that are reserved. -/
structure System where
  maps : State
  reserved : List Reserved

/-- The operations. -/
inductive Op where
  | reserve (numPages : ℕ)
  | liberate (pageAddr numPages : ℕ)
  deriving DecidableEq, Repr

/-- What the callers keep to: no more pages are reserved than the largest block has, and only pages of one reserved
block are liberated. -/
def Op.Allowed (σ : System) : Op → Prop
  | .reserve numPages => 0 < numPages ∧ numPages ≤ 2 ^ logMaxBlockSize
  | .liberate pageAddr numPages => 0 < numPages ∧ ∃ r ∈ σ.reserved, r.Contains pageAddr numPages

instance (σ : System) (op : Op) : Decidable (op.Allowed σ) := by
  cases op <;> unfold Op.Allowed <;> infer_instance

/-- An operation is carried out. -/
def Op.run (σ : System) : Op → Except Stop System
  | .reserve numPages => do
    let (block, maps) ← mapsReserveLocked numPages σ.maps
    match block with
    | none => .ok { σ with maps := maps }
    | some block => .ok { maps := maps, reserved := ⟨block, numPages, block, numPages⟩ :: σ.reserved }
  | .liberate pageAddr numPages => do
    let maps ← mapsLiberateLocked pageAddr numPages σ.maps
    .ok { maps := maps, reserved := σ.reserved.flatMap (·.without pageAddr numPages) }

/-- The runs from the start whose operations all meet a condition, with what each of them ends in. -/
inductive Run (P : System → Op → Prop) : Except Stop System → Prop
  | init : Run P (mapsInit.map fun maps => ⟨maps, []⟩)
  | step {σ : System} {op : Op} (h : Run P (.ok σ)) (ha : op.Allowed σ) (hp : P σ op) : Run P (op.run σ)

/-- The operations one after the other, if all are allowed and meet the condition. -/
def runIf (P : System → Op → Prop) [∀ σ op, Decidable (P σ op)] : List Op → System → Option (Except Stop System)
  | [], σ => some (.ok σ)
  | op :: ops, σ =>
    if op.Allowed σ ∧ P σ op then
      match op.run σ with
      | .ok σ' => runIf P ops σ'
      | .error e => if ops = [] then some (.error e) else none
    else none

/-- A run from the start. -/
def runFrom (P : System → Op → Prop) [∀ σ op, Decidable (P σ op)] (ops : List Op) :
    Option (Except Stop System) :=
  match mapsInit with
  | .ok maps => runIf P ops ⟨maps, []⟩
  | .error _ => none

variable {P : System → Op → Prop} [∀ σ op, Decidable (P σ op)]

theorem run_of_runIf {ops : List Op} {σ : System} {o : Except Stop System} (hσ : Run P (.ok σ))
    (h : runIf P ops σ = some o) : Run P o := by
  induction ops generalizing σ with
  | nil => exact Option.some.inj h ▸ hσ
  | cons op ops ih =>
    unfold runIf at h
    split at h
    case isFalse => cases h
    case isTrue ha =>
      have hs := Run.step hσ ha.1 ha.2
      split at h
      case h_1 hr => exact ih (hr ▸ hs) h
      case h_2 hr =>
        split at h
        case isTrue =>
          rw [hr] at hs
          exact Option.some.inj h ▸ hs
        case isFalse => cases h

theorem run_of_runFrom {ops : List Op} {o : Except Stop System} (h : runFrom P ops = some o) : Run P o := by
  unfold runFrom at h
  split at h
  case h_1 hi =>
    have hinit : Run P (mapsInit.map fun maps => (⟨maps, []⟩ : System)) := .init
    rw [hi] at hinit
    exact run_of_runIf hinit h
  case h_2 => cases h

end CapROS.Cmme
