import Mathlib.Data.List.Basic
import Mathlib.Tactic.Linarith

/-!
# Kernel integers, object and log identifiers

The scalars of `disk/ErosTypes.h` and the ways in which the kernel stops. OIDs, LIDs, frame
numbers, allocation and call counts and generation numbers are natural numbers; where the kernel's
arithmetic can wrap, the reduction modulo a power of two is written out at that place.

* `oidToObIndex`, `oidToFrame`, `frameToOID`: OIDs, LIDs and their frames.
-/

namespace CapROS

/-- The ways in which kernel code stops instead of returning. -/
inductive Halt where
  /-- An `assert` or `assertex` failed. -/
  | assertion
  /-- `fatal` was called. -/
  | fatal
  /-- The null pointer was dereferenced. -/
  | nullDeref
  /-- An array was indexed outside its bounds. -/
  | outOfBounds
  /-- A loop went round more often than the bound its model allows for. -/
  | diverged
  deriving DecidableEq, Repr

/-- `assert(p)`: go on when `p` holds, stop otherwise. -/
def kassert (p : Prop) [Decidable p] : Except Halt Unit :=
  if p then .ok () else .error .assertion

def erosPageSize : ℕ := 4096

def erosObjectsPerFrame : ℕ := 256

/-- `DISK_NODES_PER_PAGE`: a page holds seven `DiskNode`s. -/
def diskNodesPerPage : ℕ := 7

def oidToObIndex (oid : ℕ) : ℕ := oid % erosObjectsPerFrame

def oidToFrame (oid : ℕ) : ℕ := oid / erosObjectsPerFrame

def frameToOID (frame : ℕ) : ℕ := frame * erosObjectsPerFrame

def firstPersistentOID : ℕ := 0x0100000000000000

/-- `OID_RESERVED_PHYSRANGE`: OIDs from here on name physical pages. -/
def oidReservedPhysRange : ℕ := 0xff00000000000000

def oidIsPersistent (oid : ℕ) : Bool := decide (firstPersistentOID ≤ oid)

/-- `MAIN_LOG_START`: the log begins with the two checkpoint roots. -/
def mainLogStart : ℕ := frameToOID 2

/-- `IncrementLID`: add one frame to `lid`, wrapping at the end of the main log. -/
def incrementLID (logWrapPoint lid : ℕ) : ℕ :=
  if logWrapPoint ≤ lid + frameToOID 1 then mainLogStart else lid + frameToOID 1

/-- What a page holds: `EROS_PAGE_SIZE` bytes. -/
abbrev PageData := Fin 4096 → BitVec 8

variable {p : Prop}

@[simp]
theorem kassert_pos [Decidable p] (h : p) : kassert p = .ok () := if_pos h

@[simp]
theorem kassert_neg [Decidable p] (h : ¬p) : kassert p = .error .assertion := if_neg h

variable {ε α β : Type}

@[simp]
theorem ok_bind (a : α) (f : α → Except ε β) : (Except.ok a >>= f) = f a := rfl

@[simp]
theorem error_bind (e : ε) (f : α → Except ε β) :
    (Except.error e >>= f) = .error e := rfl

variable {b : β}

theorem of_bind_ok {x : Except ε α} {f : α → Except ε β}
    (h : (x >>= f) = .ok b) : ∃ a, x = .ok a ∧ f a = .ok b := by
  cases x with
  | error e => cases h
  | ok a => exact ⟨a, rfl, h⟩

theorem of_kassert_ok [Decidable p] {f : Unit → Except Halt β}
    (h : (kassert p >>= f) = .ok b) : p ∧ f () = .ok b := by
  by_cases hp : p
  · rw [kassert_pos hp] at h
    exact ⟨hp, h⟩
  · rw [kassert_neg hp] at h
    cases h

end CapROS
