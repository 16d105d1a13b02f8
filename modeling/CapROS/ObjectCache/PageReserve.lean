import CapROS.Kernel.Types

/-!
# The reserve of page frames

Before the object cache takes page frames, `OKToGrabPages` (`kern_ObjectCache.c`) checks that enough
will be left for the page fault handler, which needs some to clean pages. A frame with a mapping table
counts as free, because mapping tables can be freed without that process. The counters and the number
of pages are unsigned 32-bit words. The sum of the counters is converted to `int`, but the number of
pages that is subtracted from it is unsigned, and so are the difference and the comparison.

* `keepsReserve_iff`: the requests that it lets through only if the reserve is kept.
-/

namespace CapROS.ObjectCache

/-- What `OKToGrabPages` reads. -/
structure PageCounters where
  /-- `physMem_numFreePageFrames`. -/
  numFreePageFrames : BitVec 32
  /-- `physMem_numMapTabPageFrames`. -/
  numMapTabPageFrames : BitVec 32
  /-- `KTUNE_MapTabReserve`, which depends on the architecture. -/
  mapTabReserve : BitVec 32
  deriving DecidableEq, Repr

/-- The left side of the comparison, an unsigned word. -/
def PageCounters.rest (c : PageCounters) (numPages : BitVec 32) : BitVec 32 :=
  c.numFreePageFrames + c.numMapTabPageFrames - numPages

/-- `OKToGrabPages`. The flag `isPFH` is that of the current process, `forMT` says that the request is
for a mapping table. -/
def okToGrabPages (c : PageCounters) (isPFH : Bool) (numPages : BitVec 32) (forMT : Bool) : Bool :=
  if c.mapTabReserve ≤ c.rest numPages then true
  else if forMT then true
  else if isPFH then true
  else false

/-- The pages that are free or can be made so. -/
def PageCounters.total (c : PageCounters) : ℕ :=
  c.numFreePageFrames.toNat + c.numMapTabPageFrames.toNat

/-- A request of a process other than the page fault handler is let through only if the reserve is
left when the pages are taken. -/
def KeepsReserve (c : PageCounters) (numPages : BitVec 32) (forMT : Bool) : Prop :=
  okToGrabPages c false numPages forMT = true → numPages.toNat + c.mapTabReserve.toNat ≤ c.total

/-- The difference does not wrap around, or wraps around to less than the reserve. -/
def NoFalseRest (c : PageCounters) (numPages : BitVec 32) : Prop :=
  numPages.toNat ≤ c.total ∨ c.total + 2 ^ 32 < numPages.toNat + c.mapTabReserve.toNat

variable {c : PageCounters} {numPages : BitVec 32}

theorem toNat_rest (c : PageCounters) (numPages : BitVec 32) :
    (c.rest numPages).toNat = (c.total + (2 ^ 32 - numPages.toNat)) % 2 ^ 32 := by
  unfold PageCounters.rest PageCounters.total
  rw [BitVec.toNat_sub, BitVec.toNat_add, Nat.add_comm, Nat.mod_add_mod]

theorem rest_of_le (h : numPages.toNat ≤ c.total) (hr : c.mapTabReserve ≤ c.rest numPages) :
    numPages.toNat + c.mapTabReserve.toNat ≤ c.total := by
  rw [BitVec.le_def, toNat_rest] at hr
  -- the true difference is an upper bound of the word
  omega

theorem toNat_rest_of_lt (h : c.total < numPages.toNat) :
    (c.rest numPages).toNat = c.total + 2 ^ 32 - numPages.toNat := by
  rw [toNat_rest, Nat.mod_eq_of_lt (by omega)]
  omega

theorem okToGrabPages_iff (numPages : BitVec 32) :
    okToGrabPages c false numPages false = true ↔ c.mapTabReserve ≤ c.rest numPages := by
  simp [okToGrabPages]

/-- A request for a mapping table is always let through, and another one wrongly just if the
difference wraps around to the reserve or more. -/
theorem keepsReserve_iff (c : PageCounters) (numPages : BitVec 32) (forMT : Bool) :
    KeepsReserve c numPages forMT ↔
      numPages.toNat + c.mapTabReserve.toNat ≤ c.total ∨ forMT = false ∧ NoFalseRest c numPages := by
  cases forMT with
  | true => simp [KeepsReserve, okToGrabPages]
  | false =>
    unfold KeepsReserve
    rw [okToGrabPages_iff]
    constructor
    · intro h
      by_cases hle : numPages.toNat ≤ c.total
      · exact .inr ⟨rfl, .inl hle⟩
      · -- the request is too large, so it must have been turned down
        have hlt : c.total < numPages.toNat := Nat.lt_of_not_le hle
        refine .inr ⟨rfl, .inr ?_⟩
        by_contra hwrap
        have hok := h (by rw [BitVec.le_def, toNat_rest_of_lt hlt]; omega)
        omega
    · rintro (h | ⟨-, hle | hwrap⟩) hr
      · exact h
      · exact rest_of_le hle hr
      · have hlt : c.total < numPages.toNat ∨ numPages.toNat ≤ c.total := Nat.lt_or_ge _ _
        rcases hlt with hlt | hle
        · rw [BitVec.le_def, toNat_rest_of_lt hlt] at hr
          omega
        · exact rest_of_le hle hr

/-- With four free frames and one of mapping tables, a request for 128 pages is let through. -/
theorem okToGrabPages_wrapped :
    ¬∀ (c : PageCounters) (numPages : BitVec 32), KeepsReserve c numPages false := by
  intro h
  exact absurd (h ⟨4, 1, 40⟩ 128 (by decide)) (by decide)

end CapROS.ObjectCache
