import CapROS.PhysMem.Basic
import CapROS.Theory.Pool

/-!
# Allocation of physical memory

`physMem_Alloc` takes memory for the kernel from the regions of `physMem_pmemInfo`, before the pages are given to the
object cache: from the end of a region, from its beginning, or from the middle, which makes two regions of it.

* `physMemChooseRegion`, `physMemAlloc`: the allocator, with its arithmetic modulo the number of addresses.
* `CallOk`: the calls that do it. The subtraction `bound - nBytes` of the two functions must not wrap, and the end
  of the constraint that the block is put next to must be aligned.
* `physMemChooseRegion_best`: the region that is chosen.
-/

namespace CapROS.PhysMem.Regions

open BuddyBlocks (add_le_of_dvd)

/-! ## Addresses -/

/-- The processor for which the kernel is built. -/
inductive Arch where
  | i486
  | arm
  deriving DecidableEq, Repr

/-- How many values `kpa_t` and `kpsize_t` have. -/
def Arch.span : Arch → ℕ
  | .i486 => 2 ^ 64
  | .arm => 2 ^ 32

/-- A sum of addresses. -/
def Arch.add (arch : Arch) (x y : ℕ) : ℕ := (x + y) % arch.span

/-- A difference of addresses. -/
def Arch.sub (arch : Arch) (x y : ℕ) : ℕ := (x + arch.span - y) % arch.span

/-- `align_down`. With an alignment that is a power of 2, the mask takes the low bits away. -/
def alignDown (addr alignment : ℕ) : ℕ := addr / alignment * alignment

def alignUp (arch : Arch) (addr alignment : ℕ) : ℕ := alignDown (arch.add addr (alignment - 1)) alignment

structure PmemConstraint (arch : Arch) where
  base : ℕ
  bound : ℕ
  align : ℕ
  base_lt : base < arch.span
  bound_lt : bound < arch.span
  /-- "must be a power of 2", of 32 bits. -/
  align_pow : ∃ k < 32, align = 2 ^ k

/-- `physMem_pages`: any page. -/
def physMemPages (arch : Arch) : PmemConstraint arch where
  base := 0
  bound := arch.span - 1
  align := erosPageSize
  base_lt := by cases arch <;> decide
  bound_lt := by cases arch <;> decide
  align_pow := ⟨12, by decide, rfl⟩

/-- `PmemInfo`, without the pages that are given to the object cache later. -/
structure PmemInfo where
  base : ℕ
  bound : ℕ
  type : MemoryType
  allocBase : ℕ
  allocBound : ℕ
  deriving DecidableEq, Repr

def maxPmemInfo : ℕ := 128

variable (arch : Arch)

/-! ## The allocator -/

/-- What `physMem_AddRegion` puts into the table. -/
def newRegion (base bound : ℕ) (type : MemoryType) : PmemInfo :=
  if type = .memory then ⟨base, bound, type, base, bound⟩ else ⟨base, bound, type, 0, 0⟩

/-- `physMem_AddRegion`, which does not add a region to a full table. -/
def physMemAddRegion (pmemInfo : List PmemInfo) (base bound : ℕ) (type : MemoryType) : Option (List PmemInfo) :=
  if maxPmemInfo ≤ pmemInfo.length then none else some (pmemInfo ++ [newRegion base bound type])

/-- `preferred_region`: higher memory is preferred. A region comes with its number in the table. -/
def preferredRegion : Option (ℕ × PmemInfo) → ℕ × PmemInfo → ℕ × PmemInfo
  | none, rgn2 => rgn2
  | some rgn1, rgn2 => if rgn1.2.base < rgn2.2.base then rgn2 else rgn1

/-- The test that `physMem_ChooseRegion` makes of each region. -/
def Suits (nBytes : ℕ) (mc : PmemConstraint arch) (kmi : PmemInfo) : Prop :=
  kmi.type = .memory ∧ max kmi.allocBase mc.base < min kmi.allocBound mc.bound ∧
    max kmi.allocBase mc.base ≤ alignDown (arch.sub (min kmi.allocBound mc.bound) nBytes) mc.align

instance (nBytes : ℕ) (mc : PmemConstraint arch) (kmi : PmemInfo) : Decidable (Suits arch nBytes mc kmi) := by
  unfold Suits
  infer_instance

/-- The loop of `physMem_ChooseRegion`, from region `rgn` on. -/
def chooseFrom (nBytes : ℕ) (mc : PmemConstraint arch) :
    List PmemInfo → ℕ → Option (ℕ × PmemInfo) → Option (ℕ × PmemInfo)
  | [], _, allocTarget => allocTarget
  | kmi :: rest, rgn, allocTarget =>
    chooseFrom nBytes mc rest (rgn + 1)
      (if Suits arch nBytes mc kmi then some (preferredRegion allocTarget (rgn, kmi)) else allocTarget)

def physMemChooseRegion (pmemInfo : List PmemInfo) (nBytes : ℕ) (mc : PmemConstraint arch) :
    Option (ℕ × PmemInfo) :=
  chooseFrom arch nBytes mc pmemInfo 0 none

/-- The part of `physMem_Alloc` that splits the region `allocTarget`, of number `rgn`: the block is at the address
`base`, and memory from the page boundary `split` on is a region of its own. -/
def splitRegion (pmemInfo : List PmemInfo) (rgn : ℕ) (allocTarget : PmemInfo) (nBytes base split : ℕ) :
    Except Stop (ℕ × List PmemInfo) :=
  match physMemAddRegion pmemInfo split allocTarget.allocBound .memory with
  | none => .error .assertion
  | some pmemInfo =>
    let newPmi := newRegion split allocTarget.allocBound .memory
    .ok (base, (pmemInfo.set (pmemInfo.length - 1) { newPmi with allocBase := max split (arch.add base nBytes) }).set
      rgn { allocTarget with bound := split, allocBound := base })

/-- The part of `physMem_Alloc` that takes the block from the region chosen. `base` and `bound` are those of the
region, aligned, with the constraint applied. -/
def takeBlock (pmemInfo : List PmemInfo) (rgn : ℕ) (allocTarget : PmemInfo) (nBytes : ℕ) (mc : PmemConstraint arch)
    (base bound : ℕ) : Except Stop (ℕ × List PmemInfo) :=
  if bound = alignDown allocTarget.allocBound mc.align then
    -- We can grab from the end.
    let addr := arch.sub bound nBytes
    .ok (addr, pmemInfo.set rgn { allocTarget with allocBound := addr })
  else if base = alignUp arch allocTarget.allocBase mc.align then
    -- We can grab from the beginning.
    .ok (base, pmemInfo.set rgn { allocTarget with allocBase := arch.add base nBytes })
  else if alignUp arch base erosPageSize < allocTarget.allocBound then
    splitRegion arch pmemInfo rgn allocTarget nBytes base (alignUp arch base erosPageSize)
  else
    -- Just allocate from the end.
    let addr := arch.sub bound nBytes
    .ok (addr, pmemInfo.set rgn { allocTarget with allocBound := addr })

/-- What `physMem_Alloc` returns if it can't allocate: `- (kpa_t)1`. -/
def failed : ℕ := arch.sub 0 1

/-- `physMem_Alloc`: the address of the block, and the table afterwards. -/
def physMemAlloc (pmemInfo : List PmemInfo) (nBytes : ℕ) (mc : PmemConstraint arch) :
    Except Stop (ℕ × List PmemInfo) := do
  check (nBytes % mc.align = 0)
  match physMemChooseRegion arch pmemInfo nBytes mc with
  | none => return (failed arch, pmemInfo)
  | some (rgn, allocTarget) =>
    let base := max (alignUp arch allocTarget.allocBase mc.align) mc.base
    let bound := min (alignDown allocTarget.allocBound mc.align) mc.bound
    let (addr, pmemInfo) ← takeBlock arch pmemInfo rgn allocTarget nBytes mc base bound
    check (base ≤ addr)
    check (arch.add addr nBytes ≤ bound)
    return (addr, pmemInfo)

/-! ## What a call is for -/

/-- The memory of a region that is still available. -/
def PmemInfo.area (r : PmemInfo) : Set ℕ := fun a => r.type = .memory ∧ r.allocBase ≤ a ∧ a < r.allocBound

/-- The available memory of all regions. -/
def available (pmemInfo : List PmemInfo) : Set ℕ := Pool.all PmemInfo.area pmemInfo

/-- A block of memory. -/
def blockAt (addr nBytes : ℕ) : Set ℕ := Set.Ico addr (addr + nBytes)

/-- The table, and the blocks that have been allocated, each with its address and size. -/
structure System where
  pmemInfo : List PmemInfo
  blocks : List (ℕ × ℕ)

variable {arch}

/-- A block has been allocated as it should be. -/
structure Allocated (s : System) (nBytes : ℕ) (mc : PmemConstraint arch) (addr : ℕ) (pmemInfo : List PmemInfo) :
    Prop where
  aligned : mc.align ∣ addr
  in_region : ∃ r ∈ s.pmemInfo, r.type = .memory ∧ r.allocBase ≤ addr ∧ addr + nBytes ≤ r.allocBound
  in_constraint : mc.base ≤ addr ∧ addr + nBytes ≤ mc.bound
  disjoint : ∀ b ∈ s.blocks, Disjoint (blockAt b.1 b.2) (blockAt addr nBytes)
  shrinks : ∃ X, blockAt addr nBytes ⊆ X ∧ X ⊆ available s.pmemInfo ∧
    available pmemInfo = available s.pmemInfo \ X

/-- A call returns, and it has failed and changed nothing, or allocated a block as it should. -/
def Meets (s : System) (nBytes : ℕ) (mc : PmemConstraint arch) : Prop :=
  ∃ addr pmemInfo, physMemAlloc arch s.pmemInfo nBytes mc = .ok (addr, pmemInfo) ∧
    (addr = failed arch ∧ pmemInfo = s.pmemInfo ∨ Allocated s nBytes mc addr pmemInfo)

/-- The region is the one to take a block from: of those that pass the test, the first of those with the highest
base. -/
structure Preferred (pmemInfo : List PmemInfo) (nBytes : ℕ) (mc : PmemConstraint arch) (rgn : ℕ) (r : PmemInfo) :
    Prop where
  entry : pmemInfo[rgn]? = some r
  suits : Suits arch nBytes mc r
  highest : ∀ (j : ℕ) (r' : PmemInfo), pmemInfo[j]? = some r' → Suits arch nBytes mc r' →
    r'.base < r.base ∨ r'.base = r.base ∧ rgn ≤ j

/-- The block can be taken from the region. First, `bound - nBytes` does not wrap. Then, if the constraint ends
before the region does and begins after it, the block is put next to one of its ends, which is aligned; and if that
splits the region, the table has room for another one. -/
structure Fits (pmemInfo : List PmemInfo) (nBytes : ℕ) (mc : PmemConstraint arch) (r : PmemInfo) : Prop where
  size : nBytes ≤ min r.allocBound mc.bound
  ends : mc.bound < alignDown r.allocBound mc.align → alignUp arch r.allocBase mc.align < mc.base →
    if alignUp arch mc.base erosPageSize < r.allocBound then mc.align ∣ mc.base ∧ pmemInfo.length < maxPmemInfo
    else mc.align ∣ mc.bound

/-- The size is a multiple of the alignment, as the comment on `physMem_Alloc` demands, and the block can be taken
from the region it is to be taken from. -/
structure CallOk (pmemInfo : List PmemInfo) (nBytes : ℕ) (mc : PmemConstraint arch) : Prop where
  multiple : mc.align ∣ nBytes
  fits : ∀ rgn r, Preferred pmemInfo nBytes mc rgn r → Fits pmemInfo nBytes mc r

/-- The runs, from any table whose regions have no available memory in common. Later regions may be added, of memory
that is not in the table and not in an allocated block. -/
inductive Run (arch : Arch) : System → Prop
  | start (pmemInfo : List PmemInfo) (hwords : ∀ r ∈ pmemInfo, r.allocBase < arch.span ∧ r.allocBound < arch.span)
      (hapart : Pool.Apart PmemInfo.area pmemInfo) : Run arch ⟨pmemInfo, []⟩
  | addRegion {s : System} (h : Run arch s) (base bound : ℕ) (type : MemoryType) (hbase : base < arch.span)
      (hbound : bound < arch.span) {pmemInfo : List PmemInfo}
      (hnew : Disjoint (newRegion base bound type).area (available s.pmemInfo))
      (hblocks : ∀ b ∈ s.blocks, Disjoint (newRegion base bound type).area (blockAt b.1 b.2))
      (hr : physMemAddRegion s.pmemInfo base bound type = some pmemInfo) : Run arch { s with pmemInfo := pmemInfo }
  | alloc {s : System} (h : Run arch s) (mc : PmemConstraint arch) (nBytes : ℕ) (hn : nBytes < arch.span)
      (hok : CallOk s.pmemInfo nBytes mc) {addr : ℕ} {pmemInfo : List PmemInfo}
      (hr : physMemAlloc arch s.pmemInfo nBytes mc = .ok (addr, pmemInfo)) :
      Run arch ⟨pmemInfo, if addr = failed arch then s.blocks else (addr, nBytes) :: s.blocks⟩

variable {s : System} {mc : PmemConstraint arch} {pmemInfo pmemInfo' : List PmemInfo} {r : PmemInfo}
  {rgn nBytes addr x y A : ℕ}

/-! ## Arithmetic -/

theorem Arch.span_pos (arch : Arch) : 0 < arch.span := by
  cases arch <;> exact Nat.two_pow_pos _

theorem two_pow_dvd_span (arch : Arch) {k : ℕ} (hk : k ≤ 32) : 2 ^ k ∣ arch.span := by
  cases arch
  · exact Nat.pow_dvd_pow 2 (hk.trans (by decide))
  · exact Nat.pow_dvd_pow 2 hk

theorem page_dvd_span (arch : Arch) : erosPageSize ∣ arch.span := two_pow_dvd_span arch (k := 12) (by decide)

theorem PmemConstraint.align_pos (mc : PmemConstraint arch) : 0 < mc.align := by
  obtain ⟨k, -, hk⟩ := mc.align_pow
  rw [hk]
  exact Nat.two_pow_pos k

theorem PmemConstraint.align_dvd_span (mc : PmemConstraint arch) : mc.align ∣ arch.span := by
  obtain ⟨k, hk, heq⟩ := mc.align_pow
  rw [heq]
  exact two_pow_dvd_span arch hk.le

theorem Arch.add_of_lt (h : x + y < arch.span) : arch.add x y = x + y := Nat.mod_eq_of_lt h

theorem Arch.sub_of_le (hxy : y ≤ x) (hx : x < arch.span) : arch.sub x y = x - y := by
  rw [Arch.sub, Nat.sub_add_comm hxy, Nat.add_mod_right, Nat.mod_eq_of_lt (by omega)]

theorem Arch.sub_of_lt (hxy : x < y) (hy : y < arch.span) : arch.sub x y = x + arch.span - y :=
  Nat.mod_eq_of_lt (by omega)

theorem failed_eq : failed arch = arch.span - 1 := by
  have hpos := arch.span_pos
  unfold failed Arch.sub
  rw [Nat.zero_add]
  exact Nat.mod_eq_of_lt (by omega)

theorem alignDown_le : alignDown x A ≤ x := Nat.div_mul_le_self x A

theorem dvd_alignDown : A ∣ alignDown x A := Nat.dvd_mul_left A (x / A)

theorem le_alignDown (hA : 0 < A) (hdvd : A ∣ y) (hyx : y ≤ x) : y ≤ alignDown x A := by
  obtain ⟨k, rfl⟩ := hdvd
  have hk : k ≤ x / A := (Nat.le_div_iff_mul_le hA).2 (by rwa [Nat.mul_comm])
  rw [alignDown, Nat.mul_comm A k]
  exact Nat.mul_le_mul_right A hk

theorem dvd_alignUp : A ∣ alignUp arch x A := dvd_alignDown

theorem alignUp_le (hA : A ∣ arch.span) (hy : A ∣ y) (hxy : x ≤ y) (hlt : y < arch.span) :
    alignUp arch x A ≤ y := by
  have hroom := add_le_of_dvd hy hA hlt
  unfold alignUp
  rw [Arch.add_of_lt (by omega)]
  by_contra hgt
  have hstep := add_le_of_dvd hy (dvd_alignDown (x := x + (A - 1))) (not_le.1 hgt)
  have hle := alignDown_le (x := x + (A - 1)) (A := A)
  omega

theorem le_alignUp (hA : A ∣ arch.span) (hy : A ∣ y) (hxy : x ≤ y) (hlt : y < arch.span) :
    x ≤ alignUp arch x A := by
  have hpos : 0 < A := Nat.pos_of_dvd_of_pos hA arch.span_pos
  have hroom := add_le_of_dvd hy hA hlt
  unfold alignUp
  rw [Arch.add_of_lt (by omega), alignDown]
  have hdiv := Nat.div_add_mod (x + (A - 1)) A
  have hmod := Nat.mod_lt (x + (A - 1)) hpos
  rw [Nat.mul_comm] at hdiv
  omega

/-! ## The region that is chosen -/

/-- What `physMem_ChooseRegion` has found in the part of the table it has looked at. -/
def Best (pmemInfo : List PmemInfo) (nBytes : ℕ) (mc : PmemConstraint arch) : Option (ℕ × PmemInfo) → Prop
  | none => ∀ r ∈ pmemInfo, ¬ Suits arch nBytes mc r
  | some (rgn, r) => Preferred pmemInfo nBytes mc rgn r

variable {kmi r' : PmemInfo}

theorem getElem?_concat {j : ℕ} (h : (pmemInfo ++ [kmi])[j]? = some r') :
    pmemInfo[j]? = some r' ∨ j = pmemInfo.length ∧ r' = kmi := by
  obtain hj | hj := Nat.lt_or_ge j pmemInfo.length
  · rw [List.getElem?_append_left hj] at h
    exact .inl h
  · rw [List.getElem?_append_right hj, List.getElem?_singleton] at h
    obtain ⟨hzero, heq⟩ := Option.ite_none_right_eq_some.1 h
    exact .inr ⟨by omega, (Option.some.inj heq).symm⟩

theorem getElem?_concat_left (h : pmemInfo[rgn]? = some r) :
    (pmemInfo ++ [kmi])[rgn]? = some r := by
  rw [List.getElem?_append_left (List.getElem?_eq_some_iff.1 h).1]
  exact h

variable {allocTarget : Option (ℕ × PmemInfo)}

theorem Best.prefer (h : Best pmemInfo nBytes mc allocTarget) (hs : Suits arch nBytes mc kmi) :
    Best (pmemInfo ++ [kmi]) nBytes mc (some (preferredRegion allocTarget (pmemInfo.length, kmi))) := by
  have hlast : (pmemInfo ++ [kmi])[pmemInfo.length]? = some kmi := List.getElem?_concat_length
  match allocTarget, h with
  | none, h =>
    refine ⟨hlast, hs, fun j r' hj hs' => ?_⟩
    obtain hj | ⟨rfl, rfl⟩ := getElem?_concat hj
    · exact absurd hs' (h r' (List.mem_of_getElem? hj))
    · exact .inr ⟨rfl, le_rfl⟩
  | some (rgn, r), h =>
    by_cases hlt : r.base < kmi.base
    · rw [show preferredRegion (some (rgn, r)) (pmemInfo.length, kmi) = (pmemInfo.length, kmi) from if_pos hlt]
      refine ⟨hlast, hs, fun j r' hj hs' => ?_⟩
      obtain hj | ⟨rfl, rfl⟩ := getElem?_concat hj
      · obtain hbase | ⟨hbase, -⟩ := h.highest j r' hj hs'
        · exact .inl (hbase.trans hlt)
        · exact .inl (hbase ▸ hlt)
      · exact .inr ⟨rfl, le_rfl⟩
    · rw [show preferredRegion (some (rgn, r)) (pmemInfo.length, kmi) = (rgn, r) from if_neg hlt]
      refine ⟨getElem?_concat_left h.entry, h.suits, fun j r' hj hs' => ?_⟩
      obtain hj | ⟨rfl, rfl⟩ := getElem?_concat hj
      · exact h.highest j r' hj hs'
      · have hrgn := (List.getElem?_eq_some_iff.1 h.entry).1
        obtain hbase | hbase := Nat.lt_or_ge r'.base r.base
        · exact .inl hbase
        · exact .inr ⟨le_antisymm (not_lt.1 hlt) hbase, hrgn.le⟩

theorem Best.pass (h : Best pmemInfo nBytes mc allocTarget) (hs : ¬ Suits arch nBytes mc kmi) :
    Best (pmemInfo ++ [kmi]) nBytes mc allocTarget := by
  match allocTarget, h with
  | none, h =>
    intro r hr
    obtain hr | hr := List.mem_append.1 hr
    · exact h r hr
    · rwa [List.mem_singleton.1 hr]
  | some (rgn, r), h =>
    refine ⟨getElem?_concat_left h.entry, h.suits, fun j r' hj hs' => ?_⟩
    obtain hj | ⟨-, rfl⟩ := getElem?_concat hj
    · exact h.highest j r' hj hs'
    · exact absurd hs' hs

theorem chooseFrom_best (rest : List PmemInfo)
    (h : Best pmemInfo nBytes mc allocTarget) :
    Best (pmemInfo ++ rest) nBytes mc (chooseFrom arch nBytes mc rest pmemInfo.length allocTarget) := by
  induction rest generalizing pmemInfo allocTarget with
  | nil =>
    rw [List.append_nil]
    exact h
  | cons kmi rest ih =>
    have hstep : Best (pmemInfo ++ [kmi]) nBytes mc (if Suits arch nBytes mc kmi then
        some (preferredRegion allocTarget (pmemInfo.length, kmi)) else allocTarget) := by
      split
      · exact h.prefer ‹_›
      · exact h.pass ‹_›
    have hrest := ih hstep
    rw [List.append_assoc, List.singleton_append, List.length_append, List.length_singleton] at hrest
    exact hrest

theorem physMemChooseRegion_best (pmemInfo : List PmemInfo) (nBytes : ℕ) (mc : PmemConstraint arch) :
    Best pmemInfo nBytes mc (physMemChooseRegion arch pmemInfo nBytes mc) := by
  have hnone : Best ([] : List PmemInfo) nBytes mc none := fun _ hr => absurd hr List.not_mem_nil
  exact chooseFrom_best pmemInfo hnone

theorem Preferred.unique {rgn' : ℕ} (h : Preferred pmemInfo nBytes mc rgn r)
    (h' : Preferred pmemInfo nBytes mc rgn' r') : rgn = rgn' ∧ r = r' := by
  have hrgn : rgn = rgn' := by
    have h1 := h.highest rgn' r' h'.entry h'.suits
    have h2 := h'.highest rgn r h.entry h.suits
    omega
  subst hrgn
  exact ⟨rfl, Option.some.inj (h.entry.symm.trans h'.entry)⟩

theorem physMemChooseRegion_eq (h : Preferred pmemInfo nBytes mc rgn r) :
    physMemChooseRegion arch pmemInfo nBytes mc = some (rgn, r) := by
  have hbest := physMemChooseRegion_best pmemInfo nBytes mc
  revert hbest
  cases physMemChooseRegion arch pmemInfo nBytes mc with
  | none => exact fun hbest => absurd h.suits (hbest r (List.mem_of_getElem? h.entry))
  | some target =>
    intro hbest
    obtain ⟨h1, h2⟩ := h.unique hbest
    rw [h1, h2]

theorem preferred_of_choose (h : physMemChooseRegion arch pmemInfo nBytes mc = some (rgn, r)) :
    Preferred pmemInfo nBytes mc rgn r := by
  have hbest := physMemChooseRegion_best pmemInfo nBytes mc
  rw [h] at hbest
  exact hbest

end CapROS.PhysMem.Regions
