import CapROS.RangeAllocator.Partition

/-!
# The grants of the range allocator

The claim about the allocator fails. `RequestRange` tests whether the range that it grants ends in the free
range only after it has rounded the start, so a request whose first start is aligned can be granted a range
that goes on into the ranges after it. `DefineRange` makes a range free also where it is allocated, and
neither looks at sizes that are zero or at sums that do not fit in an `unsigned long`.

* `correct_proper`: the main result.
* `correct_fails`: the claim does not hold of all requests.
-/

namespace CapROS.RangeAllocator

open Tiling

variable {s s' : State} {stack l : List Range} {e : Range} {above below size alignment start a i k : ℕ}

/-- Two ranges, given by their starts and sizes, do not meet. -/
def Apart (g h : ℕ × ℕ) : Prop := g.1 + g.2 ≤ h.1 ∨ h.1 + h.2 ≤ g.1

/-- What is claimed of a state, and of a request that is admitted there. -/
structure Correct (admitted : Request → Prop) (s : State) : Prop where
  /-- The table is a partition of the address space, with no two adjacent free ranges. -/
  partition : Partition s.ra.stack
  /-- The outstanding grants are disjoint. -/
  apart : s.grants.Pairwise Apart
  /-- A range that is granted lies in free space and between the bounds, is aligned, and is disjoint from the
  outstanding grants. -/
  granted : ∀ {above below size alignment : UInt32} {ra : RA} {start : ℕ},
    admitted (.request above below size alignment) →
    requestRange above.toNat below.toNat size.toNat alignment.toNat s.ra = .ok (ra, start) →
    ra.lastError = .noError →
    (∃ e ∈ s.ra.stack, e.free = .free ∧ e.start ≤ start ∧ start + size.toNat ≤ e.start + e.size) ∧
      alignment.toNat ∣ start ∧ above.toNat ≤ start ∧ start + size.toNat ≤ below.toNat + 1 ∧
      ∀ g ∈ s.grants, Apart (start, size.toNat) g

/-! ## The place of a request -/

/-- A free range that meets the bounds. -/
def Meets (above below : ℕ) (e : Range) : Prop :=
  e.free = .free ∧ above < e.start + e.size ∧ e.start ≤ below

/-- The first start in a range. -/
def firstStart (above : ℕ) (e : Range) : ℕ := max e.start above

/-- The start after it that is aligned. -/
def roundedStart (above alignment : ℕ) (e : Range) : ℕ :=
  firstStart above e + (alignment - firstStart above e % alignment)

/-- There is room in the range, and below the bound. -/
def Room (below size start : ℕ) (e : Range) : Prop :=
  0 < size ∧ start + size ≤ e.start + e.size ∧ start + size ≤ below + 1

/-- The request can be placed in the range. -/
def Serves (above below size alignment : ℕ) (e : Range) : Prop :=
  Meets above below e ∧ (alignment ∣ firstStart above e ∧ Room below size (firstStart above e) e ∨
    Room below size (roundedStart above alignment e) e)

/-- The first start is aligned, and the end is below the bound but not in the range. -/
def Overruns (above below size alignment : ℕ) (e : Range) : Prop :=
  alignment ∣ firstStart above e ∧ ulongSub (ulong (firstStart above e + size)) 1 ≤ below ∧
    (size = 0 ∨ e.start + e.size < firstStart above e + size)

/-- The rounded start, or the end from there, does not fit in an `unsigned long`, and what is left of it does
not go beyond the range and the bound. -/
def Wraps (above below size alignment : ℕ) (e : Range) : Prop :=
  ulong (roundedStart above alignment e + size) ≤ e.start + e.size ∧
    ulongSub (ulong (roundedStart above alignment e + size)) 1 ≤ below ∧
    (size = 0 ∨ 2 ^ 32 ≤ roundedStart above alignment e + size)

/-- The requests that are handled as claimed. -/
def Request.Proper (s : State) : Request → Prop
  | .define start size =>
    -- The first range that encloses the new one is not allocated.
    ∀ e, s.ra.stack.find? (encloses start.toNat size.toNat) = some e →
      e.free ≠ .alloc ∧ 0 < size.toNat ∧ start.toNat + size.toNat < 2 ^ 32
  | .request above below size alignment =>
    -- In the first range where there is a start for the request, there is also room for it.
    ∀ l e r, s.ra.stack = l ++ e :: r →
      (∀ d ∈ l, ¬Serves above.toNat below.toNat size.toNat alignment.toNat d) → Meets above.toNat below.toNat e →
      ¬Overruns above.toNat below.toNat size.toNat alignment.toNat e ∧
        ¬Wraps above.toNat below.toNat size.toNat alignment.toNat e
  | .release _ => True

theorem ulong_add_ulong (a b : ℕ) : ulong (ulong a + b) = ulong (a + b) := Nat.mod_add_mod a (2 ^ 32) b

theorem ulongSub_ulong (hpos : 0 < a) (ha : a < 2 ^ 32) : ulongSub (ulong a) 1 = a - 1 := by
  rw [ulong_of_lt ha, ulongSub_of_le hpos ha]

theorem meets_iff (hpos : 0 < e.size) (he : e.start + e.size < 2 ^ 32) :
    (above ≤ ulongSub e.limit 1 ∧ e.free = .free ∧ e.start ≤ below) ↔ Meets above below e := by
  rw [Range.limit, ulongSub_ulong (by omega) he, Meets]
  constructor
  · rintro ⟨ha, hf, hb⟩
    exact ⟨hf, by omega, hb⟩
  · rintro ⟨hf, ha, hb⟩
    exact ⟨by omega, hf, hb⟩

theorem firstStart_eq (above : ℕ) (e : Range) : (if e.start < above then above else e.start) =
    firstStart above e := by
  unfold firstStart
  split_ifs with h <;> omega

theorem dvd_roundedStart (hal : 0 < alignment) (above : ℕ) (e : Range) :
    alignment ∣ roundedStart above alignment e := by
  have hmod := Nat.mod_lt (firstStart above e) hal
  have hdiv := Nat.div_add_mod (firstStart above e) alignment
  refine ⟨firstStart above e / alignment + 1, ?_⟩
  unfold roundedStart
  rw [Nat.mul_add, Nat.mul_one]
  omega

theorem not_serves_of_place (hpos : 0 < e.size) (he : e.start + e.size < 2 ^ 32)
    (h : place above below size alignment e = .ok none) : ¬Serves above below size alignment e := by
  rintro ⟨hmeets, hserves⟩
  have hcond := (meets_iff hpos he).2 hmeets
  unfold place at h
  rw [if_pos hcond] at h
  simp only [firstStart_eq] at h
  by_cases hal : alignment = 0
  · rw [if_pos hal] at h
    cases h
  rw [if_neg hal] at h
  obtain ⟨hdvd, hsize, hend, hbelow⟩ | ⟨hsize, hend, hbelow⟩ := hserves
  · rw [if_pos ⟨Nat.mod_eq_zero_of_dvd hdvd, by
      rw [ulongSub_ulong (by omega) (by omega)]
      omega⟩] at h
    cases h
  · by_cases hfirst : firstStart above e % alignment = 0 ∧
        ulongSub (ulong (firstStart above e + size)) 1 ≤ below
    · rw [if_pos hfirst] at h
      cases h
    rw [if_neg hfirst, ulong_add_ulong] at h
    rw [if_pos] at h
    · cases h
    · change ulong (roundedStart above alignment e + size) ≤ e.limit ∧
        ulongSub (ulong (roundedStart above alignment e + size)) 1 ≤ below
      rw [ulongSub_ulong (by omega) (by omega), ulong_of_lt (by omega), Range.limit, ulong_of_lt he]
      omega

theorem place_spec (hpos : 0 < e.size) (he : e.start + e.size < 2 ^ 32)
    (h : place above below size alignment e = .ok (some start)) :
    Meets above below e ∧ (¬Overruns above below size alignment e → ¬Wraps above below size alignment e →
      Room below size start e ∧ alignment ∣ start ∧ above ≤ start ∧ e.start ≤ start) := by
  unfold place at h
  by_cases hcond : above ≤ ulongSub e.limit 1 ∧ e.free = .free ∧ e.start ≤ below
  swap
  · rw [if_neg hcond] at h
    cases h
  refine ⟨(meets_iff hpos he).1 hcond, fun hover hwraps => ?_⟩
  rw [if_pos hcond] at h
  simp only [firstStart_eq] at h
  by_cases hal : alignment = 0
  · rw [if_pos hal] at h
    cases h
  rw [if_neg hal] at h
  have hfirst : e.start ≤ firstStart above e ∧ above ≤ firstStart above e :=
    ⟨le_max_left _ _, le_max_right _ _⟩
  by_cases haligned : firstStart above e % alignment = 0 ∧
      ulongSub (ulong (firstStart above e + size)) 1 ≤ below
  · rw [if_pos haligned] at h
    obtain rfl := Option.some.inj (Except.ok.inj h)
    have hdvd := Nat.dvd_of_mod_eq_zero haligned.1
    have hroom : ¬(size = 0 ∨ e.start + e.size < firstStart above e + size) :=
      fun hno => hover ⟨hdvd, haligned.2, hno⟩
    have hend := haligned.2
    rw [ulongSub_ulong (by omega) (by omega)] at hend
    exact ⟨⟨by omega, by omega, by omega⟩, hdvd, hfirst.2, hfirst.1⟩
  · rw [if_neg haligned, ulong_add_ulong] at h
    change (if ulong (roundedStart above alignment e + size) ≤ e.limit ∧
      ulongSub (ulong (roundedStart above alignment e + size)) 1 ≤ below then
        Except.ok (some (ulong (roundedStart above alignment e))) else Except.ok none) = _ at h
    by_cases hfits : ulong (roundedStart above alignment e + size) ≤ e.limit ∧
        ulongSub (ulong (roundedStart above alignment e + size)) 1 ≤ below
    swap
    · rw [if_neg hfits] at h
      cases h
    rw [if_pos hfits] at h
    obtain rfl := Option.some.inj (Except.ok.inj h)
    obtain ⟨hlimit, hend⟩ := hfits
    rw [Range.limit, ulong_of_lt he] at hlimit
    have hroom : ¬(size = 0 ∨ 2 ^ 32 ≤ roundedStart above alignment e + size) :=
      fun hno => hwraps ⟨hlimit, hend, hno⟩
    rw [ulongSub_ulong (by omega) (by omega)] at hend
    rw [ulong_of_lt (by omega)] at hlimit
    rw [ulong_of_lt (show roundedStart above alignment e < 2 ^ 32 by omega)]
    have hle : firstStart above e ≤ roundedStart above alignment e := Nat.le_add_right _ _
    exact ⟨⟨by omega, by omega, by omega⟩, dvd_roundedStart (by omega) above e, by omega, by omega⟩

theorem findPlace_spec : ∀ {i : ℕ} {stack : List Range},
    findPlace above below size alignment i stack = .ok (some (k, start)) →
    ∃ l e r, stack = l ++ e :: r ∧ k = i + l.length ∧
      place above below size alignment e = .ok (some start) ∧
      ∀ d ∈ l, place above below size alignment d = .ok none
  | _, [], h => by cases h
  | i, e :: stack, h => by
    obtain ⟨found, hplace, h⟩ := of_bind_ok h
    cases found with
    | some start' =>
      obtain ⟨rfl, rfl⟩ := Prod.mk.inj (Option.some.inj (Except.ok.inj h))
      exact ⟨[], e, stack, rfl, rfl, hplace, fun d hd => absurd hd List.not_mem_nil⟩
    | none =>
      obtain ⟨l, e', r, rfl, rfl, hplace', hbefore⟩ := findPlace_spec h
      refine ⟨e :: l, e', r, rfl, by rw [List.length_cons]; omega, hplace', ?_⟩
      intro d hd
      obtain rfl | hd := List.mem_cons.1 hd
      · exact hplace
      · exact hbefore d hd

/-! ## The runs -/

/-- The invariant: the outstanding grants are the allocated ranges. -/
structure Inv (s : State) : Prop where
  partition : Partition s.ra.stack
  grants : ∀ a n, (a, n) ∈ s.grants ↔ (⟨a, n, .alloc⟩ : Range) ∈ s.ra.stack
  apart : s.grants.Pairwise Apart

theorem Inv.init : Inv ⟨createRangeAlloc, []⟩ where
  partition := ⟨⟨rfl, by decide, rfl⟩, List.isChain_singleton _⟩
  grants a n := by simp [createRangeAlloc]
  apart := List.Pairwise.nil

theorem Inv.congr (h : Inv s) (hpart : Partition s'.ra.stack) (hgrants : s'.grants = s.grants)
    (hmem : ∀ y : Range, y.free = .alloc → (y ∈ s'.ra.stack ↔ y ∈ s.ra.stack)) : Inv s' where
  partition := hpart
  grants a n := by rw [hgrants, h.grants, hmem _ rfl]
  apart := hgrants ▸ h.apart

theorem Inv.define (h : Inv s) {start size : ℕ}
    (hproper : ∀ e, s.ra.stack.find? (encloses start size) = some e →
      e.free ≠ .alloc ∧ 0 < size ∧ start + size < 2 ^ 32) :
    Inv { s with ra := defineRange start size s.ra } := by
  unfold defineRange
  cases hfind : s.ra.stack.findIdx? (encloses start size) with
  | none => exact h.congr h.partition rfl fun _ _ => Iff.rfl
  | some i =>
    obtain ⟨l, e, r, hstack, rfl, hencloses, hbefore⟩ := exists_split_of_findIdx? hfind
    have hpart := h.partition
    rw [hstack] at hpart
    have hlimit := hpart.limit_lt (List.mem_append_right l (List.mem_cons_self (l := r)))
    have hfirst : s.ra.stack.find? (encloses start size) = some e := by
      rw [hstack, List.find?_append, List.find?_eq_none.2 fun d hd => by simp [hbefore d hd]]
      simp [hencloses]
    obtain ⟨hfree, hsize, hsum⟩ := hproper e hfirst
    rw [encloses, Bool.and_eq_true, decide_eq_true_iff, decide_eq_true_iff, Range.limit,
      ulong_of_lt hsum, ulong_of_lt hlimit] at hencloses
    obtain hnone | hsome := breakAndFix_spec (x := ⟨start, size, .undefined⟩) (l := l) (r := r)
      hencloses.1 hsize hencloses.2 hlimit
    · simp only [hstack, hnone]
      exact h.congr (hstack ▸ hpart) rfl fun _ _ => by rw [hstack]
    · simp only [hstack, hsome, setFree, modify_mid]
      obtain ⟨hpart', hmem⟩ := hpart.define (x := ⟨start, size, .free⟩) hencloses.1 hsize hencloses.2 hfree rfl
      exact h.congr hpart' rfl fun y hy => by rw [hstack]; exact hmem y hy

theorem Inv.release (h : Inv s) (start : UInt32) (hrun : exec s (.release start) = .ok s') : Inv s' := by
  obtain rfl := Except.ok.inj hrun
  unfold releaseRange
  cases hfind : s.ra.stack.findIdx? (fun e => decide (e.start = start.toNat)) with
  | none => exact h.congr h.partition rfl fun _ _ => Iff.rfl
  | some i =>
    obtain ⟨l, e, r, hstack, rfl, hstart, -⟩ := exists_split_of_findIdx? hfind
    rw [decide_eq_true_iff] at hstart
    have hpart := h.partition
    have he : e ∈ s.ra.stack := hstack ▸ List.mem_append_right l List.mem_cons_self
    -- The grants that start here are the range, if it is allocated.
    have hsame : ∀ n, (start.toNat, n) ∈ s.grants → e = ⟨start.toNat, n, .alloc⟩ := fun n hn =>
      hpart.tiles.start_injective he ((h.grants _ _).1 hn) hstart
    have hgetD : s.ra.stack.getD l.length default = e := by rw [hstack, getD_mid]
    simp only [hgetD]
    by_cases halloc : e.free = .alloc
    · rw [if_neg (not_not.2 halloc)]
      simp only [hstack, setFree, modify_mid, if_true]
      obtain ⟨hpart', hmem⟩ := (hstack ▸ hpart : Partition (l ++ e :: r)).release
      refine ⟨hpart', fun a n => ?_, h.apart.filter _⟩
      have hgrants := h.grants a n
      rw [hstack] at hgrants
      rw [hmem _ rfl, List.mem_filter, hgrants, decide_eq_true_iff]
      refine and_congr_right fun hin => ?_
      constructor
      · rintro hne rfl
        exact hne hstart
      · rintro hne rfl
        exact hne (hsame n (hgrants.2 hin)).symm
    · rw [if_pos halloc]
      refine h.congr hpart ?_ fun _ _ => Iff.rfl
      refine List.filter_eq_self.2 fun g hg => ?_
      rw [decide_eq_true_iff]
      intro heq
      have hsame' := hsame g.2 (heq ▸ hg)
      exact halloc (hsame' ▸ rfl)

theorem Inv.requestRange (h : Inv s) {ra : RA}
    (hproper : ∀ l e r, s.ra.stack = l ++ e :: r → (∀ d ∈ l, ¬Serves above below size alignment d) →
      Meets above below e → ¬Overruns above below size alignment e ∧ ¬Wraps above below size alignment e)
    (hrun : requestRange above below size alignment s.ra = .ok (ra, start)) :
    (ra.lastError ≠ .noError ∧ ra.stack = s.ra.stack) ∨
      (ra.lastError = .noError ∧ Partition ra.stack ∧
        (∀ y : Range, y.free = .alloc → (y ∈ ra.stack ↔ y = ⟨start, size, .alloc⟩ ∨ y ∈ s.ra.stack)) ∧
        (∃ e ∈ s.ra.stack, e.free = .free ∧ e.start ≤ start ∧ start + size ≤ e.start + e.size) ∧
        alignment ∣ start ∧ above ≤ start ∧ start + size ≤ below + 1 ∧ 0 < size) := by
  obtain ⟨found, hfind, hrun⟩ := of_bind_ok hrun
  cases found with
  | none =>
    obtain ⟨rfl, -⟩ := Prod.mk.inj (Except.ok.inj hrun)
    exact .inl ⟨by simp, rfl⟩
  | some found =>
    obtain ⟨k, start'⟩ := found
    obtain ⟨l, e, r, hstack, rfl, hplace, hbefore⟩ := findPlace_spec hfind
    have hpart := h.partition
    have hin : ∀ d ∈ s.ra.stack, 0 < d.size ∧ d.start + d.size < 2 ^ 32 := fun d hd =>
      ⟨(hpart.tiles.bounds hd).2.1, hpart.limit_lt hd⟩
    have he : e ∈ s.ra.stack := hstack ▸ List.mem_append_right l List.mem_cons_self
    have hnot : ∀ d ∈ l, ¬Serves above below size alignment d := fun d hd =>
      have hd' : d ∈ s.ra.stack := hstack ▸ List.mem_append_left _ hd
      not_serves_of_place (hin d hd').1 (hin d hd').2 (hbefore d hd)
    obtain ⟨hmeets, hspec⟩ := place_spec (hin e he).1 (hin e he).2 hplace
    obtain ⟨hover, hwraps⟩ := hproper l e r hstack hnot hmeets
    obtain ⟨⟨hsize, hend, hbelow⟩, hdvd, habove, hstart⟩ := hspec hover hwraps
    obtain hnone | hsome := breakAndFix_spec (x := ⟨start', size, .undefined⟩) (l := l) (r := r)
      hstart hsize hend (hin e he).2
    · rw [hstack] at hrun
      simp only [Nat.zero_add, hnone] at hrun
      obtain ⟨rfl, -⟩ := Prod.mk.inj (Except.ok.inj hrun)
      exact .inl ⟨by simp, hstack.symm⟩
    · rw [hstack] at hrun
      simp only [Nat.zero_add, hsome, setFree, modify_mid] at hrun
      obtain ⟨rfl, rfl⟩ := Prod.mk.inj (Except.ok.inj hrun)
      obtain ⟨hpart', hmem⟩ := (hstack ▸ hpart : Partition (l ++ e :: r)).allocate
        (x := ⟨start', size, .alloc⟩) hstart hsize hend hmeets.1 rfl
      refine .inr ⟨rfl, hpart', fun y hy => ?_, ⟨e, he, hmeets.1, hstart, hend⟩, hdvd, habove, hbelow, hsize⟩
      rw [hstack]
      exact hmem y hy

theorem Inv.apart_of_free (h : Inv s) (he : e ∈ s.ra.stack) (hfree : e.free = .free) (hstart : e.start ≤ start)
    (hend : start + size ≤ e.start + e.size) : ∀ g ∈ s.grants, Apart (start, size) g := by
  rintro ⟨a, n⟩ hg
  have hmem := (h.grants a n).1 hg
  have hne : e ≠ ⟨a, n, .alloc⟩ := fun heq => by simp [heq] at hfree
  have := h.partition.tiles.apart he hmem hne
  unfold Apart
  dsimp only at this ⊢
  omega

theorem Inv.step (h : Inv s) (request : Request) (hproper : request.Proper s)
    (hrun : exec s request = .ok s') : Inv s' := by
  cases request with
  | define start size =>
    obtain rfl := Except.ok.inj hrun
    exact h.define hproper
  | release start => exact h.release start hrun
  | request above below size alignment =>
    obtain ⟨⟨ra, start⟩, hrequest, hrun⟩ := of_bind_ok hrun
    obtain rfl := Except.ok.inj hrun
    obtain ⟨herror, hstack⟩ | ⟨herror, hpart, hmem, ⟨e, he, hfree, hstart, hend⟩, -⟩ :=
      h.requestRange hproper hrequest
    · exact h.congr (hstack ▸ h.partition) (if_neg herror) fun _ _ => by rw [hstack]
    · rw [if_pos herror]
      refine ⟨hpart, fun a n => ?_, List.pairwise_cons.2 ⟨h.apart_of_free he hfree hstart hend, h.apart⟩⟩
      rw [hmem _ rfl, List.mem_cons, h.grants, Prod.mk.injEq, Range.mk.injEq]
      simp

theorem Reach.inv (h : Reach (fun s request => request.Proper s) s) : Inv s := by
  induction h with
  | init => exact Inv.init
  | step request _ hproper hrun ih => exact ih.step request hproper hrun

/-- The allocator does what is claimed in the runs of proper requests. -/
theorem correct_proper (h : Reach (fun s request => request.Proper s) s) :
    Correct (fun request => request.Proper s) s where
  partition := h.inv.partition
  apart := h.inv.apart
  granted hproper hrun herror := by
    obtain ⟨hne, -⟩ | ⟨-, -, -, ⟨e, he, hfree, hstart, hend⟩, hdvd, habove, hbelow, -⟩ :=
      h.inv.requestRange hproper hrun
    · exact absurd herror hne
    · exact ⟨⟨e, he, hfree, hstart, hend⟩, hdvd, habove, hbelow, h.inv.apart_of_free he hfree hstart hend⟩

/-- The state in which the range from 4096 to 12288 is free. -/
def definedState : State :=
  ⟨⟨[⟨0, 4096, .undefined⟩, ⟨4096, 8192, .free⟩, ⟨12288, 4294955007, .undefined⟩], .noError⟩, []⟩

/-- The state in which the first half of it has been granted. -/
def grantedState : State :=
  ⟨⟨[⟨0, 4096, .undefined⟩, ⟨4096, 4096, .alloc⟩, ⟨8192, 4096, .free⟩, ⟨12288, 4294955007, .undefined⟩], .noError⟩,
    [(4096, 4096)]⟩

theorem proper_definedState : (Request.request 0 4294967295 4096 4096).Proper definedState := by
  intro l e r hstack _ hmeets
  change [_, _, _] = l ++ e :: r at hstack
  rcases l with - | ⟨a, - | ⟨b, l⟩⟩
  · obtain ⟨rfl, -⟩ := List.cons.inj hstack
    exact absurd hmeets.1 (by decide)
  · obtain ⟨rfl, -⟩ := List.cons.inj (List.cons.inj hstack).2
    constructor
    · unfold Overruns
      decide
    · unfold Wraps
      decide
  · have hmem : e ∈ [(⟨12288, 4294955007, .undefined⟩ : Range)] :=
      (List.cons.inj (List.cons.inj hstack).2).2 ▸ List.mem_append_right l List.mem_cons_self
    obtain rfl := List.mem_singleton.1 hmem
    exact absurd hmeets.1 (by decide)

/-- The range from 4096 to 12288 is defined, and 4096 bytes are requested. They are granted at 4096. -/
theorem correct_proper_granted : exec definedState (.request 0 4294967295 4096 4096) = .ok grantedState ∧
    Correct (fun request => request.Proper grantedState) grantedState := by
  have hdefined : Reach (fun s request => request.Proper s) definedState := by
    refine .step (.define 4096 8192) .init (fun e he => ?_) rfl
    obtain rfl : ⟨0, 4294967295, .undefined⟩ = e := Option.some.inj he
    decide
  exact ⟨rfl, correct_proper (.step (.request 0 4294967295 4096 4096) hdefined proper_definedState rfl)⟩

/-- The range from 4096 to 4352 is defined, and 4096 bytes are requested. They are granted at 4096. -/
theorem correct_fails : ¬∀ s : State, Reach (fun _ _ => True) s → Correct (fun _ => True) s := by
  intro h
  have hreach : Reach (fun _ _ => True)
      ⟨⟨[⟨0, 4096, .undefined⟩, ⟨4096, 256, .free⟩, ⟨4352, 4294962943, .undefined⟩], .noError⟩, []⟩ :=
    Reach.step (.define 4096 256) .init trivial (by rfl)
  obtain ⟨⟨e, he, hfree, hstart, hend⟩, -⟩ :=
    @Correct.granted _ _ (h _ hreach) 0 4294967295 4096 1 _ 4096 trivial (by rfl) rfl
  simp only [List.mem_cons, List.not_mem_nil, or_false] at he
  obtain rfl | rfl | rfl := he
  · cases hfree
  · exact absurd hend (by decide)
  · cases hfree

end CapROS.RangeAllocator
