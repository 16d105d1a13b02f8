import CapROS.PhysMem.Safety

/-!
# Which free blocks are merged

`physMem_FreeBlock` goes back to `recheck` after a merge to look for the next buddy, but its `jSize`
is still that of the smaller block. So each block it frees is merged once at most, and a block of
four or more pages that becomes free as a whole can stay in two halves. It does so if less than half
of its pages are freed by the call.

* `coalesced_of_careful`: runs without such calls.
-/

namespace CapROS.PhysMem

open BuddyBlocks

variable {M : Memory} {s s' : State} {pmi : PmemInfo} {pg j i p x n numPages : ℕ}

/-- Both pages are in one region. -/
def Memory.SameRegion (M : Memory) (p q : ℕ) : Prop :=
  ∃ pmi ∈ M.regions, pmi.Contains p ∧ pmi.Contains q

/-- No two free blocks of one size in one region are buddies. -/
def NoFreeBuddies (M : Memory) (s : State) : Prop :=
  NoBuddies M.SameRegion logMaxFreePageBlock s.HasBlock

/-- No two free blocks are buddies; and if all pages of a region are free, each block that there can
be in it lies in a free block. -/
structure Coalesced (M : Memory) (s : State) : Prop where
  noBuddies : ∀ p j, j < logMaxFreePageBlock → M.SameRegion p (p ^^^ 2 ^ j) → s.HasBlock p j →
    ¬ s.HasBlock (p ^^^ 2 ^ j) j
  largest : ∀ pmi ∈ M.regions, (∀ x, pmi.Contains x → s.FreePage x) →
    ∀ q m, m ≤ logMaxFreePageBlock → 2 ^ m ∣ q → pmi.Holds q (2 ^ m) →
      ∃ p j, s.HasBlock p j ∧ p ≤ q ∧ q + 2 ^ m ≤ p + 2 ^ j

/-- How many of the `2 ^ m` pages from `a` on are among the `n` pages from `pg` on. -/
def overlap (a m pg n : ℕ) : ℕ := min (a + 2 ^ m) (pg + n) - max a pg

/-- Freeing these pages makes a block free as a whole, and less than half of that block, but not
nothing, is freed by it: more than half of the block was free before. -/
def Deep (M : Memory) (s : State) (pg n : ℕ) : Prop :=
  ∃ pmi ∈ M.regions, ∃ a m, m ≤ logMaxFreePageBlock ∧ 2 ^ m ∣ a ∧ pmi.Holds a (2 ^ m) ∧
    (∀ x, InBlock (a, 2 ^ m) x → s.FreePage x ∨ InBlock (pg, n) x) ∧
    0 < overlap a m pg n ∧ 2 * overlap a m pg n < 2 ^ m

theorem Memory.SameRegion.symm {q : ℕ} (h : M.SameRegion p q) : M.SameRegion q p := by
  obtain ⟨pmi, hpmi, hp, hq⟩ := h
  exact ⟨pmi, hpmi, hq, hp⟩

theorem NoFreeBuddies.coalesced (h : NoFreeBuddies M s) (ht : Tidy M s) : Coalesced M s := by
  refine ⟨h, fun pmi hpmi hall q m hm hq hin => ?_⟩
  refine NoBuddies.maximal pmi.firstObPgAddr (pmi.firstObPgAddr + pmi.nPages) h
    ht.tiling ?_ m q hm hq hin.1 hin.2 (fun x hx hx' => hall x (hin.contains hx hx'))
  intro p q hp hp' hq hq'
  exact ⟨pmi, hpmi, ⟨hp, hp'⟩, ⟨hq, hq'⟩⟩

/-! ## Freeing one block -/

/-- After the merge of a block with its buddy, the buddy of the two is free too. -/
def NeedsSecond (M : Memory) (s : State) (lower j : ℕ) : Prop :=
  j + 1 < logMaxFreePageBlock ∧ M.SameRegion lower (lower ^^^ 2 ^ (j + 1)) ∧
    s.HasBlock (lower ^^^ 2 ^ (j + 1)) (j + 1)

theorem recheck_noBuddies (h : Tidy M s) (hno : NoFreeBuddies M s) (hpmi : pmi ∈ M.regions)
    (hin : pmi.Holds pg (2 ^ j)) (hj : j ≤ logMaxFreePageBlock) (hpg : 2 ^ j ∣ pg)
    (hsec : CanMerge pmi s pg j → ∀ lower, 2 ^ (j + 1) ∣ lower →
      pg = lower ∧ pg ^^^ 2 ^ j = lower + 2 ^ j ∨ pg = lower + 2 ^ j ∧ pg ^^^ 2 ^ j = lower →
      ¬ NeedsSecond M s lower j) :
    NoFreeBuddies M (recheck pmi (2 ^ j) (logMaxFreePageBlock - j) pg s) := by
  by_cases hm : CanMerge pmi s pg j
  · obtain ⟨lower, hdvd, hlow, heq⟩ := recheck_merge hm hpg
    have hsec := hsec hm lower hdvd hlow
    generalize pg ^^^ 2 ^ j = b at hlow heq
    rw [merged_eq (by omega)] at heq
    rw [heq]
    have hold : ∀ {p i : ℕ}, (((s.take b .ptFreeSecondary).setObType (lower + 2 ^ j)
        .ptFreeSecondary).freeOneBlock lower (j + 1)).HasBlock p i →
        p = lower ∧ i = j + 1 ∨ s.HasBlock p i := by
      intro p i hp
      refine (hasBlock_freeOneBlock.1 hp).imp_right fun hp => ?_
      exact (h.hasBlock_take (t := .ptFreeSecondary).1 hp).2
    refine NoBuddies.mono hno (fun _ _ => Memory.SameRegion.symm) fun p i hi hS hp => ?_
    rcases hold hp with ⟨rfl, rfl⟩ | hp
    · right
      intro hb
      rcases hold hb with ⟨hself, -⟩ | hb
      · exact xor_two_pow_ne p (j + 1) hself
      · exact hsec ⟨hi, hS, hb⟩
    · exact .inl hp
  · rw [recheck_alone hj hm]
    refine NoBuddies.mono hno (fun _ _ => Memory.SameRegion.symm) fun p i hi hS hp => ?_
    rcases hasBlock_freeOneBlock.1 hp with ⟨rfl, rfl⟩ | hp
    · right
      intro hb
      rcases hasBlock_freeOneBlock.1 hb with ⟨hself, -⟩ | hb
      · exact xor_two_pow_ne p i hself
      · -- The buddy is in the same region, so the source would have found it.
        obtain ⟨pmi', hpmi', hp', hb'⟩ := hS
        rw [← M.region_unique hpmi hpmi' (hin.contains le_rfl (by omega)) hp'] at hb'
        exact hm ⟨hi, hb', (h.header _ _).1 hb⟩
    · exact .inl hp

/-! ## Freeing a block of pages -/

theorem le_lastOrder {k : ℕ} (hn : 0 < n) (hlt : n < 2 ^ 32) (hk : 2 ^ k ∣ n)
    (hmax : k ≤ logMaxFreePageBlock) : k ≤ lastOrder n := by
  refine le_min ?_ hmax
  obtain ⟨c, hc⟩ := ffs32_spec hn hlt
  by_contra hle
  -- Only the odd multiple `2 * c + 1` is left of `n` over its lowest bit.
  have hdvd : 2 ^ (ffs32 n + 1) ∣ n := (pow_dvd_pow 2 (by omega)).trans hk
  obtain ⟨e, he⟩ := hdvd
  rw [pow_succ, mul_assoc] at he
  have h₁ : 2 ^ ffs32 n * (2 * c + 1) = 2 ^ ffs32 n * (2 * e) := by
    rw [mul_comm _ (2 * c + 1), ← hc, ← he]
  have h₂ := Nat.eq_of_mul_eq_mul_left (Nat.two_pow_pos _) h₁
  omega

theorem lastOrder_rest (hn : 0 < n) (hlt : n < 2 ^ 32) :
    lastOrder n = logMaxFreePageBlock ∨ 2 ^ (lastOrder n + 1) ∣ n - 2 ^ lastOrder n := by
  rcases Nat.lt_or_ge (ffs32 n) logMaxFreePageBlock with h | h
  · right
    obtain ⟨c, hc⟩ := ffs32_spec hn hlt
    rw [show lastOrder n = ffs32 n from min_eq_left h.le]
    refine ⟨c, ?_⟩
    have hsum : n = 2 ^ (ffs32 n + 1) * c + 2 ^ ffs32 n := by
      rw [pow_succ]
      nlinarith
    omega
  · exact .inl (min_eq_right h)

/-- How far the loop of `physMem_FreeBlock` has got when `n` of `N` pages are left: what it has
freed is less than the next block, unless that has the largest size. -/
def Progress (N n : ℕ) : Prop :=
  ∃ k, k ≤ logMaxFreePageBlock ∧ 2 ^ k ∣ n ∧ (k = logMaxFreePageBlock ∨ N - n < 2 ^ k)

theorem Progress.lt {N : ℕ} (h : Progress N n) (hn : 0 < n) (hlt : n < 2 ^ 32)
    (hj : lastOrder n < logMaxFreePageBlock) : N - n < 2 ^ lastOrder n := by
  obtain ⟨k, hk, hdvd, hor⟩ := h
  have hkj := le_lastOrder hn hlt hdvd hk
  have hle : 2 ^ k ≤ 2 ^ lastOrder n := Nat.pow_le_pow_right (by omega) hkj
  rcases hor with h | h <;> omega

theorem Progress.next {N : ℕ} (h : Progress N n) (hn : 0 < n) (hlt : n < 2 ^ 32) (hN : n ≤ N) :
    Progress N (n - 2 ^ lastOrder n) := by
  obtain ⟨hj, hdvd, hjn⟩ := lastOrder_spec hn hlt
  rcases lastOrder_rest hn hlt with htop | hrest
  · exact ⟨lastOrder n, hj, Nat.dvd_sub hdvd dvd_rfl, .inl htop⟩
  · rcases Nat.lt_or_ge (lastOrder n) logMaxFreePageBlock with hlt' | hge
    · have hprog := h.lt hn hlt hlt'
      refine ⟨lastOrder n + 1, hlt', hrest, .inr ?_⟩
      rw [pow_succ]
      omega
    · exact ⟨lastOrder n, hj, Nat.dvd_sub hdvd dvd_rfl, .inl (by omega)⟩

theorem Tidy.holds (h : Tidy M s) (hpmi : pmi ∈ M.regions) (hb : s.HasBlock p j)
    (hc : pmi.Contains p) : pmi.Holds p (2 ^ j) := by
  have hpos : 0 < 2 ^ j := Nat.two_pow_pos j
  obtain ⟨pmi', hpmi', hin⟩ := h.inside p j hb
  rwa [M.region_unique hpmi hpmi' hc (hin.contains le_rfl (by omega))]

/-- A second merge is needed only in a deep call. Here `n` of the `N` pages are left to free, and
the block of order `j` at their end has a free buddy. -/
theorem deep_of_needsSecond {s₀ : State} {N q lower : ℕ} (h : Tidy M s) (hpmi : pmi ∈ M.regions)
    (hin : pmi.Holds pg N)
    (hcov : ∀ x, s.FreePage x → s₀.FreePage x ∨ pg + n ≤ x ∧ x < pg + N)
    (hfree : ∀ x, pg ≤ x → x < pg + n → ¬ s.FreePage x) (hq : pg + n = q + 2 ^ j) (hpq : pg ≤ q)
    (hN : n ≤ N) (hprog : N - n < 2 ^ j) (hm : CanMerge pmi s q j) (hdvd : 2 ^ (j + 1) ∣ lower)
    (hlow : q = lower ∧ q ^^^ 2 ^ j = lower + 2 ^ j ∨ q = lower + 2 ^ j ∧ q ^^^ 2 ^ j = lower)
    (hsec : NeedsSecond M s lower j) : Deep M s₀ pg N := by
  obtain ⟨hb, hbin⟩ := hm.hasBlock h hpmi
  obtain ⟨hj, ⟨pmi', hpmi', hcl, hcc⟩, hc⟩ := hsec
  generalize q ^^^ 2 ^ j = b at hlow hb hbin
  -- The three blocks are in one region.
  have hlower : pmi.Contains lower := by
    obtain ⟨h₁, h₂⟩ := hin
    obtain ⟨h₃, h₄⟩ := hbin
    exact ⟨by omega, by omega⟩
  rw [← M.region_unique hpmi hpmi' hlower hcl] at hcc
  have hcin : pmi.Holds (lower ^^^ 2 ^ (j + 1)) (2 ^ (j + 1)) := h.holds hpmi hc hcc
  -- Together they are a block.
  obtain ⟨a, ha, hac⟩ : ∃ a, 2 ^ (j + 1 + 1) ∣ a ∧
      (lower = a ∧ lower ^^^ 2 ^ (j + 1) = a + 2 ^ (j + 1) ∨
        lower = a + 2 ^ (j + 1) ∧ lower ^^^ 2 ^ (j + 1) = a) := by
    rcases xor_two_pow hdvd with ⟨h₁, h₂⟩ | ⟨a, h₁, h₂, h₃⟩
    · exact ⟨lower, h₁, .inl ⟨rfl, h₂⟩⟩
    · exact ⟨a, h₁, .inr ⟨h₂, h₃⟩⟩
  generalize lower ^^^ 2 ^ (j + 1) = c at hc hcc hcin hac
  have hall : ∀ x, a ≤ x → x < a + 2 ^ (j + 1 + 1) → s.FreePage x ∨ q ≤ x ∧ x < q + 2 ^ j := by
    intro x hx hx'
    by_cases hxq : q ≤ x ∧ x < q + 2 ^ j
    · exact .inr hxq
    · left
      by_cases hxb : b ≤ x ∧ x < b + 2 ^ j
      · exact ⟨b, j, hb, hxb⟩
      · exact ⟨c, j + 1, hc, by omega, by omega⟩
  -- No page before `q` is freed by the call and in the block.
  have hmax : q ≤ max a pg := by
    by_contra hlt
    have hx : pg ≤ max a pg := le_max_right _ _
    rcases hall (max a pg) (le_max_left _ _) (by omega) with hf | hf
    · exact hfree _ hx (by omega) hf
    · omega
  have hover : overlap a (j + 1 + 1) pg N = min (a + 2 ^ (j + 1 + 1)) (pg + N) - q := by
    unfold overlap
    omega
  refine ⟨pmi, hpmi, a, j + 1 + 1, hj, ha, ?_, ?_, ?_, ?_⟩
  · obtain ⟨h₁, h₂⟩ := hin
    obtain ⟨h₃, h₄⟩ := hbin
    obtain ⟨h₅, h₆⟩ := hcin
    exact ⟨by omega, by omega⟩
  · intro x hx
    rcases hall x hx.1 hx.2 with hf | hf
    · exact (hcov x hf).imp_right fun hx => ⟨by omega, hx.2⟩
    · exact .inr ⟨by omega, by omega⟩
  · rw [hover]
    omega
  · rw [hover]
    omega

theorem freeBlocks_noBuddies (s₀ : State) (hpmi : pmi ∈ M.regions) {N : ℕ} (hin : pmi.Holds pg N)
    (hdeep : ¬ Deep M s₀ pg N) {fuel : ℕ} :
    ∀ {n : ℕ} {s s' : State}, Tidy M s → NoFreeBuddies M s → 0 < n → n ≤ N → Fits pg n →
      Progress N n → (∀ x, s.FreePage x → s₀.FreePage x ∨ pg + n ≤ x ∧ x < pg + N) →
      (∀ x, pg ≤ x → x < pg + n → ¬ s.FreePage x) → freeBlocks pmi pg fuel n s = .ok s' →
      NoFreeBuddies M s' := by
  induction fuel with
  | zero =>
    intro n s s' _ _ _ _ _ _ _ _ hr
    cases hr
  | succ fuel ih =>
    intro n s s' h hno hn hN hfit hprog hcov hfree hr
    have hlt : n < 2 ^ 32 := by
      have := M.bounded pmi hpmi
      have := hin.2
      omega
    obtain ⟨hj, hdvd, hjn⟩ := lastOrder_spec hn hlt
    obtain ⟨hpg, hfit'⟩ := hfit.last hdvd hjn
    obtain ⟨q, hq, hr⟩ := of_bind_ok hr
    obtain ⟨_, -, hr⟩ := of_bind_ok hr
    obtain ⟨rfl, -⟩ := physPgNumToPageH_ok hq
    have hin' : pmi.Holds (pg + n - 2 ^ lastOrder n) (2 ^ lastOrder n) :=
      ⟨by have := hin.1; omega, by have := hin.2; omega⟩
    have hfree' : ∀ x, pg + n - 2 ^ lastOrder n ≤ x →
        x < pg + n - 2 ^ lastOrder n + 2 ^ lastOrder n → ¬ s.FreePage x :=
      fun x hx hx' => hfree x (by omega) (by omega)
    have hf := recheck_freed h hpmi hin' hj hpg hfree'
    have hno' := recheck_noBuddies h hno hpmi hin' hj hpg (fun hm lower hl hlow hsec =>
      hdeep (deep_of_needsSecond h hpmi hin hcov hfree (by omega) (by omega) hN
        (hprog.lt hn hlt hm.1) hm hl hlow hsec))
    generalize recheck pmi (2 ^ lastOrder n) _ (pg + n - 2 ^ lastOrder n) s = s₁ at hf hno' hr
    split at hr
    case isTrue => exact Except.ok.inj hr ▸ hno'
    case isFalse hmore =>
      refine ih hf.tidy hno' (by omega) (by omega) hfit' (hprog.next hn hlt hN) ?_ ?_ hr
      · intro x hx
        rcases (hf.freePage x).1 hx with hx | hx
        · exact (hcov x hx).imp_right fun hx => ⟨by omega, hx.2⟩
        · exact .inr ⟨by omega, by omega⟩
      · intro x hx hx' hfx
        rcases (hf.freePage x).1 hfx with hfx | hfx
        · exact hfree x hx (by omega) hfx
        · omega

theorem freeBlock_noBuddies (h : Tidy M s) (hno : NoFreeBuddies M s) (hpmi : pmi ∈ M.regions)
    (hin : pmi.Holds pg n) (hn : 0 < n) (hfit : Fits pg n)
    (hfree : ∀ x, pg ≤ x → x < pg + n → ¬ s.FreePage x) (hdeep : ¬ Deep M s pg n)
    (hr : freeBlock M pg n s = .ok s') : NoFreeBuddies M s' := by
  obtain ⟨pmi', hpmi', hr⟩ := of_bind_ok hr
  obtain ⟨_, -, hr⟩ := of_bind_ok hr
  obtain ⟨hmem, hcon⟩ := physMemRegion_ok hpmi'
  obtain rfl := M.region_unique hpmi hmem (hin.contains le_rfl (by omega)) hcon
  have h' : Tidy M { s with numFreePageFrames := s.numFreePageFrames + n } :=
    ⟨h.tiling, h.order, h.inside, h.header, h.nodup⟩
  refine freeBlocks_noBuddies (N := n) s hpmi hin hdeep h' hno hn le_rfl hfit ?_
    (fun x hx => .inl hx) hfree hr
  exact ⟨0, Nat.zero_le _, by simp, .inr (by simp)⟩

/-- The calls in `physMem_FreeAll` are not deep: the block would have to reach below the region or
beyond it. -/
theorem Rising.not_deep (h : Rising pmi s pg n) (hpmi : pmi ∈ M.regions) : ¬ Deep M s pg n := by
  rintro ⟨pmi', hpmi', a, m, -, ha, hin, hall, hpos, hhalf⟩
  have hbound := M.bounded pmi hpmi
  obtain ⟨hpg₁, hpg₂⟩ := h.holds
  unfold overlap at hpos hhalf
  -- The block and the pages that are freed have a page in common.
  have hx : pmi.Contains (max a pg) := ⟨by omega, by omega⟩
  have hx' : pmi'.Contains (max a pg) := hin.contains (le_max_left _ _) (by omega)
  obtain rfl := M.region_unique hpmi hpmi' hx hx'
  -- What follows the freed pages is not free, so the block ends with them.
  have hend : a + 2 ^ m ≤ pg + n := by
    by_contra hlt
    have hc : pmi.Contains (pg + n) := hin.contains (by omega) (by omega)
    rcases hall (pg + n) ⟨by simp only; omega, by simp only; omega⟩ with hf | hf
    · exact h.notFree (pg + n) (by omega) hc hf
    · simp only [InBlock] at hf
      omega
  -- It starts before them, or they would be more than half of it.
  have hstart : a < pg := by
    by_contra hle
    omega
  have hpg : 0 < pg := by omega
  obtain ⟨c, hc⟩ := ffs32_spec hpg (by omega)
  have hdvd : 2 ^ ffs32 pg ∣ pg := ⟨2 * c + 1, by rw [mul_comm]; exact hc⟩
  have hlow := h.low
  have hfirst := hin.1
  rcases Nat.lt_or_ge (ffs32 pg) m with hm | hm
  · -- A larger block would start below the region.
    have hdvd' : 2 ^ ffs32 pg ∣ a := (pow_dvd_pow 2 hm.le).trans ha
    have := add_le_of_dvd hdvd' hdvd hstart
    omega
  · have := add_le_of_dvd ha ((pow_dvd_pow 2 hm).trans hdvd) hstart
    omega

/-! ## The other operations -/

theorem allocateBlock_noBuddies {r : Option ℕ × State} (hn : n < 2 ^ 32)
    (hr : allocateBlock M n s = .ok r) (h : Tidy M s) (hno : NoFreeBuddies M s) :
    NoFreeBuddies M r.2 := by
  rcases allocateBlock_spec hn hr h with rfl | ⟨pg, -, ht, hbl⟩
  · exact hno
  · refine NoBuddies.mono hno (fun _ _ => Memory.SameRegion.symm) fun p i _ _ hp => ?_
    refine (hbl p i hp).imp_right fun hx hb => ?_
    exact ((ht.freePage _).1 (covered_head hb)).2 hx

theorem containingBlock_eq (h : Tidy M s) (hb : s.HasBlock p j) {fuel : ℕ} :
    ∀ {pg head : ℕ}, InBlock (p, 2 ^ j) pg → containingBlock pmi s fuel pg = .ok head →
      head = p := by
  induction fuel with
  | zero =>
    intro pg head _ hr
    cases hr
  | succ fuel ih =>
    intro pg head hx hr
    unfold containingBlock at hr
    split at hr
    case isTrue hf =>
      obtain rfl := Except.ok.inj hr
      obtain ⟨i, hi⟩ := h.isFree_iff.1 hf
      have hpos : 0 < 2 ^ i := Nat.two_pow_pos i
      exact (h.tiling.disjoint pg i p j pg hi hb le_rfl (by omega) hx.1 hx.2).1
    case isFalse hf =>
      obtain ⟨_, -, hr⟩ := of_bind_ok hr
      obtain ⟨pg', hpg', hr⟩ := of_bind_ok hr
      obtain ⟨rfl, -⟩ := physPgNumToPageH_ok hpg'
      have hne : p ≠ pg := by
        rintro rfl
        exact hf ((h.header p j).1 hb).1
      have hlt : p < pg := lt_of_le_of_ne hx.1 hne
      have hle : pg &&& (pg - 1) ≤ pg := Nat.and_le_left
      exact ih ⟨le_and_pred (h.tiling.aligned p j hb) hlt hx.2, lt_of_le_of_lt hle hx.2⟩ hr

/-- The only buddies are around a page. -/
def BuddiesAround (M : Memory) (s : State) (pg : ℕ) : Prop :=
  ∀ p j, j < logMaxFreePageBlock → M.SameRegion p (p ^^^ 2 ^ j) → s.HasBlock p j →
    s.HasBlock (p ^^^ 2 ^ j) j → InBlock (p, 2 ^ j) pg ∨ InBlock (p ^^^ 2 ^ j, 2 ^ j) pg

theorem split_buddiesAround (hr : splitContainingFreeBlock M pg s = .ok s') (h : Tidy M s)
    (hpg : s.FreePage pg) (hba : BuddiesAround M s pg) : BuddiesAround M s' pg := by
  obtain ⟨q, k, hb, hx⟩ := hpg
  obtain ⟨pmi, -, hr⟩ := of_bind_ok hr
  obtain ⟨head, hhead, hr⟩ := of_bind_ok hr
  obtain rfl := containingBlock_eq h hb hx hhead
  split at hr
  case h_1 => cases hr
  case h_2 j hlog =>
    obtain ⟨lower, hlow, hr⟩ := of_bind_ok hr
    obtain ⟨upper, hup, hr⟩ := of_bind_ok hr
    rw [(physPgNumToPageH_ok hlow).1, (physPgNumToPageH_ok hup).1] at hr
    obtain rfl := Except.ok.inj hr
    obtain rfl : j + 1 = k := hlog.symm.trans ((h.header head k).1 hb).2
    have hbuddy : head ^^^ 2 ^ j = head + 2 ^ j :=
      xor_two_pow_of_dvd (h.tiling.aligned head (j + 1) hb)
    have hbuddy' : (head + 2 ^ j) ^^^ 2 ^ j = head := by rw [← hbuddy, xor_xor_two_pow]
    rw [← freeOneBlock_take (t := .ptFreeSecondary)]
    have hcases : ∀ {p i : ℕ}, (((s.take head .ptFreeSecondary).freeOneBlock head j).freeOneBlock
        (head + 2 ^ j) j).HasBlock p i →
        i = j ∧ (p = head ∨ p = head + 2 ^ j) ∨ s.HasBlock p i := by
      intro p i hp
      rcases hasBlock_freeOneBlock.1 hp with ⟨rfl, rfl⟩ | hp
      · exact .inl ⟨rfl, .inr rfl⟩
      · rcases hasBlock_freeOneBlock.1 hp with ⟨rfl, rfl⟩ | hp
        · exact .inl ⟨rfl, .inl rfl⟩
        · exact .inr (h.hasBlock_take.1 hp).2
    -- Two new buddies are the two halves, one of which has the page.
    have hhalves : ∀ p, p = head ∨ p = head + 2 ^ j →
        InBlock (p, 2 ^ j) pg ∨ InBlock (p ^^^ 2 ^ j, 2 ^ j) pg := by
      rintro p (rfl | rfl)
      · rw [hbuddy]
        simp only [InBlock]
        omega
      · rw [hbuddy']
        simp only [InBlock]
        omega
    intro p i hi hS hp hq
    rcases hcases hp with ⟨rfl, hp⟩ | hp
    · exact hhalves p hp
    · rcases hcases hq with ⟨rfl, hq⟩ | hq
      · have hself := hhalves _ hq
        rw [xor_xor_two_pow] at hself
        exact hself.symm
      · exact hba p i hi hS hp hq

theorem isolate_buddiesAround {fuel : ℕ} :
    ∀ {s s' : State}, isolate M pg fuel s = .ok s' → Tidy M s → s.FreePage pg →
      BuddiesAround M s pg → BuddiesAround M s' pg := by
  induction fuel with
  | zero =>
    intro s s' hr
    cases hr
  | succ fuel ih =>
    intro s s' hr h hpg hba
    unfold isolate at hr
    split at hr
    case isTrue => exact Except.ok.inj hr ▸ hba
    case isFalse =>
      obtain ⟨s₁, hsplit, hr⟩ := of_bind_ok hr
      obtain ⟨ht, hcov, -⟩ := split_spec hsplit h
      exact ih hr ht ((hcov pg).2 hpg) (split_buddiesAround hsplit h hpg hba)

theorem allocateThisPhysPage_noBuddies {pagePA : ℕ} {r : ℕ × State}
    (hr : allocateThisPhysPage M pagePA s = .ok r) (h : Tidy M s) (hno : NoFreeBuddies M s) :
    NoFreeBuddies M r.2 := by
  obtain ⟨_, -, hr⟩ := of_bind_ok hr
  obtain ⟨s₁, hiso, hr⟩ := of_bind_ok hr
  obtain rfl := Except.ok.inj hr
  obtain ⟨⟨ht, hcov, -, -⟩, hb⟩ := isolate_spec hiso h
  have hpg : s.FreePage (pagePA / pageSize) := (hcov _).1 (covered_head hb)
  have hba := isolate_buddiesAround hiso h hpg (fun p j hj hS hp hq => absurd hq (hno p j hj hS hp))
  intro p j hj hS hp hq
  obtain ⟨hne, hp⟩ := ht.hasBlock_take (t := .ptNewAlloc).1 hp
  obtain ⟨hne', hq⟩ := ht.hasBlock_take (t := .ptNewAlloc).1 hq
  have htile : ∀ {q i : ℕ}, s₁.HasBlock q i → InBlock (q, 2 ^ i) (pagePA / pageSize) →
      q = pagePA / pageSize := by
    intro q i hq hx
    exact (ht.tiling.disjoint _ _ _ _ _ hq hb hx.1 hx.2 le_rfl (by simp)).1
  rcases hba p j hj hS hp hq with hx | hx
  · exact hne (htile hp hx)
  · exact hne' (htile hq hx)

/-! ## Runs -/

/-- An operation that allocates or frees, and no call that is deep. Splitting a block makes buddies
and is neither. -/
def Op.Careful (M : Memory) (σ : System) : Op → Prop
  | .freeBlock pg n => ¬ Deep M σ.mem pg n
  | .splitContainingFreeBlock _ => False
  | _ => True

/-- The states of runs of such operations. -/
inductive CarefulReach (M : Memory) : System → Prop
  | init {mem : State} (h : initFrames M = .ok mem) : CarefulReach M ⟨mem, []⟩
  | step {σ σ' : System} {op : Op} (h : CarefulReach M σ) (ha : op.Allowed σ) (hc : op.Careful M σ)
    (hr : op.run M σ = .ok σ') : CarefulReach M σ'

variable {σ σ' : System} {op : Op}

theorem CarefulReach.reach (h : CarefulReach M σ) : Reach M σ := by
  induction h with
  | init hi => exact .init hi
  | step _ ha _ hr ih => exact .step ih ha hr

theorem noFreeBuddies_run (h : Inv M σ) (hno : NoFreeBuddies M σ.mem) (ha : op.Allowed σ)
    (hc : op.Careful M σ) (hr : op.run M σ = .ok σ') : NoFreeBuddies M σ'.mem := by
  cases op with
  | allocateBlock n =>
    obtain ⟨⟨block, mem⟩, hal, hr⟩ := of_bind_ok hr
    have := allocateBlock_noBuddies ha hal h.tidy hno
    cases block with
    | none | some pg => exact Except.ok.inj hr ▸ this
  | freeBlock pg n =>
    obtain ⟨mem, hmem, hr⟩ := of_bind_ok hr
    obtain rfl := Except.ok.inj hr
    obtain ⟨⟨hpos, hfit⟩, pmi, hpmi, hin⟩ := h.blocks _ ha
    exact freeBlock_noBuddies h.tidy hno hpmi hin hpos hfit
      (fun x hx hx' => h.notFree _ ha x ⟨hx, hx'⟩) hc hmem
  | splitContainingFreeBlock pg => exact hc.elim
  | allocateThisPhysPage pagePA =>
    obtain ⟨⟨pg, mem⟩, hal, hr⟩ := of_bind_ok hr
    obtain rfl := Except.ok.inj hr
    exact allocateThisPhysPage_noBuddies hal h.tidy hno
  | setHeader pg hd =>
    obtain rfl := Except.ok.inj hr
    exact hno

/-- **In a run without deep calls, no free blocks are buddies**, and a region that is all free has
the largest blocks there can be. -/
theorem coalesced_of_careful (h : CarefulReach M σ) : Coalesced M σ.mem := by
  have hno : NoFreeBuddies M σ.mem := by
    induction h with
    | init hi =>
      obtain ⟨s, hs, -, hno, -⟩ := initFrames_spec (M := M) (P := NoFreeBuddies M)
        (fun p j _ _ hp => by simp [State.HasBlock, cleared] at hp) (fun h => h)
        (fun hpmi hno ht hrise hr => freeBlock_noBuddies ht hno hpmi hrise.holds hrise.pos hrise.fits
          (fun x hx hx' => hrise.notFree x hx (hrise.holds.contains hx hx'))
          (hrise.not_deep hpmi) hr)
      obtain rfl := Except.ok.inj (hi.symm.trans hs)
      exact hno
    | step h ha hc hr ih => exact noFreeBuddies_run (inv_of_reach h.reach) ih ha hc hr
  exact hno.coalesced (inv_of_reach h.reach).tidy

theorem CarefulReach.runIf {ops : List Op} (h : CarefulReach M σ)
    (hc : ∀ op ∈ ops, ∀ σ, op.Careful M σ) (hr : runIf M ops σ = some σ') : CarefulReach M σ' := by
  induction ops generalizing σ with
  | nil => exact Option.some.inj hr ▸ h
  | cons op ops ih =>
    rw [List.forall_mem_cons] at hc
    unfold PhysMem.runIf at hr
    split at hr
    case isFalse => cases hr
    case isTrue ha =>
      split at hr
      case h_1 hrun => exact ih (.step h ha (hc.1 σ) hrun) hc.2 hr
      case h_2 => cases hr

/-- A region of four pages. -/
def fourPages : Memory where
  regions := [⟨.memory, 4, 4⟩]
  bounded := by decide
  disjoint := by simp

/-- The four pages are allocated and freed in pairs. The second pair is merged with the first one, its buddy. -/
theorem coalesced_of_careful_fourPages : ∃ σ, CarefulReach fourPages σ ∧
    σ.mem.freePages 1 = [] ∧ σ.mem.HasBlock 4 2 ∧ Coalesced fourPages σ.mem := by
  have hrun : (runFrom fourPages [.allocateBlock 2, .allocateBlock 2, .freeBlock 4 2, .freeBlock 6 2]).map
      (fun σ => (σ.mem.freePages 1, σ.mem.freePages 2)) = some ([], [4]) := by decide +kernel
  obtain ⟨σ, hσ, hv⟩ := Option.map_eq_some_iff.1 hrun
  obtain ⟨h₁, h₂⟩ := Prod.mk.inj hv
  -- half of the region is freed at a time
  have hhalves : ∀ pg, pg = 4 ∨ pg = 6 → ∀ s, ¬Deep fourPages s pg 2 := by
    rintro pg hpg s ⟨pmi, hpmi, a, m, -, hdvd, hin, -, hpos, hhalf⟩
    obtain rfl : pmi = ⟨.memory, 4, 4⟩ := by simpa [fourPages] using hpmi
    obtain ⟨hlow, hhigh⟩ := hin
    simp only at hlow hhigh
    have hm : m ≤ 2 := (Nat.pow_le_pow_iff_right (by decide : 1 < 2)).1 (by omega : 2 ^ m ≤ 2 ^ 2)
    unfold overlap at hpos hhalf
    obtain rfl | rfl | rfl : m = 0 ∨ m = 1 ∨ m = 2 := by omega
    all_goals omega
  have hreach : CarefulReach fourPages σ := by
    unfold runFrom at hσ
    split at hσ
    case h_2 => cases hσ
    case h_1 mem hi =>
      refine CarefulReach.runIf (.init hi) ?_ hσ
      intro op hop σ
      simp only [List.mem_cons, List.not_mem_nil, or_false] at hop
      obtain rfl | rfl | rfl | rfl := hop
      · trivial
      · trivial
      · exact hhalves 4 (.inl rfl) σ.mem
      · exact hhalves 6 (.inr rfl) σ.mem
  exact ⟨σ, hreach, h₁, by simp [State.HasBlock, h₂], coalesced_of_careful hreach⟩

/-- The four pages are allocated and freed one by one. They end up in two blocks that are buddies,
and no block has all four. -/
theorem buddies_not_merged : ∃ σ, runFrom fourPages [.allocateBlock 1, .allocateBlock 1,
      .allocateBlock 1, .allocateBlock 1, .freeBlock 4 1, .freeBlock 5 1, .freeBlock 6 1,
      .freeBlock 7 1] = some σ ∧
    (σ.allocated = [] ∧ σ.mem.HasBlock 4 1 ∧ σ.mem.HasBlock 6 1 ∧ σ.mem.freePages 2 = []) ∧
    ¬ Coalesced fourPages σ.mem := by
  have hrun : (runFrom fourPages [.allocateBlock 1, .allocateBlock 1, .allocateBlock 1,
      .allocateBlock 1, .freeBlock 4 1, .freeBlock 5 1, .freeBlock 6 1, .freeBlock 7 1]).map
      (fun σ => (σ.allocated, σ.mem.freePages 1, σ.mem.freePages 2)) =
        some ([], [6, 4], []) := by decide +kernel
  obtain ⟨σ, hσ, hv⟩ := Option.map_eq_some_iff.1 hrun
  simp only [Prod.mk.injEq] at hv
  obtain ⟨hal, h₁, h₂⟩ := hv
  have h4 : σ.mem.HasBlock 4 1 := by simp [State.HasBlock, h₁]
  have h6 : σ.mem.HasBlock 6 1 := by simp [State.HasBlock, h₁]
  refine ⟨σ, hσ, ⟨hal, h4, h6, h₂⟩, fun hc => ?_⟩
  exact hc.noBuddies 4 1 (by decide) ⟨⟨.memory, 4, 4⟩, by simp [fourPages], by decide, by decide⟩ h4 h6

end CapROS.PhysMem
