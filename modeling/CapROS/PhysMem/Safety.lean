import CapROS.PhysMem.Basic
import Mathlib.Algebra.Order.BigOperators.Group.Finset

/-!
# The free blocks are a tiling

* `recheck_spec`, `freeBlock_spec`, `allocateBlock_spec`, `split_spec`: what each operation does to
  the free pages.
-/

namespace CapROS.PhysMem

open BuddyBlocks

/-- The free lists have the block of `2 ^ j` pages at `pg`. -/
def State.HasBlock (s : State) (pg j : ℕ) : Prop := pg ∈ s.freePages j

/-- The page is in a free block. -/
def State.FreePage (s : State) (x : ℕ) : Prop := Covered s.HasBlock x

def State.totalFree (s : State) : ℕ :=
  ∑ j ∈ Finset.range (logMaxFreePageBlock + 1), (s.freePages j).length * 2 ^ j

/-- These pages are pages of the region. -/
def PmemInfo.Holds (pmi : PmemInfo) (pg numPages : ℕ) : Prop :=
  pmi.firstObPgAddr ≤ pg ∧ pg + numPages ≤ pmi.firstObPgAddr + pmi.nPages

/-- The free blocks are a tiling, inside the regions, and the page headers agree with the free
lists. -/
structure Tidy (M : Memory) (s : State) : Prop where
  tiling : Tiling s.HasBlock
  order : ∀ pg j, s.HasBlock pg j → j ≤ logMaxFreePageBlock
  inside : ∀ pg j, s.HasBlock pg j → ∃ pmi ∈ M.regions, pmi.Holds pg (2 ^ j)
  header : ∀ pg j, s.HasBlock pg j ↔ s.IsFree pg ∧ (s.pages pg).log2Pages = j
  nodup : ∀ j, (s.freePages j).Nodup

variable {M : Memory} {s s' : State} {pmi : PmemInfo} {pg j i p x n numPages : ℕ}

theorem check_ok {P : Prop} [Decidable P] {u : Unit} (h : check P = .ok u) : P := by
  by_contra hP
  rw [check, if_neg hP] at h
  cases h

/-! ## Bits -/

variable {b k fuel : ℕ} {w : ℕ × ℕ}

theorem ffsStep_spec (hw : n = w.2 * 2 ^ w.1)
    (hm : w.2 % 2 ^ (2 * b) ≠ 0) :
    n = (ffsStep b w).2 * 2 ^ (ffsStep b w).1 ∧ (ffsStep b w).2 % 2 ^ b ≠ 0 := by
  unfold ffsStep
  split
  case isTrue h =>
    obtain ⟨c, hc⟩ := Nat.dvd_of_mod_eq_zero h
    have hpos : 0 < 2 ^ b := Nat.two_pow_pos b
    have hdiv : w.2 / 2 ^ b = c := by rw [hc, Nat.mul_div_cancel_left c hpos]
    refine ⟨?_, ?_⟩
    · simp only [hdiv]
      rw [hw, hc, pow_add]
      ring
    · intro h0
      replace h0 : c % 2 ^ b = 0 := by rwa [← hdiv]
      obtain ⟨e, he⟩ := Nat.dvd_of_mod_eq_zero h0
      exact hm (Nat.mod_eq_zero_of_dvd ⟨e, by rw [hc, he, two_mul, pow_add]; ring⟩)
  case isFalse h => exact ⟨hw, h⟩

theorem ffs32_spec (hn : 0 < n) (hlt : n < 2 ^ 32) : ∃ c, n = (2 * c + 1) * 2 ^ ffs32 n := by
  have h0 : n % 2 ^ (2 * 16) ≠ 0 := by
    rw [Nat.mod_eq_of_lt hlt]
    omega
  obtain ⟨e₁, h₁⟩ := ffsStep_spec (b := 16) (w := (0, n)) (n := n) (by simp) h0
  obtain ⟨e₂, h₂⟩ := ffsStep_spec (b := 8) e₁ h₁
  obtain ⟨e₃, h₃⟩ := ffsStep_spec (b := 4) e₂ h₂
  obtain ⟨e₄, h₄⟩ := ffsStep_spec (b := 2) e₃ h₃
  obtain ⟨e₅, h₅⟩ := ffsStep_spec (b := 1) e₄ h₄
  refine ⟨(ffsStep 1 (ffsStep 2 (ffsStep 4 (ffsStep 8 (ffsStep 16 (0, n)))))).2 / 2, ?_⟩
  have hodd : 2 * ((ffsStep 1 (ffsStep 2 (ffsStep 4 (ffsStep 8 (ffsStep 16 (0, n)))))).2 / 2) + 1 =
      (ffsStep 1 (ffsStep 2 (ffsStep 4 (ffsStep 8 (ffsStep 16 (0, n)))))).2 := by
    omega
  rw [hodd]
  exact e₅

theorem flsStep_spec {x : ℕ} (hw : x < (w.2 + 1) * 2 ^ (w.1 - 1)) (hr : 1 ≤ w.1)
    (hm : w.2 < 2 ^ (2 * b)) :
    x < ((flsStep b w).2 + 1) * 2 ^ ((flsStep b w).1 - 1) ∧ 1 ≤ (flsStep b w).1 ∧
      (flsStep b w).2 < 2 ^ b := by
  unfold flsStep
  split
  case isTrue h =>
    have hpos : 0 < 2 ^ b := Nat.two_pow_pos b
    refine ⟨?_, by simp only; omega, ?_⟩
    · have hlt : w.2 + 1 ≤ (w.2 / 2 ^ b + 1) * 2 ^ b := by
        have := Nat.div_add_mod w.2 (2 ^ b)
        have := Nat.mod_lt w.2 hpos
        nlinarith
      calc x < (w.2 + 1) * 2 ^ (w.1 - 1) := hw
        _ ≤ (w.2 / 2 ^ b + 1) * 2 ^ b * 2 ^ (w.1 - 1) := Nat.mul_le_mul_right _ hlt
        _ = (w.2 / 2 ^ b + 1) * 2 ^ (w.1 + b - 1) := by
          rw [mul_assoc, ← pow_add]
          congr 2
          omega
    · apply Nat.div_lt_of_lt_mul
      rwa [← pow_add, ← two_mul]
  case isFalse h => exact ⟨hw, hr, by omega⟩

theorem lt_two_pow_fls32 (hx : x < 2 ^ 32) : x < 2 ^ fls32 x := by
  unfold fls32
  split
  case isTrue h => simp [h]
  case isFalse h =>
    obtain ⟨e₁, r₁, h₁⟩ := flsStep_spec (b := 16) (w := (1, x)) (x := x) (by simp) (by simp) hx
    obtain ⟨e₂, r₂, h₂⟩ := flsStep_spec (b := 8) e₁ r₁ h₁
    obtain ⟨e₃, r₃, h₃⟩ := flsStep_spec (b := 4) e₂ r₂ h₂
    obtain ⟨e₄, r₄, h₄⟩ := flsStep_spec (b := 2) e₃ r₃ h₃
    obtain ⟨e₅, r₅, h₅⟩ := flsStep_spec (b := 1) e₄ r₄ h₄
    generalize flsStep 1 (flsStep 2 (flsStep 4 (flsStep 8 (flsStep 16 (1, x))))) = w at e₅ r₅ h₅
    have hw : w.2 + 1 ≤ 2 := by omega
    calc x < (w.2 + 1) * 2 ^ (w.1 - 1) := e₅
      _ ≤ 2 * 2 ^ (w.1 - 1) := Nat.mul_le_mul_right _ hw
      _ = 2 ^ w.1 := by rw [← pow_succ']; congr 1; omega

theorem lastOrder_spec (hn : 0 < n) (hlt : n < 2 ^ 32) :
    lastOrder n ≤ logMaxFreePageBlock ∧ 2 ^ lastOrder n ∣ n ∧ 2 ^ lastOrder n ≤ n := by
  obtain ⟨c, hc⟩ := ffs32_spec hn hlt
  have hdvd : 2 ^ lastOrder n ∣ n := by
    have h₁ : 2 ^ lastOrder n ∣ 2 ^ ffs32 n := pow_dvd_pow 2 (min_le_left _ _)
    have h₂ : 2 ^ ffs32 n ∣ n := ⟨2 * c + 1, by rw [mul_comm]; exact hc⟩
    exact h₁.trans h₂
  exact ⟨min_le_right _ _, hdvd, Nat.le_of_dvd hn hdvd⟩

theorem lowestBit_of_dvd (hk : 2 ^ k ∣ pg) (hn : n ≤ 2 ^ k) :
    lowestBit pg = 0 ∨ n ≤ lowestBit pg := by
  have hdvd : 2 ^ k ∣ lowestBit pg := dvd_and hk
  rcases Nat.eq_zero_or_pos (lowestBit pg) with h | h
  · exact .inl h
  · exact .inr (hn.trans (Nat.le_of_dvd h hdvd))

/-! ## Regions -/

theorem PmemInfo.Holds.contains (h : pmi.Holds pg n) (hk : pg ≤ k) (hn : k < pg + n) :
    pmi.Contains k :=
  ⟨h.1.trans hk, hn.trans_le h.2⟩

theorem Memory.region_unique (M : Memory) {pmi' : PmemInfo} (hpmi : pmi ∈ M.regions)
    (hpmi' : pmi' ∈ M.regions) (hc : pmi.Contains pg) (hc' : pmi'.Contains pg) : pmi = pmi' := by
  by_contra hne
  have hsymm : Std.Symm fun pmi pmi' : PmemInfo => ∀ pg, pmi.Contains pg → ¬ pmi'.Contains pg :=
    ⟨fun _ _ h pg h₁ h₂ => h pg h₂ h₁⟩
  exact M.disjoint.forall hpmi hpmi' hne pg hc hc'

theorem physMemRegion_eq (hpmi : pmi ∈ M.regions) (hc : pmi.Contains pg) :
    M.physMemRegion pg = .ok pmi := by
  unfold Memory.physMemRegion
  cases hf : M.regions.find? (fun pmi => decide (pmi.Contains pg)) with
  | none => exact absurd hc (by simpa using List.find?_eq_none.1 hf pmi hpmi)
  | some pmi' =>
    have hc' : pmi'.Contains pg := by simpa using List.find?_some hf
    rw [M.region_unique (List.mem_of_find?_eq_some hf) hpmi hc' hc]

theorem physMemRegion_ok (h : M.physMemRegion pg = .ok pmi) : pmi ∈ M.regions ∧ pmi.Contains pg := by
  unfold Memory.physMemRegion at h
  cases hf : M.regions.find? (fun pmi => decide (pmi.Contains pg)) with
  | none => simp [hf] at h
  | some pmi' =>
    simp only [hf, Except.ok.injEq] at h
    subst h
    exact ⟨List.mem_of_find?_eq_some hf, by simpa using List.find?_some hf⟩

theorem physPgNumToPageH_eq (hc : pmi.Contains pg) : physPgNumToPageH pmi pg = .ok pg :=
  if_pos hc

theorem physPgNumToPageH_ok (h : physPgNumToPageH pmi pg = .ok p) : p = pg ∧ pmi.Contains pg := by
  unfold physPgNumToPageH at h
  split at h
  case isTrue hc => exact ⟨(Except.ok.inj h).symm, hc⟩
  case isFalse => cases h

/-! ## Putting in and taking out blocks -/

theorem hasBlock_freeOneBlock :
    (s.freeOneBlock pg j).HasBlock p i ↔ p = pg ∧ i = j ∨ s.HasBlock p i := by
  unfold State.HasBlock State.freeOneBlock
  by_cases hi : i = j
  · subst hi
    simp
  · simp [hi]

theorem totalFree_freeOneBlock (hj : j ≤ logMaxFreePageBlock) :
    (s.freeOneBlock pg j).totalFree = s.totalFree + 2 ^ j := by
  have hmem : j ∈ Finset.range (logMaxFreePageBlock + 1) := Finset.mem_range.2 (by omega)
  unfold State.totalFree
  rw [← Finset.add_sum_erase _ _ hmem, ← Finset.add_sum_erase _ (fun j => (s.freePages j).length * _)
    hmem]
  have hrest : ∀ i ∈ (Finset.range (logMaxFreePageBlock + 1)).erase j,
      ((s.freeOneBlock pg j).freePages i).length * 2 ^ i = (s.freePages i).length * 2 ^ i := by
    intro i hi
    simp [State.freeOneBlock, Function.update_of_ne (Finset.ne_of_mem_erase hi)]
  rw [Finset.sum_congr rfl hrest]
  simp only [State.freeOneBlock, Function.update_self, List.length_cons]
  ring

/-- A block is taken from its list, and its first frame gets another type. -/
def State.take (s : State) (pg : ℕ) (t : ObType) : State := (s.unlink pg).setObType pg t

variable {t : ObType}

theorem Tidy.hasBlock_take (h : Tidy M s) :
    (s.take pg t).HasBlock p i ↔ p ≠ pg ∧ s.HasBlock p i := by
  exact (h.nodup i).mem_erase_iff

theorem Tidy.totalFree_take (h : Tidy M s) (hb : s.HasBlock pg j) :
    (s.take pg t).totalFree + 2 ^ j = s.totalFree := by
  have hmem : j ∈ Finset.range (logMaxFreePageBlock + 1) :=
    Finset.mem_range.2 (Nat.lt_succ_of_le (h.order pg j hb))
  unfold State.totalFree
  rw [← Finset.add_sum_erase _ _ hmem, ← Finset.add_sum_erase _ (fun j => (s.freePages j).length * _)
    hmem]
  have hrest : ∀ i ∈ (Finset.range (logMaxFreePageBlock + 1)).erase j,
      ((s.take pg t).freePages i).length * 2 ^ i = (s.freePages i).length * 2 ^ i := by
    intro i hi
    have hne : pg ∉ s.freePages i := fun hp =>
      Finset.ne_of_mem_erase hi (h.tiling.order_unique hp hb)
    simp [State.take, State.setObType, State.unlink, List.erase_of_not_mem hne]
  rw [Finset.sum_congr rfl hrest]
  have hlen : ((s.take pg t).freePages j).length + 1 = (s.freePages j).length := by
    simp only [State.take, State.setObType, State.unlink]
    have := List.length_erase_of_mem hb
    have := List.length_pos_of_mem hb
    omega
  rw [← hlen]
  ring

theorem Tidy.isFree_iff (h : Tidy M s) : s.IsFree pg ↔ ∃ j, s.HasBlock pg j := by
  constructor
  · intro hf
    exact ⟨_, (h.header pg _).2 ⟨hf, rfl⟩⟩
  · rintro ⟨j, hj⟩
    exact ((h.header pg j).1 hj).1

theorem Tidy.not_isFree (h : Tidy M s) (hx : ¬ s.FreePage pg) : ¬ s.IsFree pg := by
  intro hf
  obtain ⟨j, hj⟩ := h.isFree_iff.1 hf
  exact hx (covered_head hj)

theorem Tidy.setHeader {hd : PageHeader} (h : Tidy M s) (hx : ¬ s.IsFree pg)
    (ht : hd.obType ≠ .ptFreeFrame) :
    Tidy M { s with pages := Function.update s.pages pg hd } := by
  refine ⟨h.tiling, h.order, h.inside, ?_, h.nodup⟩
  intro p j
  by_cases hp : p = pg
  · subst hp
    have hno : ¬ s.HasBlock p j := fun hj => hx ((h.header p j).1 hj).1
    simp only [State.IsFree, Function.update_self]
    exact iff_of_false hno (fun hc => ht hc.1)
  · simp only [State.IsFree, Function.update_of_ne hp]
    exact h.header p j

/-- What freeing these pages does to the free pages. -/
structure Freed (M : Memory) (s s' : State) (pg n : ℕ) : Prop where
  tidy : Tidy M s'
  freePage : ∀ x, s'.FreePage x ↔ s.FreePage x ∨ pg ≤ x ∧ x < pg + n
  totalFree : s'.totalFree = s.totalFree + n
  numFree : s'.numFreePageFrames = s.numFreePageFrames

theorem Tidy.freed (h : Tidy M s) (hpmi : pmi ∈ M.regions) (hin : pmi.Holds pg (2 ^ j))
    (hj : j ≤ logMaxFreePageBlock) (hpg : 2 ^ j ∣ pg)
    (hfree : ∀ x, pg ≤ x → x < pg + 2 ^ j → ¬ s.FreePage x) :
    Freed M s (s.freeOneBlock pg j) pg (2 ^ j) := by
  obtain ⟨ht, hcov⟩ := h.tiling.insert hpg hfree (fun p i => hasBlock_freeOneBlock)
  refine ⟨⟨ht, ?_, ?_, ?_, ?_⟩, hcov, totalFree_freeOneBlock hj, rfl⟩
  · intro p i hp
    rcases hasBlock_freeOneBlock.1 hp with ⟨rfl, rfl⟩ | hp
    · exact hj
    · exact h.order p i hp
  · intro p i hp
    rcases hasBlock_freeOneBlock.1 hp with ⟨rfl, rfl⟩ | hp
    · exact ⟨pmi, hpmi, hin⟩
    · exact h.inside p i hp
  · intro p i
    rw [hasBlock_freeOneBlock]
    by_cases hp : p = pg
    · subst hp
      have hno : ¬ s.HasBlock p i := fun hi => hfree p le_rfl (by omega) (covered_head hi)
      simp only [State.IsFree, State.freeOneBlock, Function.update_self, true_and, hno, or_false]
      exact eq_comm
    · simp only [State.IsFree, State.freeOneBlock, Function.update_of_ne hp, hp, false_and, false_or]
      exact h.header p i
  · intro i
    by_cases hi : i = j
    · subst hi
      have hno : pg ∉ s.freePages i := fun hi => hfree pg le_rfl (by omega) (covered_head hi)
      simpa [State.freeOneBlock, hno] using h.nodup i
    · simpa [State.freeOneBlock, Function.update_of_ne hi] using h.nodup i

theorem Tidy.take (h : Tidy M s) (hb : s.HasBlock pg j) (ht : t ≠ .ptFreeFrame) :
    Tidy M (s.take pg t) ∧
      ∀ x, (s.take pg t).FreePage x ↔ s.FreePage x ∧ ¬ (pg ≤ x ∧ x < pg + 2 ^ j) := by
  obtain ⟨htl, hcov⟩ := h.tiling.erase hb (fun p i => h.hasBlock_take (t := t) (p := p) (i := i))
  refine ⟨⟨htl, ?_, ?_, ?_, ?_⟩, hcov⟩
  · intro p i hp
    exact h.order p i (h.hasBlock_take.1 hp).2
  · intro p i hp
    exact h.inside p i (h.hasBlock_take.1 hp).2
  · intro p i
    rw [h.hasBlock_take]
    by_cases hp : p = pg
    · subst hp
      simp [State.IsFree, State.take, State.setObType, ht]
    · simp only [State.IsFree, State.take, State.setObType, State.unlink, Function.update_of_ne hp,
        ne_eq, hp, not_false_eq_true, true_and]
      exact h.header p i
  · intro i
    exact (h.nodup i).erase pg

/-! ## Freeing -/

/-- The block that the source looks at to merge with. -/
def CanMerge (pmi : PmemInfo) (s : State) (pg j : ℕ) : Prop :=
  j < logMaxFreePageBlock ∧ pmi.Contains (pg ^^^ 2 ^ j) ∧ s.IsFree (pg ^^^ 2 ^ j) ∧
    (s.pages (pg ^^^ 2 ^ j)).log2Pages = j

instance (pmi : PmemInfo) (s : State) (pg j : ℕ) : Decidable (CanMerge pmi s pg j) := by
  unfold CanMerge
  infer_instance

theorem recheck_alone (hj : j ≤ logMaxFreePageBlock) (hm : ¬ CanMerge pmi s pg j) :
    recheck pmi (2 ^ j) (logMaxFreePageBlock - j) pg s = s.freeOneBlock pg j := by
  rcases Nat.eq_or_lt_of_le hj with rfl | hlt
  · simp [recheck]
  · obtain ⟨left, hl⟩ : ∃ left, logMaxFreePageBlock - j = left + 1 :=
      ⟨logMaxFreePageBlock - j - 1, by omega⟩
    have hj' : logMaxFreePageBlock - (left + 1) = j := by omega
    rw [hl]
    simp only [recheck, hj']
    exact if_neg fun hc => hm ⟨hlt, hc⟩

/-- After one merge, `jSize` is too small: the block that is looked at next is the upper half of the
merged one, and no other merge is made. -/
theorem recheck_stale (hj : j < logMaxFreePageBlock) (hp : 2 ^ (j + 1) ∣ p)
    (hs : ¬ s.IsFree (p + 2 ^ j)) :
    recheck pmi (2 ^ j) (logMaxFreePageBlock - (j + 1)) p s = s.freeOneBlock p (j + 1) := by
  rcases Nat.eq_or_lt_of_le (Nat.succ_le_of_lt hj) with heq | hlt
  · have h0 : logMaxFreePageBlock - (j + 1) = 0 := by omega
    have h1 : logMaxFreePageBlock = j + 1 := heq.symm
    rw [h0, recheck, h1]
  · obtain ⟨left, hl⟩ : ∃ left, logMaxFreePageBlock - (j + 1) = left + 1 :=
      ⟨logMaxFreePageBlock - (j + 1) - 1, by omega⟩
    have hj' : logMaxFreePageBlock - (left + 1) = j + 1 := by omega
    rw [hl]
    simp only [recheck, hj', xor_two_pow_of_dvd hp]
    exact if_neg fun hc => hs hc.2.1

theorem recheck_merge (hm : CanMerge pmi s pg j) (hpg : 2 ^ j ∣ pg) :
    ∃ lower, 2 ^ (j + 1) ∣ lower ∧
      (pg = lower ∧ pg ^^^ 2 ^ j = lower + 2 ^ j ∨ pg = lower + 2 ^ j ∧ pg ^^^ 2 ^ j = lower) ∧
      recheck pmi (2 ^ j) (logMaxFreePageBlock - j) pg s =
        ((s.unlink (pg ^^^ 2 ^ j)).setObType (lower + 2 ^ j) .ptFreeSecondary).freeOneBlock lower
          (j + 1) := by
  obtain ⟨hlt, hc⟩ := hm
  obtain ⟨left, hl⟩ : ∃ left, logMaxFreePageBlock - j = left + 1 :=
    ⟨logMaxFreePageBlock - j - 1, by omega⟩
  have hj' : logMaxFreePageBlock - (left + 1) = j := by omega
  have hl' : left = logMaxFreePageBlock - (j + 1) := by omega
  have hsec : ∀ (s : State) q, ¬ (s.setObType q .ptFreeSecondary).IsFree q := by
    intro s q
    simp [State.IsFree, State.setObType]
  rw [hl]
  simp only [recheck, hj']
  rw [if_pos hc]
  rcases xor_two_pow hpg with ⟨hdvd, hx⟩ | ⟨q, hdvd, hq, hx⟩
  · refine ⟨pg, hdvd, .inl ⟨rfl, hx⟩, ?_⟩
    rw [if_neg (by omega), hl', hx]
    exact recheck_stale hlt hdvd (hsec _ _)
  · refine ⟨q, hdvd, .inr ⟨hq, hx⟩, ?_⟩
    rw [if_pos (by omega), hl', hx, ← hq]
    exact recheck_stale hlt hdvd (hq ▸ hsec _ _)

theorem merged_eq {lower : ℕ} (hb : b = lower ∨ b = lower + 2 ^ j) :
    ((s.unlink b).setObType (lower + 2 ^ j) .ptFreeSecondary).freeOneBlock lower (j + 1) =
      ((s.take b .ptFreeSecondary).setObType (lower + 2 ^ j) .ptFreeSecondary).freeOneBlock lower
        (j + 1) := by
  simp only [State.freeOneBlock, State.setObType, State.unlink, State.take, State.mk.injEq, and_true]
  rcases hb with rfl | rfl
  · funext x
    by_cases hx : x = b
    · subst hx
      simp
    · by_cases hx' : x = b + 2 ^ j
      · subst hx'
        simp
      · simp [hx, hx']
  · simp

theorem Tidy.setObType (h : Tidy M s) (hx : ¬ s.IsFree pg) (ht : t ≠ .ptFreeFrame) :
    Tidy M (s.setObType pg t) :=
  h.setHeader hx ht

theorem CanMerge.hasBlock (hm : CanMerge pmi s pg j) (h : Tidy M s) (hpmi : pmi ∈ M.regions) :
    s.HasBlock (pg ^^^ 2 ^ j) j ∧ pmi.Holds (pg ^^^ 2 ^ j) (2 ^ j) := by
  have hpos : 0 < 2 ^ j := Nat.two_pow_pos j
  have hb : s.HasBlock (pg ^^^ 2 ^ j) j := (h.header _ _).2 hm.2.2
  obtain ⟨pmi', hpmi', hin⟩ := h.inside _ _ hb
  have hc : pmi'.Contains (pg ^^^ 2 ^ j) := hin.contains le_rfl (by omega)
  rw [M.region_unique hpmi hpmi' hm.2.1 hc]
  exact ⟨hb, hin⟩

theorem recheck_freed (h : Tidy M s) (hpmi : pmi ∈ M.regions) (hin : pmi.Holds pg (2 ^ j))
    (hj : j ≤ logMaxFreePageBlock) (hpg : 2 ^ j ∣ pg)
    (hfree : ∀ x, pg ≤ x → x < pg + 2 ^ j → ¬ s.FreePage x) :
    Freed M s (recheck pmi (2 ^ j) (logMaxFreePageBlock - j) pg s) pg (2 ^ j) := by
  by_cases hm : CanMerge pmi s pg j
  · have hpow : (2 : ℕ) ^ (j + 1) = 2 ^ j + 2 ^ j := by ring
    obtain ⟨hb, hbin⟩ := hm.hasBlock h hpmi
    obtain ⟨lower, hdvd, hlow, heq⟩ := recheck_merge hm hpg
    generalize pg ^^^ 2 ^ j = b at hb hbin hlow heq
    rw [merged_eq (by omega)] at heq
    rw [heq]
    obtain ⟨ht, hcov⟩ := h.take (t := .ptFreeSecondary) hb (by decide)
    have htot := h.totalFree_take (t := .ptFreeSecondary) hb
    have hno : ∀ x, lower ≤ x → x < lower + 2 ^ (j + 1) →
        ¬ (s.take b .ptFreeSecondary).FreePage x := by
      intro x hx hx' hfx
      obtain ⟨hfx, hxb⟩ := (hcov x).1 hfx
      by_cases hxp : pg ≤ x ∧ x < pg + 2 ^ j
      · exact hfree x hxp.1 hxp.2 hfx
      · omega
    have ht' := ht.setObType (t := .ptFreeSecondary)
      (ht.not_isFree (hno (lower + 2 ^ j) (by omega) (by omega))) (by decide)
    have hin' : pmi.Holds lower (2 ^ (j + 1)) := by
      obtain ⟨h₁, h₂⟩ := hin
      obtain ⟨h₃, h₄⟩ := hbin
      exact ⟨by omega, by omega⟩
    have hf := ht'.freed hpmi hin' hm.1 hdvd hno
    refine ⟨hf.tidy, fun x => ?_, ?_, hf.numFree⟩
    · rw [hf.freePage]
      have hbx : b ≤ x ∧ x < b + 2 ^ j → s.FreePage x := fun hx => ⟨b, j, hb, hx⟩
      by_cases hxb : b ≤ x ∧ x < b + 2 ^ j
      · exact iff_of_true (.inr (by omega)) (.inl (hbx hxb))
      · refine or_congr ((hcov x).trans (and_iff_left hxb)) ?_
        omega
    · rw [hf.totalFree, hpow]
      change (s.take b .ptFreeSecondary).totalFree + _ = _
      omega
  · rw [recheck_alone hj hm]
    exact h.freed hpmi hin hj hpg hfree

/-- Pages can be freed together if they start at a multiple of a power of two that is not less. -/
def Fits (pg n : ℕ) : Prop := ∃ k, 2 ^ k ∣ pg ∧ n ≤ 2 ^ k

theorem Fits.last (h : Fits pg n) (hk : 2 ^ k ∣ n) (hn : 2 ^ k ≤ n) :
    2 ^ k ∣ pg + n - 2 ^ k ∧ Fits pg (n - 2 ^ k) := by
  obtain ⟨m, hm, hnm⟩ := h
  have hkm : k ≤ m := (Nat.pow_le_pow_iff_right (by omega)).1 (hn.trans hnm)
  have hpg : 2 ^ k ∣ pg := (pow_dvd_pow 2 hkm).trans hm
  refine ⟨?_, m, hm, by omega⟩
  exact Nat.dvd_sub (Nat.dvd_add hpg hk) dvd_rfl

theorem Freed.trans {s₁ s₂ : State} (h₁ : Freed M s s₁ (pg + n) k)
    (h₂ : Freed M s₁ s₂ pg n) : Freed M s s₂ pg (n + k) := by
  refine ⟨h₂.tidy, fun x => ?_, ?_, h₂.numFree.trans h₁.numFree⟩
  · rw [h₂.freePage, h₁.freePage, or_assoc]
    exact or_congr_right (by omega)
  · rw [h₂.totalFree, h₁.totalFree]
    omega

theorem freeBlocks_freed (hpmi : pmi ∈ M.regions) :
    ∀ {n : ℕ} {s : State}, Tidy M s → pmi.Holds pg n → 0 < n → n ≤ fuel → Fits pg n →
      (∀ x, pg ≤ x → x < pg + n → ¬ s.FreePage x) →
      ∃ s', freeBlocks pmi pg fuel n s = .ok s' ∧ Freed M s s' pg n := by
  induction fuel with
  | zero =>
    intro n s _ _ hn hle
    omega
  | succ fuel ih =>
    intro n s h hin hn hle hfit hfree
    have hlt : n < 2 ^ 32 := by
      have := M.bounded pmi hpmi
      have := hin.2
      omega
    obtain ⟨hj, hdvd, hjn⟩ := lastOrder_spec hn hlt
    obtain ⟨hpg, hfit'⟩ := hfit.last hdvd hjn
    have hfirst : pg + n - 2 ^ lastOrder n = pg + (n - 2 ^ lastOrder n) := by omega
    have hin' : pmi.Holds (pg + n - 2 ^ lastOrder n) (2 ^ lastOrder n) :=
      ⟨by have := hin.1; omega, by have := hin.2; omega⟩
    have hfree' : ∀ x, pg + n - 2 ^ lastOrder n ≤ x →
        x < pg + n - 2 ^ lastOrder n + 2 ^ lastOrder n → ¬ s.FreePage x := by
      intro x hx hx'
      exact hfree x (by omega) (by omega)
    have hf := recheck_freed h hpmi hin' hj hpg hfree'
    have hnot : ¬ s.IsFree (pg + n - 2 ^ lastOrder n) :=
      h.not_isFree (hfree' _ le_rfl (by omega))
    simp only [freeBlocks, physPgNumToPageH_eq (hin'.contains le_rfl (by omega)), check, hnot,
      not_false_eq_true, if_true, bind, Except.bind]
    generalize recheck pmi (2 ^ lastOrder n) _ (pg + n - 2 ^ lastOrder n) s = s₁ at hf ⊢
    by_cases hdone : n - 2 ^ lastOrder n = 0
    · rw [if_pos hdone]
      have hn' : n = 2 ^ lastOrder n := by omega
      have hpg' : pg + n - 2 ^ lastOrder n = pg := by omega
      refine ⟨s₁, rfl, ?_⟩
      rw [hpg', ← hn'] at hf
      exact hf
    · rw [if_neg hdone]
      have hin₁ : pmi.Holds pg (n - 2 ^ lastOrder n) :=
        ⟨hin.1, by have := hin.2; omega⟩
      obtain ⟨s', hs', hf'⟩ := ih hf.tidy hin₁ (by omega) (by omega) hfit' (by
        intro x hx hx'
        rw [hf.freePage]
        have := hfree x hx (by omega)
        rintro (hfx | hfx)
        · exact this hfx
        · omega)
      refine ⟨s', hs', ?_⟩
      rw [hfirst] at hf
      have := hf.trans hf'
      rwa [Nat.sub_add_cancel hjn] at this

/-- `physMem_FreeBlock` frees these pages and counts them. -/
theorem freeBlock_spec (h : Tidy M s) (hpmi : pmi ∈ M.regions) (hin : pmi.Holds pg n) (hn : 0 < n)
    (hfit : Fits pg n) (hfree : ∀ x, pg ≤ x → x < pg + n → ¬ s.FreePage x) :
    ∃ s', freeBlock M pg n s = .ok s' ∧
      Freed M { s with numFreePageFrames := s.numFreePageFrames + n } s' pg n := by
  have hc : pmi.Contains pg := hin.contains le_rfl (by omega)
  have h' : Tidy M { s with numFreePageFrames := s.numFreePageFrames + n } :=
    ⟨h.tiling, h.order, h.inside, h.header, h.nodup⟩
  obtain ⟨s', hs', hf⟩ := freeBlocks_freed hpmi h' hin hn le_rfl hfit hfree
  refine ⟨s', ?_, hf⟩
  obtain ⟨k, hk, hnk⟩ := hfit
  simp only [freeBlock, physMemRegion_eq hpmi hc, check, lowestBit_of_dvd hk hnk, if_true, bind,
    Except.bind]
  exact hs'

/-! ## Allocating -/

theorem Freed.refl (h : Tidy M s) : Freed M s s pg 0 :=
  ⟨h, fun x => by simp only [Nat.add_zero]; exact (or_iff_left (by omega)).symm, rfl, rfl⟩

/-- The loop of `physMem_AllocateBlock` frees all pages of the block but the first `n`. The buddy of
each block that it frees starts among the pages that it keeps. -/
theorem carve_freed (hpmi : pmi ∈ M.regions) :
    ∀ {j n x : ℕ} {s s' : State}, carve pmi j n x s = .ok s' → Tidy M s → pmi.Holds x (2 ^ j) →
      2 ^ j ∣ x → j ≤ logMaxFreePageBlock → 0 < n → n ≤ 2 ^ j →
      (∀ y, x ≤ y → y < x + 2 ^ j → ¬ s.FreePage y) →
      Freed M s s' (x + n) (2 ^ j - n) ∧
        ∀ p i, s'.HasBlock p i → s.HasBlock p i ∨ x ≤ p ^^^ 2 ^ i ∧ p ^^^ 2 ^ i < x + n := by
  intro j
  induction j with
  | zero =>
    intro n x s s' hc h _ _ _ hn hle _
    have hn1 : 1 = n := by simp only [pow_zero] at hle; omega
    subst hn1
    simp only [carve, if_true, Except.ok.injEq] at hc
    subst hc
    exact ⟨Freed.refl h, fun p i hp => .inl hp⟩
  | succ j ih =>
    intro n x s s' hc h hin hx hj hn hle hfree
    have hxj : 2 ^ j ∣ x := (pow_dvd_pow 2 (by omega)).trans hx
    have hup : 2 ^ j ∣ x + 2 ^ j := Nat.dvd_add hxj dvd_rfl
    have hin₁ : pmi.Holds x (2 ^ j) := ⟨hin.1, by have := hin.2; omega⟩
    have hin₂ : pmi.Holds (x + 2 ^ j) (2 ^ j) :=
      ⟨by have := hin.1; omega, by have := hin.2; omega⟩
    by_cases heq : 2 ^ (j + 1) = n
    · simp only [carve, heq, if_true, Except.ok.injEq] at hc
      subst hc
      refine ⟨?_, fun p i hp => .inl hp⟩
      rw [heq, Nat.sub_self]
      exact Freed.refl h
    · simp only [carve, heq, if_false, physPgNumToPageH_eq (hin₂.contains le_rfl (by omega)), bind,
        Except.bind] at hc
      split at hc
      case isTrue hnj =>
        -- The upper half is freed.
        have hf := h.freed hpmi hin₂ (by omega) hup
          (fun y hy hy' => hfree y (by omega) (by omega))
        obtain ⟨hf', hbl⟩ := ih hc hf.tidy hin₁ hxj (by omega) hn hnj (by
          intro y hy hy' hfy
          rcases (hf.freePage y).1 hfy with hfy | hfy
          · exact hfree y hy (by omega) hfy
          · omega)
        refine ⟨?_, ?_⟩
        · have hstart : x + 2 ^ j = x + n + (2 ^ j - n) := by omega
          have := Freed.trans (by rwa [← hstart]) hf'
          rwa [show 2 ^ j - n + 2 ^ j = 2 ^ (j + 1) - n by omega] at this
        · intro p i hp
          rcases hbl p i hp with hp | hp
          · rcases hasBlock_freeOneBlock.1 hp with ⟨rfl, rfl⟩ | hp
            · right
              have hbuddy : (x + 2 ^ i) ^^^ 2 ^ i = x := by
                rw [← xor_two_pow_of_dvd hx, xor_xor_two_pow]
              rw [hbuddy]
              omega
            · exact .inl hp
          · exact .inr hp
      case isFalse hnj =>
        -- The lower half is kept.
        obtain ⟨_, -, hc⟩ := of_bind_ok hc
        obtain ⟨hf, hbl⟩ := ih hc h hin₂ hup (by omega) (by omega) (by omega)
          (fun y hy hy' => hfree y (by omega) (by omega))
        refine ⟨?_, ?_⟩
        · rwa [show x + 2 ^ j + (n - 2 ^ j) = x + n by omega,
            show 2 ^ j - (n - 2 ^ j) = 2 ^ (j + 1) - n by omega] at hf
        · intro p i hp
          rcases hbl p i hp with hp | hp
          · exact .inl hp
          · exact .inr (by omega)

/-- What allocating these pages does: they were free before, and are not free then. -/
structure Taken (M : Memory) (s s' : State) (pg n : ℕ) : Prop where
  tidy : Tidy M s'
  fits : 0 < n ∧ Fits pg n
  inside : ∃ pmi ∈ M.regions, pmi.Holds pg n
  wasFree : ∀ x, pg ≤ x → x < pg + n → s.FreePage x
  freePage : ∀ x, s'.FreePage x ↔ s.FreePage x ∧ ¬ (pg ≤ x ∧ x < pg + n)
  totalFree : s'.totalFree + n = s.totalFree
  numFree : s'.numFreePageFrames = s.numFreePageFrames - n

theorem firstBlock_spec
    (h : firstBlock s (List.range' k (logMaxFreePageBlock + 1 - k)) = some (pg, j)) :
    s.HasBlock pg j ∧ k ≤ j := by
  obtain ⟨i, hi, hf⟩ := List.exists_of_findSome?_eq_some h
  obtain ⟨q, hq, heq⟩ := Option.map_eq_some_iff.1 hf
  obtain ⟨rfl, rfl⟩ := heq
  exact ⟨List.mem_of_mem_head? hq, (List.mem_range'_1.1 hi).1⟩

theorem le_two_pow_of_fls (hn : n < 2 ^ 32)
    (hk : fls32 ((n + 2 ^ 32 - 1) % 2 ^ 32) ≤ logMaxFreePageBlock)
    (hkj : fls32 ((n + 2 ^ 32 - 1) % 2 ^ 32) ≤ k) : 0 < n ∧ n ≤ 2 ^ k := by
  rcases Nat.eq_zero_or_pos n with rfl | hpos
  · exact absurd hk (by decide)
  · have hpred : (n + 2 ^ 32 - 1) % 2 ^ 32 = n - 1 := by
      rw [show n + 2 ^ 32 - 1 = n - 1 + 2 ^ 32 by omega, Nat.add_mod_right]
      exact Nat.mod_eq_of_lt (by omega)
    rw [hpred] at hkj
    have hlt : n - 1 < 2 ^ fls32 (n - 1) := lt_two_pow_fls32 (by omega)
    have hle : 2 ^ fls32 (n - 1) ≤ 2 ^ k := Nat.pow_le_pow_right (by omega) hkj
    exact ⟨hpos, by omega⟩

/-- `physMem_AllocateBlock` returns a block, or leaves everything as it was. -/
theorem allocateBlock_spec {r : Option ℕ × State} (hn : n < 2 ^ 32)
    (hr : allocateBlock M n s = .ok r) (h : Tidy M s) :
    (r = (none, s)) ∨ ∃ pg, r.1 = some pg ∧ Taken M s r.2 pg n ∧
      ∀ p i, r.2.HasBlock p i → s.HasBlock p i ∨ pg ≤ p ^^^ 2 ^ i ∧ p ^^^ 2 ^ i < pg + n := by
  obtain ⟨_, hk, hr⟩ := of_bind_ok hr
  split at hr
  case h_1 => exact .inl (Except.ok.inj hr).symm
  case h_2 pg j hfirst =>
    obtain ⟨_, -, hr⟩ := of_bind_ok hr
    obtain ⟨pmi, hpmi, hr⟩ := of_bind_ok hr
    obtain ⟨s₁, hcarve, hr⟩ := of_bind_ok hr
    obtain rfl := Except.ok.inj hr
    obtain ⟨hb, hkj⟩ := firstBlock_spec hfirst
    obtain ⟨hn0, hnj⟩ := le_two_pow_of_fls hn (check_ok hk) hkj
    have hj := h.order pg j hb
    obtain ⟨hmem, hcon⟩ := physMemRegion_ok hpmi
    have hin : pmi.Holds pg (2 ^ j) := by
      obtain ⟨pmi', hmem', hin⟩ := h.inside pg j hb
      rwa [M.region_unique hmem hmem' hcon (hin.contains le_rfl (by omega))]
    obtain ⟨ht, hcov⟩ := h.take (t := .ptNewAlloc) hb (by decide)
    have htot := h.totalFree_take (t := .ptNewAlloc) hb
    have ht' : Tidy M { s.take pg .ptNewAlloc with
        numFreePageFrames := s.numFreePageFrames - n } :=
      ⟨ht.tiling, ht.order, ht.inside, ht.header, ht.nodup⟩
    obtain ⟨hf, hbl⟩ := carve_freed hmem hcarve ht' hin (h.tiling.aligned pg j hb) hj hn0 hnj
      (fun y hy hy' hfy => ((hcov y).1 hfy).2 ⟨hy, hy'⟩)
    refine .inr ⟨pg, rfl, ⟨hf.tidy, ⟨hn0, j, h.tiling.aligned pg j hb, hnj⟩,
      ⟨pmi, hmem, hin.1, by have := hin.2; omega⟩, ?_, ?_, ?_, hf.numFree⟩, ?_⟩
    · intro x hx hx'
      exact ⟨pg, j, hb, hx, by omega⟩
    · intro x
      have hwas : pg ≤ x ∧ x < pg + 2 ^ j → s.FreePage x := fun hx => ⟨pg, j, hb, hx⟩
      rw [hf.freePage]
      change (s.take pg .ptNewAlloc).FreePage x ∨ _ ↔ _
      rw [hcov]
      by_cases hx : pg ≤ x ∧ x < pg + 2 ^ j
      · simp only [hwas hx, true_and]
        omega
      · have hx' : ¬ (pg + n ≤ x ∧ x < pg + n + (2 ^ j - n)) := by omega
        have hx'' : ¬ (pg ≤ x ∧ x < pg + n) := by omega
        simp only [hx, hx', hx'', not_false_eq_true, and_true, or_false]
    · rw [hf.totalFree]
      change (s.take pg .ptNewAlloc).totalFree + _ + _ = _
      omega
    · intro p i hp
      rcases hbl p i hp with hp | hp
      · exact .inl (h.hasBlock_take (t := .ptNewAlloc).1 hp).2
      · exact .inr hp

/-! ## Splitting -/

theorem containingBlock_isFree :
    ∀ {pg p : ℕ}, containingBlock pmi s fuel pg = .ok p → s.IsFree p := by
  induction fuel with
  | zero =>
    intro pg p h
    cases h
  | succ fuel ih =>
    intro pg p h
    unfold containingBlock at h
    split at h
    case isTrue hf => exact Except.ok.inj h ▸ hf
    case isFalse =>
      obtain ⟨_, -, h⟩ := of_bind_ok h
      obtain ⟨_, -, h⟩ := of_bind_ok h
      exact ih h

theorem freeOneBlock_take : (s.take pg t).freeOneBlock pg j =
    (s.unlink pg).freeOneBlock pg j := by
  simp [State.take, State.setObType, State.freeOneBlock]

/-- `physMem_SplitContainingFreeBlock` keeps the free pages. -/
theorem split_spec (hr : splitContainingFreeBlock M pg s = .ok s') (h : Tidy M s) :
    Tidy M s' ∧ (∀ x, s'.FreePage x ↔ s.FreePage x) ∧ s'.totalFree = s.totalFree ∧
      s'.numFreePageFrames = s.numFreePageFrames := by
  obtain ⟨pmi, -, hr⟩ := of_bind_ok hr
  obtain ⟨head, hhead, hr⟩ := of_bind_ok hr
  split at hr
  case h_1 => cases hr
  case h_2 j hlog =>
    obtain ⟨lower, hlow, hr⟩ := of_bind_ok hr
    obtain ⟨upper, hup, hr⟩ := of_bind_ok hr
    rw [(physPgNumToPageH_ok hlow).1, (physPgNumToPageH_ok hup).1] at hr
    obtain rfl := Except.ok.inj hr
    have hb : s.HasBlock head (j + 1) :=
      (h.header head (j + 1)).2 ⟨containingBlock_isFree hhead, hlog⟩
    have hj := h.order head (j + 1) hb
    have hal : 2 ^ j ∣ head :=
      (pow_dvd_pow 2 (by omega)).trans (h.tiling.aligned head (j + 1) hb)
    obtain ⟨pmi', hmem, hin⟩ := h.inside head (j + 1) hb
    rw [← freeOneBlock_take (t := .ptFreeSecondary)]
    obtain ⟨ht, hcov⟩ := h.take (t := .ptFreeSecondary) hb (by decide)
    have htot := h.totalFree_take (t := .ptFreeSecondary) hb
    have hf := ht.freed (j := j) hmem (⟨hin.1, by have := hin.2; omega⟩ : pmi'.Holds head (2 ^ j)) (by omega) hal
      (fun x hx hx' hfx => ((hcov x).1 hfx).2 ⟨hx, by omega⟩)
    have hf' := hf.tidy.freed (j := j) hmem
      (⟨by have := hin.1; omega, by have := hin.2; omega⟩ : pmi'.Holds (head + 2 ^ j) (2 ^ j)) (by omega) (Nat.dvd_add hal dvd_rfl) (by
        intro x hx hx' hfx
        rcases (hf.freePage x).1 hfx with hfx | hfx
        · exact ((hcov x).1 hfx).2 ⟨by omega, by omega⟩
        · omega)
    refine ⟨hf'.tidy, fun x => ?_, ?_, hf'.numFree.trans hf.numFree⟩
    · have hwas : head ≤ x ∧ x < head + 2 ^ (j + 1) → s.FreePage x := fun hx => ⟨head, _, hb, hx⟩
      rw [hf'.freePage, hf.freePage, hcov]
      by_cases hx : head ≤ x ∧ x < head + 2 ^ (j + 1)
      · refine iff_of_true ?_ (hwas hx)
        omega
      · rw [and_iff_left hx, or_assoc]
        exact or_iff_left (by omega)
    · rw [hf'.totalFree, hf.totalFree]
      omega

theorem isolate_spec :
    ∀ {s s' : State}, isolate M pg fuel s = .ok s' → Tidy M s →
      (Tidy M s' ∧ (∀ x, s'.FreePage x ↔ s.FreePage x) ∧ s'.totalFree = s.totalFree ∧
        s'.numFreePageFrames = s.numFreePageFrames) ∧ s'.HasBlock pg 0 := by
  induction fuel with
  | zero =>
    intro s s' hr _
    cases hr
  | succ fuel ih =>
    intro s s' hr h
    unfold isolate at hr
    split at hr
    case isTrue hfree =>
      obtain rfl := Except.ok.inj hr
      exact ⟨⟨h, fun x => Iff.rfl, rfl, rfl⟩, (h.header pg 0).2 hfree⟩
    case isFalse =>
      obtain ⟨s₁, hsplit, hr⟩ := of_bind_ok hr
      obtain ⟨ht, hcov, htot, hnum⟩ := split_spec hsplit h
      obtain ⟨⟨ht', hcov', htot', hnum'⟩, hb⟩ := ih hr ht
      exact ⟨⟨ht', fun x => (hcov' x).trans (hcov x), htot'.trans htot, hnum'.trans hnum⟩, hb⟩

theorem allocateThisPhysPage_spec {pagePA : ℕ} {r : ℕ × State}
    (hr : allocateThisPhysPage M pagePA s = .ok r) (h : Tidy M s) :
    r.1 = pagePA / pageSize ∧ Taken M s r.2 (pagePA / pageSize) 1 := by
  obtain ⟨pmi, hpmi, hr⟩ := of_bind_ok hr
  obtain ⟨s₁, hiso, hr⟩ := of_bind_ok hr
  obtain rfl := Except.ok.inj hr
  obtain ⟨hmem, hcon⟩ := physMemRegion_ok hpmi
  obtain ⟨⟨ht, hcov, htot, hnum⟩, hb⟩ := isolate_spec hiso h
  obtain ⟨ht', hcov'⟩ := ht.take (t := .ptNewAlloc) hb (by decide)
  have htot' := ht.totalFree_take (t := .ptNewAlloc) hb
  refine ⟨rfl, ⟨ht'.tiling, ht'.order, ht'.inside, ht'.header, ht'.nodup⟩, ⟨by omega, 0, by simp⟩,
    ⟨pmi, hmem, hcon.1, hcon.2⟩, ?_, ?_, ?_, ?_⟩
  · intro x hx hx'
    obtain rfl : x = pagePA / pageSize := by omega
    exact (hcov _).1 (covered_head hb)
  · intro x
    rw [← hcov]
    exact hcov' x
  · rw [← htot]
    exact htot'
  · exact congrArg (· - 1) hnum

/-! ## The first blocks -/

theorem ffs32_add_lt (hn : 0 < n) (hlt : n + 2 ^ ffs32 n < 2 ^ 32) :
    ffs32 n < ffs32 (n + 2 ^ ffs32 n) := by
  obtain ⟨c, hc⟩ := ffs32_spec hn (lt_of_le_of_lt (Nat.le_add_right _ _) hlt)
  obtain ⟨d, hd⟩ := ffs32_spec (n := n + 2 ^ ffs32 n) (Nat.add_pos_left hn _) hlt
  by_contra hle
  -- The sum is a multiple of `2 ^ (ffs32 n + 1)`, but only an odd one of the lower power.
  have h₁ : 2 ^ (ffs32 n + 1) ∣ n + 2 ^ ffs32 n := by
    refine ⟨c + 1, ?_⟩
    rw [pow_succ]
    nlinarith
  have h₂ : 2 ^ (ffs32 (n + 2 ^ ffs32 n) + 1) ∣ n + 2 ^ ffs32 n :=
    (pow_dvd_pow 2 (by omega)).trans h₁
  obtain ⟨e, he⟩ := h₂
  rw [pow_succ, mul_assoc] at he
  have h₃ := hd.symm.trans he
  rw [mul_comm (2 * d + 1)] at h₃
  have h₄ := Nat.eq_of_mul_eq_mul_left (Nat.two_pow_pos _) h₃
  omega

/-- The calls of `physMem_FreeBlock` in `physMem_FreeAll`. What has been freed before is less than
the power of two that `pg` is a multiple of. -/
structure Rising (pmi : PmemInfo) (s : State) (pg n : ℕ) : Prop where
  low : pg < pmi.firstObPgAddr + 2 ^ ffs32 pg
  holds : pmi.Holds pg n
  pos : 0 < n
  fits : Fits pg n
  notFree : ∀ x, pg ≤ x → pmi.Contains x → ¬ s.FreePage x

theorem Freed.count (hc : s.numFreePageFrames = s.totalFree)
    (hf : Freed M { s with numFreePageFrames := s.numFreePageFrames + n } s' pg n) :
    s'.numFreePageFrames = s'.totalFree := by
  rw [hf.numFree, hf.totalFree]
  exact congrArg (· + n) hc

variable {P : State → Prop}

theorem freeAllFrom_spec (hpmi : pmi ∈ M.regions)
    (hP : ∀ {s s' : State} {pg n : ℕ}, P s → Tidy M s → Rising pmi s pg n →
      freeBlock M pg n s = .ok s' → P s') :
    ∀ {pg n : ℕ} {s : State}, n < fuel → Tidy M s → P s → s.numFreePageFrames = s.totalFree →
      pmi.firstObPgAddr ≤ pg → pg + n = pmi.firstObPgAddr + pmi.nPages →
      (∀ x, pg ≤ x → pmi.Contains x → ¬ s.FreePage x) → pg < pmi.firstObPgAddr + 2 ^ ffs32 pg →
      ∃ s', freeAllFrom M pmi fuel pg n s = .ok s' ∧ Tidy M s' ∧ P s' ∧
        s'.numFreePageFrames = s'.totalFree ∧
        ∀ x, s'.FreePage x → s.FreePage x ∨ pmi.Contains x := by
  induction fuel with
  | zero =>
    intro pg n s hfuel
    omega
  | succ fuel ih =>
    intro pg n s hfuel h hPs hcount hfirst hend hfree hlow
    unfold freeAllFrom
    split
    case isTrue => exact ⟨s, rfl, h, hPs, hcount, fun x hx => .inl hx⟩
    case isFalse hn0 =>
      have hbound := M.bounded pmi hpmi
      have hall : pmi.Holds pg n := ⟨hfirst, hend.le⟩
      have hpow : 0 < 2 ^ ffs32 pg := Nat.two_pow_pos _
      have hcon : pmi.Contains pg := hall.contains le_rfl (by omega)
      have hfree' : ∀ {k : ℕ}, k ≤ n → ∀ x, pg ≤ x → x < pg + k → ¬ s.FreePage x :=
        fun hk x hx hx' => hfree x hx (hall.contains hx (by omega))
      rw [physPgNumToPageH_eq hcon, ok_bind]
      by_cases hlast : n < 2 ^ ffs32 pg
      · rw [if_pos hlast]
        have hfit : Fits pg n := by
          rcases Nat.eq_zero_or_pos pg with rfl | hpg
          · exact ⟨n, dvd_zero _, Nat.lt_two_pow_self.le⟩
          · obtain ⟨c, hc⟩ := ffs32_spec hpg (by omega)
            exact ⟨ffs32 pg, ⟨2 * c + 1, by rw [mul_comm]; exact hc⟩, hlast.le⟩
        obtain ⟨s', hs', hf⟩ := freeBlock_spec h hpmi hall (by omega) hfit (hfree' le_rfl)
        refine ⟨s', hs', hf.tidy, ?_, hf.count hcount, ?_⟩
        · exact hP hPs h ⟨hlow, hall, by omega, hfit, hfree⟩ hs'
        · intro x hx
          refine ((hf.freePage x).1 hx).imp_right fun hx => ?_
          exact hall.contains hx.1 hx.2
      · rw [if_neg hlast]
        have hpg : 0 < pg := by
          rcases Nat.eq_zero_or_pos pg with rfl | hpg
          · have h31 : ffs32 0 = 31 := by decide
            rw [h31] at hlast
            omega
          · exact hpg
        obtain ⟨c, hc⟩ := ffs32_spec hpg (by omega)
        have hfit : Fits pg (2 ^ ffs32 pg) :=
          ⟨ffs32 pg, ⟨2 * c + 1, by rw [mul_comm]; exact hc⟩, le_rfl⟩
        have hin : pmi.Holds pg (2 ^ ffs32 pg) := ⟨hfirst, by omega⟩
        obtain ⟨s₁, hs₁, hf⟩ := freeBlock_spec h hpmi hin hpow hfit (hfree' (by omega))
        rw [hs₁, ok_bind]
        have hP₁ := hP hPs h ⟨hlow, hin, hpow, hfit, hfree⟩ hs₁
        have hstep := ffs32_add_lt hpg (by omega)
        have hmono : (2 : ℕ) ^ (ffs32 pg + 1) ≤ 2 ^ ffs32 (pg + 2 ^ ffs32 pg) :=
          Nat.pow_le_pow_right (by omega) hstep
        obtain ⟨s', hs', ht', hP', hc', hfp⟩ := ih (by omega) hf.tidy hP₁ (hf.count hcount)
          (by omega : pmi.firstObPgAddr ≤ pg + 2 ^ ffs32 pg)
          (by omega : pg + 2 ^ ffs32 pg + (n - 2 ^ ffs32 pg) = pmi.firstObPgAddr + pmi.nPages) (by
            intro x hx hxc hfx
            rcases (hf.freePage x).1 hfx with hfx | hfx
            · exact hfree x (by omega) hxc hfx
            · omega) (by omega)
        refine ⟨s', hs', ht', hP', hc', fun x hx => ?_⟩
        rcases hfp x hx with hx | hx
        · exact ((hf.freePage x).1 hx).imp_right fun hx => hin.contains hx.1 hx.2
        · exact .inr hx

theorem tidy_cleared : Tidy M cleared := by
  have hno : ∀ pg j, ¬ cleared.HasBlock pg j := fun pg j h => by simp [State.HasBlock, cleared] at h
  refine ⟨⟨fun p j h => absurd h (hno p j), fun p i q j x h => absurd h (hno p i)⟩,
    fun p j h => absurd h (hno p j), fun p j h => absurd h (hno p j), fun p j => ?_, fun j => ?_⟩
  · exact iff_of_false (hno p j) (fun h => by simp [State.IsFree, cleared] at h)
  · simp [cleared]

theorem Tidy.markSecondary (h : Tidy M s) (hfree : ∀ x, pmi.Contains x → ¬ s.FreePage x) :
    Tidy M (s.markSecondary pmi) := by
  refine ⟨h.tiling, h.order, h.inside, fun p j => ?_, h.nodup⟩
  by_cases hp : pmi.Contains p
  · refine iff_of_false (fun hb => hfree p hp (covered_head hb)) ?_
    simp [State.IsFree, State.markSecondary, hp]
  · simp only [State.IsFree, State.markSecondary, hp, if_false]
    exact h.header p j

/-- The pages of all regions of memory are freed at first. What each call of `physMem_FreeBlock`
keeps there holds then. -/
theorem initFrames_spec (hP₀ : P cleared)
    (hmark : ∀ {s : State} {pmi : PmemInfo}, P s → P (s.markSecondary pmi))
    (hP : ∀ {s s' : State} {pmi : PmemInfo} {pg n : ℕ}, pmi ∈ M.regions → P s → Tidy M s →
      Rising pmi s pg n → freeBlock M pg n s = .ok s' → P s') :
    ∃ s, initFrames M = .ok s ∧ Tidy M s ∧ P s ∧ s.numFreePageFrames = s.totalFree := by
  -- The regions that have not been visited have no free pages.
  have hloop : ∀ (l : List PmemInfo) (s : State), (∀ pmi ∈ l, pmi ∈ M.regions) →
      l.Pairwise (fun pmi pmi' => ∀ pg, pmi.Contains pg → ¬ pmi'.Contains pg) → Tidy M s → P s →
      s.numFreePageFrames = s.totalFree → (∀ pmi ∈ l, ∀ x, pmi.Contains x → ¬ s.FreePage x) →
      ∃ s', l.foldlM (initRegion M) s = .ok s' ∧ Tidy M s' ∧ P s' ∧
        s'.numFreePageFrames = s'.totalFree := by
    intro l
    induction l with
    | nil =>
      intro s _ _ h hPs hc _
      exact ⟨s, rfl, h, hPs, hc⟩
    | cons pmi l ih =>
      intro s hl hdis h hPs hc hfree
      rw [List.forall_mem_cons] at hl hfree
      rw [List.pairwise_cons] at hdis
      rw [List.foldlM_cons]
      by_cases hty : pmi.type = .memory
      · have hpow : 0 < 2 ^ ffs32 pmi.firstObPgAddr := Nat.two_pow_pos _
        obtain ⟨s₁, hs₁, ht₁, hP₁, hc₁, hf₁⟩ := freeAllFrom_spec hl.1 (P := P) (hP hl.1)
          (Nat.lt_succ_self pmi.nPages) (h.markSecondary hfree.1) (hmark hPs) hc le_rfl rfl
          (fun x _ hx => hfree.1 x hx) (Nat.lt_add_of_pos_right hpow)
        rw [initRegion, if_pos hty, freeAll, hs₁, ok_bind]
        refine ih s₁ hl.2 hdis.2 ht₁ hP₁ hc₁ ?_
        intro pmi' hpmi' x hx hfx
        rcases hf₁ x hfx with hfx | hfx
        · exact hfree.2 pmi' hpmi' x hx hfx
        · exact hdis.1 pmi' hpmi' x hfx hx
      · rw [initRegion, if_neg hty, ok_bind]
        exact ih s hl.2 hdis.2 h hPs hc hfree.2
  refine hloop M.regions cleared (fun _ h => h) M.disjoint tidy_cleared hP₀ ?_ ?_
  · simp [cleared, State.totalFree]
  · intro pmi _ x _ hx
    obtain ⟨p, j, hb, -⟩ := hx
    simp [State.HasBlock, cleared] at hb

/-! ## Runs -/

/-- The page is one of the block. -/
def InBlock (b : ℕ × ℕ) (x : ℕ) : Prop := b.1 ≤ x ∧ x < b.1 + b.2

/-- What a run keeps. -/
structure Inv (M : Memory) (s : System) : Prop where
  tidy : Tidy M s.mem
  count : s.mem.numFreePageFrames = s.mem.totalFree
  blocks : ∀ b ∈ s.allocated, (0 < b.2 ∧ Fits b.1 b.2) ∧ ∃ pmi ∈ M.regions, pmi.Holds b.1 b.2
  notFree : ∀ b ∈ s.allocated, ∀ x, InBlock b x → ¬ s.mem.FreePage x
  apart : s.allocated.Pairwise (fun b c => ∀ x, InBlock b x → ¬ InBlock c x)

variable {σ σ' : System} {op : Op} {mem : State}

theorem Inv.taken (h : Inv M σ) (ht : Taken M σ.mem mem pg n) :
    Inv M ⟨mem, (pg, n) :: σ.allocated⟩ := by
  refine ⟨ht.tidy, ?_, ?_, ?_, ?_⟩
  · have hle : n ≤ σ.mem.totalFree := by
      have := ht.totalFree
      omega
    have := ht.totalFree
    change mem.numFreePageFrames = mem.totalFree
    rw [ht.numFree, h.count]
    omega
  · exact List.forall_mem_cons.2 ⟨⟨ht.fits, ht.inside⟩, h.blocks⟩
  · refine List.forall_mem_cons.2 ⟨fun x hx hfx => ((ht.freePage x).1 hfx).2 hx, ?_⟩
    intro b hb x hx hfx
    exact h.notFree b hb x hx ((ht.freePage x).1 hfx).1
  · refine List.pairwise_cons.2 ⟨fun b hb x hx hbx => ?_, h.apart⟩
    exact h.notFree b hb x hbx (ht.wasFree x hx.1 hx.2)

theorem Inv.apart_of_ne (h : Inv M σ) {b c : ℕ × ℕ} (hb : b ∈ σ.allocated) (hc : c ∈ σ.allocated)
    (hne : b ≠ c) (hx : InBlock b x) : ¬ InBlock c x := by
  have hsymm : Std.Symm fun b c : ℕ × ℕ => ∀ x, InBlock b x → ¬ InBlock c x :=
    ⟨fun _ _ h x h₁ h₂ => h x h₂ h₁⟩
  exact h.apart.forall hb hc hne x hx

theorem Inv.nodup (h : Inv M σ) : σ.allocated.Nodup := by
  refine h.apart.imp_of_mem fun {b c} hb _ hd heq => ?_
  subst heq
  have hpos := (h.blocks b hb).1.1
  have hx : InBlock b b.1 := ⟨le_rfl, by omega⟩
  exact hd b.1 hx hx

theorem Inv.run (h : Inv M σ) (ha : op.Allowed σ) (hr : op.run M σ = .ok σ') : Inv M σ' := by
  cases op with
  | allocateBlock n =>
    obtain ⟨r, hal, hr⟩ := of_bind_ok hr
    rcases allocateBlock_spec ha hal h.tidy with rfl | ⟨pg, hpg, ht, -⟩
    · obtain rfl := Except.ok.inj hr
      exact h
    · obtain ⟨_, mem⟩ := r
      obtain rfl : _ = some pg := hpg
      obtain rfl := Except.ok.inj hr
      exact h.taken ht
  | freeBlock pg n =>
    obtain ⟨mem, hmem, hr⟩ := of_bind_ok hr
    obtain rfl := Except.ok.inj hr
    obtain ⟨⟨hpos, hfit⟩, pmi, hpmi, hin⟩ := h.blocks _ ha
    obtain ⟨s', hs', hf⟩ := freeBlock_spec h.tidy hpmi hin hpos hfit
      (fun x hx hx' => h.notFree _ ha x ⟨hx, hx'⟩)
    obtain rfl := Except.ok.inj (hmem.symm.trans hs')
    refine ⟨hf.tidy, hf.count h.count, fun b hb => h.blocks b (List.mem_of_mem_erase hb), ?_,
      h.apart.sublist List.erase_sublist⟩
    intro b hb x hx hfx
    obtain ⟨hne, hb⟩ := h.nodup.mem_erase_iff.1 hb
    rcases (hf.freePage x).1 hfx with hfx | hfx
    · exact h.notFree b hb x hx hfx
    · exact h.apart_of_ne hb ha hne hx hfx
  | splitContainingFreeBlock pg =>
    obtain ⟨mem, hmem, hr⟩ := of_bind_ok hr
    obtain rfl := Except.ok.inj hr
    obtain ⟨ht, hcov, htot, hnum⟩ := split_spec hmem h.tidy
    refine ⟨ht, hnum.trans (h.count.trans htot.symm), h.blocks, fun b hb x hx hfx => ?_, h.apart⟩
    exact h.notFree b hb x hx ((hcov x).1 hfx)
  | allocateThisPhysPage pagePA =>
    obtain ⟨r, hal, hr⟩ := of_bind_ok hr
    obtain ⟨hpg, ht⟩ := allocateThisPhysPage_spec hal h.tidy
    obtain ⟨pg, mem⟩ := r
    obtain rfl : pg = _ := hpg
    obtain rfl := Except.ok.inj hr
    exact h.taken ht
  | setHeader pg hd =>
    obtain ⟨⟨b, hb, hx⟩, hty⟩ := ha
    obtain rfl := Except.ok.inj hr
    have hnot := h.tidy.not_isFree (h.notFree b hb pg hx)
    exact ⟨h.tidy.setHeader hnot hty, h.count, h.blocks, h.notFree, h.apart⟩

theorem inv_of_reach (h : Reach M σ) : Inv M σ := by
  induction h with
  | init hi =>
    obtain ⟨s, hs, ht, -, hc⟩ := initFrames_spec (M := M) (P := fun _ => True) trivial
      (fun _ => trivial) (fun _ _ _ _ _ => trivial)
    obtain rfl := Except.ok.inj (hi.symm.trans hs)
    exact ⟨ht, hc, by simp, by simp, List.Pairwise.nil⟩
  | step _ ha hr ih => exact ih.run ha hr

/-- The free blocks are disjoint, aligned, inside their regions and apart from the allocated blocks;
the pages of an allocated block exist and are in no other; and the free pages are counted. -/
structure Safe (M : Memory) (σ : System) : Prop where
  once : ∀ j, (σ.mem.freePages j).Nodup
  disjoint : ∀ p i q j x, σ.mem.HasBlock p i → σ.mem.HasBlock q j → InBlock (p, 2 ^ i) x →
    InBlock (q, 2 ^ j) x → p = q ∧ i = j
  aligned : ∀ p j, σ.mem.HasBlock p j → 2 ^ j ∣ p
  inside : ∀ p j, σ.mem.HasBlock p j → ∃ pmi ∈ M.regions, pmi.Holds p (2 ^ j)
  notFree : ∀ b ∈ σ.allocated, ∀ p j x, σ.mem.HasBlock p j → InBlock (p, 2 ^ j) x → ¬ InBlock b x
  whole : ∀ b ∈ σ.allocated, ∃ pmi ∈ M.regions, pmi.Holds b.1 b.2
  apart : σ.allocated.Pairwise (fun b c => ∀ x, InBlock b x → ¬ InBlock c x)
  count : σ.mem.numFreePageFrames = σ.mem.totalFree

/-- A block that `physMem_AllocateBlock` returns has all the pages that were asked for: they are
pages of one region, they were free and are not free any more. -/
def Grants (M : Memory) (s : State) (n : ℕ) : Prop :=
  ∀ pg s', allocateBlock M n s = .ok (some pg, s') →
    (∃ pmi ∈ M.regions, pmi.Holds pg n) ∧ ∀ x, InBlock (pg, n) x → s.FreePage x ∧ ¬ s'.FreePage x

/-- **The allocator is safe** in every run, and gives as many pages as it is asked for. -/
theorem safe_of_reach (h : Reach M σ) : Safe M σ ∧ ∀ n, n < 2 ^ 32 → Grants M σ.mem n := by
  have hi := inv_of_reach h
  refine ⟨⟨hi.tidy.nodup, ?_, hi.tidy.tiling.aligned, hi.tidy.inside, ?_, ?_, hi.apart, hi.count⟩, ?_⟩
  · intro p i q j x hp hq hx hx'
    exact hi.tidy.tiling.disjoint p i q j x hp hq hx.1 hx.2 hx'.1 hx'.2
  · intro b hb p j x hp hx hbx
    exact hi.notFree b hb x hbx ⟨p, j, hp, hx⟩
  · intro b hb
    exact (hi.blocks b hb).2
  · intro n hn pg s' hal
    rcases allocateBlock_spec hn hal hi.tidy with hnone | ⟨pg', hpg, ht, -⟩
    · cases hnone
    · obtain rfl := Option.some.inj hpg
      refine ⟨ht.inside, fun x hx => ⟨ht.wasFree x hx.1 hx.2, fun hfx => ?_⟩⟩
      exact ((ht.freePage x).1 hfx).2 hx

/-- A region of seven pages that starts at page 3. -/
def sevenPages : Memory where
  regions := [⟨.memory, 3, 7⟩]
  bounded := by decide
  disjoint := by simp

/-- Three pages are allocated, then a page of its own, and the three pages are freed. -/
theorem safe_of_reach_sevenPages : ∃ σ, Reach sevenPages σ ∧
    (σ.allocated = [(8, 1)] ∧ σ.mem.numFreePageFrames = 6 ∧ σ.mem.freePages 2 = [4]) ∧
      Safe sevenPages σ ∧ ∀ n, n < 2 ^ 32 → Grants sevenPages σ.mem n := by
  have hrun : (runFrom sevenPages [.allocateBlock 3, .splitContainingFreeBlock 9,
      .allocateThisPhysPage (8 * pageSize), .freeBlock 4 3]).map
      (fun σ => (σ.allocated, σ.mem.numFreePageFrames, σ.mem.freePages 2)) =
        some ([(8, 1)], 6, [4]) := by decide +kernel
  obtain ⟨σ, hσ, hv⟩ := Option.map_eq_some_iff.1 hrun
  simp only [Prod.mk.injEq] at hv
  have hreach := reach_of_runFrom hσ
  exact ⟨σ, hreach, hv, safe_of_reach hreach⟩

end CapROS.PhysMem
