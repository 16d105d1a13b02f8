import CapROS.Cmme.Maps
import CapROS.PhysMem.Safety

/-!
# The maps area is safe if liberated blocks merge once, downwards

`maps_liberate_locked` merges a block with its free buddy, but leaves the mark of the buddy. If the buddy is the
upper half, the mark stays when the buddy is on no free list any more. As `jSize` keeps the size of the smaller
block, no block is merged twice. Pages that are liberated apart from the rest of their block need not be aligned.

* `maps_proper`: what holds in the runs with such liberations; `maps_mark`: it does not hold in all runs.
-/

namespace CapROS.Cmme

open BuddyBlocks
open PhysMem (ffs32 fls32)

/-- The free lists have the block of `2 ^ j` pages at `p`. -/
def State.HasBlock (s : State) (p j : ℕ) : Prop := p ∈ s.availList j

/-- The page is in a free block. -/
def State.FreePage (s : State) (x : ℕ) : Prop :=
  ∃ j ∈ List.range (logMaxBlockSize + 1), ∃ p ∈ s.availList j, p ≤ x ∧ x < p + 2 ^ j

instance (s : State) (x : ℕ) : Decidable (s.FreePage x) := by
  unfold State.FreePage
  infer_instance

/-- The free blocks are a tiling without buddies, inside the area, and the marks agree with the free lists. -/
structure Tidy (s : State) : Prop where
  tiling : Tiling s.HasBlock
  order : ∀ p j, s.HasBlock p j → j ≤ logMaxBlockSize
  inside : ∀ p j, s.HasBlock p j → p + 2 ^ j ≤ numpages
  mark : ∀ p j, s.HasBlock p j ↔ (s.mpages p).isFree = true ∧ (s.mpages p).kval = j
  nodup : ∀ j, (s.availList j).Nodup
  noBuddies : NoBuddies (fun _ _ => True) logMaxBlockSize s.HasBlock

variable {s s' : State} {p q i j n x a b : ℕ}

theorem Tidy.freePage_iff (h : Tidy s) : s.FreePage x ↔ Covered s.HasBlock x := by
  constructor
  · rintro ⟨j, -, p, hp, hx⟩
    exact ⟨p, j, hp, hx⟩
  · rintro ⟨p, j, hp, hx⟩
    exact ⟨j, List.mem_range.2 (Nat.lt_succ_of_le (h.order p j hp)), p, hp, hx⟩

theorem Tidy.listed (h : Tidy s) (hp : s.HasBlock p j) : s.Listed p :=
  ⟨j, List.mem_range.2 (Nat.lt_succ_of_le (h.order p j hp)), hp⟩

theorem Tidy.isFree_iff (h : Tidy s) : (s.mpages p).isFree = true ↔ s.Listed p := by
  constructor
  · intro hf
    exact h.listed ((h.mark p _).2 ⟨hf, rfl⟩)
  · rintro ⟨j, -, hp⟩
    exact ((h.mark p j).1 hp).1

theorem Tidy.not_isFree (h : Tidy s) (hx : ¬ Covered s.HasBlock p) : (s.mpages p).isFree = false := by
  rw [← Bool.not_eq_true]
  intro hf
  exact hx (covered_head ((h.mark p _).2 ⟨hf, rfl⟩))

/-! ## Putting in and taking out blocks -/

theorem hasBlock_liberateOneBlock :
    (s.liberateOneBlock q j).HasBlock p i ↔ p = q ∧ i = j ∨ s.HasBlock p i := by
  unfold State.HasBlock State.liberateOneBlock
  by_cases hi : i = j
  · subst hi
    simp
  · simp [hi]

/-- What putting these pages into the free blocks does. -/
structure Freed (s s' : State) (a b : ℕ) : Prop where
  tidy : Tidy s'
  covered : ∀ x, Covered s'.HasBlock x ↔ Covered s.HasBlock x ∨ a ≤ x ∧ x < b

theorem Freed.trans {s₁ s₂ : State} {c : ℕ} (h₁ : Freed s s₁ b c) (h₂ : Freed s₁ s₂ a b) (hab : a ≤ b)
    (hbc : b ≤ c) : Freed s s₂ a c := by
  refine ⟨h₂.tidy, fun x => ?_⟩
  rw [h₂.covered, h₁.covered, or_assoc]
  apply or_congr_right
  omega

theorem Tidy.liberateOneBlock (h : Tidy s) (hin : q + 2 ^ j ≤ numpages) (hj : j ≤ logMaxBlockSize)
    (hq : 2 ^ j ∣ q) (hfree : ∀ x, q ≤ x → x < q + 2 ^ j → ¬ Covered s.HasBlock x)
    (hb : j < logMaxBlockSize → ¬ s.HasBlock (q ^^^ 2 ^ j) j) :
    Freed s (s.liberateOneBlock q j) q (q + 2 ^ j) := by
  have hno : ∀ i, ¬ s.HasBlock q i := fun i hi => hfree q le_rfl (by omega) (covered_head hi)
  obtain ⟨ht, hcov⟩ := h.tiling.insert hq hfree (fun p i => hasBlock_liberateOneBlock)
  refine ⟨⟨ht, ?_, ?_, ?_, ?_, ?_⟩, hcov⟩
  · intro p i hp
    rcases hasBlock_liberateOneBlock.1 hp with ⟨rfl, rfl⟩ | hp
    · exact hj
    · exact h.order p i hp
  · intro p i hp
    rcases hasBlock_liberateOneBlock.1 hp with ⟨rfl, rfl⟩ | hp
    · exact hin
    · exact h.inside p i hp
  · intro p i
    rw [hasBlock_liberateOneBlock]
    by_cases hp : p = q
    · subst hp
      simp only [State.liberateOneBlock, Function.update_self, true_and, hno i, or_false]
      exact eq_comm
    · simp only [State.liberateOneBlock, Function.update_of_ne hp, hp, false_and, false_or]
      exact h.mark p i
  · intro i
    by_cases hi : i = j
    · subst hi
      have hnot : q ∉ s.availList i := hno i
      simpa [State.liberateOneBlock, hnot] using h.nodup i
    · simpa [State.liberateOneBlock, Function.update_of_ne hi] using h.nodup i
  · refine h.noBuddies.mono (fun _ _ h => h) fun p i hi _ hp => ?_
    rcases hasBlock_liberateOneBlock.1 hp with ⟨rfl, rfl⟩ | hp
    · right
      intro hbuddy
      rcases hasBlock_liberateOneBlock.1 hbuddy with ⟨hself, -⟩ | hbuddy
      · exact xor_two_pow_ne p i hself
      · exact hb hi hbuddy
    · exact .inl hp

/-- A block is taken from its list, and its mark is cleared. -/
def State.take (s : State) (page : ℕ) : State := (s.unlink page).setFree page false

theorem Tidy.hasBlock_take (h : Tidy s) : (s.take q).HasBlock p i ↔ p ≠ q ∧ s.HasBlock p i := by
  exact (h.nodup i).mem_erase_iff

theorem Tidy.take (h : Tidy s) (hb : s.HasBlock q j) : Tidy (s.take q) ∧
    ∀ x, Covered (s.take q).HasBlock x ↔ Covered s.HasBlock x ∧ ¬ (q ≤ x ∧ x < q + 2 ^ j) := by
  obtain ⟨ht, hcov⟩ := h.tiling.erase hb (fun p i => h.hasBlock_take)
  refine ⟨⟨ht, ?_, ?_, ?_, ?_, ?_⟩, hcov⟩
  · intro p i hp
    exact h.order p i (h.hasBlock_take.1 hp).2
  · intro p i hp
    exact h.inside p i (h.hasBlock_take.1 hp).2
  · intro p i
    rw [h.hasBlock_take]
    by_cases hp : p = q
    · subst hp
      simp [State.take, State.setFree]
    · simp only [State.take, State.setFree, State.unlink, Function.update_of_ne hp, ne_eq, hp,
        not_false_eq_true, true_and]
      exact h.mark p i
  · intro i
    exact (h.nodup i).erase q
  · intro p i hi hS hp hbuddy
    exact h.noBuddies p i hi hS (h.hasBlock_take.1 hp).2 (h.hasBlock_take.1 hbuddy).2

theorem setFree_eq_self (h : (s.mpages p).isFree = false) : s.setFree p false = s := by
  unfold State.setFree
  rw [← h, Function.update_eq_self]

theorem liberateOneBlock_unlink :
    (s.unlink p).liberateOneBlock p j = (s.take p).liberateOneBlock p j := by
  simp [State.take, State.setFree, State.liberateOneBlock]

/-! ## Liberating -/

/-- The buddy that is merged with. -/
def CanMerge (s : State) (q j : ℕ) : Prop :=
  j < logMaxBlockSize ∧ q ^^^ 2 ^ j < numpages ∧ (s.mpages (q ^^^ 2 ^ j)).isFree = true ∧
    (s.mpages (q ^^^ 2 ^ j)).kval = j

theorem recheck_alone (hj : j ≤ logMaxBlockSize) (hm : ¬ CanMerge s q j) :
    recheck (2 ^ j) (logMaxBlockSize - j) q s = .ok ((q, j), s) := by
  rcases Nat.eq_or_lt_of_le hj with rfl | hlt
  · simp [recheck]
  · obtain ⟨left, hl⟩ : ∃ left, logMaxBlockSize - j = left + 1 := ⟨logMaxBlockSize - j - 1, by omega⟩
    have hj' : logMaxBlockSize - (left + 1) = j := by omega
    rw [hl]
    simp only [recheck, hj']
    exact if_neg fun hc => hm ⟨hlt, hc⟩

/-- After a merge with the lower half, `jSize` is too small: what is looked at next is the upper half of the merged
block, which is the one that is being liberated. -/
theorem recheck_below (h : Tidy s) (hm : CanMerge s (p + 2 ^ j) j) (hp : (p + 2 ^ j) ^^^ 2 ^ j = p)
    (hfree : ¬ Covered s.HasBlock (p + 2 ^ j)) :
    recheck (2 ^ j) (logMaxBlockSize - j) (p + 2 ^ j) s = .ok ((p, j + 1), s.unlink p) := by
  have hpos : 0 < 2 ^ j := Nat.two_pow_pos j
  obtain ⟨hlt, hc⟩ := hm
  obtain ⟨left, hl⟩ : ∃ left, logMaxBlockSize - j = left + 1 := ⟨logMaxBlockSize - j - 1, by omega⟩
  have hj' : logMaxBlockSize - (left + 1) = j := by omega
  rw [hp] at hc
  have hlist : s.Listed p := h.isFree_iff.1 hc.2.1
  have hup : p ^^^ 2 ^ j = p + 2 ^ j := by
    conv_lhs => rw [← hp]
    exact xor_xor_two_pow _ _
  rw [hl]
  simp only [recheck, hj', hp]
  rw [if_pos hc, linkUnlinkUnsafe, if_pos hlist, ok_bind, if_pos (by omega)]
  cases left with
  | zero =>
    have htop : logMaxBlockSize = j + 1 := by omega
    simp only [recheck, htop]
  | succ left =>
    have hj'' : logMaxBlockSize - (left + 1) = j + 1 := by omega
    have hmark : ((s.unlink p).mpages (p + 2 ^ j)).isFree = false := h.not_isFree hfree
    simp only [recheck, hj'', hup, hmark]
    exact if_neg fun hc => absurd hc.2.1 (by simp)

/-- A block is liberated. If its buddy is free, that is the lower half, and what they are merged into has no free
buddy. -/
theorem recheck_freed (h : Tidy s) (hj : j ≤ logMaxBlockSize) (hq : 2 ^ j ∣ q) (hin : q + 2 ^ j ≤ numpages)
    (hfree : ∀ x, q ≤ x → x < q + 2 ^ j → ¬ Covered s.HasBlock x)
    (hb : j < logMaxBlockSize → s.HasBlock (q ^^^ 2 ^ j) j → q ^^^ 2 ^ j < q ∧
      (j + 1 < logMaxBlockSize → ¬ s.HasBlock ((q ^^^ 2 ^ j) ^^^ 2 ^ (j + 1)) (j + 1))) :
    ∃ q' j' s₁, recheck (2 ^ j) (logMaxBlockSize - j) q s = .ok ((q', j'), s₁) ∧
      Freed s (s₁.liberateOneBlock q' j') q (q + 2 ^ j) := by
  by_cases hm : CanMerge s q j
  · have hbl : s.HasBlock (q ^^^ 2 ^ j) j := (h.mark _ _).2 hm.2.2
    obtain ⟨hlow, hnext⟩ := hb hm.1 hbl
    rcases xor_two_pow hq with ⟨-, hx⟩ | ⟨p, hp, rfl, hx⟩
    · omega
    · rw [hx] at hbl hnext
      refine ⟨p, j + 1, s.unlink p, recheck_below h hm hx (hfree _ le_rfl (by omega)), ?_⟩
      obtain ⟨ht, hcov⟩ := h.take hbl
      have hno : ∀ x, p ≤ x → x < p + 2 ^ (j + 1) → ¬ Covered (s.take p).HasBlock x := by
        intro x hx hx' hc
        obtain ⟨hc, hxp⟩ := (hcov x).1 hc
        exact hfree x (by omega) (by omega) hc
      have hf := ht.liberateOneBlock (by omega) hm.1 hp hno
        (fun hj hbuddy => hnext hj (h.hasBlock_take.1 hbuddy).2)
      rw [liberateOneBlock_unlink]
      refine ⟨hf.tidy, fun x => ?_⟩
      have hwas : p ≤ x ∧ x < p + 2 ^ j → Covered s.HasBlock x := fun hx => ⟨p, j, hbl, hx⟩
      rw [hf.covered, hcov]
      by_cases hxp : p ≤ x ∧ x < p + 2 ^ j
      · refine iff_of_true (.inr ?_) (.inl (hwas hxp))
        omega
      · rw [and_iff_left hxp]
        apply or_congr_right
        omega
  · refine ⟨q, j, s, recheck_alone hj hm, h.liberateOneBlock hin hj hq hfree ?_⟩
    intro hlt hbl
    have := h.inside _ _ hbl
    exact hm ⟨hlt, by omega, (h.mark _ _).1 hbl⟩

theorem lastOrder_spec (hn : 0 < n) (hlt : n < 2 ^ 32) :
    lastOrder n ≤ logMaxBlockSize ∧ 2 ^ lastOrder n ≤ n := by
  obtain ⟨h₁, -, h₂⟩ := PhysMem.lastOrder_spec hn hlt
  exact ⟨h₁, h₂⟩

/-- All pages of the block are free when those from `a` up to `b` have been liberated. -/
def State.Whole (s : State) (a b p j : ℕ) : Prop :=
  ∀ i < 2 ^ j, s.FreePage (p + i) ∨ a ≤ p + i ∧ p + i < b

instance : Decidable (s.Whole a b p j) := by
  unfold State.Whole
  infer_instance

/-- The block of order `j` at `q` is aligned, and liberating it, when what follows it up to `b` has been liberated,
merges it at most with its lower half. -/
def MergesBelow (s : State) (b q j : ℕ) : Prop :=
  2 ^ j ∣ q ∧ (j < logMaxBlockSize → s.Whole (q + 2 ^ j) b (q ^^^ 2 ^ j) j → q ^^^ 2 ^ j < q ∧
    (j + 1 < logMaxBlockSize → ¬ s.Whole (q + 2 ^ j) b ((q ^^^ 2 ^ j) ^^^ 2 ^ (j + 1)) (j + 1)))

instance : Decidable (MergesBelow s b q j) := by
  unfold MergesBelow
  infer_instance

/-- The blocks that `numPages` pages are liberated in, from the end, with their orders. -/
def parts (pageAddr : ℕ) : ℕ → ℕ → List (ℕ × ℕ)
  | 0, _ => []
  | fuel + 1, numPages =>
    (pageAddr + numPages - 2 ^ lastOrder numPages, lastOrder numPages) ::
      if numPages - 2 ^ lastOrder numPages = 0 then []
      else parts pageAddr fuel (numPages - 2 ^ lastOrder numPages)

/-- The loop of `maps_liberate_locked`, by induction on the blocks it still has to liberate: those from `a + n` up
to `b` have been liberated before. -/
theorem liberateFrom_freed (s₀ : State) {fuel : ℕ} : ∀ {n : ℕ} {s : State}, Tidy s → 0 < n → n ≤ fuel →
    a + n ≤ numpages → a + n ≤ b → (∀ x, Covered s.HasBlock x → s₀.FreePage x ∨ a + n ≤ x ∧ x < b) →
    (∀ x, a ≤ x → x < a + n → ¬ Covered s.HasBlock x) →
    (∀ c ∈ parts a fuel n, MergesBelow s₀ b c.1 c.2) →
    ∃ s', liberateFrom a fuel n s = .ok s' ∧ Freed s s' a (a + n) := by
  induction fuel with
  | zero =>
    intro n s _ hn hle
    omega
  | succ fuel ih =>
    intro n s h hn hle hin hab hcov hfree hparts
    have hbound : numpages < 2 ^ 32 := by decide
    obtain ⟨hj, hjn⟩ := lastOrder_spec hn (by omega)
    simp only [parts, List.forall_mem_cons] at hparts
    obtain ⟨⟨hdvd, hmerge⟩, hrest⟩ := hparts
    simp only [liberateFrom]
    generalize lastOrder n = j at hj hjn hdvd hmerge hrest ⊢
    obtain ⟨q, hq⟩ : ∃ q, q = a + n - 2 ^ j := ⟨_, rfl⟩
    rw [← hq] at hdvd hmerge ⊢
    have hqn : q + 2 ^ j = a + n := by omega
    rw [hqn] at hmerge
    have hfree' : ∀ x, q ≤ x → x < q + 2 ^ j → ¬ Covered s.HasBlock x :=
      fun x hx hx' => hfree x (by omega) (by omega)
    -- A buddy on a free list is free as a whole.
    have hwhole : ∀ {p i : ℕ}, s.HasBlock p i → s₀.Whole (a + n) b p i := by
      intro p i hp k hk
      exact hcov (p + k) ⟨p, i, hp, by omega, by omega⟩
    obtain ⟨q', j', s₁, hrec, hf⟩ := recheck_freed h hj hdvd (by omega) hfree' (fun hlt hbl =>
      ⟨(hmerge hlt (hwhole hbl)).1, fun hlt' hbl' => (hmerge hlt (hwhole hbl)).2 hlt' (hwhole hbl')⟩)
    have hmark : (s.mpages q).isFree = false := h.not_isFree (hfree' q le_rfl (by omega))
    rw [mpage, if_pos (by omega), ok_bind, check, if_pos hmark, ok_bind, hrec, ok_bind]
    simp only
    rw [check, if_pos hjn, ok_bind]
    by_cases hdone : n - 2 ^ j = 0
    · rw [if_pos hdone]
      obtain rfl : q = a := by omega
      exact ⟨_, rfl, hqn ▸ hf⟩
    · rw [if_neg hdone] at hrest ⊢
      have hn' : a + (n - 2 ^ j) = q := by omega
      have hcov₁ : ∀ x, Covered (s₁.liberateOneBlock q' j').HasBlock x → s₀.FreePage x ∨ q ≤ x ∧ x < b := by
        intro x hx
        rcases (hf.covered x).1 hx with hx | hx
        · exact (hcov x hx).imp_right fun hx => ⟨by omega, hx.2⟩
        · exact .inr ⟨hx.1, by omega⟩
      have hfree₁ : ∀ x, a ≤ x → x < q → ¬ Covered (s₁.liberateOneBlock q' j').HasBlock x := by
        intro x hx hx' hc
        rcases (hf.covered x).1 hc with hc | hc
        · exact hfree x hx (by omega) hc
        · omega
      rw [← hn'] at hcov₁ hfree₁
      obtain ⟨s', hs', hf'⟩ := ih hf.tidy (by omega) (by omega) (by omega) (by omega) hcov₁ hfree₁ hrest
      refine ⟨s', hs', ?_⟩
      rw [hn'] at hf'
      rw [hqn] at hf
      exact hf.trans hf' (by omega) (by omega)

/-- The liberation merges the blocks it is made in at most with their lower halves. -/
def MergesAllBelow (s : State) (pageAddr numPages : ℕ) : Prop :=
  ∀ c ∈ parts pageAddr numPages numPages, MergesBelow s (pageAddr + numPages) c.1 c.2

instance (s : State) (pageAddr numPages : ℕ) : Decidable (MergesAllBelow s pageAddr numPages) := by
  unfold MergesAllBelow
  infer_instance

theorem mapsLiberateLocked_freed (h : Tidy s) (hn : 0 < n) (hin : a + n ≤ numpages)
    (hfree : ∀ x, a ≤ x → x < a + n → ¬ Covered s.HasBlock x) (hm : MergesAllBelow s a n) :
    ∃ s', mapsLiberateLocked a n s = .ok s' ∧ Freed s s' a (a + n) :=
  liberateFrom_freed s h hn le_rfl hin le_rfl (fun _ hx => .inl (h.freePage_iff.2 hx)) hfree hm

theorem mapsInit_spec : ∃ s, mapsInit = .ok s ∧ Tidy s ∧ ∀ x, Covered s.HasBlock x ↔ x < numpages := by
  have hno : ∀ p j, ¬ State.HasBlock ⟨fun _ => ⟨0, false⟩, fun _ => []⟩ p j := fun p j h => by
    simp [State.HasBlock] at h
  have ht : Tidy ⟨fun _ => ⟨0, false⟩, fun _ => []⟩ := by
    refine ⟨⟨fun p j h => absurd h (hno p j), fun p i q j x h => absurd h (hno p i)⟩,
      fun p j h => absurd h (hno p j), fun p j h => absurd h (hno p j), fun p j => ?_, fun j => ?_,
      fun p j _ _ h => absurd h (hno p j)⟩
    · exact iff_of_false (hno p j) (by simp)
    · simp
  have hcov : ∀ x, ¬ Covered (State.HasBlock ⟨fun _ => ⟨0, false⟩, fun _ => []⟩) x := by
    rintro x ⟨p, j, hp, -⟩
    exact hno p j hp
  obtain ⟨s, hs, hf⟩ := mapsLiberateLocked_freed (a := 0) (n := numpages) ht (by decide) (by decide)
    (fun x _ _ => hcov x) (by decide +kernel)
  refine ⟨s, hs, hf.tidy, fun x => ?_⟩
  rw [hf.covered, or_iff_right (hcov x)]
  omega

/-! ## Reserving -/

/-- The loop of `maps_reserve_locked` liberates all pages of the block but the first `n`. The buddy of each block
that it liberates starts among the pages that it keeps. -/
theorem carve_freed : ∀ {j n x : ℕ} {s : State}, Tidy s → x + 2 ^ j ≤ numpages → 2 ^ j ∣ x →
    j ≤ logMaxBlockSize → 0 < n → n ≤ 2 ^ j → (∀ y, x ≤ y → y < x + 2 ^ j → ¬ Covered s.HasBlock y) →
    ∃ s', carve j n x s = .ok s' ∧ Freed s s' (x + n) (x + 2 ^ j) := by
  have hrefl : ∀ {a : ℕ} {s : State}, Tidy s → Freed s s a a :=
    fun h => ⟨h, fun x => (or_iff_left (by omega)).symm⟩
  intro j
  induction j with
  | zero =>
    intro n x s h _ _ _ hn hle _
    obtain rfl : n = 1 := by
      omega
    exact ⟨s, by simp [carve], hrefl h⟩
  | succ j ih =>
    intro n x s h hin hx hj hn hle hfree
    have hxj : 2 ^ j ∣ x := (pow_dvd_pow 2 (by omega)).trans hx
    have hup : 2 ^ j ∣ x + 2 ^ j := Nat.dvd_add hxj dvd_rfl
    unfold carve
    split_ifs with heq hnj
    · exact ⟨s, rfl, heq ▸ hrefl h⟩
    · -- The upper half is liberated.
      rw [mpage, if_pos (by omega), ok_bind]
      have hbuddy : (x + 2 ^ j) ^^^ 2 ^ j = x := by
        rw [← xor_two_pow_of_dvd hx, xor_xor_two_pow]
      have hf := h.liberateOneBlock (q := x + 2 ^ j) (by omega) (by omega) hup
        (fun y hy hy' => hfree y (by omega) (by omega)) (fun _ hb => by
          rw [hbuddy] at hb
          exact hfree x le_rfl (by omega) (covered_head hb))
      obtain ⟨s', hs', hf'⟩ := ih hf.tidy (by omega) hxj (by omega) hn hnj (by
        intro y hy hy' hc
        rcases (hf.covered y).1 hc with hc | hc
        · exact hfree y hy (by omega) hc
        · omega)
      refine ⟨s', hs', ?_⟩
      have := hf.trans hf' (by omega) (by omega)
      rwa [show x + 2 ^ j + 2 ^ j = x + 2 ^ (j + 1) by omega] at this
    · -- The lower half is kept, and there is no mark to clear.
      rw [mpage, if_pos (by omega), ok_bind]
      have hmark := h.not_isFree (hfree (x + 2 ^ j) (by omega) (by omega))
      rw [setFree_eq_self hmark]
      obtain ⟨s', hs', hf⟩ := ih h (by omega) hup (by omega) (by omega : 0 < n - 2 ^ j) (by omega)
        (fun y hy hy' => hfree y (by omega) (by omega))
      refine ⟨s', hs', ?_⟩
      rwa [show x + 2 ^ j + (n - 2 ^ j) = x + n by omega,
        show x + 2 ^ j + 2 ^ j = x + 2 ^ (j + 1) by omega] at hf

theorem firstBlock_spec {k : ℕ}
    (h : firstBlock s (List.range' k (logMaxBlockSize + 1 - k)) = some (p, j)) : s.HasBlock p j ∧ k ≤ j := by
  obtain ⟨i, hi, hf⟩ := List.exists_of_findSome?_eq_some h
  obtain ⟨q, hq, heq⟩ := Option.map_eq_some_iff.1 hf
  obtain ⟨rfl, rfl⟩ := heq
  exact ⟨List.mem_of_mem_head? hq, (List.mem_range'_1.1 hi).1⟩

/-- What reserving `n` pages at `block` does: they were free before, and are not free then. -/
structure Taken (s s' : State) (block n : ℕ) : Prop where
  tidy : Tidy s'
  aligned : ∃ j, 2 ^ j ∣ block ∧ n ≤ 2 ^ j
  inside : block + n ≤ numpages
  wasFree : ∀ x, block ≤ x → x < block + n → Covered s.HasBlock x
  covered : ∀ x, Covered s'.HasBlock x ↔ Covered s.HasBlock x ∧ ¬ (block ≤ x ∧ x < block + n)

theorem fls32_pred (hn : 0 < n) (hle : n ≤ 2 ^ logMaxBlockSize) :
    (n + 2 ^ 32 - 1) % 2 ^ 32 = n - 1 ∧ fls32 (n - 1) ≤ logMaxBlockSize ∧ n ≤ 2 ^ fls32 (n - 1) := by
  have hle' : n ≤ 128 := hle
  have hlt : n - 1 < 2 ^ fls32 (n - 1) := PhysMem.lt_two_pow_fls32 (by omega)
  have htop : ∀ x < 128, fls32 x ≤ logMaxBlockSize := by decide +kernel
  refine ⟨?_, htop (n - 1) (by omega), by omega⟩
  rw [show n + 2 ^ 32 - 1 = n - 1 + 2 ^ 32 by omega, Nat.add_mod_right]
  exact Nat.mod_eq_of_lt (by omega)

theorem mapsReserveLocked_spec (h : Tidy s) (hn : 0 < n) (hle : n ≤ 2 ^ logMaxBlockSize) :
    mapsReserveLocked n s = .ok (none, s) ∨
      ∃ block s', mapsReserveLocked n s = .ok (some block, s') ∧ Taken s s' block n := by
  obtain ⟨hpred, hk, hnk⟩ := fls32_pred hn hle
  unfold mapsReserveLocked
  simp only [hpred]
  rw [check, if_pos hk, ok_bind]
  split
  case h_1 => exact .inl rfl
  case h_2 block j hfirst =>
    right
    obtain ⟨hb, hkj⟩ := firstBlock_spec hfirst
    have hnj : n ≤ 2 ^ j := hnk.trans (Nat.pow_le_pow_right (by omega) hkj)
    have hal := h.tiling.aligned block j hb
    have hin := h.inside block j hb
    obtain ⟨ht, hcov⟩ := h.take hb
    obtain ⟨s', hs', hf⟩ := carve_freed ht hin hal (h.order block j hb) hn hnj
      (fun y hy hy' hc => ((hcov y).1 hc).2 ⟨hy, hy'⟩)
    rw [check, if_pos ((h.mark block j).1 hb).1, ok_bind, linkUnlinkUnsafe, if_pos (h.listed hb), ok_bind]
    refine ⟨block, s', ?_, hf.tidy, ⟨j, hal, hnj⟩, by omega, ?_, ?_⟩
    · change (carve j n block (s.take block) >>= _) = _
      rw [hs', ok_bind]
    · intro x hx hx'
      exact ⟨block, j, hb, hx, by omega⟩
    · intro x
      have hwas : block ≤ x ∧ x < block + 2 ^ j → Covered s.HasBlock x := fun hx => ⟨block, j, hb, hx⟩
      rw [hf.covered, hcov]
      by_cases hx : block ≤ x ∧ x < block + 2 ^ j
      · simp only [hwas hx, true_and]
        omega
      · have hx' : ¬ (block + n ≤ x ∧ x < block + 2 ^ j) := by omega
        have hx'' : ¬ (block ≤ x ∧ x < block + n) := by omega
        simp only [hx, hx', hx'', not_false_eq_true, and_true, or_false]

/-! ## Runs -/

/-- What a run keeps. -/
structure Inv (σ : System) : Prop where
  tidy : Tidy σ.maps
  nonempty : ∀ r ∈ σ.reserved, 0 < r.length
  part : ∀ r ∈ σ.reserved, r.block ≤ r.start ∧ r.start + r.length ≤ r.block + r.numPages
  inside : ∀ r ∈ σ.reserved, r.block + r.numPages ≤ numpages
  aligned : ∀ r ∈ σ.reserved, ∃ j, 2 ^ j ∣ r.block ∧ r.numPages ≤ 2 ^ j
  apart : σ.reserved.Pairwise fun r r' => ∀ x, r.Has x → ¬ r'.Has x
  notFree : ∀ r ∈ σ.reserved, ∀ x, r.Has x → ¬ Covered σ.maps.HasBlock x
  all : ∀ x < numpages, Covered σ.maps.HasBlock x ∨ ∃ r ∈ σ.reserved, r.Has x

variable {σ σ' : System} {op : Op} {r r' : Reserved}

theorem Reserved.mem_without (hr : 0 < r.length) (h : r' ∈ r.without a n) :
    (r'.block = r.block ∧ r'.numPages = r.numPages) ∧ 0 < r'.length ∧ r.start ≤ r'.start ∧
      r'.start + r'.length ≤ r.start + r.length := by
  unfold Reserved.without at h
  split at h
  case isTrue hc =>
    obtain ⟨h₁, h₂⟩ := hc
    simp only [List.mem_filter, List.mem_cons, List.not_mem_nil, or_false, decide_eq_true_eq] at h
    rcases h with ⟨rfl | rfl, hl⟩
    · simp only at hl
      exact ⟨⟨rfl, rfl⟩, hl, le_rfl, by simp only; omega⟩
    · simp only at hl
      exact ⟨⟨rfl, rfl⟩, hl, by simp only; omega, by simp only; omega⟩
  case isFalse =>
    obtain rfl := List.mem_singleton.1 h
    exact ⟨⟨rfl, rfl⟩, hr, le_rfl, le_rfl⟩

/-- The liberated pages are in `r`, or none of them is. -/
def Reserved.Clear (r : Reserved) (a n : ℕ) : Prop :=
  r.Contains a n ∨ ∀ x, r.Has x → ¬ (a ≤ x ∧ x < a + n)

theorem Reserved.without_has (hr : r.Clear a n) :
    (∃ r' ∈ r.without a n, r'.Has x) ↔ r.Has x ∧ ¬ (a ≤ x ∧ x < a + n) := by
  unfold Reserved.without
  split
  case isTrue hc =>
    obtain ⟨h₁, h₂⟩ := hc
    simp only [List.mem_filter, List.mem_cons, List.not_mem_nil, or_false, decide_eq_true_eq, Reserved.Has]
    constructor
    · rintro ⟨r', ⟨rfl | rfl, hl⟩, hx⟩
      · simp only at hl hx
        omega
      · simp only at hl hx
        omega
    · rintro ⟨hx, hno⟩
      rcases Nat.lt_or_ge x a with hxa | hxa
      · exact ⟨_, ⟨.inl rfl, by simp only; omega⟩, by simp only; omega⟩
      · exact ⟨_, ⟨.inr rfl, by simp only; omega⟩, by simp only; omega⟩
  case isFalse hc =>
    have hno := hr.resolve_left hc
    simp only [List.mem_singleton, exists_eq_left]
    exact ⟨fun hx => ⟨hx, hno x hx⟩, fun hx => hx.1⟩

theorem Reserved.without_apart :
    (r.without a n).Pairwise fun r r' => ∀ x, r.Has x → ¬ r'.Has x := by
  unfold Reserved.without
  split
  case isTrue hc =>
    apply List.Pairwise.filter
    rw [List.pairwise_pair]
    intro x hx hx'
    simp only [Reserved.Has] at hx hx'
    omega
  case isFalse => exact List.pairwise_singleton _ _

theorem Inv.apart_of_ne (h : Inv σ) (hr : r ∈ σ.reserved) (hr' : r' ∈ σ.reserved) (hne : r ≠ r')
    (hx : r.Has x) : ¬ r'.Has x := by
  have hsymm : Std.Symm fun r r' : Reserved => ∀ x, r.Has x → ¬ r'.Has x := ⟨fun _ _ h x h₁ h₂ => h x h₂ h₁⟩
  exact h.apart.forall hr hr' hne x hx

theorem Inv.clear (h : Inv σ) (hr : r ∈ σ.reserved) (hc : r.Contains a n) (hr' : r' ∈ σ.reserved) :
    r'.Clear a n := by
  by_cases heq : r' = r
  · exact .inl (heq ▸ hc)
  · refine .inr fun x hx hxa => h.apart_of_ne hr' hr heq hx ?_
    exact ⟨hc.1.trans hxa.1, hxa.2.trans_le hc.2⟩

theorem Inv.taken {maps : State} {block : ℕ} (h : Inv σ) (hn : 0 < n) (ht : Taken σ.maps maps block n) :
    Inv ⟨maps, ⟨block, n, block, n⟩ :: σ.reserved⟩ where
  tidy := ht.tidy
  nonempty := List.forall_mem_cons.2 ⟨hn, h.nonempty⟩
  part := List.forall_mem_cons.2 ⟨⟨le_rfl, le_rfl⟩, h.part⟩
  inside := List.forall_mem_cons.2 ⟨ht.inside, h.inside⟩
  aligned := List.forall_mem_cons.2 ⟨ht.aligned, h.aligned⟩
  apart := by
    refine List.pairwise_cons.2 ⟨fun r hr x hx hrx => ?_, h.apart⟩
    exact h.notFree r hr x hrx (ht.wasFree x hx.1 hx.2)
  notFree := by
    refine List.forall_mem_cons.2 ⟨fun x hx hc => ((ht.covered x).1 hc).2 hx, fun r hr x hx hc => ?_⟩
    exact h.notFree r hr x hx ((ht.covered x).1 hc).1
  all := by
    intro x hx
    by_cases hb : block ≤ x ∧ x < block + n
    · exact .inr ⟨_, List.mem_cons_self, hb⟩
    · rcases h.all x hx with hc | ⟨r, hr, hrx⟩
      · exact .inl ((ht.covered x).2 ⟨hc, hb⟩)
      · exact .inr ⟨r, List.mem_cons_of_mem _ hr, hrx⟩

theorem Inv.freed {maps : State} (h : Inv σ) (hr : r ∈ σ.reserved) (hc : r.Contains a n)
    (hf : Freed σ.maps maps a (a + n)) : Inv ⟨maps, σ.reserved.flatMap (·.without a n)⟩ := by
  -- What is left of the reserved pages is a part of them.
  have hpart : ∀ r₁ ∈ σ.reserved.flatMap (·.without a n), ∃ r₀ ∈ σ.reserved,
      (r₁.block = r₀.block ∧ r₁.numPages = r₀.numPages) ∧ 0 < r₁.length ∧ r₀.start ≤ r₁.start ∧
        r₁.start + r₁.length ≤ r₀.start + r₀.length := by
    intro r₁ hr₁
    obtain ⟨r₀, hr₀, hmem⟩ := List.mem_flatMap.1 hr₁
    exact ⟨r₀, hr₀, Reserved.mem_without (h.nonempty r₀ hr₀) hmem⟩
  have hleft : ∀ r₀ ∈ σ.reserved, ∀ r₁ ∈ r₀.without a n, ∀ x, r₁.Has x → r₀.Has x ∧ ¬ (a ≤ x ∧ x < a + n) :=
    fun r₀ hr₀ r₁ hr₁ x hx => (Reserved.without_has (h.clear hr hc hr₀)).1 ⟨r₁, hr₁, hx⟩
  refine ⟨hf.tidy, ?_, ?_, ?_, ?_, ?_, ?_, ?_⟩
  · intro r₁ hr₁
    obtain ⟨r₀, -, -, hpos, -⟩ := hpart r₁ hr₁
    exact hpos
  · intro r₁ hr₁
    obtain ⟨r₀, hr₀, ⟨hb, hn⟩, -, h₁, h₂⟩ := hpart r₁ hr₁
    obtain ⟨h₃, h₄⟩ := h.part r₀ hr₀
    rw [hb, hn]
    exact ⟨h₃.trans h₁, h₂.trans h₄⟩
  · intro r₁ hr₁
    obtain ⟨r₀, hr₀, ⟨hb, hn⟩, -⟩ := hpart r₁ hr₁
    rw [hb, hn]
    exact h.inside r₀ hr₀
  · intro r₁ hr₁
    obtain ⟨r₀, hr₀, ⟨hb, hn⟩, -⟩ := hpart r₁ hr₁
    rw [hb, hn]
    exact h.aligned r₀ hr₀
  · refine List.pairwise_flatMap.2 ⟨fun r₀ _ => Reserved.without_apart, ?_⟩
    refine h.apart.imp_of_mem fun {r₁ r₂} hr₁ hr₂ hd q₁ hq₁ q₂ hq₂ x hx hx' => ?_
    exact hd x (hleft r₁ hr₁ q₁ hq₁ x hx).1 (hleft r₂ hr₂ q₂ hq₂ x hx').1
  · intro r₁ hr₁ x hx hcov
    obtain ⟨r₀, hr₀, hmem⟩ := List.mem_flatMap.1 hr₁
    obtain ⟨hx₀, hno⟩ := hleft r₀ hr₀ r₁ hmem x hx
    rcases (hf.covered x).1 hcov with hcov | hxa
    · exact h.notFree r₀ hr₀ x hx₀ hcov
    · exact hno hxa
  · intro x hx
    by_cases hxa : a ≤ x ∧ x < a + n
    · exact .inl ((hf.covered x).2 (.inr hxa))
    · rcases h.all x hx with hcov | ⟨r₀, hr₀, hx₀⟩
      · exact .inl ((hf.covered x).2 (.inl hcov))
      · obtain ⟨r₁, hr₁, hx₁⟩ := (Reserved.without_has (h.clear hr hc hr₀)).2 ⟨hx₀, hxa⟩
        exact .inr ⟨r₁, List.mem_flatMap.2 ⟨r₀, hr₀, hr₁⟩, hx₁⟩

/-- The liberations in which the blocks are aligned and merge at most with their lower halves. -/
def Proper (σ : System) : Op → Prop
  | .reserve _ => True
  | .liberate pageAddr numPages => MergesAllBelow σ.maps pageAddr numPages

instance (op : Op) : Decidable (Proper σ op) :=
  match op with
  | .reserve _ => inferInstanceAs (Decidable True)
  | .liberate pageAddr numPages => inferInstanceAs (Decidable (MergesAllBelow σ.maps pageAddr numPages))

theorem Inv.run (h : Inv σ) (ha : op.Allowed σ) (hp : Proper σ op) : ∃ σ', op.run σ = .ok σ' ∧ Inv σ' := by
  cases op with
  | reserve n =>
    obtain ⟨hn, hle⟩ := ha
    simp only [Op.run]
    rcases mapsReserveLocked_spec h.tidy hn hle with hr | ⟨block, maps, hr, ht⟩
    · rw [hr, ok_bind]
      exact ⟨_, rfl, h⟩
    · rw [hr, ok_bind]
      exact ⟨_, rfl, h.taken hn ht⟩
  | liberate a n =>
    obtain ⟨hn, r, hr, hc⟩ := ha
    have hin : a + n ≤ numpages := by
      have := h.part r hr
      have := h.inside r hr
      have := hc.2
      omega
    obtain ⟨maps, hm, hf⟩ := mapsLiberateLocked_freed h.tidy hn hin
      (fun x hx hx' => h.notFree r hr x ⟨hc.1.trans hx, hx'.trans_le hc.2⟩) hp
    simp only [Op.run]
    rw [hm, ok_bind]
    exact ⟨_, rfl, h.freed hr hc hf⟩

theorem Inv.init {maps : State} (ht : Tidy maps) (hcov : ∀ x, Covered maps.HasBlock x ↔ x < numpages) :
    Inv ⟨maps, []⟩ := by
  refine ⟨ht, ?_, ?_, ?_, ?_, .nil, ?_, fun x hx => .inl ((hcov x).2 hx)⟩
  all_goals simp

/-- The reserved pages are apart, inside the area and parts of aligned blocks, the marks agree with the free lists,
and if no pages are reserved, the area is one free block. -/
structure Sound (σ : System) : Prop where
  apart : σ.reserved.Pairwise fun r r' => ∀ x, r.Has x → ¬ r'.Has x
  part : ∀ r ∈ σ.reserved, r.block ≤ r.start ∧ r.start + r.length ≤ r.block + r.numPages
  inside : ∀ r ∈ σ.reserved, r.block + r.numPages ≤ numpages
  aligned : ∀ r ∈ σ.reserved, 2 ^ Nat.clog 2 r.numPages ∣ r.block
  mark : ∀ x < numpages, (σ.maps.mpages x).isFree = true ↔ σ.maps.Listed x
  whole : σ.reserved = [] → σ.maps.availList logMaxBlockSize = [0] ∧
    ∀ j < logMaxBlockSize, σ.maps.availList j = []

/-- A run has not been stopped and is in such a state. -/
def Correct : Except Stop System → Prop
  | .ok σ => Sound σ
  | .error _ => False

theorem Tidy.one_block {s : State} (h : Tidy s) (hall : ∀ x < numpages, Covered s.HasBlock x) :
    s.availList logMaxBlockSize = [0] ∧ ∀ j < logMaxBlockSize, s.availList j = [] := by
  obtain ⟨p, j, hp, hp0, hend⟩ := NoBuddies.maximal 0 numpages h.noBuddies h.tiling
    (fun _ _ _ _ _ _ => trivial) logMaxBlockSize 0 le_rfl (dvd_zero _) le_rfl le_rfl
    (fun x _ hx => hall x (hx.trans_eq (Nat.zero_add _)))
  obtain rfl : p = 0 := by omega
  have hj : j = logMaxBlockSize := by
    refine le_antisymm (h.order 0 j hp) ?_
    exact (Nat.pow_le_pow_iff_right (le_refl 2)).1 (by simpa using hend)
  subst hj
  -- Every block meets the one that is all of the area.
  have honly : ∀ p i, s.HasBlock p i → p = 0 ∧ i = logMaxBlockSize := by
    intro p i hb
    have hpos : 0 < 2 ^ i := Nat.two_pow_pos i
    have hin := h.inside p i hb
    exact h.tiling.disjoint p i 0 _ p hb hp le_rfl (by omega) (Nat.zero_le p) (by
      change p < 0 + numpages
      omega)
  constructor
  · by_contra hne
    rcases ((h.nodup _).ne_singleton_iff 0).1 hne with hnil | ⟨p, hb, hp0⟩
    · rw [State.HasBlock, hnil] at hp
      exact List.not_mem_nil hp
    · exact hp0 (honly p _ hb).1
  · intro j hj
    refine List.eq_nil_iff_forall_not_mem.2 fun p hb => ?_
    have := (honly p j hb).2
    omega

theorem Inv.sound (h : Inv σ) : Sound σ where
  apart := h.apart
  part := h.part
  inside := h.inside
  aligned := by
    intro r hr
    obtain ⟨j, hj, hle⟩ := h.aligned r hr
    exact (pow_dvd_pow 2 (Nat.clog_le_of_le_pow hle)).trans hj
  mark := fun _ _ => h.tidy.isFree_iff
  whole := by
    intro hnil
    apply h.tidy.one_block
    intro x hx
    refine (h.all x hx).resolve_right ?_
    rintro ⟨r, hr, -⟩
    simp [hnil] at hr

/-- **The maps area** is in order in every run whose liberations merge only downwards and once. -/
theorem maps_proper {o : Except Stop System} (h : Run Proper o) : Correct o := by
  have hinv : ∃ σ, o = .ok σ ∧ Inv σ := by
    induction h with
    | init =>
      obtain ⟨s, hs, ht, hcov⟩ := mapsInit_spec
      rw [hs]
      exact ⟨_, rfl, .init ht hcov⟩
    | step _ ha hp ih =>
      obtain ⟨σ, heq, hi⟩ := ih
      obtain rfl := Except.ok.inj heq
      exact hi.run ha hp
  obtain ⟨σ, rfl, hi⟩ := hinv
  exact hi.sound

/-- Two halves are reserved and liberated, the lower one first. -/
theorem maps_proper_halves : ∃ o, runFrom Proper [.reserve 64, .reserve 64, .liberate 0 64, .liberate 64 64] =
    some o ∧ Correct o := by
  have hrun : (runFrom Proper [.reserve 64, .reserve 64, .liberate 0 64, .liberate 64 64]).isSome := by
    decide +kernel
  obtain ⟨o, ho⟩ := Option.isSome_iff_exists.1 hrun
  exact ⟨o, ho, maps_proper (run_of_runFrom ho)⟩

/-- One page is reserved and liberated. The mark of page 1, with which page 0 is merged, stays. -/
theorem maps_mark : ¬ ∀ o, Run (fun _ _ => True) o → Correct o := by
  intro hall
  have hrun : ((runFrom (fun _ _ => True) [.reserve 1, .liberate 0 1]).bind Except.toOption).map
      (fun σ => ((σ.maps.mpages 1).isFree, decide (σ.maps.Listed 1))) = some (true, false) := by decide +kernel
  obtain ⟨σ, hσ, hv⟩ := Option.map_eq_some_iff.1 hrun
  obtain ⟨o, ho, hok⟩ := Option.bind_eq_some_iff.1 hσ
  simp only [Prod.mk.injEq, decide_eq_false_iff_not] at hv
  cases o with
  | error e => cases hok
  | ok σ' =>
    obtain rfl := Option.some.inj hok
    have hsound : Sound σ' := hall _ (run_of_runFrom ho)
    exact hv.2 ((hsound.mark 1 (by decide)).1 hv.1)

end CapROS.Cmme
