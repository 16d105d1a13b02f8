import CapROS.ObjSpace.Basic

/-!
# Frames are cleared before they are handed out

Every frame that is in use or in a cache is below the mark of its range. So the frames that
`fill_cache` clears, those from the mark on, are not in use; and the frames that it puts into a cache
are cleared, because they are below the mark by then or have been cleared when they were released.

This fails when `fill_cache` takes a frame whose number is 2^24 or more: the product in which it
computes the OID has 32 bits, and the result is the OID of another frame.
-/

namespace CapROS.ObjSpace

open Function (update update_self update_apply update_of_ne)

variable {mounted : ℕ → Bool} {s s' : State} {k l f o n : ℕ} {t : BaseType}

@[simp]
theorem ensure_pos {p : Prop} [Decidable p] (h : p) (e : Halt) : ensure p e = .ok () := if_pos h

theorem of_ensure_bind {α : Type} {p : Prop} [Decidable p] {e : Halt} {m : Except Halt α} {a : α}
    (h : (ensure p e >>= fun _ => m) = .ok a) : p ∧ m = .ok a := by
  unfold ensure at h
  split at h
  · exact ⟨‹p›, h⟩
  · cases h

/-! ## Frames -/

/-- The OID of a frame of a range. -/
def Range.oidOf (r : Range) (f : ℕ) : ℕ := r.startOID + f * objectsPerFrame

/-- The range has memory for its bits, and its mark is at one of its frames or at its end. -/
structure Range.Wf (r : Range) : Prop where
  covered : r.nFrames ≤ r.nSubmaps * framesPerSubmap
  inside : r.oidOf r.nFrames ≤ r.endOID
  mark : ∃ m ≤ r.nFrames, r.endClearedOIDs = r.oidOf m

/-- The OID is that of a frame of the range `k`, which is below the mark. -/
def BelowMark (s : State) (k o : ℕ) : Prop :=
  k < s.curRanges ∧ (∃ f < (s.rangeTable k).nFrames, o = (s.rangeTable k).oidOf f) ∧
    o < (s.rangeTable k).endClearedOIDs

/-- The place `i` of a cache holds a frame. -/
def Occupied (s : State) (t : BaseType) (n i : ℕ) : Prop :=
  (s.caches t n).ndx ≤ i ∧ i < (s.caches t n).top

structure Inv (s : State) : Prop where
  wf : ∀ k < s.curRanges, (s.rangeTable k).Wf
  empty : ∀ k, s.curRanges ≤ k → s.rangeTable k = {}
  count : s.curRanges ≤ maxRanges
  apart : ∀ k l, k < l → l < s.curRanges →
    (s.rangeTable k).endOID ≤ (s.rangeTable l).startOID ∨
      (s.rangeTable l).endOID ≤ (s.rangeTable k).startOID
  submaps : ∀ k l, k < l → l < s.curRanges →
    (s.rangeTable k).srmBase + (s.rangeTable k).nSubmaps ≤ (s.rangeTable l).srmBase
  allocated : ∀ k < s.curRanges,
    (s.rangeTable k).srmBase + (s.rangeTable k).nSubmaps ≤ s.nextRangeSrmFrame
  /-- An available frame is neither in use nor in a cache, and below the mark it has been cleared. -/
  avail : ∀ k < s.curRanges, ∀ f < (s.rangeTable k).nSubmaps * framesPerSubmap, s.bit k f = true →
    f < (s.rangeTable k).nFrames ∧ s.inUse ((s.rangeTable k).oidOf f) = false ∧
      (∀ t n i, Occupied s t n i → (s.caches t n).oid i ≠ (s.rangeTable k).oidOf f) ∧
      ((s.rangeTable k).oidOf f < (s.rangeTable k).endClearedOIDs →
        s.cleared ((s.rangeTable k).oidOf f) = true)
  used : ∀ o, s.inUse o = true → ∃ k, BelowMark s k o
  caches : ∀ t n, (s.caches t n).ndx ≤ (s.caches t n).top
  cached : ∀ t n i, Occupied s t n i → (∃ k, BelowMark s k ((s.caches t n).oid i)) ∧
    s.cleared ((s.caches t n).oid i) = true ∧ s.inUse ((s.caches t n).oid i) = false
  distinct : ∀ t n i t' n' i', Occupied s t n i → Occupied s t' n' i' →
    (s.caches t n).oid i = (s.caches t' n').oid i' → t = t' ∧ n = n' ∧ i = i'

theorem Range.oidOf_lt {r : Range} (f g : ℕ) : r.oidOf f < r.oidOf g ↔ f < g := by
  simp only [oidOf, objectsPerFrame]
  omega

theorem Range.oidOf_inj {r : Range} {f g : ℕ} (h : r.oidOf f = r.oidOf g) : f = g := by
  simp only [oidOf, objectsPerFrame] at h
  omega

theorem Inv.range_unique (h : Inv s) (hk : k < s.curRanges) (hl : l < s.curRanges) {g : ℕ}
    (hf : f < (s.rangeTable k).nFrames) (hg : g < (s.rangeTable l).nFrames)
    (he : (s.rangeTable k).oidOf f = (s.rangeTable l).oidOf g) : k = l := by
  have hink := (h.wf k hk).inside
  have hinl := (h.wf l hl).inside
  simp only [Range.oidOf, objectsPerFrame] at hink hinl he
  by_contra hne
  rcases Nat.lt_or_gt_of_ne hne with hlt | hlt
  · have := h.apart k l hlt hl
    omega
  · have := h.apart l k hlt hk
    omega

/-! ## Clearing -/

@[simp]
theorem clearFrame_range_self (k : ℕ) : (clearFrame s k).rangeTable k =
    { s.rangeTable k with endClearedOIDs := (s.rangeTable k).endClearedOIDs + objectsPerFrame } := by
  simp [clearFrame, State.setRange]

theorem clearFrame_range_of_ne (h : l ≠ k) : (clearFrame s k).rangeTable l = s.rangeTable l := by
  simp [clearFrame, State.setRange, h]

theorem clearFrame_range (k l : ℕ) : ∃ e, (clearFrame s k).rangeTable l =
    { s.rangeTable l with endClearedOIDs := e } ∧ (s.rangeTable l).endClearedOIDs ≤ e := by
  by_cases h : l = k
  · subst h
    exact ⟨_, clearFrame_range_self l, Nat.le_add_right _ _⟩
  · exact ⟨_, clearFrame_range_of_ne h, le_rfl⟩

theorem Inv.mark_free (h : Inv s) (hk : k < s.curRanges)
    (hmark : (s.rangeTable k).endClearedOIDs < (s.rangeTable k).oidOf (s.rangeTable k).nFrames) :
    s.inUse (s.rangeTable k).endClearedOIDs = false := by
  obtain ⟨m, -, hm⟩ := (h.wf k hk).mark
  rw [hm, Range.oidOf_lt] at hmark
  by_contra huse
  obtain ⟨l, hl, ⟨f, hf, hof⟩, hlt⟩ := h.used _ (by simpa using huse)
  rw [hm] at hof hlt
  obtain rfl := h.range_unique hk hl hmark hf hof
  rw [hm] at hlt
  exact lt_irrefl _ hlt

theorem clearFrame_inv (h : Inv s) (hk : k < s.curRanges)
    (hmark : (s.rangeTable k).endClearedOIDs < (s.rangeTable k).oidOf (s.rangeTable k).nFrames) :
    Inv (clearFrame s k) := by
  obtain ⟨m, hmn, hm⟩ := (h.wf k hk).mark
  rw [hm, Range.oidOf_lt] at hmark
  have hbelow : ∀ l o, BelowMark s l o → BelowMark (clearFrame s k) l o := by
    rintro l o ⟨hl, ⟨f, hf, hof⟩, hlt⟩
    obtain ⟨e, he, hle⟩ := clearFrame_range (s := s) k l
    refine ⟨hl, ⟨f, ?_, ?_⟩, ?_⟩
    · rwa [he]
    · rw [he]
      exact hof
    · rw [he]
      exact hlt.trans_le hle
  have hcleared : ∀ o, s.cleared o = true → (clearFrame s k).cleared o = true := by
    intro o ho
    simp only [clearFrame, update_apply]
    split
    · rfl
    · exact ho
  refine ⟨?_, ?_, h.count, ?_, ?_, ?_, ?_, fun o ho => ?_, h.caches, fun t n i hi => ?_, h.distinct⟩
  · intro l hl
    by_cases hlk : l = k
    · subst hlk
      have hwf := h.wf l hl
      rw [clearFrame_range_self]
      refine ⟨hwf.covered, hwf.inside, m + 1, hmark, ?_⟩
      simp only [hm, Range.oidOf, objectsPerFrame]
      omega
    · rw [clearFrame_range_of_ne hlk]
      exact h.wf l hl
  · intro l hl
    have hlk : l ≠ k := fun he => absurd hk (not_lt.2 (he ▸ hl))
    rw [clearFrame_range_of_ne hlk]
    exact h.empty l hl
  · intro i j hij hj
    obtain ⟨e, he, -⟩ := clearFrame_range (s := s) k i
    obtain ⟨e', he', -⟩ := clearFrame_range (s := s) k j
    rw [he, he']
    exact h.apart i j hij hj
  · intro i j hij hj
    obtain ⟨e, he, -⟩ := clearFrame_range (s := s) k i
    obtain ⟨e', he', -⟩ := clearFrame_range (s := s) k j
    rw [he, he']
    exact h.submaps i j hij hj
  · intro i hi
    obtain ⟨e, he, -⟩ := clearFrame_range (s := s) k i
    rw [he]
    exact h.allocated i hi
  · intro l hl f hf hbit
    obtain ⟨e, he, -⟩ := clearFrame_range (s := s) k l
    have hbit' : s.bit l f = true := by
      rw [State.bit, he] at hbit
      exact hbit
    have hf' : f < (s.rangeTable l).nSubmaps * framesPerSubmap := by rwa [he] at hf
    have hoid : ((clearFrame s k).rangeTable l).oidOf f = (s.rangeTable l).oidOf f := by
      rw [he]
      rfl
    obtain ⟨hfn, huse, hcache, hclr⟩ := h.avail l hl f hf' hbit'
    rw [hoid]
    refine ⟨by rwa [he], huse, hcache, fun hlt => ?_⟩
    -- a frame below the new mark is below the old one, or it is the one at the mark
    by_cases hold : (s.rangeTable l).oidOf f < (s.rangeTable l).endClearedOIDs
    · exact hcleared _ (hclr hold)
    · have hlk : l = k := by
        by_contra hne
        rw [clearFrame_range_of_ne hne] at hlt
        exact hold hlt
      subst hlk
      have hfm : f = m := by
        rw [clearFrame_range_self] at hlt
        simp only [hm, Range.oidOf, objectsPerFrame] at hlt hold
        omega
      simp [clearFrame, hm, hfm]
  · obtain ⟨l, hl⟩ := h.used o ho
    exact ⟨l, hbelow l o hl⟩
  · obtain ⟨⟨l, hl⟩, hclr, huse⟩ := h.cached t n i hi
    exact ⟨⟨l, hbelow l _ hl⟩, hcleared _ hclr, huse⟩

/-- What filling a cache does not change, and what it clears. -/
structure Fills (s s' : State) : Prop where
  curRanges : s'.curRanges = s.curRanges
  inUse : s'.inUse = s.inUse
  /-- The frames that are cleared are not in use. -/
  zeroed : ∃ os, s'.zeroed = os ++ s.zeroed ∧ ∀ o ∈ os, s.inUse o = false
  range : ∀ k, (s'.rangeTable k).startOID = (s.rangeTable k).startOID ∧
    (s'.rangeTable k).nFrames = (s.rangeTable k).nFrames ∧
    (s'.rangeTable k).nSubmaps = (s.rangeTable k).nSubmaps ∧
    (s'.rangeTable k).srmBase = (s.rangeTable k).srmBase

theorem Fills.refl (s : State) : Fills s s :=
  ⟨rfl, rfl, ⟨[], rfl, by simp⟩, fun _ => ⟨rfl, rfl, rfl, rfl⟩⟩

theorem Fills.trans {s'' : State} (h : Fills s s') (h' : Fills s' s'') : Fills s s'' := by
  refine ⟨h'.curRanges.trans h.curRanges, h'.inUse.trans h.inUse, ?_, fun k => ?_⟩
  · obtain ⟨os, hos, hfree⟩ := h.zeroed
    obtain ⟨os', hos', hfree'⟩ := h'.zeroed
    refine ⟨os' ++ os, by rw [hos', hos, List.append_assoc], fun o ho => ?_⟩
    rcases List.mem_append.1 ho with ho | ho
    · rw [← h.inUse]
      exact hfree' o ho
    · exact hfree o ho
  · obtain ⟨h₁, h₂, h₃, h₄⟩ := h.range k
    obtain ⟨h₁', h₂', h₃', h₄'⟩ := h'.range k
    exact ⟨h₁'.trans h₁, h₂'.trans h₂, h₃'.trans h₃, h₄'.trans h₄⟩

theorem Fills.oidOf (h : Fills s s') (k f : ℕ) :
    (s'.rangeTable k).oidOf f = (s.rangeTable k).oidOf f := by
  rw [Range.oidOf, (h.range k).1]
  rfl

theorem clearLoop_inv (fuel : ℕ) (h : Inv s) (hk : k < s.curRanges)
    (hf : f < (s.rangeTable k).nFrames)
    (hs : clearLoop mounted k ((s.rangeTable k).oidOf f) fuel s = .ok s') :
    Inv s' ∧ Fills s s' ∧ (s.rangeTable k).oidOf f < (s'.rangeTable k).endClearedOIDs ∧
      s'.caches = s.caches ∧ s'.srm = s.srm := by
  generalize ho : (s.rangeTable k).oidOf f = o at hs ⊢
  induction fuel generalizing s with
  | zero => cases hs
  | succ fuel ih =>
    rw [clearLoop] at hs
    by_cases hle : (s.rangeTable k).endClearedOIDs ≤ o
    · rw [if_pos hle] at hs
      obtain ⟨-, hs⟩ := of_ensure_bind hs
      have hmark : (s.rangeTable k).endClearedOIDs <
          (s.rangeTable k).oidOf (s.rangeTable k).nFrames :=
        hle.trans_lt (ho ▸ (Range.oidOf_lt f _).2 hf)
      have hfill : Fills s (clearFrame s k) := by
        refine ⟨rfl, rfl, ⟨[(s.rangeTable k).endClearedOIDs], rfl, ?_⟩, fun l => ?_⟩
        · simpa using h.mark_free hk hmark
        · obtain ⟨e, he, -⟩ := clearFrame_range (s := s) k l
          rw [he]
          exact ⟨rfl, rfl, rfl, rfl⟩
      have hf' : f < ((clearFrame s k).rangeTable k).nFrames := by rwa [(hfill.range k).2.1]
      obtain ⟨h', hfill', hlt, hcaches, hsrm⟩ :=
        ih (clearFrame_inv h hk hmark) hk hf' ((hfill.oidOf k f).trans ho) hs
      exact ⟨h', hfill.trans hfill', hlt, hcaches, hsrm⟩
    · rw [if_neg hle] at hs
      cases hs
      exact ⟨h, Fills.refl _, not_le.1 hle, rfl, rfl⟩

/-! ## Frames on their way

A frame that is in use, in a cache or available is only that. The operations take a frame from one
of these places and put it into another one. -/

/-- The frame is in none of the places. It is below the mark of its range, and it is cleared. -/
structure Free (s : State) (o : ℕ) : Prop where
  below : ∃ k, BelowMark s k o
  cleared : s.cleared o = true
  notUsed : s.inUse o = false
  notCached : ∀ t n i, Occupied s t n i → (s.caches t n).oid i ≠ o
  notAvail : ∀ k < s.curRanges, ∀ f < (s.rangeTable k).nSubmaps * framesPerSubmap,
    s.bit k f = true → (s.rangeTable k).oidOf f ≠ o

theorem Inv.bit_unique (h : Inv s) (hk : k < s.curRanges) (hl : l < s.curRanges) {g : ℕ}
    (hf : f < (s.rangeTable k).nSubmaps * framesPerSubmap)
    (hg : g < (s.rangeTable l).nSubmaps * framesPerSubmap)
    (he : (s.rangeTable k).srmBase * framesPerSubmap + f =
      (s.rangeTable l).srmBase * framesPerSubmap + g) : k = l ∧ f = g := by
  have hne : ∀ i j, i < j → j < s.curRanges → ∀ a b,
      a < (s.rangeTable i).nSubmaps * framesPerSubmap →
      (s.rangeTable i).srmBase * framesPerSubmap + a ≠
        (s.rangeTable j).srmBase * framesPerSubmap + b := by
    intro i j hij hj a b ha heq
    have hsub := Nat.mul_le_mul_right framesPerSubmap (h.submaps i j hij hj)
    rw [Nat.add_mul] at hsub
    omega
  rcases Nat.lt_trichotomy k l with hlt | rfl | hlt
  · exact absurd he (hne k l hlt hl f g hf)
  · exact ⟨rfl, by omega⟩
  · exact absurd he.symm (hne l k hlt hk g f hg)

theorem bit_setBit_self (b : Bool) : (s.setBit k f b).bit k f = b := by
  simp [State.bit, State.setBit]

theorem Inv.bit_setBit_of_ne (h : Inv s) (hk : k < s.curRanges) (hl : l < s.curRanges) {g : ℕ} (b : Bool)
    (hf : f < (s.rangeTable k).nSubmaps * framesPerSubmap)
    (hg : g < (s.rangeTable l).nSubmaps * framesPerSubmap) (hne : ¬(l = k ∧ g = f)) :
    (s.setBit k f b).bit l g = s.bit l g := by
  have hpos : (s.rangeTable l).srmBase * framesPerSubmap + g ≠
      (s.rangeTable k).srmBase * framesPerSubmap + f := fun he =>
    hne (h.bit_unique hl hk hg hf he)
  simp only [State.bit, State.setBit]
  exact update_of_ne hpos _ _

theorem Inv.clearBit (h : Inv s) (hk : k < s.curRanges)
    (hf : f < (s.rangeTable k).nSubmaps * framesPerSubmap) (hbit : s.bit k f = true)
    (hlt : (s.rangeTable k).oidOf f < (s.rangeTable k).endClearedOIDs) :
    Inv (s.setBit k f false) ∧ Free (s.setBit k f false) ((s.rangeTable k).oidOf f) := by
  have hkeep : ∀ l < s.curRanges, ∀ g < (s.rangeTable l).nSubmaps * framesPerSubmap,
      (s.setBit k f false).bit l g = true → s.bit l g = true ∧ ¬(l = k ∧ g = f) := by
    intro l hl g hg hb
    by_cases hne : l = k ∧ g = f
    · obtain ⟨rfl, rfl⟩ := hne
      rw [bit_setBit_self] at hb
      cases hb
    · rw [h.bit_setBit_of_ne hk hl false hf hg hne] at hb
      exact ⟨hb, hne⟩
  obtain ⟨hfn, huse, hcache, hclr⟩ := h.avail k hk f hf hbit
  refine ⟨{ h with avail := fun l hl g hg hb => h.avail l hl g hg (hkeep l hl g hg hb).1 },
    ⟨k, hk, ⟨f, hfn, rfl⟩, hlt⟩, hclr hlt, huse, hcache, fun l hl g hg hb he => ?_⟩
  obtain ⟨hb', hne⟩ := hkeep l hl g hg hb
  obtain rfl := h.range_unique hl hk (h.avail l hl g hg hb').1 hfn he
  exact hne ⟨rfl, Range.oidOf_inj he⟩

theorem Inv.setBit (h : Inv s) (hk : k < s.curRanges) (hfn : f < (s.rangeTable k).nFrames)
    (hfree : Free s ((s.rangeTable k).oidOf f)) : Inv (s.setBit k f true) := by
  have hf : f < (s.rangeTable k).nSubmaps * framesPerSubmap := hfn.trans_le (h.wf k hk).covered
  refine { h with avail := fun l hl g hg hb => ?_ }
  by_cases hne : l = k ∧ g = f
  · obtain ⟨rfl, rfl⟩ := hne
    exact ⟨hfn, hfree.notUsed, hfree.notCached, fun _ => hfree.cleared⟩
  · rw [h.bit_setBit_of_ne hk hl true hf hg hne] at hb
    exact h.avail l hl g hg hb

theorem Inv.setAvail (h : Inv s) (hk : k < s.curRanges) (a : ℕ) :
    Inv (s.setRange k { s.rangeTable k with nAvailFrames := a }) := by
  have hr : ∀ l, ∃ b, (s.setRange k { s.rangeTable k with nAvailFrames := a }).rangeTable l =
      { s.rangeTable l with nAvailFrames := b } := by
    intro l
    by_cases hlk : l = k
    · subst hlk
      exact ⟨a, by simp [State.setRange]⟩
    · exact ⟨(s.rangeTable l).nAvailFrames, by simp [State.setRange, hlk]⟩
  have hbelow : ∀ l o, BelowMark s l o →
      BelowMark (s.setRange k { s.rangeTable k with nAvailFrames := a }) l o := by
    rintro l o ⟨hl, hfr, hlt⟩
    obtain ⟨b, hb⟩ := hr l
    refine ⟨hl, ?_, ?_⟩
    · rw [hb]
      exact hfr
    · rw [hb]
      exact hlt
  refine ⟨fun l hl => ?_, fun l hl => ?_, h.count, fun i j hij hj => ?_, fun i j hij hj => ?_,
    fun i hi => ?_, fun l hl f hf hb => ?_, fun o ho => ?_, h.caches, fun t n i hi => ?_, h.distinct⟩
  · obtain ⟨b, hb⟩ := hr l
    obtain ⟨h₁, h₂, h₃⟩ := h.wf l hl
    rw [hb]
    exact ⟨h₁, h₂, h₃⟩
  · have hlk : l ≠ k := fun he => absurd hk (not_lt.2 (he ▸ hl))
    simpa [State.setRange, hlk] using h.empty l hl
  · obtain ⟨b, hb⟩ := hr i
    obtain ⟨c, hc⟩ := hr j
    rw [hb, hc]
    exact h.apart i j hij hj
  · obtain ⟨b, hb⟩ := hr i
    obtain ⟨c, hc⟩ := hr j
    rw [hb, hc]
    exact h.submaps i j hij hj
  · obtain ⟨b, hb⟩ := hr i
    rw [hb]
    exact h.allocated i hi
  · obtain ⟨c, hc⟩ := hr l
    rw [State.bit, hc] at hb
    rw [hc] at hf ⊢
    exact h.avail l hl f hf hb
  · obtain ⟨l, hl⟩ := h.used o ho
    exact ⟨l, hbelow l o hl⟩
  · obtain ⟨⟨l, hl⟩, hclr, huse⟩ := h.cached t n i hi
    exact ⟨⟨l, hbelow l _ hl⟩, hclr, huse⟩

section Cache

variable {ac : AllocCache}

@[simp]
theorem caches_setCache_self : (s.setCache t n ac).caches t n = ac := by simp [State.setCache]

theorem caches_setCache_of_ne {t' : BaseType} {n' : ℕ} (h : ¬(t' = t ∧ n' = n)) :
    (s.setCache t n ac).caches t' n' = s.caches t' n' := by
  by_cases ht : t' = t
  · subst ht
    have hn : n' ≠ n := fun he => h ⟨rfl, he⟩
    simp [State.setCache, hn]
  · simp [State.setCache, ht]

variable (ac) in
theorem Inv.insertCache (h : Inv s) (hfree : Free s o) {p : ℕ} (hle : ac.ndx ≤ ac.top)
    (hocc : ∀ i, ac.ndx ≤ i ∧ i < ac.top → Occupied s t n i ∨ i = p)
    (hoid : ac.oid = update (s.caches t n).oid p o) (hp : ¬Occupied s t n p) :
    Inv (s.setCache t n ac) := by
  -- an occupied place is the new one, or was occupied
  have hplace : ∀ t' n' i, Occupied (s.setCache t n ac) t' n' i →
      (Occupied s t' n' i ∧ ((s.setCache t n ac).caches t' n').oid i = (s.caches t' n').oid i) ∨
      (t' = t ∧ n' = n ∧ i = p ∧ ((s.setCache t n ac).caches t' n').oid i = o) := by
    intro t' n' i hi
    by_cases hc : t' = t ∧ n' = n
    · obtain ⟨rfl, rfl⟩ := hc
      rw [Occupied, caches_setCache_self] at hi
      rw [caches_setCache_self, hoid]
      by_cases hip : i = p
      · subst hip
        exact .inr ⟨rfl, rfl, rfl, update_self _ _ _⟩
      · exact .inl ⟨(hocc i hi).resolve_right hip, update_of_ne hip _ _⟩
    · rw [Occupied, caches_setCache_of_ne hc] at hi
      exact .inl ⟨hi, by rw [caches_setCache_of_ne hc]⟩
  refine { h with avail := fun k hk f hf hb => ?_, caches := fun t' n' => ?_,
                  cached := fun t' n' i hi => ?_, distinct := fun t₁ n₁ i₁ t₂ n₂ i₂ h₁ h₂ he => ?_ }
  · obtain ⟨hfn, huse, hcache, hclr⟩ := h.avail k hk f hf hb
    refine ⟨hfn, huse, fun t' n' i hi => ?_, hclr⟩
    rcases hplace t' n' i hi with ⟨hold, heq⟩ | ⟨-, -, -, heq⟩
    · rw [heq]
      exact hcache t' n' i hold
    · rw [heq]
      exact (hfree.notAvail k hk f hf hb).symm
  · by_cases hc : t' = t ∧ n' = n
    · obtain ⟨rfl, rfl⟩ := hc
      rw [caches_setCache_self]
      exact hle
    · rw [caches_setCache_of_ne hc]
      exact h.caches t' n'
  · rcases hplace t' n' i hi with ⟨hold, heq⟩ | ⟨-, -, -, heq⟩
    · rw [heq]
      exact h.cached t' n' i hold
    · rw [heq]
      exact ⟨hfree.below, hfree.cleared, hfree.notUsed⟩
  · rcases hplace t₁ n₁ i₁ h₁ with ⟨hold₁, heq₁⟩ | ⟨rfl, rfl, rfl, heq₁⟩ <;>
      rcases hplace t₂ n₂ i₂ h₂ with ⟨hold₂, heq₂⟩ | ⟨rfl, rfl, rfl, heq₂⟩
    · exact h.distinct t₁ n₁ i₁ t₂ n₂ i₂ hold₁ hold₂ (heq₁.symm.trans (he.trans heq₂))
    · exact absurd (heq₁.symm.trans (he.trans heq₂)) (hfree.notCached t₁ n₁ i₁ hold₁)
    · exact absurd (heq₂.symm.trans (he.symm.trans heq₁)) (hfree.notCached t₂ n₂ i₂ hold₂)
    · exact ⟨rfl, rfl, rfl⟩

theorem Inv.popCache (h : Inv s) (hne : (s.caches t n).ndx ≠ (s.caches t n).top) :
    Inv (popCache s t n).2 ∧ Free (popCache s t n).2 (popCache s t n).1 := by
  have hlt : (s.caches t n).ndx < (s.caches t n).top := lt_of_le_of_ne (h.caches t n) hne
  have hfirst : Occupied s t n (s.caches t n).ndx := ⟨le_rfl, hlt⟩
  have hplace : ∀ t' n' i, Occupied (ObjSpace.popCache s t n).2 t' n' i →
      (Occupied s t' n' i ∧ ¬(t' = t ∧ n' = n ∧ i = (s.caches t n).ndx)) ∧
      ((ObjSpace.popCache s t n).2.caches t' n').oid i = (s.caches t' n').oid i := by
    intro t' n' i hi
    rw [Occupied, ObjSpace.popCache] at hi
    rw [ObjSpace.popCache]
    by_cases hc : t' = t ∧ n' = n
    · obtain ⟨rfl, rfl⟩ := hc
      simp only [caches_setCache_self] at hi ⊢
      refine ⟨⟨⟨by omega, hi.2⟩, fun he => ?_⟩, trivial⟩
      omega
    · simp only [caches_setCache_of_ne hc] at hi ⊢
      exact ⟨⟨hi, fun he => hc ⟨he.1, he.2.1⟩⟩, trivial⟩
  obtain ⟨hbelow, hclr, huse⟩ := h.cached t n _ hfirst
  constructor
  · refine { h with avail := fun k hk f hf hb => ?_, caches := fun t' n' => ?_,
                    cached := fun t' n' i hi => ?_,
                    distinct := fun t₁ n₁ i₁ t₂ n₂ i₂ h₁ h₂ he => ?_ }
    · obtain ⟨hfn, huse, hcache, hclr⟩ := h.avail k hk f hf hb
      refine ⟨hfn, huse, fun t' n' i hi => ?_, hclr⟩
      rw [(hplace t' n' i hi).2]
      exact hcache t' n' i (hplace t' n' i hi).1.1
    · rw [ObjSpace.popCache]
      by_cases hc : t' = t ∧ n' = n
      · obtain ⟨rfl, rfl⟩ := hc
        simp only [caches_setCache_self]
        omega
      · simp only [caches_setCache_of_ne hc]
        exact h.caches t' n'
    · rw [(hplace t' n' i hi).2]
      exact h.cached t' n' i (hplace t' n' i hi).1.1
    · rw [(hplace _ _ _ h₁).2, (hplace _ _ _ h₂).2] at he
      exact h.distinct _ _ _ _ _ _ (hplace _ _ _ h₁).1.1 (hplace _ _ _ h₂).1.1 he
  · refine ⟨hbelow, hclr, huse, fun t' n' i hi he => ?_, fun k hk f hf hb he => ?_⟩
    · rw [(hplace t' n' i hi).2] at he
      exact (hplace t' n' i hi).1.2 (h.distinct _ _ _ _ _ _ (hplace t' n' i hi).1.1 hfirst he)
    · exact (h.avail k hk f hf hb).2.2.1 t n _ hfirst he.symm

end Cache

theorem Inv.giveOut (h : Inv s) (hfree : Free s o) : Inv (s.giveOut o) := by
  have hcleared : ∀ p, p ≠ o → (s.giveOut o).cleared p = s.cleared p := fun p hp =>
    update_of_ne hp _ _
  have hused : ∀ p, p ≠ o → (s.giveOut o).inUse p = s.inUse p := fun p hp =>
    update_of_ne hp _ _
  refine { h with avail := fun k hk f hf hb => ?_, used := fun p hp => ?_,
                  cached := fun t n i hi => ?_ }
  · obtain ⟨hfn, huse, hcache, hclr⟩ := h.avail k hk f hf hb
    have hne := hfree.notAvail k hk f hf hb
    exact ⟨hfn, (hused _ hne).trans huse, hcache, fun hlt => (hcleared _ hne).trans (hclr hlt)⟩
  · by_cases hpo : p = o
    · rw [hpo]
      exact hfree.below
    · rw [hused p hpo] at hp
      exact h.used p hp
  · obtain ⟨hbelow, hclr, huse⟩ := h.cached t n i hi
    have hne := hfree.notCached t n i hi
    exact ⟨hbelow, (hcleared _ hne).trans hclr, (hused _ hne).trans huse⟩

theorem Inv.takeBack (h : Inv s) (huse : s.inUse o = true) :
    Inv (s.takeBack o) ∧ Free (s.takeBack o) o := by
  have hcleared : ∀ p, s.cleared p = true → (s.takeBack o).cleared p = true := by
    intro p hp
    simp only [State.takeBack, update_apply]
    split
    · rfl
    · exact hp
  have hused : ∀ p, s.inUse p = false → (s.takeBack o).inUse p = false := by
    intro p hp
    simp only [State.takeBack, update_apply]
    split
    · rfl
    · exact hp
  have hne : ∀ p, s.inUse p = false → p ≠ o := by
    rintro p hp rfl
    rw [huse] at hp
    cases hp
  constructor
  · refine { h with avail := fun k hk f hf hb => ?_, used := fun p hp => ?_,
                    cached := fun t n i hi => ?_ }
    · obtain ⟨hfn, hu, hcache, hclr⟩ := h.avail k hk f hf hb
      exact ⟨hfn, hused _ hu, hcache, fun hlt => hcleared _ (hclr hlt)⟩
    · by_cases hp' : s.inUse p = true
      · exact h.used p hp'
      · rw [hused p (by simpa using hp')] at hp
        cases hp
    · obtain ⟨hbelow, hclr, hu⟩ := h.cached t n i hi
      exact ⟨hbelow, hcleared _ hclr, hused _ hu⟩
  · exact ⟨h.used o huse, update_self _ _ _, update_self _ _ _,
      fun t n i hi => hne _ (h.cached t n i hi).2.2,
      fun k hk f hf hb => hne _ (h.avail k hk f hf hb).2.1⟩

/-! ## Filling a cache -/

theorem frameOID_eq (r : Range) (hf : f < 2 ^ 24) : frameOID r f = r.oidOf f := by
  have : f * objectsPerFrame < 2 ^ 32 := by
    rw [objectsPerFrame]
    omega
  rw [frameOID, Nat.mod_eq_of_lt this]
  rfl

theorem moveToCache_eq (k : ℕ) (t : BaseType) (n f o : ℕ) (s : State) :
    ∃ a, moveToCache k t n f o s =
      ((s.setBit k f false).setCache t n { s.caches t n with
        top := (s.caches t n).top + 1
        oid := update (s.caches t n).oid (s.caches t n).top o }).setRange k
          { s.rangeTable k with nAvailFrames := a } := ⟨_, rfl⟩

theorem takeFrame_inv (h : Inv s) (hk : k < s.curRanges)
    (hf : f < (s.rangeTable k).nSubmaps * framesPerSubmap) (hbit : s.bit k f = true)
    (hsmall : f < 2 ^ 24) (hs : takeFrame mounted k t n f s = .ok s') :
    Inv s' ∧ Fills s s' ∧ ((s.caches t n).ndx = 0 → (s'.caches t n).ndx = 0) := by
  have hfn := (h.avail k hk f hf hbit).1
  simp only [takeFrame, frameOID_eq _ hsmall] at hs
  obtain ⟨s₁, hclear, hs⟩ := of_bind_ok hs
  obtain ⟨h₁, hfill, hlt, hcaches, hsrm⟩ := clearLoop_inv _ h hk hfn hclear
  obtain ⟨a, hmove⟩ := moveToCache_eq k t n f ((s.rangeTable k).oidOf f) s₁
  rw [Except.ok.injEq, hmove] at hs
  have hbit₁ : s₁.bit k f = true := by
    rw [State.bit, hsrm, (hfill.range k).2.2.2]
    exact hbit
  have hk₁ : k < s₁.curRanges := hfill.curRanges ▸ hk
  rw [← hfill.oidOf k f] at hlt hs
  rw [← (hfill.range k).2.2.1] at hf
  -- out of the bitmap, and into the cache
  obtain ⟨h₂, hfree⟩ := h₁.clearBit hk₁ hf hbit₁ hlt
  have hle := h₂.caches t n
  have h₃ := h₂.insertCache (t := t) (n := n)
    { s₁.caches t n with
      top := (s₁.caches t n).top + 1
      oid := update (s₁.caches t n).oid (s₁.caches t n).top ((s₁.rangeTable k).oidOf f) }
    hfree (hle.trans (Nat.le_succ _))
    (fun i hi => by
      by_cases hi' : i < (s₁.caches t n).top
      · exact .inl ⟨hi.1, hi'⟩
      · exact .inr (Nat.le_antisymm (Nat.lt_succ_iff.1 hi.2) (not_lt.1 hi')))
    rfl (fun hi => lt_irrefl _ hi.2)
  have h₄ := h₃.setAvail hk₁ a
  subst hs
  refine ⟨h₄, hfill.trans ⟨rfl, rfl, ⟨[], rfl, by simp⟩, fun l => ?_⟩, fun h0 => ?_⟩
  · by_cases hlk : l = k
    · subst hlk
      simp [State.setRange, State.setCache, State.setBit]
    · simp [State.setRange, State.setCache, State.setBit, hlk]
  · rw [← h0, ← hcaches]
    simp [State.setRange, State.setCache, State.setBit]

theorem clearLoop_frame {fuel : ℕ} (hs : clearLoop mounted k o fuel s = .ok s') :
    s'.caches = s.caches ∧ s'.srm = s.srm ∧ (s'.rangeTable k).srmBase = (s.rangeTable k).srmBase := by
  induction fuel generalizing s with
  | zero => cases hs
  | succ fuel ih =>
    rw [clearLoop] at hs
    split at hs
    · obtain ⟨h₁, h₂, h₃⟩ := ih (of_ensure_bind hs).2
      exact ⟨h₁, h₂, h₃.trans (by simp)⟩
    · cases hs
      exact ⟨rfl, rfl, rfl⟩

theorem scan_lawful (k : ℕ) (t : BaseType) (n : ℕ) : (scan mounted k t n).Lawful := by
  constructor
  · intro f s s' hs
    obtain ⟨s₁, hs₁, hs⟩ := of_bind_ok hs
    obtain ⟨-, hsrm, hbase⟩ := clearLoop_frame hs₁
    cases hs
    ext g
    by_cases hg : g = f
    · subst hg
      simp [scan, moveToCache, State.bit, State.setBit, State.setCache, State.setRange]
    · simp [scan, moveToCache, State.bit, State.setBit, State.setCache, State.setRange, hg, hsrm,
        hbase]
  · intro f s s' hs
    obtain ⟨s₁, hs₁, hs⟩ := of_bind_ok hs
    obtain ⟨hcaches, -, -⟩ := clearLoop_frame hs₁
    cases hs
    simp only [scan, moveToCache, State.setRange, State.setBit, caches_setCache_self, hcaches]
    omega

/-- The frames that `fill_cache` takes from a range. -/
def framesToTake (s : State) (k : ℕ) : List ℕ :=
  ((List.range' 0 ((s.rangeTable k).nSubmaps * framesPerSubmap)).filter (s.bit k)).take maxCacheEnt

theorem mem_range_of_availableRange (h : Inv s) (hk : availableRange s = some k) :
    k < s.curRanges := by
  have hsome := List.find?_some hk
  by_contra hge
  rw [h.empty k (not_lt.1 hge)] at hsome
  simp at hsome

theorem fillCache_inv {b : Bool} (h : Inv s)
    (hsmall : ∀ k, availableRange s = some k → ∀ f ∈ framesToTake s k, f < 2 ^ 24)
    (hs : fillCache mounted t n s = .ok (b, s')) :
    Inv s' ∧ Fills s s' ∧ (b = true → (s'.caches t n).ndx ≠ (s'.caches t n).top) ∨
      s' = s ∧ b = false := by
  rw [fillCache] at hs
  cases hk : availableRange s with
  | none =>
    rw [hk] at hs
    cases hs
    exact .inr ⟨rfl, rfl⟩
  | some k =>
    rw [hk] at hs
    obtain ⟨hempty, hs⟩ := of_ensure_bind hs
    have hcur := mem_range_of_availableRange h hk
    left
    -- the cache is empty, so it makes no difference where it starts
    have h₁ : Inv (s.setCache t n { s.caches t n with ndx := 0, top := 0 }) := by
      have hocc : ∀ t' n' i, Occupied (s.setCache t n { s.caches t n with ndx := 0, top := 0 }) t' n' i →
          Occupied s t' n' i ∧ ((s.setCache t n { s.caches t n with ndx := 0, top := 0 }).caches
            t' n').oid i = (s.caches t' n').oid i := by
        intro t' n' i hi
        by_cases hc : t' = t ∧ n' = n
        · obtain ⟨rfl, rfl⟩ := hc
          rw [Occupied, caches_setCache_self] at hi
          exact absurd hi.2 (Nat.not_lt_zero i)
        · rw [Occupied, caches_setCache_of_ne hc] at hi
          exact ⟨hi, by rw [caches_setCache_of_ne hc]⟩
      refine { h with avail := fun l hl f hf hb => ?_, caches := fun t' n' => ?_,
                      cached := fun t' n' i hi => ?_,
                      distinct := fun t₁ n₁ i₁ t₂ n₂ i₂ h₁ h₂ he => ?_ }
      · obtain ⟨hfn, huse, hcache, hclr⟩ := h.avail l hl f hf hb
        refine ⟨hfn, huse, fun t' n' i hi => ?_, hclr⟩
        rw [(hocc t' n' i hi).2]
        exact hcache t' n' i (hocc t' n' i hi).1
      · by_cases hc : t' = t ∧ n' = n
        · obtain ⟨rfl, rfl⟩ := hc
          rw [caches_setCache_self]
        · rw [caches_setCache_of_ne hc]
          exact h.caches t' n'
      · rw [(hocc t' n' i hi).2]
        exact h.cached t' n' i (hocc t' n' i hi).1
      · rw [(hocc _ _ _ h₁).2, (hocc _ _ _ h₂).2] at he
        exact h.distinct _ _ _ _ _ _ (hocc _ _ _ h₁).1 (hocc _ _ _ h₂).1 he
    generalize hs₁ : s.setCache t n { s.caches t n with ndx := 0, top := 0 } = s₁ at h₁ hs
    have hfills₁ : Fills s s₁ := by
      subst hs₁
      exact ⟨rfl, rfl, ⟨[], rfl, by simp⟩, fun _ => ⟨rfl, rfl, rfl, rfl⟩⟩
    have hndx₁ : (s₁.caches t n).ndx = 0 := by simp [← hs₁]
    have hfirsts : BitScan.firsts (scan mounted k t n) s₁ 0
        ((s₁.rangeTable k).nSubmaps * (framesPerSubmap / 32) * 32) = framesToTake s k := by
      subst hs₁
      have hwords : (s.rangeTable k).nSubmaps * (framesPerSubmap / 32) * 32 =
          (s.rangeTable k).nSubmaps * framesPerSubmap := by
        rw [framesPerSubmap]
        omega
      simp only [BitScan.firsts, framesToTake, scan, caches_setCache_self]
      change (((List.range' 0 ((s.rangeTable k).nSubmaps * (framesPerSubmap / 32) * 32)).filter
        (s.bit k)).take _) = _
      rw [hwords]
      rfl
    obtain ⟨s₂, hscan, hs⟩ := of_bind_ok hs
    cases hs
    -- each frame that is taken keeps the invariant
    obtain ⟨h₂, hfills₂, hndx₂⟩ := BitScan.words_induct (scan_lawful k t n)
      (R := fun s' => Inv s' ∧ Fills s s' ∧ (s'.caches t n).ndx = 0)
      (fun f hf s₁ s₂ hr hbit _ htake => by
        rw [hfirsts] at hf
        have hlow : f < (s₁.rangeTable k).nSubmaps * framesPerSubmap := by
          have hm := List.mem_range'_1.1 (List.mem_filter.1 (List.mem_of_mem_take hf)).1
          rw [(hr.2.1.range k).2.2.1]
          omega
        have hcur' : k < s₁.curRanges := hr.2.1.curRanges ▸ hcur
        obtain ⟨hinv, hfills, hndx⟩ :=
          takeFrame_inv hr.1 hcur' hlow hbit (hsmall k hk f hf) htake
        exact ⟨hinv, hr.2.1.trans hfills, hndx hr.2.2⟩)
      ⟨h₁, hfills₁, hndx₁⟩ hscan
    refine ⟨h₂, hfills₂, fun hb => ?_⟩
    rw [hndx₂]
    exact (of_decide_eq_true hb).symm

end CapROS.ObjSpace
