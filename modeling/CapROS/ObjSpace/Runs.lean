import CapROS.ObjSpace.Clearing

/-!
# The object space and its clients

Ranges are installed, and frames are allocated and released, in any order. As long as `fill_cache`
computes the OIDs of the frames without overflow, the invariant holds in every state that is reached.

* `clearing_run`: the frames that are handed out have been cleared, and none of those that are cleared
  is in use.
* `clearing_fails`: after an overflow a frame is handed out that is in use.
-/

namespace CapROS.ObjSpace

variable {mounted : ℕ → Bool} {s s' : State} {k l f o n : ℕ} {t : BaseType} {result : Option ℕ}

/-! ## Allocation -/

theorem popCache_fills (s : State) (t : BaseType) (n : ℕ) : Fills s (popCache s t n).2 :=
  ⟨rfl, rfl, ⟨[], rfl, by simp⟩, fun _ => ⟨rfl, rfl, rfl, rfl⟩⟩

theorem stealFrame_inv (h : Inv s) (hs : stealFrame s t n = (result, s')) :
    Inv s' ∧ Fills s s' ∧ ∀ o, result = some o → Free s' o := by
  rw [stealFrame] at hs
  cases hc : (stealOrder t n).find? fun c =>
      decide ((s.caches c.1 c.2).ndx ≠ (s.caches c.1 c.2).top) with
  | none =>
    rw [hc] at hs
    cases hs
    exact ⟨h, Fills.refl s, fun o ho => nomatch ho⟩
  | some c =>
    rw [hc] at hs
    cases hs
    obtain ⟨hinv, hfree⟩ := h.popCache (of_decide_eq_true (List.find?_some hc :))
    refine ⟨hinv, popCache_fills s c.1 c.2, fun o ho => ?_⟩
    cases ho
    exact hfree

variable {bank oid len reservedFrames : ℕ}

theorem allocFrame_inv (h : Inv s)
    (hsmall : (s.caches t (bank % nCache)).ndx = (s.caches t (bank % nCache)).top →
      ∀ k, availableRange s = some k → ∀ f ∈ framesToTake s k, f < 2 ^ 24)
    (hs : allocFrame mounted bank t s = .ok (result, s')) :
    Inv s' ∧ Fills s s' ∧ ∀ o, result = some o → Free s' o := by
  rw [allocFrame] at hs
  obtain ⟨-, hs⟩ := of_ensure_bind hs
  obtain ⟨⟨filled, s₁⟩, hfill, hs⟩ := of_bind_ok hs
  -- the cache is as before, or has been filled
  have h₁ : Inv s₁ ∧ Fills s s₁ ∧ (filled = true →
      (s₁.caches t (bank % nCache)).ndx ≠ (s₁.caches t (bank % nCache)).top) := by
    by_cases hne : (s.caches t (bank % nCache)).ndx = (s.caches t (bank % nCache)).top
    · rw [if_neg (not_not.2 hne)] at hfill
      rcases fillCache_inv h (hsmall hne) hfill with hfilled | ⟨rfl, rfl⟩
      · exact hfilled
      · exact ⟨h, Fills.refl _, fun hf => nomatch hf⟩
    · rw [if_pos hne] at hfill
      cases hfill
      exact ⟨h, Fills.refl _, fun _ => hne⟩
  obtain ⟨hinv, hfills, hne⟩ := h₁
  cases filled with
  | true =>
    cases hs
    obtain ⟨hinv', hfree⟩ := hinv.popCache (hne rfl)
    refine ⟨hinv', hfills.trans (popCache_fills _ _ _), fun o ho => ?_⟩
    cases ho
    exact hfree
  | false =>
    obtain ⟨hinv', hfills', hfree⟩ := stealFrame_inv hinv (Except.ok.inj hs)
    exact ⟨hinv', hfills.trans hfills', hfree⟩

/-! ## Release -/

/-- The OIDs of a range. -/
def Range.Contains (r : Range) (o : ℕ) : Prop := r.startOID ≤ o ∧ o < r.endOID

instance (r : Range) (o : ℕ) : Decidable (r.Contains o) := inferInstanceAs (Decidable (_ ∧ _))

variable {r : Range}

theorem Range.Wf.contains (h : r.Wf) (hf : f < r.nFrames) : r.Contains (r.oidOf f) :=
  ⟨Nat.le_add_right _ _, ((Range.oidOf_lt f _).2 hf).trans_le h.inside⟩

theorem BelowMark.contains (h : Inv s) (hb : BelowMark s k o) : (s.rangeTable k).Contains o := by
  obtain ⟨hk, ⟨f, hf, rfl⟩, -⟩ := hb
  exact (h.wf k hk).contains hf

theorem Inv.contains_unique (h : Inv s) (hk : (s.rangeTable k).Contains o)
    (hl : (s.rangeTable l).Contains o) : k = l := by
  have hcur : ∀ i, (s.rangeTable i).Contains o → i < s.curRanges := by
    intro i hi
    by_contra hge
    rw [Range.Contains, h.empty i (not_lt.1 hge)] at hi
    exact Nat.not_lt_zero _ hi.2
  have happ : ∀ i j, i < j → (s.rangeTable i).Contains o → ¬(s.rangeTable j).Contains o := by
    intro i j hij hi hj
    have hor := h.apart i j hij (hcur j hj)
    have := hi.1
    have := hi.2
    have := hj.1
    have := hj.2
    omega
  rcases Nat.lt_trichotomy k l with hlt | heq | hlt
  · exact absurd hl (happ k l hlt hk)
  · exact heq
  · exact absurd hk (happ l k hlt hl)

theorem releaseFrame_inv (h : Inv s) (hfree : Free s o)
    (hs : releaseFrame bank o t s = .ok s') : Inv s' ∧ s'.zeroed = s.zeroed := by
  rw [releaseFrame] at hs
  cases hk : (List.range maxRanges).find? fun k =>
      decide ((s.rangeTable k).startOID ≤ o ∧ o < (s.rangeTable k).endOID) with
  | none =>
    rw [hk] at hs
    cases hs
  | some k =>
    rw [hk] at hs
    obtain ⟨-, hs⟩ := of_ensure_bind hs
    have hin : (s.rangeTable k).Contains o := of_decide_eq_true (List.find?_some hk :)
    obtain ⟨l, hbelow⟩ := hfree.below
    obtain rfl := h.contains_unique hin (hbelow.contains h)
    obtain ⟨hcur, ⟨f, hf, rfl⟩, -⟩ := hbelow
    generalize bank % nCache = n at hs
    by_cases hpos : 0 < (s.caches t n).ndx
    · rw [if_pos hpos] at hs
      cases hs
      refine ⟨h.insertCache _ hfree ((Nat.sub_le _ _).trans (h.caches t n)) (fun i hi => ?_) rfl
        (fun hocc => ?_), rfl⟩
      · by_cases hi' : (s.caches t n).ndx ≤ i
        · exact .inl ⟨hi', hi.2⟩
        · have hge : (s.caches t n).ndx - 1 ≤ i := hi.1
          exact .inr (by omega)
      · have hge : (s.caches t n).ndx ≤ (s.caches t n).ndx - 1 := hocc.1
        omega
    · rw [if_neg hpos] at hs
      obtain ⟨-, hs⟩ := of_ensure_bind hs
      have hoffset : ((s.rangeTable k).oidOf f - (s.rangeTable k).startOID) / objectsPerFrame = f := by
        rw [Range.oidOf, Nat.add_sub_cancel_left, Nat.mul_div_cancel _ (by decide)]
      rw [hoffset] at hs
      cases hs
      exact ⟨(h.setBit hcur hf hfree).setAvail hcur _, rfl⟩

theorem releaseFrame_ok (h : Inv s) (hfree : Free s o) :
    ∃ s', releaseFrame bank o t s = .ok s' := by
  obtain ⟨l, hbelow⟩ := hfree.below
  have hin := hbelow.contains h
  obtain ⟨hcur, ⟨f, hf, rfl⟩, -⟩ := hbelow
  rw [releaseFrame]
  cases hk : (List.range maxRanges).find? fun k =>
      decide ((s.rangeTable k).startOID ≤ (s.rangeTable l).oidOf f ∧
        (s.rangeTable l).oidOf f < (s.rangeTable k).endOID) with
  | none =>
    have hnone := List.find?_eq_none.1 hk l (List.mem_range.2 (hcur.trans_le h.count))
    exact absurd (decide_eq_true hin) hnone
  | some k =>
    have hin' : (s.rangeTable k).Contains ((s.rangeTable l).oidOf f) := of_decide_eq_true (List.find?_some hk :)
    obtain rfl := h.contains_unique hin' hin
    simp only [ensure_pos (h.caches t (bank % nCache)), ok_bind]
    split
    · exact ⟨_, rfl⟩
    · have hoffset : ((s.rangeTable k).oidOf f - (s.rangeTable k).startOID) / objectsPerFrame = f := by
        rw [Range.oidOf, Nat.add_sub_cancel_left, Nat.mul_div_cancel _ (by decide)]
      have hbit : s.bit k f = false := by
        by_contra hb
        exact hfree.notAvail k hcur f (hf.trans_le (h.wf k hcur).covered) (by simpa using hb) rfl
      rw [hoffset, ensure_pos hbit]
      exact ⟨_, rfl⟩

theorem releaseFrame_with (bank o : ℕ) (t : BaseType) (s : State) (cleared inUse : ℕ → Bool) :
    releaseFrame bank o t { s with cleared := cleared, inUse := inUse } =
      (releaseFrame bank o t s).map fun s' => { s' with cleared := cleared, inUse := inUse } := by
  rw [releaseFrame, releaseFrame]
  cases (List.range maxRanges).find? fun k =>
      decide ((s.rangeTable k).startOID ≤ o ∧ o < (s.rangeTable k).endOID) with
  | none => rfl
  | some k =>
    dsimp only
    cases ensure ((s.caches t (bank % nCache)).ndx ≤ (s.caches t (bank % nCache)).top) .assertion with
    | error e => rfl
    | ok _ =>
      by_cases hpos : 0 < (s.caches t (bank % nCache)).ndx
      · simp only [ok_bind, if_pos hpos]
        rfl
      · simp only [ok_bind, if_neg hpos]
        -- the bit is the same
        change (ensure (s.bit k _ = false) .fatal >>= _) = Except.map _ (ensure (s.bit k _ = false) .fatal >>= _)
        cases ensure (s.bit k ((o - (s.rangeTable k).startOID) / objectsPerFrame) = false) .fatal <;> rfl

/-! ## Installation -/

theorem framesOf_le (len : ℕ) : framesOf len * objectsPerFrame ≤ len :=
  (Nat.mul_le_mul_right _ (Nat.mod_le _ _)).trans (Nat.div_mul_le_self _ _)

theorem inUseAtInstall_iff :
    inUseAtInstall oid len reservedFrames o = true ↔
      ∃ f < reservedFrames + submapsOf len, o = oid + f * objectsPerFrame := by
  rw [inUseAtInstall, decide_eq_true_iff]
  simp only [objectsPerFrame]
  constructor
  · rintro ⟨hle, hlt, hmod⟩
    exact ⟨(o - oid) / 256, by omega, by omega⟩
  · rintro ⟨f, hf, rfl⟩
    omega

/-- The installation of the range `r` as the last one of the table. -/
structure Installed (s s' : State) (oid len reservedFrames : ℕ) (r : Range) : Prop where
  room : s.curRanges < maxRanges
  rangeTable : s'.rangeTable = Function.update s.rangeTable s.curRanges r
  curRanges : s'.curRanges = s.curRanges + 1
  nextRangeSrmFrame : s'.nextRangeSrmFrame = s.nextRangeSrmFrame + r.nSubmaps
  caches : s'.caches = s.caches
  cleared : s'.cleared = s.cleared
  zeroed : s'.zeroed = s.zeroed
  inUse : s'.inUse = s.inUse
  startOID : r.startOID = oid
  endOID : r.endOID = oid + len
  srmBase : r.srmBase = s.nextRangeSrmFrame
  covered : r.nFrames ≤ r.nSubmaps * framesPerSubmap
  inside : r.nFrames * objectsPerFrame ≤ len
  first : reservedFrames + submapsOf len ≤ r.nFrames
  mark : r.endClearedOIDs = r.oidOf (reservedFrames + submapsOf len)
  /-- The bits of the other ranges stay. -/
  srm : ∀ p < s.nextRangeSrmFrame * framesPerSubmap, s'.srm p = s.srm p
  bit : ∀ f < r.nSubmaps * framesPerSubmap,
    s'.srm (s.nextRangeSrmFrame * framesPerSubmap + f) =
      decide (reservedFrames + submapsOf len ≤ f ∧ f < r.nFrames)

theorem installRange_spec (hcount : s.curRanges ≤ maxRanges)
    (hsmall : reservedFrames + submapsOf len < 2 ^ 32)
    (hs : installRange mounted oid len reservedFrames s = .ok s') :
    ∃ r, Installed s s' oid len reservedFrames r := by
  have hadd : add32 reservedFrames (submapsOf len) = reservedFrames + submapsOf len :=
    Nat.mod_eq_of_lt hsmall
  obtain ⟨hroom, hs⟩ := of_ensure_bind hs
  obtain ⟨-, hs⟩ := of_ensure_bind hs
  obtain ⟨hfirst, hs⟩ := of_ensure_bind hs
  obtain ⟨-, hs⟩ := of_ensure_bind hs
  obtain ⟨s₁, hmap, hs⟩ := of_bind_ok hs
  obtain ⟨hcovered, hmap⟩ := of_ensure_bind hmap
  cases hmap
  cases hs
  rw [hadd] at hfirst
  refine ⟨_, lt_of_le_of_ne hcount hroom, rfl, rfl, rfl, rfl, rfl, rfl, rfl, rfl, rfl, rfl, hcovered,
    framesOf_le len, hfirst, ?_, fun p hp => ?_, fun f hf => ?_⟩
  · rw [hadd]
    rfl
  · exact if_neg fun h => absurd h.1 (not_le.2 hp)
  · have hregion : s.nextRangeSrmFrame * framesPerSubmap ≤ s.nextRangeSrmFrame * framesPerSubmap + f ∧
        s.nextRangeSrmFrame * framesPerSubmap + f <
          s.nextRangeSrmFrame * framesPerSubmap + submapsOf len * framesPerSubmap :=
      ⟨Nat.le_add_right _ _, Nat.add_lt_add_left hf _⟩
    refine (if_pos hregion).trans ?_
    rw [hadd, Nat.add_sub_cancel_left]

theorem installRange_inv (h : Inv s)
    (hapart : ∀ k < s.curRanges, oid + len ≤ (s.rangeTable k).startOID ∨ (s.rangeTable k).endOID ≤ oid)
    (hr : Installed s s' oid len reservedFrames r) :
    Inv { s' with inUse := fun o => s'.inUse o || inUseAtInstall oid len reservedFrames o } := by
  have hlast : s'.rangeTable s.curRanges = r := by
    rw [hr.rangeTable]
    exact Function.update_self _ _ _
  have hold : ∀ l, l ≠ s.curRanges → s'.rangeTable l = s.rangeTable l := by
    intro l hl
    rw [hr.rangeTable]
    exact Function.update_of_ne hl _ _
  have hcur : ∀ l < s'.curRanges, l = s.curRanges ∨ l < s.curRanges := by
    intro l hl
    rw [hr.curRanges] at hl
    omega
  have hbelow : ∀ l o, BelowMark s l o → BelowMark s' l o := by
    rintro l o ⟨hl, hfr, hlt⟩
    have heq := hold l hl.ne
    refine ⟨?_, ?_, ?_⟩
    · rw [hr.curRanges]
      exact hl.trans (Nat.lt_succ_self _)
    · rwa [heq]
    · rwa [heq]
  -- the objects of the new range are in no other range
  have hnew : ∀ l < s.curRanges, ∀ o, (s.rangeTable l).Contains o → ¬(oid ≤ o ∧ o < oid + len) := by
    intro l hl o hin ho
    have hor := hapart l hl
    have := hin.1
    have := hin.2
    omega
  have hnotNew : ∀ l < s.curRanges, ∀ o, (s.rangeTable l).Contains o →
      inUseAtInstall oid len reservedFrames o = false := by
    intro l hl o hin
    by_contra huse
    obtain ⟨f, hf, rfl⟩ := inUseAtInstall_iff.1 (by simpa using huse)
    have hlt : f * objectsPerFrame < r.nFrames * objectsPerFrame :=
      Nat.mul_lt_mul_of_pos_right (hf.trans_le hr.first) (by decide)
    exact hnew l hl _ hin ⟨Nat.le_add_right _ _, Nat.add_lt_add_left (hlt.trans_le hr.inside) _⟩
  have hbit : ∀ l < s.curRanges, ∀ f < (s.rangeTable l).nSubmaps * framesPerSubmap,
      s'.bit l f = s.bit l f := by
    intro l hl f hf
    rw [State.bit, State.bit, hold l hl.ne]
    refine hr.srm _ ?_
    have hle := Nat.mul_le_mul_right framesPerSubmap (h.allocated l hl)
    rw [Nat.add_mul] at hle
    omega
  refine ⟨fun l hl => ?_, fun l hl => ?_, ?_, fun i j hij hj => ?_, fun i j hij hj => ?_,
    fun l hl => ?_, fun l hl f hf hb => ?_, fun o ho => ?_, ?_, fun t n i hi => ?_, ?_⟩
  · rcases hcur l hl with rfl | hl
    · refine ⟨?_, ?_, reservedFrames + submapsOf len, ?_, ?_⟩ <;> rw [hlast]
      · exact hr.covered
      · rw [Range.oidOf, hr.startOID, hr.endOID]
        exact Nat.add_le_add_left hr.inside _
      · exact hr.first
      · exact hr.mark
    · change (s'.rangeTable l).Wf
      rw [hold l hl.ne]
      exact h.wf l hl
  · have hlt : s.curRanges < l := by
      have : s'.curRanges ≤ l := hl
      rw [hr.curRanges] at this
      exact this
    exact (hold l hlt.ne').trans (h.empty l hlt.le)
  · change s'.curRanges ≤ maxRanges
    rw [hr.curRanges]
    exact hr.room
  · change (s'.rangeTable i).endOID ≤ (s'.rangeTable j).startOID ∨
      (s'.rangeTable j).endOID ≤ (s'.rangeTable i).startOID
    rcases hcur j hj with rfl | hj
    · rw [hlast, hold i hij.ne, hr.startOID, hr.endOID]
      exact (hapart i hij).symm
    · rw [hold j hj.ne, hold i (hij.trans hj).ne]
      exact h.apart i j hij hj
  · change (s'.rangeTable i).srmBase + (s'.rangeTable i).nSubmaps ≤ (s'.rangeTable j).srmBase
    rcases hcur j hj with rfl | hj
    · rw [hlast, hold i hij.ne, hr.srmBase]
      exact h.allocated i hij
    · rw [hold j hj.ne, hold i (hij.trans hj).ne]
      exact h.submaps i j hij hj
  · change (s'.rangeTable l).srmBase + (s'.rangeTable l).nSubmaps ≤ s'.nextRangeSrmFrame
    rw [hr.nextRangeSrmFrame]
    rcases hcur l hl with rfl | hl
    · rw [hlast, hr.srmBase]
    · rw [hold l hl.ne]
      exact (h.allocated l hl).trans (Nat.le_add_right _ _)
  · have hb : s'.bit l f = true := hb
    change f < (s'.rangeTable l).nFrames ∧
      (s'.inUse ((s'.rangeTable l).oidOf f) ||
        inUseAtInstall oid len reservedFrames ((s'.rangeTable l).oidOf f)) = false ∧
      (∀ t n i, Occupied s' t n i → (s'.caches t n).oid i ≠ (s'.rangeTable l).oidOf f) ∧
      ((s'.rangeTable l).oidOf f < (s'.rangeTable l).endClearedOIDs →
        s'.cleared ((s'.rangeTable l).oidOf f) = true)
    simp only [Occupied, hr.inUse, hr.cleared, hr.caches, Bool.or_eq_false_iff]
    rcases hcur l hl with rfl | hl
    · rw [State.bit, hlast, hr.srmBase] at hb
      rw [hlast] at hf ⊢
      rw [hr.bit f hf] at hb
      obtain ⟨hge, hlt⟩ := of_decide_eq_true hb
      have hin : oid ≤ r.oidOf f ∧ r.oidOf f < oid + len := by
        have hlt' : f * objectsPerFrame < r.nFrames * objectsPerFrame :=
          Nat.mul_lt_mul_of_pos_right hlt (by decide)
        rw [Range.oidOf, hr.startOID]
        exact ⟨Nat.le_add_right _ _, Nat.add_lt_add_left (hlt'.trans_le hr.inside) _⟩
      refine ⟨hlt, ⟨?_, ?_⟩, fun t n i hi he => ?_, fun hmark => ?_⟩
      · by_contra huse
        obtain ⟨k, hk⟩ := h.used _ (by simpa using huse)
        exact hnew k hk.1 _ (hk.contains h) hin
      · by_contra huse
        obtain ⟨g, hg, he⟩ := inUseAtInstall_iff.1 (by simpa using huse)
        rw [← hr.startOID] at he
        have hfg : f = g := Range.oidOf_inj he
        omega
      · obtain ⟨⟨k, hk⟩, -⟩ := h.cached t n i hi
        exact hnew k hk.1 _ (hk.contains h) (he ▸ hin)
      · rw [hr.mark, Range.oidOf_lt] at hmark
        omega
    · have hf : f < (s.rangeTable l).nSubmaps * framesPerSubmap := hold l hl.ne ▸ hf
      rw [hbit l hl f hf] at hb
      rw [hold l hl.ne]
      obtain ⟨hfn, huse, hcache, hclr⟩ := h.avail l hl f hf hb
      exact ⟨hfn, ⟨huse, hnotNew l hl _ ((h.wf l hl).contains hfn)⟩, hcache, hclr⟩
  · -- a frame that is in use was so before, or is one of those at the start of the new range
    have ho : (s'.inUse o || inUseAtInstall oid len reservedFrames o) = true := ho
    rw [hr.inUse, Bool.or_eq_true] at ho
    rcases ho with ho | ho
    · obtain ⟨l, hl⟩ := h.used o ho
      exact ⟨l, hbelow l o hl⟩
    · obtain ⟨f, hf, rfl⟩ := inUseAtInstall_iff.1 ho
      refine ⟨s.curRanges, ?_, ⟨f, ?_, ?_⟩, ?_⟩
      · exact hr.curRanges ▸ Nat.lt_succ_self s.curRanges
      · exact hlast ▸ hf.trans_le hr.first
      · change _ = (s'.rangeTable s.curRanges).oidOf f
        rw [hlast, Range.oidOf, hr.startOID]
      · change _ < (s'.rangeTable s.curRanges).endClearedOIDs
        rw [hlast, hr.mark, ← hr.startOID]
        exact (Range.oidOf_lt f _).2 hf
  · exact hr.caches ▸ h.caches
  · have hi : Occupied s' t n i := hi
    rw [Occupied, hr.caches] at hi
    obtain ⟨⟨l, hl⟩, hclr, huse⟩ := h.cached t n i hi
    change (∃ k, BelowMark s' k ((s'.caches t n).oid i)) ∧ s'.cleared ((s'.caches t n).oid i) = true ∧
      (s'.inUse ((s'.caches t n).oid i) ||
        inUseAtInstall oid len reservedFrames ((s'.caches t n).oid i)) = false
    rw [hr.caches, hr.cleared, hr.inUse, huse, hnotNew l hl.1 _ (hl.contains h)]
    exact ⟨⟨l, hbelow l _ hl⟩, hclr, rfl⟩
  · change ∀ t n i t' n' i', Occupied s' t n i → Occupied s' t' n' i' →
      (s'.caches t n).oid i = (s'.caches t' n').oid i' → t = t' ∧ n = n' ∧ i = i'
    simp only [Occupied, hr.caches]
    exact h.distinct

/-! ## Runs -/

/-- The number of frames at the start of a range fits into 32 bits, and `fill_cache` takes only frames
whose OIDs it computes without overflow. -/
def Request.Careful (s : State) : Request → Prop
  | .install _ len reservedFrames => reservedFrames + submapsOf len < 2 ^ 32
  | .alloc bank t =>
      (s.caches t (bank % nCache)).ndx = (s.caches t (bank % nCache)).top →
        ∀ k, availableRange s = some k → ∀ f ∈ framesToTake s k, f < 2 ^ 24
  | .release _ _ _ => True

inductive CarefulRun (mounted : ℕ → Bool) (s₀ : State) : State → Prop where
  | start : CarefulRun mounted s₀ s₀
  | step {s s' : State} (r : Request) (h : CarefulRun mounted s₀ s) (allowed : r.Allowed s)
      (careful : r.Careful s) (next : step mounted s r = .ok s') : CarefulRun mounted s₀ s'

theorem Init.inv (h : Init s) : Inv s := by
  have hcur : ∀ k, ¬k < s.curRanges := by
    rw [h.curRanges]
    exact Nat.not_lt_zero
  have hocc : ∀ t n i, ¬Occupied s t n i := by
    intro t n i hi
    rw [Occupied, h.caches] at hi
    exact Nat.not_lt_zero i hi.2
  refine ⟨fun k hk => absurd hk (hcur k), fun k _ => ?_, ?_, fun k l _ hl => absurd hl (hcur l),
    fun k l _ hl => absurd hl (hcur l), fun k hk => absurd hk (hcur k), fun k hk => absurd hk (hcur k),
    fun o ho => ?_, fun t n => ?_, fun t n i hi => absurd hi (hocc t n i),
    fun t n i _ _ _ hi => absurd hi (hocc t n i)⟩
  · rw [h.rangeTable]
  · rw [h.curRanges]
    exact Nat.zero_le _
  · rw [h.inUse] at ho
    cases ho
  · rw [h.caches]

theorem step_inv {r : Request} (h : Inv s) (allowed : r.Allowed s) (careful : r.Careful s)
    (next : step mounted s r = .ok s') :
    Inv s' ∧ ∃ os, s'.zeroed = os ++ s.zeroed ∧ ∀ o ∈ os, s.inUse o = false := by
  cases r with
  | install oid len reservedFrames =>
    obtain ⟨s₁, hs₁, next⟩ := of_bind_ok next
    cases next
    obtain ⟨r, hr⟩ := installRange_spec h.count careful hs₁
    exact ⟨installRange_inv h allowed hr, [], hr.zeroed, by simp⟩
  | alloc bank t =>
    obtain ⟨⟨result, s₁⟩, hs₁, next⟩ := of_bind_ok next
    obtain ⟨hinv, hfills, hfree⟩ := allocFrame_inv h careful hs₁
    cases result with
    | none =>
      cases next
      exact ⟨hinv, hfills.zeroed⟩
    | some o =>
      cases next
      exact ⟨hinv.giveOut (hfree o rfl), hfills.zeroed⟩
  | release bank o t =>
    obtain ⟨hinv, hfree⟩ := h.takeBack allowed
    obtain ⟨hinv', hzeroed⟩ := releaseFrame_inv hinv hfree next
    exact ⟨hinv', [], hzeroed, by simp⟩

theorem CarefulRun.inv {s₀ : State} (h0 : Init s₀) (h : CarefulRun mounted s₀ s) : Inv s := by
  induction h with
  | start => exact h0.inv
  | step r _ allowed careful next ih => exact (step_inv ih allowed careful next).1

theorem allocFrame_single (bank : ℕ) (t : BaseType) {s₁ : State} (hcaches : s.caches = fun _ _ => {})
    (hk : availableRange s = some k) (hf : f < (s.rangeTable k).nSubmaps * framesPerSubmap)
    (hbits : ∀ g < (s.rangeTable k).nSubmaps * framesPerSubmap, s.bit k g = decide (g = f))
    (hclear : clearLoop mounted k (frameOID (s.rangeTable k) f)
      (frameOID (s.rangeTable k) f + 1 - (s.rangeTable k).endClearedOIDs + 1) s = .ok s₁) :
    ∃ s', allocFrame mounted bank t s = .ok (some (frameOID (s.rangeTable k) f), s') ∧
      s'.cleared = s₁.cleared := by
  generalize hn : bank % nCache = n
  generalize ho : frameOID (s.rangeTable k) f = o at hclear ⊢
  have hempty : s.caches t n = {} := by rw [hcaches]
  have hself : s.setCache t n { s.caches t n with ndx := 0, top := 0 } = s := by
    rw [hempty, State.setCache, ← hempty, Function.update_eq_self, Function.update_eq_self]
  have htake : takeFrame mounted k t n f s = .ok (moveToCache k t n f o s₁) := by
    simp only [takeFrame, ho, hclear]
    rfl
  have hwords : (s.rangeTable k).nSubmaps * (framesPerSubmap / 32) * 32 =
      (s.rangeTable k).nSubmaps * framesPerSubmap := by
    rw [framesPerSubmap]
    omega
  have hfilter : (List.range' 0 ((s.rangeTable k).nSubmaps * framesPerSubmap)).filter (s.bit k) = [f] := by
    have hmem : f ∈ List.range' 0 ((s.rangeTable k).nSubmaps * framesPerSubmap) :=
      List.mem_range'_1.2 ⟨Nat.zero_le f, by omega⟩
    have hcongr : (List.range' 0 ((s.rangeTable k).nSubmaps * framesPerSubmap)).filter (s.bit k) =
        (List.range' 0 ((s.rangeTable k).nSubmaps * framesPerSubmap)).filter (· = f) := by
      refine List.filter_congr fun g hg => hbits g ?_
      have := (List.mem_range'_1.1 hg).2
      omega
    rw [hcongr, List.filter_eq, List.count_eq_one_of_mem List.nodup_range' hmem]
    rfl
  have hscan : BitScan.words (scan mounted k t n) 32
      ((s.rangeTable k).nSubmaps * (framesPerSubmap / 32)) 0 s = .ok (moveToCache k t n f o s₁) := by
    rw [BitScan.words_eq (scan_lawful k t n), hwords]
    simp only [BitScan.firsts, scan, hempty]
    change BitScan.takeAll _ (List.take maxCacheEnt ((List.range' 0 _).filter (s.bit k))) _ = _
    rw [hfilter]
    change (takeFrame mounted k t n f s >>= fun s => .ok s) = _
    rw [htake]
    rfl
  -- the frame is in the first place of the cache
  have hplace : (moveToCache k t n f o s₁).caches t n =
      { ndx := 0, top := 1, oid := Function.update (fun _ => 0) 0 o } := by
    obtain ⟨h₁, -⟩ := clearLoop_frame hclear
    simp [moveToCache, State.setCache, State.setBit, State.setRange, h₁, hempty]
  have hfill : fillCache mounted t n s = .ok (true, moveToCache k t n f o s₁) := by
    simp only [fillCache, hk, hself, hscan]
    rw [hempty]
    change Except.ok (decide (((moveToCache k t n f o s₁).caches t n).top ≠ 0), _) = _
    rw [hplace]
    rfl
  have hfirst : (popCache (moveToCache k t n f o s₁) t n).1 = o := by simp [popCache, hplace]
  refine ⟨(popCache (moveToCache k t n f o s₁) t n).2, ?_, rfl⟩
  have halloc : allocFrame mounted bank t s = .ok (some (popCache (moveToCache k t n f o s₁) t n).1,
      (popCache (moveToCache k t n f o s₁) t n).2) := by
    simp only [allocFrame, hn, hempty, hfill]
    rfl
  rw [halloc, hfirst]

theorem bit_single (hcount : s.curRanges ≤ maxRanges)
    (hsmall : reservedFrames + submapsOf len < 2 ^ 32)
    (hs : step mounted s (.install oid len reservedFrames) = .ok s')
    (hk : s.curRanges = k) (hf : reservedFrames + submapsOf len = f)
    (hn : (s'.rangeTable k).nFrames = f + 1) :
    ∀ g < (s'.rangeTable k).nSubmaps * framesPerSubmap, s'.bit k g = decide (g = f) := by
  subst hk hf
  obtain ⟨s₁, hs₁, hs⟩ := of_bind_ok hs
  cases hs
  obtain ⟨r, hr⟩ := installRange_spec hcount hsmall hs₁
  have hlast : s₁.rangeTable s.curRanges = r := by
    rw [hr.rangeTable]
    exact Function.update_self _ _ _
  intro g hg
  change g < (s₁.rangeTable s.curRanges).nSubmaps * framesPerSubmap at hg
  change (s₁.rangeTable s.curRanges).nFrames = _ at hn
  change s₁.bit s.curRanges g = _
  rw [hlast] at hg hn
  rw [State.bit, hlast, hr.srmBase, hr.bit g hg, decide_eq_decide]
  omega

/-- The object space when the space bank starts, with nothing on the disk. -/
def emptySpace : State where
  rangeTable := fun _ => {}
  curRanges := 0
  nextRangeSrmFrame := 0
  srm := fun _ => false
  caches := fun _ _ => {}
  cleared := fun _ => false
  zeroed := []
  inUse := fun _ => false

theorem init_emptySpace : Init emptySpace := ⟨rfl, rfl, rfl, rfl, rfl⟩

end CapROS.ObjSpace
