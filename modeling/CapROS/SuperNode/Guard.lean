import CapROS.NodeKey.Guards
import CapROS.SuperNode.Basic

/-!
# Guards and levels

* `Representable`: the numbers that can be guards, with `representable_floor2` and `representable_mod`
  for the parts of one.
* `guarded`: the key to a node with a guard, `getGuard_guarded`, `checkGuard_guarded`.
* `calcL2v5_le`: the level that holds a range.
-/

namespace CapROS.SuperNode

open NodeKey

variable {g n m oid L x : ℕ}

/-- The number is eight bits, shifted. -/
def Representable (g : ℕ) : Prop := ∃ gd < 256, ∃ l < 32, g = gd * 2 ^ l

theorem representable_zero : Representable 0 := ⟨0, by decide, 0, by decide, rfl⟩

/-- The high bits of a guard. -/
theorem representable_floor2 (h : Representable g) (n : ℕ) : Representable (floor2 g n) := by
  obtain ⟨gd, hgd, l, hl, rfl⟩ := h
  rw [floor2]
  rcases le_or_gt n l with hn | hn
  · refine ⟨gd, hgd, l, hl, Nat.div_mul_cancel ?_⟩
    exact (pow_dvd_pow 2 hn).mul_left gd
  · obtain ⟨k, rfl⟩ := Nat.exists_eq_add_of_lt hn
    refine ⟨gd / 2 ^ (k + 1) * 2 ^ (k + 1), (Nat.div_mul_le_self _ _).trans_lt hgd, l, hl, ?_⟩
    rw [show l + k + 1 = l + (k + 1) from rfl, pow_add, Nat.mul_comm (2 ^ l),
      Nat.mul_div_mul_right _ _ (Nat.two_pow_pos l), Nat.mul_assoc]

/-- The low bits of a guard. -/
theorem representable_mod (h : Representable g) (n : ℕ) : Representable (g % 2 ^ n) := by
  obtain ⟨gd, hgd, l, hl, rfl⟩ := h
  rcases le_or_gt n l with hn | hn
  · rw [Nat.mod_eq_zero_of_dvd ((pow_dvd_pow 2 hn).mul_left gd)]
    exact representable_zero
  · obtain ⟨k, rfl⟩ := Nat.exists_eq_add_of_lt hn
    refine ⟨gd % 2 ^ (k + 1), (Nat.mod_le _ _).trans_lt hgd, l, hl, ?_⟩
    rw [show l + k + 1 = l + (k + 1) from rfl, pow_add, Nat.mul_comm (2 ^ l), Nat.mul_mod_mul_right]

theorem calcGuard_isSome (h : Representable g) (hg : g < 2 ^ 32) :
    ∃ gd l, calcGuard g = some (gd, l) ∧ gd < 256 ∧ l < 32 ∧ g = gd * 2 ^ l := by
  rw [calcGuard]
  by_cases h0 : g = 0
  · exact ⟨0, 0, if_pos h0, by decide, by decide, by simp only [h0, Nat.zero_mul]⟩
  · rw [if_neg h0]
    obtain ⟨-, k, hk⟩ := trailingZeros_spec 64 h0 (by omega)
    generalize trailingZeros 64 g = t at hk
    have hdiv : g / 2 ^ t = 2 * k + 1 := by
      rw [hk, Nat.mul_div_cancel _ (Nat.two_pow_pos t)]
    -- an odd factor divides the eight bits
    have hlt : g / 2 ^ t < 256 := by
      obtain ⟨gd, hgd, l, -, hl⟩ := h
      have hle : l ≤ t := by
        by_contra hlt
        obtain ⟨j, rfl⟩ := Nat.exists_eq_add_of_lt (not_le.1 hlt)
        have heq : (2 * k + 1) * 2 ^ t = 2 * (gd * 2 ^ j) * 2 ^ t := by
          rw [← hk, hl, show t + j + 1 = j + 1 + t by omega, pow_add, pow_succ]
          ring
        have := Nat.eq_of_mul_eq_mul_right (Nat.two_pow_pos t) heq
        omega
      have hge : g / 2 ^ t ≤ g / 2 ^ l := Nat.div_le_div_left (Nat.pow_le_pow_right (by decide) hle)
        (Nat.two_pow_pos l)
      rw [hl, Nat.mul_div_cancel _ (Nat.two_pow_pos l)] at hge
      rw [hl]
      omega
    have ht : t < 32 := by
      by_contra hge
      have hpow : 2 ^ 32 ≤ 2 ^ t := Nat.pow_le_pow_right (by decide) (not_lt.1 hge)
      have := Nat.le_mul_of_pos_left (2 ^ t) (show 0 < 2 * k + 1 by omega)
      omega
    refine ⟨_, _, if_pos hlt, hlt, ht, ?_⟩
    rw [hdiv]
    exact hk

theorem of_calcGuard {gd l : ℕ} (h : calcGuard g = some (gd, l)) (hg : g < 2 ^ 32) :
    Representable g := by
  rw [calcGuard] at h
  split at h
  next h0 =>
    rw [h0]
    exact representable_zero
  next h0 =>
    simp only at h
    split at h
    next hlt =>
      obtain ⟨-, k, hk⟩ := trailingZeros_spec 64 h0 (by omega)
      generalize trailingZeros 64 g = t at hk hlt
      have hdiv : g / 2 ^ t = 2 * k + 1 := by
        rw [hk, Nat.mul_div_cancel _ (Nat.two_pow_pos t)]
      refine ⟨_, hlt, t, ?_, by rw [hdiv]; exact hk⟩
      by_contra hge
      have hpow : 2 ^ 32 ≤ 2 ^ t := Nat.pow_le_pow_right (by decide) (not_lt.1 hge)
      have := Nat.le_mul_of_pos_left (2 ^ t) (show 0 < 2 * k + 1 by omega)
      omega
    next => cases h

/-! ## Keys with a guard -/

/-- The key to a node with a guard. -/
def guarded (oid g : ℕ) : Key :=
  match calcGuard g with
  | some (gd, l2g) => (keyTo oid).setGuardData gd l2g
  | none => keyTo oid

/-- The key to a node, whatever its guard. -/
def LeadsTo (k : Key) (oid : ℕ) : Prop := k = { keyTo oid with keyData := k.keyData }

theorem leadsTo_keyTo (oid : ℕ) : LeadsTo (keyTo oid) oid := rfl

theorem leadsTo_guarded (oid g : ℕ) : LeadsTo (guarded oid g) oid := by
  rw [guarded]
  split <;> rfl

namespace LeadsTo

variable {k : Key}

theorem objectOf (h : LeadsTo k oid) : NodeKey.objectOf k = some oid := by
  rw [h]
  rfl

theorem isType (h : LeadsTo k oid) : k.isType .node = true := by
  rw [h]
  rfl

theorem keyPerms (h : LeadsTo k oid) : k.keyPerms = 0#5 := by
  rw [h]
  rfl

theorem setGuardData (h : LeadsTo k oid) {gd l : ℕ} (hg : calcGuard g = some (gd, l)) :
    k.setGuardData gd l = guarded oid g := by
  rw [h, guarded, hg]
  rfl

end LeadsTo

theorem getGuard_guarded (h : Representable g) (hg : g < 2 ^ 32) : getGuard (guarded oid g) = g := by
  obtain ⟨gd, l, hcalc, hgd, hl, rfl⟩ := calcGuard_isSome h hg
  obtain ⟨h₁, h₂⟩ := guard_setGuardData hgd (hl.trans (by decide)) (keyTo oid)
  simp only [guarded, hcalc]
  rw [getGuard, h₁, h₂, if_neg (by omega), Nat.mod_eq_of_lt (by omega)]

theorem checkGuard_guarded (oid : ℕ) (h : Representable g) (hg : g < 2 ^ 32) (addr : BitVec 32) :
    checkGuard (guarded oid g) addr =
      if addr.toNat < g then none else some (BitVec.ofNat 32 (addr.toNat - g)) := by
  obtain ⟨gd, l, hcalc, hgd, hl, rfl⟩ := calcGuard_isSome h hg
  obtain ⟨h₁, h₂⟩ := guard_setGuardData hgd (hl.trans (by decide)) (keyTo oid)
  simp only [guarded, hcalc]
  rw [checkGuard, h₁, h₂, if_neg (by omega), BitVec.toNat_ushiftRight, Nat.shiftRight_eq_div_pow]
  by_cases hlt : addr.toNat < gd * 2 ^ l
  · rw [if_pos ((Nat.div_lt_iff_lt_mul (Nat.two_pow_pos l)).2 hlt), if_pos hlt]
  · rw [if_neg fun h => hlt ((Nat.div_lt_iff_lt_mul (Nat.two_pow_pos l)).1 h), if_neg hlt]
    congr 1
    apply BitVec.eq_of_toNat_eq
    rw [BitVec.toNat_sub, BitVec.toNat_shiftLeft, BitVec.toNat_ofNat, BitVec.toNat_ofNat,
      Nat.shiftLeft_eq, Nat.mod_eq_of_lt (a := gd) (by omega), Nat.mod_eq_of_lt (a := gd * 2 ^ l) hg]
    omega

/-! ## Levels -/

/-- The number of addresses under a slot of a node of the level `L`. -/
def span (L : ℕ) : ℕ := 2 ^ l2v5Shift L

theorem two_pow_l2v5Shift (L : ℕ) : 2 ^ l2v5Shift L = span L := rfl

theorem span_pos (L : ℕ) : 0 < span L := Nat.two_pow_pos _

theorem span_zero : span 0 = 1 := rfl

theorem span_succ (L : ℕ) : span (L + 1) = 32 * span L := by
  rw [span, span, l2v5Shift, l2v5Shift, Nat.succ_mul, pow_add, Nat.mul_comm]
  rfl

theorem span_dvd {M : ℕ} (h : M ≤ L) : span M ∣ span L := pow_dvd_pow 2 (Nat.mul_le_mul_right _ h)

theorem span_le {M : ℕ} (h : M ≤ L) : span M ≤ span L := Nat.le_of_dvd (span_pos L) (span_dvd h)

theorem span_le_pow {n : ℕ} (h : l2v5Shift L ≤ n) : span L ≤ 2 ^ n := Nat.pow_le_pow_right (by decide) h

theorem floor2_le (x n : ℕ) : floor2 x n ≤ x := Nat.div_mul_le_self x _

theorem floor2_dvd (x n : ℕ) : 2 ^ n ∣ floor2 x n := Nat.dvd_mul_left _ _

theorem lt_floor2_add (x n : ℕ) : x < floor2 x n + 2 ^ n := by
  have := Nat.div_add_mod' x (2 ^ n)
  rw [floor2]
  omega

/-- A multiple of the span of a lower level, together with this span, stays below one of a higher
level. -/
theorem add_span_le {M : ℕ} (hg : span M ∣ g) (hlt : g < span L) (h : M ≤ L) : g + span M ≤ span L := by
  obtain ⟨c, rfl⟩ := hg
  obtain ⟨d, hd⟩ := span_dvd h
  rw [hd] at hlt ⊢
  rw [← Nat.mul_succ]
  exact Nat.mul_le_mul_left _ (Nat.lt_of_mul_lt_mul_left hlt)

theorem calcL2v5_spec (hx : x < 2 ^ 32) :
    calcL2v5 x ≤ 6 ∧ x < span (calcL2v5 x + 1) ∧ (calcL2v5 x = 0 ∨ span (calcL2v5 x) ≤ x) := by
  by_cases h4 : x < 2 ^ l2v5Shift 4
  · by_cases h2 : x < 2 ^ l2v5Shift 2
    · by_cases h1 : x < 2 ^ l2v5Shift 1 <;> simp only [calcL2v5, h4, h2, h1, if_true, if_false]
      · exact ⟨by decide, h1, .inl trivial⟩
      · exact ⟨by decide, h2, .inr (not_lt.1 h1)⟩
    · by_cases h1 : x / 2 ^ l2v5Shift 2 < 2 ^ l2v5Shift 1 <;>
        simp only [calcL2v5, h4, h2, h1, if_true, if_false]
      · exact ⟨by decide, (Nat.div_lt_iff_lt_mul (Nat.two_pow_pos _)).1 h1, .inr (not_lt.1 h2)⟩
      · exact ⟨by decide, h4, .inr ((Nat.le_div_iff_mul_le (Nat.two_pow_pos _)).1 (not_lt.1 h1))⟩
  · by_cases h2 : x / 2 ^ l2v5Shift 4 < 2 ^ l2v5Shift 2
    · by_cases h1 : x / 2 ^ l2v5Shift 4 < 2 ^ l2v5Shift 1 <;>
        simp only [calcL2v5, h4, h2, h1, if_true, if_false]
      · exact ⟨by decide, (Nat.div_lt_iff_lt_mul (Nat.two_pow_pos _)).1 h1, .inr (not_lt.1 h4)⟩
      · exact ⟨by decide, (Nat.div_lt_iff_lt_mul (Nat.two_pow_pos _)).1 h2,
          .inr ((Nat.le_div_iff_mul_le (Nat.two_pow_pos _)).1 (not_lt.1 h1))⟩
    · have h1 : x / 2 ^ l2v5Shift 4 / 2 ^ l2v5Shift 2 < 2 ^ l2v5Shift 1 := by
        simp only [l2v5Shift, l2nSlots]
        omega
      simp only [calcL2v5, h4, h2, h1, if_true, if_false]
      exact ⟨by decide, hx.trans_le (by decide),
        .inr ((Nat.le_div_iff_mul_le (Nat.two_pow_pos _)).1 (not_lt.1 h2))⟩

theorem xor_lt_iff (x y n : ℕ) : x ^^^ y < 2 ^ n ↔ x / 2 ^ n = y / 2 ^ n := by
  rw [← Nat.shiftRight_eq_div_pow, ← Nat.shiftRight_eq_div_pow, ← Nat.xor_eq_zero_iff,
    ← Nat.shiftRight_xor_distrib, Nat.shiftRight_eq_div_pow]
  exact (Nat.div_eq_zero_iff_lt (Nat.two_pow_pos n)).symm

/-- Two addresses under a slot of the level `L` are in one node of the level that is found for them,
which is below `L`. -/
theorem calcL2v5_xor {y : ℕ} (hx : x < span L) (hy : y < span L) (h0 : 0 < L) (hL : L ≤ 6) :
    calcL2v5 (x ^^^ y) < L ∧ x / span (calcL2v5 (x ^^^ y) + 1) = y / span (calcL2v5 (x ^^^ y) + 1) := by
  have hlt : x ^^^ y < span L := Nat.xor_lt_two_pow hx hy
  have h32 : x ^^^ y < 2 ^ 32 := by
    have := span_le hL
    have h6 : span 6 = 2 ^ 30 := rfl
    omega
  obtain ⟨-, hup, hlow⟩ := calcL2v5_spec h32
  refine ⟨?_, (xor_lt_iff _ _ _).1 hup⟩
  by_contra hge
  have := span_le (not_lt.1 hge)
  omega

theorem neededHeight_spec {last : ℕ} (h : last < 2 ^ 32) :
    neededHeight last ≤ 6 ∧ last / span (neededHeight last) < keeperSlot := by
  obtain ⟨h6, hup, -⟩ := calcL2v5_spec h
  have hdiv : last / span (calcL2v5 last) < 32 := by
    rw [Nat.div_lt_iff_lt_mul (span_pos _)]
    rwa [span_succ] at hup
  change (if keeperSlot ≤ last / span (calcL2v5 last) then _ else _) ≤ 6 ∧
    last / span (if keeperSlot ≤ last / span (calcL2v5 last) then _ else _) < keeperSlot
  split
  next hk =>
    have hlt6 : calcL2v5 last < 6 := by
      by_contra hge
      have heq : calcL2v5 last = 6 := by omega
      rw [heq, span, l2v5Shift, l2nSlots, keeperSlot] at hk
      omega
    refine ⟨hlt6, ?_⟩
    rw [span_succ, Nat.mul_comm, ← Nat.div_div_eq_div_mul, Nat.div_eq_of_lt hdiv]
    decide
  next hk => exact ⟨h6, not_le.1 hk⟩

theorem div_lt_of_le_lastSlotAt {last : ℕ} (hL : L ≤ 6) (h : last < 2 ^ 32) (hle : last ≤ lastSlotAt L) :
    last / span L < keeperSlot := by
  rw [Nat.div_lt_iff_lt_mul (span_pos L)]
  change last ≤ (if keeperSlot * span L % 2 ^ 32 / span L ≠ keeperSlot then _
    else keeperSlot * span L % 2 ^ 32 - 1) at hle
  have hpos := span_pos L
  rcases Nat.lt_or_eq_of_le hL with hlt | rfl
  · have h5 : span L ≤ 2 ^ 25 := span_le (show L ≤ 5 by omega)
    have hmod : keeperSlot * span L % 2 ^ 32 = keeperSlot * span L :=
      Nat.mod_eq_of_lt (by rw [keeperSlot]; omega)
    rw [hmod, Nat.mul_div_cancel _ hpos, if_neg fun h => h rfl] at hle
    rw [keeperSlot] at hle ⊢
    omega
  · rw [keeperSlot, show span 6 = 2 ^ 30 from rfl]
    omega

/-! ## The field of a node -/

section Field

variable (c : NodeContent)

@[simp]
theorem l2v_setSlot (i : Fin 32) (k : Key) : (c.setSlot i k).l2v = c.l2v := rfl

@[simp]
theorem hasKeeper_setSlot (i : Fin 32) (k : Key) : (c.setSlot i k).hasKeeper = c.hasKeeper := rfl

theorem field_cases (f : BitVec 8) :
    f - (f &&& l2vMask) = 0 ∨ f - (f &&& l2vMask) = 0x40 ∨ f - (f &&& l2vMask) = 0x80 ∨
      f - (f &&& l2vMask) = 0xc0 := by
  revert f
  decide

theorem field_masks (f : BitVec 8) :
    (f - (f &&& l2vMask)) &&& nodeKeeper = f &&& nodeKeeper ∧
      (f - (f &&& l2vMask)) &&& nodeBlocked = f &&& nodeBlocked := by
  revert f
  decide

theorem field_setL2v (f v : BitVec 8) (hv : v < 32) :
    (f - (f &&& l2vMask) + v) &&& l2vMask = v ∧
      (f - (f &&& l2vMask) + v) &&& nodeKeeper = f &&& nodeKeeper ∧
        (f - (f &&& l2vMask) + v) &&& nodeBlocked = f &&& nodeBlocked := by
  rw [← (field_masks f).1, ← (field_masks f).2]
  rcases field_cases f with h | h | h | h <;> rw [h] <;> revert v <;> decide

theorem ofNat_lt {v : ℕ} (h : v < 32) : BitVec.ofNat 8 v < 32 := by
  rw [BitVec.lt_def, BitVec.toNat_ofNat]
  exact (Nat.mod_le v _).trans_lt h

theorem l2v_setL2v {v : ℕ} (h : v < 32) : (c.setL2v v).l2v = v := by
  rw [NodeContent.l2v, NodeContent.setL2v, (field_setL2v _ _ (ofNat_lt h)).1, BitVec.toNat_ofNat,
    Nat.mod_eq_of_lt (by omega)]

theorem hasKeeper_setL2v {v : ℕ} (h : v < 32) : (c.setL2v v).hasKeeper = c.hasKeeper := by
  rw [NodeContent.hasKeeper, NodeContent.setL2v, (field_setL2v _ _ (ofNat_lt h)).2.1]
  rfl

theorem isBlocked_setL2v {v : ℕ} (h : v < 32) : (c.setL2v v).isBlocked = c.isBlocked := by
  rw [NodeContent.isBlocked, NodeContent.setL2v, (field_setL2v _ _ (ofNat_lt h)).2.2]
  rfl

theorem field_bits (f : BitVec 8) :
    (f ||| nodeBlocked) &&& l2vMask = f &&& l2vMask ∧
      (f ||| nodeBlocked) &&& nodeKeeper = f &&& nodeKeeper ∧
        (f &&& ~~~nodeBlocked) &&& l2vMask = f &&& l2vMask ∧
          (f &&& ~~~nodeBlocked) &&& nodeKeeper = f &&& nodeKeeper ∧
            (f &&& ~~~nodeKeeper) &&& l2vMask = f &&& l2vMask := by
  revert f
  decide

theorem field_bit (f : BitVec 8) :
    (f ||| nodeBlocked) &&& nodeBlocked ≠ 0 ∧ (f &&& ~~~nodeBlocked) &&& nodeBlocked = 0 ∧
      (f &&& ~~~nodeKeeper) &&& nodeKeeper = 0 := by
  revert f
  decide

theorem hasKeeper_setBlocked : (c.setBit nodeBlocked).hasKeeper = c.hasKeeper := by
  rw [NodeContent.hasKeeper, NodeContent.setBit, (field_bits _).2.1, NodeContent.hasKeeper]

theorem isBlocked_setBlocked : (c.setBit nodeBlocked).isBlocked = true :=
  decide_eq_true (field_bit _).1

theorem l2v_clearBlocked : (c.clearBit nodeBlocked).l2v = c.l2v := by
  rw [NodeContent.l2v, NodeContent.clearBit, (field_bits _).2.2.1, NodeContent.l2v]

theorem hasKeeper_clearBlocked : (c.clearBit nodeBlocked).hasKeeper = c.hasKeeper := by
  rw [NodeContent.hasKeeper, NodeContent.clearBit, (field_bits _).2.2.2.1, NodeContent.hasKeeper]

theorem isBlocked_clearBlocked : (c.clearBit nodeBlocked).isBlocked = false :=
  decide_eq_false (not_not.2 (field_bit _).2.1)

theorem l2v_clearKeeper : (c.clearBit nodeKeeper).l2v = c.l2v := by
  rw [NodeContent.l2v, NodeContent.clearBit, (field_bits _).2.2.2.2, NodeContent.l2v]

theorem hasKeeper_clearKeeper : (c.clearBit nodeKeeper).hasKeeper = false :=
  decide_eq_false (not_not.2 (field_bit _).2.2)

end Field

end CapROS.SuperNode
