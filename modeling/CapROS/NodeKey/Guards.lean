import CapROS.MemoryTree.WalkCorrect
import CapROS.NodeKey.Basic
import Mathlib.Data.Nat.Bitwise

/-!
# Guards

A guard of 64 bits is kept in the two bytes of a key: eight bits, and the number of bits by which they
are shifted, which is that of the lowest bit of the guard.

* `GuardRight`: what is expected of a guard, from `key_CalcGuard` to the walk of the memory tree.
* `guardRight_iff`: the guards for which this is so.
-/

namespace CapROS.NodeKey

open MemoryTree

variable {n : ℕ}

theorem trailingZeros_spec (fuel : ℕ) (h0 : n ≠ 0) (hn : n < 2 ^ fuel) :
    trailingZeros fuel n < fuel ∧ ∃ k, n = (2 * k + 1) * 2 ^ trailingZeros fuel n := by
  induction fuel generalizing n with
  | zero => omega
  | succ fuel ih =>
    rw [trailingZeros]
    by_cases hodd : n % 2 = 1
    · rw [if_pos hodd]
      exact ⟨Nat.succ_pos fuel, n / 2, by omega⟩
    · rw [if_neg hodd]
      obtain ⟨hlt, k, hk⟩ := ih (n := n / 2) (by omega) (by omega)
      refine ⟨Nat.succ_lt_succ hlt, k, ?_⟩
      rw [pow_succ, ← Nat.mul_assoc, ← hk]
      omega

theorem guard_setGuardData {gd l : ℕ} (hgd : gd < 256) (hl : l < 256) (k : Key) :
    (k.setGuardData gd l).guard = gd ∧ (k.setGuardData gd l).l2g = l := by
  have hn : gd % 256 * 256 + l % 256 < 65536 := by omega
  constructor
  · rw [Key.guard, Key.setGuardData, BitVec.toNat_ushiftRight, BitVec.toNat_ofNat,
      Nat.mod_eq_of_lt hn, Nat.shiftRight_eq_div_pow]
    omega
  · rw [Key.l2g, Key.setGuardData, BitVec.toNat_and, BitVec.toNat_ofNat, Nat.mod_eq_of_lt hn,
      show BitVec.toNat (w := 16) 255 = 2 ^ 8 - 1 from rfl, Nat.and_two_pow_sub_one_eq_mod]
    omega

/-! ## Which numbers can be guards -/

/-- All one bits are among eight contiguous ones. -/
def FitsEight (g : ℕ) : Prop := ∃ l, ∀ i, g.testBit i = true → l ≤ i ∧ i < l + 8

theorem calcGuard_eq_some {g gd l : ℕ} (hg : g < 2 ^ 64) (h : calcGuard g = some (gd, l)) :
    g = gd * 2 ^ l ∧ gd < 256 ∧ l < 64 ∧ (l = 0 ↔ g = 0 ∨ g % 2 = 1) := by
  rw [calcGuard] at h
  split at h
  next h0 =>
    cases h
    simp [h0]
  next h0 =>
    obtain ⟨hlt, k, hk⟩ := trailingZeros_spec 64 h0 hg
    simp only at h
    split at h
    next hfit =>
      cases h
      generalize trailingZeros 64 g = t at hk hlt hfit
      refine ⟨?_, hfit, hlt, ?_⟩
      · exact (Nat.div_mul_cancel (Dvd.intro_left _ hk.symm)).symm
      · rw [or_iff_right h0]
        cases t with
        | zero => simpa using (show g % 2 = 1 by omega)
        | succ t =>
          rw [pow_succ, ← Nat.mul_assoc] at hk
          exact iff_of_false (Nat.succ_ne_zero t) (by omega)
    next => cases h

theorem calcGuard_isSome_iff {g : ℕ} (hg : g < 2 ^ 64) : (calcGuard g).isSome ↔ FitsEight g := by
  constructor
  · intro h
    obtain ⟨⟨gd, l⟩, hcalc⟩ := Option.isSome_iff_exists.1 h
    obtain ⟨rfl, hgd, -, -⟩ := calcGuard_eq_some hg hcalc
    refine ⟨l, fun i hi => ?_⟩
    rw [Nat.testBit_mul_two_pow] at hi
    obtain ⟨hle, hbit⟩ : l ≤ i ∧ gd.testBit (i - l) = true := by simpa using hi
    -- a bit that is set makes the eight bits as large as itself
    have hge : 2 ^ (i - l) ≤ gd := Nat.ge_two_pow_of_testBit hbit
    refine ⟨hle, ?_⟩
    by_contra hfar
    have hpow : 2 ^ 8 ≤ 2 ^ (i - l) := Nat.pow_le_pow_right (by decide) (by omega)
    omega
  · rintro ⟨l, hbits⟩
    rw [calcGuard]
    split
    · rfl
    next h0 =>
      obtain ⟨-, k, hk⟩ := trailingZeros_spec 64 h0 hg
      generalize trailingZeros 64 g = t at hk
      have hlow : g.testBit t = true := by
        rw [hk, Nat.testBit_mul_two_pow]
        simp
      have hle : l ≤ t := (hbits t hlow).1
      have hlt : g < 2 ^ (t + 8) := by
        refine Nat.lt_pow_two_of_testBit g fun i hi => ?_
        rw [← Bool.not_eq_true]
        intro hbit
        have := (hbits i hbit).2
        omega
      have hdiv : g / 2 ^ t < 256 := by
        rw [Nat.div_lt_iff_lt_mul (Nat.two_pow_pos t)]
        calc g < 2 ^ (t + 8) := hlt
          _ = 256 * 2 ^ t := by rw [pow_add]; ring
      simp [hdiv]

/-! ## Keys with a guard -/

/-- What is expected of following a key with the guard `g`, whose lowest bit is `l`. -/
def enterGuarded (mem : Memory) (wi : SegWalk) (k : Key) (g : BitVec 64) (l : ℕ) (va : BitVec 64) :
    Except Failure SegWalk := do
  let memObj ← memObjOf wi (mem.keyPrepare k)
  if va >>> l = g >>> l then
    let wi := { wi with
      offset := va - g
      memObj
      restrictions := wi.restrictions ||| (mem.keyPrepare k).keyPerms.zeroExtend 8 }
    if wi.writeDenied then wi.fault .accessViolation else .ok wi
  else wi.fault .invalidAddr

/-- The guard `g` is accepted exactly if it fits. If it is put into the key `k`, it is read from it
again, and the walk accepts the addresses that have the guard above its lowest bit, and goes on with
what is below. -/
def GuardRight (mem : Memory) (k : Key) (g : BitVec 64) : Prop :=
  ((calcGuard g.toNat).isSome ↔ FitsEight g.toNat) ∧
    ∀ gd l, calcGuard g.toNat = some (gd, l) →
      getGuard (k.setGuardData gd l) = g.toNat ∧
        ∀ wi va, processKey mem wi (k.setGuardData gd l) va = enterGuarded mem wi k g l va

/-- The key leads to a page or a GPT. -/
def LeadsToMemory (mem : Memory) (k : Key) : Prop :=
  (mem.keyPrepare k).keyType = .gpt ∨ (mem.keyPrepare k).keyType = .page

variable {mem : Memory} {k : Key} {gd l : ℕ}

theorem LeadsToMemory.memObjOf (h : LeadsToMemory mem k) :
    ∃ memObj, ∀ wi, memObjOf wi (mem.keyPrepare k) = .ok memObj := by
  rcases h with h | h
  · exact ⟨_, fun wi => by rw [MemoryTree.memObjOf, h]⟩
  · exact ⟨_, fun wi => by rw [MemoryTree.memObjOf, h]⟩

theorem keyPrepare_setGuardData (h : LeadsToMemory mem k) (gd l : ℕ) :
    mem.keyPrepare (k.setGuardData gd l) = (mem.keyPrepare k).setGuardData gd l := by
  have hbody : (k.setGuardData gd l).body = k.body := rfl
  have hobject : (k.setGuardData gd l).isObjectKey = k.isObjectKey := rfl
  unfold LeadsToMemory at h
  unfold Memory.keyPrepare at h ⊢
  rw [hbody, hobject]
  cases hb : k.body with
  | unprep oid count =>
    simp only [hb] at h ⊢
    by_cases hobj : k.isObjectKey = true
    · by_cases hcount : mem.currentCount k.keyType oid = some count
      · rw [if_pos hobj, if_pos hobj, if_pos hcount]
        exact if_pos hcount
      · -- the key would have become void
        rw [if_pos hobj, if_neg hcount] at h
        simp [Key.void] at h
    · rw [if_neg hobj, if_neg hobj]
  | words w0 w1 w2 | prep oid | range oid count => rfl

/-- How far up the addresses go that a key with the shift `l` accepts. -/
def reach (l : ℕ) : ℕ := if l = 0 then 64 else l

theorem processKey_setGuardData (h : LeadsToMemory mem k) (hgd : gd < 256) (hl : l < 64)
    (wi : SegWalk) (va : BitVec 64) :
    ∃ offset memObj, offset.toNat = va.toNat % 2 ^ reach l ∧
      (∀ wi, memObjOf wi (mem.keyPrepare k) = .ok memObj) ∧
      processKey mem wi (k.setGuardData gd l) va =
        if va.toNat / 2 ^ reach l = gd then
          let wi := { wi with
            offset
            memObj
            restrictions := wi.restrictions ||| (mem.keyPrepare k).keyPerms.zeroExtend 8 }
          if wi.writeDenied then wi.fault .accessViolation else .ok wi
        else wi.fault .invalidAddr := by
  obtain ⟨memObj, hobj⟩ := h.memObjOf
  obtain ⟨hguard, hl2g⟩ := guard_setGuardData hgd (show l < 256 by omega) (mem.keyPrepare k)
  have hspan : span ((mem.keyPrepare k).setGuardData gd l) = reach l := by
    rw [span, hl2g, reach, min_eq_left hl.le]
  have hcheck := guard_toNat ((mem.keyPrepare k).setGuardData gd l) va
  have hstrip := stripGuard_toNat ((mem.keyPrepare k).setGuardData gd l) va
  rw [hspan] at hcheck hstrip
  have hobj' : MemoryTree.memObjOf wi ((mem.keyPrepare k).setGuardData gd l) = .ok memObj := hobj wi
  refine ⟨_, memObj, hstrip, hobj, ?_⟩
  simp only [processKey, keyPrepare_setGuardData h, hobj', hcheck, hguard, ite_not]
  rfl

theorem calcGuard_of_unshifted {g : ℕ} (hg : g = 0 ∨ g < 256 ∧ g % 2 = 1) :
    calcGuard g = some (g, 0) := by
  rcases hg with rfl | ⟨hlt, hodd⟩
  · rfl
  · have hzero : trailingZeros 64 g = 0 := by rw [trailingZeros, if_pos hodd]
    rw [calcGuard, if_neg (by omega)]
    simp [hzero, hlt]

/-- A walk that has come nowhere yet. -/
def freshWalk : SegWalk where
  memObj := .page 0
  offset := 0
  needWrite := false
  restrictions := 0
  backgroundGPT := none
  keeperGPT := .none
  keeperOffset := 0
  traverseCount := 0
  faultCode := none

theorem not_guardRight (h : LeadsToMemory mem k) {g : BitVec 64}
    (hg : g.toNat = 0 ∨ g.toNat < 256 ∧ g.toNat % 2 = 1) : ¬GuardRight mem k g := by
  rintro ⟨-, hall⟩
  obtain ⟨-, hwalk⟩ := hall _ _ (calcGuard_of_unshifted hg)
  -- whatever the address, it is the number 0 that is compared with the guard
  have hnone : ∀ va : BitVec 64, va.toNat / 2 ^ reach 0 = 0 := fun va => Nat.div_eq_of_lt va.isLt
  rcases hg with hzero | ⟨hlt, hodd⟩
  · -- the guard 0 accepts the address 1
    obtain ⟨offset, memObj, -, hobj, hrun⟩ :=
      processKey_setGuardData h (show g.toNat < 256 by omega) (show 0 < 64 by decide) freshWalk 1
    have hne : ¬(1 : BitVec 64) >>> 0 = g >>> 0 := by
      intro he
      have := congrArg BitVec.toNat he
      simp [hzero] at this
    have hfault : enterGuarded mem freshWalk k g 0 1 = freshWalk.fault .invalidAddr := by
      rw [enterGuarded, hobj]
      exact if_neg hne
    rw [hwalk, hfault, if_pos (by rw [hnone, hzero])] at hrun
    simp [SegWalk.writeDenied, SegWalk.fault, freshWalk] at hrun
  · -- an odd guard does not accept itself
    obtain ⟨offset, memObj, -, hobj, hrun⟩ :=
      processKey_setGuardData h hlt (show 0 < 64 by decide) freshWalk g
    have hok : enterGuarded mem freshWalk k g 0 g = .ok { freshWalk with
        offset := g - g
        memObj
        restrictions := freshWalk.restrictions ||| (mem.keyPrepare k).keyPerms.zeroExtend 8 } := by
      rw [enterGuarded, hobj]
      simp [SegWalk.writeDenied, freshWalk]
    rw [hwalk, hok, if_neg (by rw [hnone]; omega)] at hrun
    simp [SegWalk.fault] at hrun

/-- `key_CalcGuard` and `key_GetGuard` are right for all guards. The walk is right for those that do
not have a shift of 0, that is, for all that fit but 0 and the odd ones. -/
theorem guardRight_iff (h : LeadsToMemory mem k) (g : BitVec 64) :
    GuardRight mem k g ↔ 256 ≤ g.toNat ∨ g.toNat ≠ 0 ∧ g.toNat % 2 = 0 := by
  constructor
  · intro hright
    by_contra hnot
    exact not_guardRight h (by omega) hright
  · intro hg
    refine ⟨calcGuard_isSome_iff g.isLt, fun gd l hcalc => ?_⟩
    obtain ⟨heq, hgd, hl, hshift⟩ := calcGuard_eq_some g.isLt hcalc
    have hl0 : l ≠ 0 := by
      intro hl0
      rw [hl0] at heq
      omega
    obtain ⟨hguard, hl2g⟩ := guard_setGuardData hgd (show l < 256 by omega) k
    refine ⟨?_, fun wi va => ?_⟩
    · rw [getGuard, hguard, hl2g, if_neg (by omega), ← heq, Nat.mod_eq_of_lt g.isLt]
    · obtain ⟨offset, memObj, hoffset, hobj, hrun⟩ := processKey_setGuardData h hgd hl wi va
      rw [reach, if_neg hl0] at hoffset hrun
      have hguardDiv : g.toNat / 2 ^ l = gd := by
        rw [heq, Nat.mul_div_cancel _ (Nat.two_pow_pos l)]
      have hiff : va >>> l = g >>> l ↔ va.toNat / 2 ^ l = gd := by
        rw [← BitVec.toNat_inj, BitVec.toNat_ushiftRight, BitVec.toNat_ushiftRight,
          Nat.shiftRight_eq_div_pow, Nat.shiftRight_eq_div_pow, hguardDiv]
      rw [hrun, enterGuarded, hobj]
      by_cases haccept : va.toNat / 2 ^ l = gd
      · have hsub : offset = va - g := by
          apply BitVec.eq_of_toNat_eq
          have hdiv := Nat.div_add_mod va.toNat (2 ^ l)
          rw [haccept, Nat.mul_comm, ← heq] at hdiv
          rw [hoffset, BitVec.toNat_sub]
          omega
        simp only [haccept, hiff.2 haccept, if_true, hsub]
        rfl
      · rw [if_neg haccept]
        simp only [mt hiff.1 haccept, if_false]
        rfl

/-- A key to a page. -/
def pageKeyTo (oid : ℕ) : Key := ⟨.page, 0, 0, .prep oid⟩

/-- A memory in which there are no objects. -/
def emptyMemory : Memory where
  gpt := fun _ => ⟨fun _ => .void, 12, Gpt.l2v_ge_page⟩
  currentCount := fun _ _ => none

theorem guardRight_iff_shifted : GuardRight emptyMemory (pageKeyTo 5) 0xff00000000000000 :=
  (guardRight_iff (.inr rfl) _).2 (.inl (by decide))

/-- A key with the guard 0 is followed to its page from any address. -/
theorem guardRight_fails : ¬GuardRight emptyMemory (pageKeyTo 5) 0 :=
  not_guardRight (.inr rfl) (.inl rfl)

end CapROS.NodeKey
