import CapROS.MemoryTree.Translation

/-!
# The walk of the memory tree translates addresses

The walk computes in machine words, changes its state in place, and is left and entered again
between the levels of the mapping tables. It still finds what the address means.

* `lsr64_toNat`, `lowMask_toNat`, ...: shifts and masks as division and remainder.
* `processKey_matches`, `followWindow_matches`, `traverse_matches`: the steps of the walk.
* `stagedWalk_correct`: a staged walk is the translation.
-/

namespace CapROS.MemoryTree

/-! ## Words -/

@[simp]
theorem lsr64_toNat (x : BitVec 64) (n : ℕ) : (lsr64 x n).toNat = x.toNat / 2 ^ n := by
  unfold lsr64
  split
  · rw [BitVec.toNat_ushiftRight, Nat.shiftRight_eq_div_pow]
  · -- Nothing is left of 64 bits.
    have hx : x.toNat < 2 ^ n :=
      lt_of_lt_of_le x.isLt (Nat.pow_le_pow_right (by decide) (by omega))
    simp [Nat.div_eq_of_lt hx]

theorem lsl64_one_min (n : ℕ) : lsl64 1 n = lsl64 1 (min n 64) := by
  by_cases h : n ≤ 64
  · rw [min_eq_left h]
  · simp [lsl64, show ¬n < 64 by omega, show 64 ≤ n by omega]

theorem lsl64_one_sub_one_toNat (n : ℕ) : (lsl64 1 n - 1).toNat = 2 ^ min n 64 - 1 := by
  rw [lsl64_one_min]
  have hone : (1 : BitVec 64).toNat = 1 := rfl
  by_cases h : n < 64
  · rw [min_eq_left (by omega), lsl64, if_pos h]
    have hlt : 2 ^ n < 2 ^ 64 := Nat.pow_lt_pow_right (by decide) h
    have hpos : 0 < 2 ^ n := Nat.two_pow_pos n
    rw [BitVec.toNat_sub, BitVec.toNat_shiftLeft, Nat.shiftLeft_eq, hone]
    omega
  · rw [min_eq_right (by omega)]
    rfl

theorem lsl64_two (n : ℕ) : lsl64 2 n = lsl64 1 (n + 1) := by
  by_cases h : n < 63
  · rw [lsl64, lsl64, if_pos (by omega), if_pos (by omega)]
    apply BitVec.eq_of_toNat_eq
    simp [BitVec.toNat_shiftLeft, Nat.shiftLeft_eq, Nat.pow_succ, Nat.mul_comm]
  · by_cases h63 : n = 63
    · subst h63
      rfl
    · simp [lsl64, show ¬n < 64 by omega, show ¬n + 1 < 64 by omega]

variable {n offset o stopL2v : ℕ}

theorem and_toNat_mod {x m : BitVec 64} (hm : m.toNat = 2 ^ n - 1) :
    (x &&& m).toNat = x.toNat % 2 ^ n := by
  rw [BitVec.toNat_and, hm, Nat.and_two_pow_sub_one_eq_mod]

theorem l2g_lt (k : Key) : k.l2g < 256 := by
  have h : k.l2g ≤ (0xff : BitVec 16).toNat := by
    rw [Key.l2g, BitVec.toNat_and]
    exact Nat.and_le_right
  exact Nat.lt_of_le_of_lt h (by decide)

theorem span_eq (k : Key) : span k = min (l2gMinus1 k + 1) 64 := by
  have h := l2g_lt k
  unfold span l2gMinus1
  split <;> omega

theorem guard_toNat (k : Key) (va : BitVec 64) :
    (lsr64 (lsr64 va (l2gMinus1 k)) 1).toNat = va.toNat / 2 ^ span k := by
  rw [lsr64_toNat, lsr64_toNat, Nat.div_div_eq_div_mul, ← Nat.pow_add, span_eq]
  by_cases h : l2gMinus1 k + 1 ≤ 64
  · rw [min_eq_left h]
  · -- Both sides are zero.
    have hlt : va.toNat < 2 ^ (l2gMinus1 k + 1) :=
      lt_of_lt_of_le va.isLt (Nat.pow_le_pow_right (by decide) (by omega))
    rw [min_eq_right (by omega), Nat.div_eq_of_lt hlt, Nat.div_eq_of_lt va.isLt]

theorem stripGuard_toNat (k : Key) (va : BitVec 64) :
    (va &&& (lsl64 2 (l2gMinus1 k) - 1)).toNat = va.toNat % 2 ^ span k := by
  apply and_toNat_mod
  rw [lsl64_two, lsl64_one_sub_one_toNat, span_eq]

theorem curL2v_lt (gpt : Gpt) : gpt.curL2v < 64 := by
  have h : gpt.curL2v ≤ gptL2vMask.toNat := by
    rw [Gpt.curL2v, BitVec.toNat_and]
    exact Nat.and_le_right
  exact Nat.lt_of_le_of_lt h (by decide)

theorem and_lowMask_toNat (gpt : Gpt) (x : BitVec 64) :
    (x &&& lowMask gpt.curL2v).toNat = x.toNat % 2 ^ gpt.curL2v := by
  apply and_toNat_mod
  rw [lowMask, lsl64_one_sub_one_toNat, min_eq_left (curL2v_lt gpt).le]

theorem and_readOnly_ne_zero (r : BitVec 8) :
    r &&& memoryReadOnly.zeroExtend 8 ≠ 0 ↔ isReadOnly r = true := by
  revert r
  decide

@[simp]
theorem restrictionsOf_append (trail : List (BitVec 8)) (r : BitVec 8) :
    restrictionsOf (trail ++ [r]) = restrictionsOf trail ||| r := by
  induction trail with
  | nil => simp [restrictionsOf]
  | cons x trail ih =>
    simp only [restrictionsOf, List.cons_append, List.foldr_cons] at ih ⊢
    rw [ih, BitVec.or_assoc]

theorem isReadOnly_restrictionsOf (trail : List (BitVec 8)) :
    isReadOnly (restrictionsOf trail) = readOnlyPath trail := by
  induction trail with
  | nil => rfl
  | cons x trail ih =>
    simp only [restrictionsOf, isReadOnly, readOnlyPath, List.foldr_cons, List.any_cons,
      BitVec.getLsbD_or] at ih ⊢
    rw [ih]

variable {wi wi' : SegWalk} {trail : List (BitVec 8)}

theorem writeDenied_eq (h : wi.restrictions = restrictionsOf trail) :
    wi.writeDenied = (readOnlyPath trail && wi.needWrite) := by
  have hbit := and_readOnly_ne_zero wi.restrictions
  rw [h, isReadOnly_restrictionsOf, ← h] at hbit
  simp only [SegWalk.writeDenied, hbit, Bool.decide_eq_true]

/-! ## A walk and its meaning -/

/-- A walk and a translation end alike: with related results, or with the same fault. No assertion
fails, and no more than `MAX_SEG_DEPTH` GPTs were traversed. -/
def Matches {α β : Type} (R : α → β → Prop) : Except Failure α → Except FaultCode β → Prop
  | .ok a, .ok b => R a b
  | .error (.fault wi), .error code => wi.faultCode = some code ∧ wi.traverseCount ≤ maxSegDepth
  | _, _ => False

variable {α β γ : Type} {R : α → β → Prop} {x : Except Failure α} {y : Except FaultCode β}

theorem Matches.bind {δ : Type} {S : γ → δ → Prop}
    {f : α → Except Failure γ}
    {g : β → Except FaultCode δ} (hxy : Matches R x y)
    (hfg : ∀ a b, R a b → Matches S (f a) (g b)) : Matches S (x >>= f) (y >>= g) := by
  match x, y, hxy with
  | .ok a, .ok b, hab => exact hfg a b hab
  | .error (.fault _), .error _, hfault => exact hfault

theorem Matches.mono {S : α → β → Prop}
    (h : Matches R x y) (hRS : ∀ a b, R a b → S a b) : Matches S x y := by
  match x, y, h with
  | .ok a, .ok b, hab => exact hRS a b hab
  | .error (.fault _), .error _, hfault => exact hfault

theorem matches_fault (code : FaultCode)
    (h : wi.traverseCount ≤ maxSegDepth) :
    Matches R (wi.fault code : Except Failure α) (.error code : Except FaultCode β) := ⟨rfl, h⟩

/-- The state of a walk that has come to the place. -/
structure At (mem : Memory) (write : Bool) (background : Option ℕ) (count : ℕ) (wi : SegWalk)
    (place : Place) : Prop where
  object : wi.memObj = place.object
  offset : wi.offset.toNat = place.offset
  restrictions : wi.restrictions = restrictionsOf place.trail
  needWrite : wi.needWrite = write
  backgroundGPT : wi.backgroundGPT = background
  hasBackground : ∀ b, background = some b → (mem.gpt b).hasBackground = true
  traverseCount : wi.traverseCount = count

/-- The state of a walk that is to follow a key with the address. -/
structure Before (mem : Memory) (write : Bool) (background : Option ℕ) (count : ℕ)
    (next : SegWalk × Key) (meant : Key × ℕ × List (BitVec 8)) : Prop where
  key : next.2 = meant.1
  offset : next.1.offset.toNat = meant.2.1
  restrictions : next.1.restrictions = restrictionsOf meant.2.2
  needWrite : next.1.needWrite = write
  backgroundGPT : next.1.backgroundGPT = background
  hasBackground : ∀ b, background = some b → (mem.gpt b).hasBackground = true
  traverseCount : next.1.traverseCount = count

variable {mem : Memory} {write : Bool} {background : Option ℕ} {count : ℕ}

theorem matches_restricted
    (hrestr : wi.restrictions = restrictionsOf trail) (hwrite : wi.needWrite = write)
    (hle : wi.traverseCount ≤ maxSegDepth) (hxy : Matches R x y) :
    Matches R (if wi.writeDenied then wi.fault .accessViolation else x)
      (if readOnlyPath trail && write then .error .accessViolation else y) := by
  rw [writeDenied_eq hrestr, hwrite]
  split
  · exact matches_fault _ hle
  · exact hxy

theorem memObjOf_matches (h : wi.traverseCount ≤ maxSegDepth) (k : Key) :
    Matches Eq (memObjOf wi k) (designated k) := by
  unfold memObjOf designated
  cases k.keyType <;> first | exact rfl | exact matches_fault _ h

variable {k : Key} {addr : BitVec 64}

theorem processKey_matches {va : ℕ} (hle : wi.traverseCount ≤ maxSegDepth) (hva : addr.toNat = va)
    (hrestr : wi.restrictions = restrictionsOf trail)
    (hflag : ∀ b, wi.backgroundGPT = some b → (mem.gpt b).hasBackground = true) :
    Matches (At mem wi.needWrite wi.backgroundGPT wi.traverseCount) (processKey mem wi k addr)
      (enterKey mem wi.needWrite trail k va) := by
  refine Matches.bind (memObjOf_matches hle _) fun object object' hobject => ?_
  subst hobject
  have hguard := guard_toNat (mem.keyPrepare k) addr
  have hstrip := stripGuard_toNat (mem.keyPrepare k) addr
  rw [hva] at hguard hstrip
  simp only [hguard]
  split
  · exact matches_fault _ hle
  · refine matches_restricted (by simp [hrestr]) rfl hle ?_
    exact ⟨rfl, hstrip, by simp [hrestr], rfl, rfl, hflag, rfl⟩

theorem processKey_before {next : SegWalk × Key} {meant : Key × ℕ × List (BitVec 8)}
    (hcount : count ≤ maxSegDepth) (h : Before mem write background count next meant) :
    Matches (At mem write background count) (processKey mem next.1 next.2 next.1.offset)
      (enterKey mem write meant.2.2 meant.1 meant.2.1) := by
  obtain ⟨hkey, hva, hrestr, rfl, rfl, hflag, rfl⟩ := h
  rw [← hkey]
  exact processKey_matches hcount hva hrestr hflag

/-! ## Windows and slots -/

theorem windowAddr_toNat (k : Key) :
    (lsl64 ((numberValue k).2.1.zeroExtend 64) 32 ||| (numberValue k).1.zeroExtend 64).toNat =
      windowAddr k := by
  have h0 : (numberValue k).1.toNat < 2 ^ 32 := (numberValue k).1.isLt
  have hshift : (numberValue k).2.1.toNat * 2 ^ 32 < 2 ^ 64 := by omega
  rw [windowAddr, lsl64, if_pos (by decide), BitVec.toNat_or, BitVec.toNat_shiftLeft,
    BitVec.toNat_setWidth, BitVec.toNat_setWidth, Nat.mod_eq_of_lt (a := BitVec.toNat _) (by omega),
    Nat.mod_eq_of_lt (a := (numberValue k).1.toNat) (by omega), Nat.shiftLeft_eq,
    Nat.mod_eq_of_lt hshift, ← Nat.shiftLeft_eq, Nat.shiftLeft_add_eq_or_of_lt h0]

theorem windowAddr_lt (k : Key) : windowAddr k < 2 ^ 64 := by
  rw [← windowAddr_toNat]
  exact BitVec.isLt _

theorem misaligned_iff (gpt : Gpt) (h : addr.toNat = n) :
    addr &&& lowMask gpt.curL2v ≠ 0 ↔ ¬ 2 ^ gpt.curL2v ∣ n := by
  have hmod := and_lowMask_toNat gpt addr
  rw [h] at hmod
  rw [not_iff_not, ← BitVec.toNat_inj, hmod, Nat.dvd_iff_mod_eq_zero]
  rfl

theorem windowRestrictions_eq (k : Key) :
    (((numberValue k).2.2 >>> 8) &&& 0xff).truncate 8 = windowRestrictions k := by
  apply BitVec.eq_of_toNat_eq
  have hmask : (0xff : BitVec 32).toNat = 2 ^ 8 - 1 := rfl
  rw [windowRestrictions, BitVec.toNat_setWidth, BitVec.toNat_setWidth, BitVec.toNat_and, hmask,
    Nat.and_two_pow_sub_one_eq_mod, Nat.mod_mod]

theorem wslot_toNat (w : BitVec 32) : (w &&& 0xff).toNat = w.toNat % 256 := by
  have hmask : (0xff : BitVec 32).toNat = 2 ^ 8 - 1 := rfl
  rw [BitVec.toNat_and, hmask, Nat.and_two_pow_sub_one_eq_mod]

/-- A window is a multiple of the size of the slot it is in: adding it carries into no bit above
the address space. -/
theorem offset_add_lt {l2v addr : ℕ} (hl2v : l2v < 64) (hoffset : offset < 2 ^ l2v)
    (haddr : addr < 2 ^ 64) (hdvd : 2 ^ l2v ∣ addr) : offset + addr < 2 ^ 64 := by
  obtain ⟨c, rfl⟩ := hdvd
  have hsplit : 2 ^ 64 = 2 ^ l2v * 2 ^ (64 - l2v) := by
    rw [← Nat.pow_add]
    congr 1
    omega
  rw [hsplit] at haddr ⊢
  have hc : c < 2 ^ (64 - l2v) := lt_of_mul_lt_mul_left' haddr
  calc offset + 2 ^ l2v * c < 2 ^ l2v + 2 ^ l2v * c := Nat.add_lt_add_right hoffset _
    _ = 2 ^ l2v * (c + 1) := by ring
    _ ≤ 2 ^ l2v * 2 ^ (64 - l2v) := Nat.mul_le_mul_left _ hc

variable {gpt : Gpt}

theorem followWindow_matches (hcount : count ≤ maxSegDepth)
    (h : Before mem write background count (wi, k) (k, offset, trail))
    (hoffset : offset < 2 ^ gpt.curL2v) :
    Matches (Before mem write background count) (followWindow mem wi gpt k)
      (enterWindow mem write background gpt trail k offset) := by
  obtain ⟨-, hva, hrestr, hwrite, hbg, hflag, hwi⟩ := h
  dsimp only at hva hrestr hwrite hbg hwi
  have hle : wi.traverseCount ≤ maxSegDepth := hwi.trans_le hcount
  have haddr := windowAddr_toNat k
  simp only [followWindow, enterWindow, misaligned_iff gpt haddr, windowRestrictions_eq]
  split
  · exact matches_fault _ hle
  case isFalse halign =>
    refine matches_restricted (by simp [hrestr]) hwrite hle ?_
    have hsum : (wi.offset + (lsl64 ((numberValue k).2.1.zeroExtend 64) 32 |||
        (numberValue k).1.zeroExtend 64)).toNat = offset + windowAddr k := by
      rw [BitVec.toNat_add, haddr, hva]
      exact Nat.mod_eq_of_lt
        (offset_add_lt (curL2v_lt gpt) hoffset (windowAddr_lt k) (not_not.1 halign))
    simp only [windowKey, wslot_toNat, hbg]
    split
    · exact ⟨rfl, hsum, by simp [hrestr], hwrite, rfl, hflag, hwi⟩
    · split
      · cases hb : background with
        | none => exact matches_fault _ hle
        | some b =>
          subst hb
          -- The assertion on the background GPT.
          simp only [hflag b rfl, if_true, Option.map_some]
          exact ⟨rfl, hsum, by simp [hrestr], hwrite, rfl, hflag, hwi⟩
      · exact matches_fault _ hle

theorem slotKey_matches (hcount : count ≤ maxSegDepth)
    (h : Before mem write background count (wi, k) (k, offset, trail))
    (hoffset : offset < 2 ^ gpt.curL2v) :
    Matches (Before mem write background count) (slotKey mem wi gpt k)
      (if k.keyType = .number then enterWindow mem write background gpt trail k offset
        else .ok (k, offset, trail)) := by
  unfold slotKey
  split
  · exact followWindow_matches hcount h hoffset
  · exact h

/-! ## The loop -/

theorem noteGPT_spec (wi : SegWalk) (o : ℕ) (gpt : Gpt) :
    (wi.noteGPT o gpt).memObj = wi.memObj ∧ (wi.noteGPT o gpt).offset = wi.offset ∧
      (wi.noteGPT o gpt).restrictions = wi.restrictions ∧
      (wi.noteGPT o gpt).needWrite = wi.needWrite ∧
      (wi.noteGPT o gpt).traverseCount = wi.traverseCount ∧
      (wi.noteGPT o gpt).backgroundGPT =
        if gpt.hasBackground then some o else wi.backgroundGPT := by
  unfold SegWalk.noteGPT
  dsimp only
  split <;> split <;> simp [*]

theorem hasBackground_below (hflag : ∀ b, background = some b → (mem.gpt b).hasBackground = true) :
    ∀ b, backgroundBelow mem background o = some b → (mem.gpt b).hasBackground = true := by
  unfold backgroundBelow
  split
  · rintro b ⟨⟩
    assumption
  · exact hflag

variable {place : Place}

/-- Going from a GPT to what its slot designates. -/
theorem traverse_matches (h : At mem write background count wi place) (ho : place.object = .gpt o)
    (hcount : count + 1 < maxSegDepth) :
    Matches (At mem write (backgroundBelow mem background o) (count + 1)) (traverse mem wi)
      (do
        let (k, offset, trail) ← selectSlot mem write (backgroundBelow mem background o)
          (mem.gpt o) place.trail place.offset
        enterKey mem write trail k offset) := by
  obtain ⟨hobj, hoff, hrestr, hwrite, hbg, hflag, hwi⟩ := h
  have hcount' : count + 1 ≤ maxSegDepth := hcount.le
  obtain ⟨-, hnoff, hnrestr, hnwrite, hncount, hnbg⟩ :=
    noteGPT_spec { wi with memObj := .gpt o, traverseCount := wi.traverseCount + 1 } o (mem.gpt o)
  have hle : wi.traverseCount + 1 ≤ maxSegDepth := by rwa [hwi]
  simp only [traverse, hobj, ho, selectSlot]
  rw [if_neg (by simpa [hwi] using hcount), hnoff, lsr64_toNat, hoff]
  split
  · exact matches_fault _ (hncount.trans_le hle)
  · refine Matches.bind (slotKey_matches hcount' ?_ (Nat.mod_lt _ (Nat.two_pow_pos _)))
      fun next meant hnext => processKey_before hcount' hnext
    exact {
      key := rfl
      offset := (and_lowMask_toNat (mem.gpt o) wi.offset).trans
        (congrArg (· % 2 ^ (mem.gpt o).curL2v) hoff)
      restrictions := hnrestr.trans hrestr
      needWrite := hnwrite.trans hwrite
      backgroundGPT := by
        rw [hnbg, backgroundBelow, hbg]
      hasBackground := hasBackground_below hflag
      traverseCount := by
        rw [hncount, hwi] }

theorem translateAt_arrived (depth : ℕ)
    (h : At mem write background count wi place) (harr : arrived mem stopL2v wi = true) :
    translateAt mem write stopL2v depth background place = .ok place := by
  unfold arrived at harr
  rw [h.object, h.offset] at harr
  unfold translateAt
  cases hobj : place.object with
  | page p | gpt o =>
    simp only [hobj, decide_eq_true_eq] at harr
    simp only [harr, if_true]

variable {f : SegWalk → Except Failure γ}

theorem traverse_page_matches {R : γ → Place → Prop} {p : ℕ} (depth : ℕ)
    (h : At mem write background count wi place) (hle : wi.traverseCount ≤ maxSegDepth)
    (hp : place.object = .page p) (harr : ¬arrived mem stopL2v wi = true) :
    Matches R (traverse mem wi >>= f)
      (translateAt mem write stopL2v depth background place) := by
  unfold translateAt
  simp only [arrived, traverse, h.object, hp, h.offset, decide_eq_true_eq] at harr ⊢
  rw [if_neg harr]
  exact matches_fault _ hle

theorem traverse_limit_matches {R : γ → Place → Prop}
    (h : At mem write background count wi place) (hlimit : wi.traverseCount + 1 = maxSegDepth)
    (ho : place.object = .gpt o) (harr : ¬arrived mem stopL2v wi = true) :
    Matches R (traverse mem wi >>= f) (translateAt mem write stopL2v 0 background place) := by
  unfold translateAt
  simp only [arrived, traverse, h.object, ho, decide_eq_true_eq] at harr ⊢
  rw [if_neg harr, if_pos hlimit.ge]
  exact matches_fault _ hlimit.le

theorem processKey_count {va : BitVec 64}
    (h : processKey mem wi k va = .ok wi') : wi'.traverseCount = wi.traverseCount := by
  obtain ⟨object, -, h⟩ := of_bind_ok h
  simp only [SegWalk.fault] at h
  split at h
  · cases h
  · split at h <;> cases h
    rfl

theorem slotKey_count {k' : Key}
    (h : slotKey mem wi gpt k = .ok (wi', k')) : wi'.traverseCount = wi.traverseCount := by
  unfold slotKey at h
  split at h
  · simp only [followWindow, SegWalk.fault] at h
    split at h
    · cases h
    · split at h
      · cases h
      · split at h
        · cases h
          rfl
        · split at h
          · split at h
            · cases h
            · split at h <;> cases h
              rfl
          · cases h
  · cases h
    rfl

theorem traverse_descends (mem : Memory) :
    ResumableLoop.Descends (traverse mem) fun wi => maxSegDepth - 1 - wi.traverseCount := by
  intro wi wi' h
  unfold traverse at h
  split at h
  · cases h
  · simp only [SegWalk.fault] at h
    split at h
    · cases h
    case isFalse hlimit =>
      split at h
      · cases h
      · obtain ⟨⟨next, k⟩, hslot, hkey⟩ := of_bind_ok h
        have hcount : wi'.traverseCount = wi.traverseCount + 1 := by
          rw [processKey_count hkey, slotKey_count hslot]
          exact (noteGPT_spec _ _ _).2.2.2.2.1
        simp only [hcount]
        omega

theorem walkSeg_matches (stopL2v : ℕ) (depth : ℕ) :
    ∀ {background : Option ℕ} {count : ℕ} {wi : SegWalk} {place : Place},
      At mem write background count wi place → count + depth = maxSegDepth - 1 →
      Matches (fun wi place => ∃ background, ∃ count < maxSegDepth,
          At mem write background count wi place ∧ arrived mem stopL2v wi = true)
        (walkSeg mem stopL2v wi) (translateAt mem write stopL2v depth background place) := by
  have hfuel (wi : SegWalk) : maxSegDepth - 1 - wi.traverseCount < maxSegDepth := by
    have h : 0 < maxSegDepth := by decide
    omega
  have hmax : maxSegDepth = 20 := rfl
  have hrun (wi : SegWalk) : walkSeg mem stopL2v wi =
      if arrived mem stopL2v wi then .ok wi else traverse mem wi >>= walkSeg mem stopL2v :=
    ResumableLoop.run_unfold (traverse_descends mem) (hfuel wi)
  induction depth with
  | zero =>
    intro background count wi place h hcount
    have hle : wi.traverseCount + 1 = maxSegDepth := by
      rw [h.traverseCount]
      omega
    rw [hrun]
    by_cases harr : arrived mem stopL2v wi = true
    · rw [if_pos harr, translateAt_arrived 0 h harr]
      exact ⟨background, count, by omega, h, harr⟩
    · rw [if_neg harr]
      cases hobj : place.object with
      | page p => exact traverse_page_matches 0 h (by omega) hobj harr
      | gpt o => exact traverse_limit_matches h hle hobj harr
  | succ depth ih =>
    intro background count wi place h hcount
    have hle : wi.traverseCount ≤ maxSegDepth := by
      rw [h.traverseCount]
      omega
    rw [hrun]
    by_cases harr : arrived mem stopL2v wi = true
    · rw [if_pos harr, translateAt_arrived _ h harr]
      exact ⟨background, count, by omega, h, harr⟩
    · rw [if_neg harr]
      cases hobj : place.object with
      | page p => exact traverse_page_matches _ h hle hobj harr
      | gpt o =>
        have hbind := (traverse_matches h hobj (by omega)).bind fun wi' place' hnext =>
          ih hnext (by omega)
        simp only [arrived, h.object, hobj, decide_eq_true_eq] at harr
        unfold translateAt
        simp only [hobj]
        rw [if_neg harr]
        simpa only [bind_assoc] using hbind

theorem walkSegs_eq (mem : Memory) (stops : List ℕ)
    (hstops : ∀ s ∈ stops, stopL2v ≤ s) (wi : SegWalk) :
    walkSegs mem (stops ++ [stopL2v]) wi = walkSeg mem stopL2v wi := by
  have hstages (l : List ℕ) (wi : SegWalk) : walkSegs mem l wi =
      ResumableLoop.stages (traverse mem) (.halt .diverged) maxSegDepth (l.map (arrived mem)) wi := by
    induction l generalizing wi with
    | nil => rfl
    | cons s l ih =>
      simp only [walkSegs, List.map_cons, ResumableLoop.stages, walkSeg]
      congr 1
      exact funext ih
  rw [hstages, List.map_append]
  refine ResumableLoop.stages_eq (traverse_descends mem) maxSegDepth _ ?_ wi ?_
  · intro coarse hcoarse wi harr
    obtain ⟨s, hs, rfl⟩ := List.mem_map.1 hcoarse
    -- A GPT whose slots are small enough for the last stop is small enough for the others.
    have hle := hstops s hs
    unfold arrived at harr ⊢
    split at harr
    · simpa using harr
    · simp only [decide_eq_true_eq] at harr ⊢
      omega
  · have h : 0 < maxSegDepth := by decide
    omega

/-! ## The staged walk -/

/-- A walk that has ended well, and what it should have found. -/
structure Found (segWalk : SegWalk) (place : Place) : Prop where
  memObj : segWalk.memObj = place.object
  offset : segWalk.offset.toNat = place.offset
  restrictions : segWalk.restrictions = restrictionsOf place.trail
  traverseCount : segWalk.traverseCount < maxSegDepth

theorem segwalkInit_matches (mem : Memory) (wi : SegWalk) (needWrite : Bool) (segKey : Key)
    (va : BitVec 64) :
    Matches (At mem needWrite none 0)
      (segwalkInit mem { wi with needWrite := needWrite, traverseCount := 0 } segKey va)
      (enterKey mem needWrite [] segKey va.toNat) := by
  exact processKey_matches (Nat.zero_le _) rfl rfl fun b hb => nomatch hb

theorem stagedWalk_matches (mem : Memory) (wi : SegWalk) (needWrite : Bool) (segKey : Key)
    (va : BitVec 64) {stops : List ℕ} (hstops : ∀ s ∈ stops, stopL2v ≤ s) :
    Matches Found (stagedWalk mem wi needWrite segKey va (stops ++ [stopL2v]))
      (translate mem needWrite stopL2v segKey va.toNat) := by
  refine Matches.bind (segwalkInit_matches mem wi needWrite segKey va) fun start place hstart => ?_
  rw [walkSegs_eq mem stops hstops]
  have hwalk := walkSeg_matches stopL2v (maxSegDepth - 1) hstart (Nat.zero_add _)
  -- Of the walk's state only what was found is of interest.
  refine hwalk.mono fun segWalk place hfound => ?_
  obtain ⟨background, count, hcount, hat, -⟩ := hfound
  exact ⟨hat.object, hat.offset, hat.restrictions, hat.traverseCount.trans_lt hcount⟩

/-- A walk with any stops on the way ends, within the limit on its depth, as the translation of
the address says: at the same page or GPT with the same offset, or with the same fault. The
restrictions that it has found are those of all keys and windows on the path from the root key, and
a walk for writing has found none that is read only. -/
theorem stagedWalk_correct (mem : Memory) (wi : SegWalk) (needWrite : Bool) (segKey : Key)
    (va : BitVec 64) (stops : List ℕ) (stopL2v : ℕ) (hstops : ∀ s ∈ stops, stopL2v ≤ s) :
    Matches Found (stagedWalk mem wi needWrite segKey va (stops ++ [stopL2v]))
        (translate mem needWrite stopL2v segKey va.toNat) ∧
      ∀ segWalk, stagedWalk mem wi needWrite segKey va (stops ++ [stopL2v]) = .ok segWalk →
        ∃ trail, ∃ n < maxSegDepth,
          KeyPath mem segKey va.toNat trail n segWalk.memObj segWalk.offset.toNat ∧
          segWalk.restrictions = restrictionsOf trail ∧
          (needWrite = true →
            isReadOnly segWalk.restrictions = false ∧ ∀ r ∈ trail, isReadOnly r = false) := by
  have hmatch := stagedWalk_matches mem wi needWrite segKey va hstops
  refine ⟨hmatch, fun segWalk hwalk => ?_⟩
  rw [hwalk] at hmatch
  -- A walk that ends well has a translation, and that has a path.
  cases htrans : translate mem needWrite stopL2v segKey va.toNat with
  | error code =>
    rw [htrans] at hmatch
    exact hmatch.elim
  | ok place =>
    rw [htrans] at hmatch
    obtain ⟨hobject, hoffset, hrestr, -⟩ : Found segWalk place := hmatch
    obtain ⟨n, hn, hpath, hwrite⟩ := translate_path htrans
    rw [hobject, hoffset]
    refine ⟨place.trail, n, hn, hpath, hrestr, fun hw => ⟨?_, hwrite hw⟩⟩
    rw [hrestr, isReadOnly_restrictionsOf]
    exact List.any_eq_false.2 fun r hr => by simp [hwrite hw r hr]

/-- A memory key with no restrictions and guard 0. -/
def memoryKey (keyType : KeyType) (oid : ℕ) (l2g : BitVec 8) : Key :=
  Key.setL2g ⟨keyType, 0, 0, .prep oid⟩ l2g

/-- GPT 1 has a window in slot 1 on its slot 3, which holds GPT 2, which has page 7 in slot 2. -/
def windowedSpace : Memory where
  gpt o :=
    if o = 1 then
      { slot := fun i =>
          if i = 1 then ⟨.number, 0, 0, .words 0 0 3⟩
          else if i = 3 then memoryKey .gpt 2 17
          else .void
        l2vField := 20
        l2v_ge := by decide }
    else
      { slot := fun i => if i = 2 then memoryKey .page 7 12 else .void
        l2vField := 12
        l2v_ge := Gpt.l2v_ge_page }
  currentCount _ _ := none

/-- A walk for writing through the window, stopped at each level of the mapping tables. -/
theorem stagedWalk_correct_window :
    ∃ segWalk,
      stagedWalk windowedSpace ⟨.page 0, 0, false, 0, none, .none, 0, 0, none⟩ true
          (memoryKey .gpt 1 25) 0x102345 ([32, 20] ++ [12]) = .ok segWalk ∧
        segWalk.memObj = .page 7 ∧ segWalk.offset = 0x345 ∧
        ∃ trail, ∃ n < maxSegDepth,
          KeyPath windowedSpace (memoryKey .gpt 1 25) (0x102345 : BitVec 64).toNat trail n
            segWalk.memObj segWalk.offset.toNat := by
  have hwalk : stagedWalk windowedSpace ⟨.page 0, 0, false, 0, none, .none, 0, 0, none⟩ true
      (memoryKey .gpt 1 25) 0x102345 ([32, 20] ++ [12]) =
        .ok ⟨.page 7, 0x345, true, 0, none, .none, 0, 2, none⟩ := by
    decide +kernel
  have hpath := (stagedWalk_correct windowedSpace ⟨.page 0, 0, false, 0, none, .none, 0, 0, none⟩
    true (memoryKey .gpt 1 25) 0x102345 [32, 20] 12 (by decide)).2
  obtain ⟨trail, n, hn, hkeyPath, -⟩ := hpath _ hwalk
  exact ⟨_, hwalk, rfl, rfl, trail, n, hn, hkeyPath⟩

end CapROS.MemoryTree
