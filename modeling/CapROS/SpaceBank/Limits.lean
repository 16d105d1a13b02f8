import CapROS.SpaceBank.FamilyTree
import Mathlib.Data.BitVec

/-!
# The limits of the banks

The counts of frames and objects that the banks keep (`Bank.c`). A frame is counted at the bank that
allocates it and at all its ancestors, and each of them has a limit. The counts and the limits have 64
bits.

* `bankReserveFrames`, `bankUnreserveFrames`: a number of frames is counted, or no longer counted.
* `bankGetLimits`: what a client is told about the limits.
-/

namespace CapROS.SpaceBank

open LinkedRing

/-- `Bank_MOFrame`: the frame of nodes that a bank hands out at the moment. A bit that is set in the
map stands for a free object. -/
structure MOFrame where
  frameOid : ℕ
  frameMap : BitVec 32
  deriving DecidableEq, Repr

/-- `TREE`: the allocation tree of a bank, and the two nodes that were used last. -/
structure AllocTree where
  root : ℕ
  lastInsert : ℕ
  lastRemove : ℕ
  deriving DecidableEq, Repr

/-- The fields of a `Bank` that are about its storage. The statistics go by the type of object. -/
structure Bank where
  allocTree : AllocTree
  limit : BitVec 64
  allocCount : BitVec 64
  nodeFrame : MOFrame
  allocs : ℕ → BitVec 64
  deallocs : ℕ → BitVec 64

/-- The banks. A bank is known by its address, and the parent of `bank0` is `NULL`. -/
structure Banks where
  parent : ℕ → ℕ
  bank : ℕ → Bank

/-- What the space bank answers. -/
inductive Answer where
  | ok
  | requestError
  | limitReached
  deriving DecidableEq, Repr

namespace Banks

variable (B : Banks)

def setBank (b : ℕ) (v : Bank) : Banks := { B with bank := Function.update B.bank b v }

/-- The bank `b` gets the count `c`. -/
def setCount (b : ℕ) (c : BitVec 64) : Banks := B.setBank b { B.bank b with allocCount := c }

end Banks

/-! ## Reservations -/

/-- The first loop of `bank_ReserveFrames`, from the bank `curBank` on, with the bank at which it
stops. -/
def reserveLoop (count : BitVec 64) : ℕ → ℕ → Banks → Except Halt (ℕ × Banks)
  | 0, _, _ => .error .diverged
  | n + 1, curBank, B =>
      if curBank = 0 then .ok (curBank, B)
      else if (B.bank curBank).limit < (B.bank curBank).allocCount + count then .ok (curBank, B)
      else reserveLoop count n (B.parent curBank)
        (B.setCount curBank ((B.bank curBank).allocCount + count))

/-- The counts of the banks from `bank` on, up to `curBank` but without it, are reduced. -/
def unreserveLoop (count : BitVec 64) (curBank : ℕ) : ℕ → ℕ → Banks → Except Halt Banks
  | 0, _, _ => .error .diverged
  | n + 1, bank, B =>
      if bank = curBank then .ok B
      else unreserveLoop count curBank n (B.parent bank)
        (B.setCount bank ((B.bank bank).allocCount - count))

/-- `bank_ReserveFrames`, where no bank has `n` ancestors or more. -/
def bankReserveFrames (n bank : ℕ) (count : BitVec 32) (B : Banks) : Except Halt (Answer × Banks) := do
  let (curBank, B) ← reserveLoop (count.setWidth 64) n bank B
  if curBank ≠ 0 then
    let B ← unreserveLoop (count.setWidth 64) curBank n bank B
    .ok (.limitReached, B)
  else .ok (.ok, B)

def bankUnreserveFrames (n bank : ℕ) (count : BitVec 32) (B : Banks) : Except Halt Banks :=
  unreserveLoop (count.setWidth 64) 0 n bank B

/-! ## The limits that are told -/

/-- `capros_SpaceBank_limits`. -/
structure Limits where
  frameLimit : BitVec 64
  allocCount : BitVec 64
  effFrameLimit : BitVec 64
  effAllocLimit : BitVec 64
  allocs : ℕ → BitVec 64
  reclaims : ℕ → BitVec 64

/-- The loop of `BankGetLimits`, from `bank` on. -/
def limitsLoop (B : Banks) : ℕ → ℕ → BitVec 64 → BitVec 64 → Except Halt (BitVec 64 × BitVec 64)
  | 0, _, _, _ => .error .diverged
  | n + 1, bank, effFrameLimit, effAllocLimit =>
      if bank = 0 then .ok (effFrameLimit, effAllocLimit)
      else
        let b := B.bank bank
        let effFrameLimit := if b.limit < effFrameLimit then b.limit else effFrameLimit
        let effAllocLimit :=
          if b.limit < b.allocCount then 0
          else if b.limit - b.allocCount < effAllocLimit then b.limit - b.allocCount
          else effAllocLimit
        limitsLoop B n (B.parent bank) effFrameLimit effAllocLimit

def bankGetLimits (n bank : ℕ) (B : Banks) : Except Halt Limits := do
  let (effFrameLimit, effAllocLimit) ← limitsLoop B n bank (BitVec.allOnes 64) (BitVec.allOnes 64)
  .ok {
    frameLimit := (B.bank bank).limit
    allocCount := (B.bank bank).allocCount
    effFrameLimit
    effAllocLimit
    allocs := (B.bank bank).allocs
    reclaims := (B.bank bank).deallocs }

/-! ## The ancestors of a bank -/

variable {B B' : Banks} {bank : ℕ} {chain : List ℕ} {count : BitVec 64} {n : ℕ}

/-- The bank has these ancestors, from itself on. -/
def Ancestry (B : Banks) (bank : ℕ) (chain : List ℕ) : Prop := Stack B.parent 0 bank chain

theorem Ancestry.unique {chain' : List ℕ} (h : Ancestry B bank chain) (h' : Ancestry B bank chain') :
    chain = chain' := by
  induction chain generalizing bank chain' with
  | nil =>
    have hz : bank = 0 := h
    by_contra hne
    exact h'.ne_end.2 (Ne.symm hne) hz
  | cons b chain ih =>
    obtain ⟨rfl, hz, hrest⟩ := h
    cases chain' with
    | nil => exact absurd h' hz
    | cons c chain' =>
      obtain ⟨rfl, -, hrest'⟩ := h'
      rw [ih hrest hrest']

variable {b : ℕ} {bs rest : List ℕ}

theorem Ancestry.suffix (h : Ancestry B bank (bs ++ b :: rest)) :
    Ancestry B b (b :: rest) := by
  induction bs generalizing bank with
  | nil =>
    obtain ⟨rfl, hz, hrest⟩ := h
    exact ⟨rfl, hz, hrest⟩
  | cons c bs ih => exact ih h.2.2

theorem Ancestry.ne_zero (h : Ancestry B bank chain) (hb : b ∈ chain) : b ≠ 0 := by
  obtain ⟨bs, rest, rfl⟩ := List.append_of_mem hb
  exact h.suffix.2.1

theorem Ancestry.nodup (h : Ancestry B bank chain) : chain.Nodup := by
  induction chain generalizing bank with
  | nil => exact .nil
  | cons a chain ih =>
    have hself := h
    obtain ⟨rfl, hz, hrest⟩ := h
    refine List.nodup_cons.2 ⟨fun hmem => ?_, ih hrest⟩
    -- otherwise its list of ancestors would be shorter than itself
    obtain ⟨bs, rest, rfl⟩ := List.append_of_mem hmem
    have := congrArg List.length (hself.unique (Ancestry.suffix hrest))
    simp at this
    omega

/-! ## What the loops do -/

/-- The banks `bs` have counted `c` more. -/
def Banks.addCount (c : BitVec 64) (bs : List ℕ) (B : Banks) : Banks :=
  { B with
    bank := fun b =>
      if b ∈ bs then { B.bank b with allocCount := (B.bank b).allocCount + c } else B.bank b }

theorem Banks.addCount_nil (c : BitVec 64) : B.addCount c [] = B := by simp [addCount]

variable {c : BitVec 64}

theorem Banks.addCount_cons (hb : b ∉ bs) :
    (B.setCount b ((B.bank b).allocCount + c)).addCount c bs = B.addCount c (b :: bs) := by
  simp only [addCount, setCount, setBank, mk.injEq, true_and]
  funext a
  rcases eq_or_ne a b with rfl | hne
  · simp [hb]
  · simp [hne]

theorem Banks.addCount_neg (c : BitVec 64) (bs : List ℕ) : (B.addCount c bs).addCount (-c) bs = B := by
  simp only [addCount]
  congr 1
  funext a
  by_cases ha : a ∈ bs
  · simp [ha]
  · simp [ha]

/-- The bank would go over its limit, as the 64-bit sum has it. -/
def Bank.Refuses (count : BitVec 64) (b : Bank) : Prop := b.limit < b.allocCount + count

instance (count : BitVec 64) (b : Bank) : Decidable (b.Refuses count) :=
  inferInstanceAs (Decidable (_ < _))

/-- The ancestors `bs` accept a reservation, and `curBank` is the first that refuses it, or `NULL`. -/
structure StopsAt (count : BitVec 64) (B : Banks) (chain bs : List ℕ) (curBank : ℕ) : Prop where
  accept : ∀ b ∈ bs, ¬(B.bank b).Refuses count
  split : (curBank = 0 ∧ chain = bs) ∨
    ∃ rest, chain = bs ++ curBank :: rest ∧ (B.bank curBank).Refuses count

theorem reserveLoop_spec (h : Ancestry B bank chain) (hn : chain.length < n) :
    ∃ bs curBank, StopsAt count B chain bs curBank ∧
      reserveLoop count n bank B = .ok (curBank, B.addCount count bs) := by
  induction chain generalizing bank n B with
  | nil =>
    obtain ⟨n, rfl⟩ := Nat.exists_eq_succ_of_ne_zero hn.ne_bot
    have hz : bank = 0 := h
    refine ⟨[], 0, ⟨by simp, .inl ⟨rfl, rfl⟩⟩, ?_⟩
    rw [reserveLoop, if_pos hz, hz, Banks.addCount_nil]
  | cons b chain ih =>
    have hnodup := h.nodup
    obtain ⟨rfl, hz, hrest⟩ := h
    obtain ⟨n, rfl⟩ := Nat.exists_eq_succ_of_ne_zero hn.ne_bot
    have hb : bank ∉ chain := (List.nodup_cons.1 hnodup).1
    rw [reserveLoop, if_neg hz]
    by_cases href : (B.bank bank).Refuses count
    · refine ⟨[], bank, ⟨by simp, .inr ⟨chain, rfl, href⟩⟩, ?_⟩
      rw [if_pos (show (B.bank bank).limit < _ from href), Banks.addCount_nil]
    · rw [if_neg (show ¬(B.bank bank).limit < _ from href)]
      obtain ⟨bs, curBank, ⟨hacc, hsplit⟩, hrun⟩ :=
        ih (B := B.setCount bank ((B.bank bank).allocCount + count)) hrest (Nat.succ_lt_succ_iff.1 hn)
      -- the other ancestors have not been changed yet
      have hsame : ∀ a ∈ chain,
          (B.setCount bank ((B.bank bank).allocCount + count)).bank a = B.bank a := fun a ha =>
        Function.update_of_ne (ne_of_mem_of_not_mem ha hb) _ _
      have hsub : ∀ a ∈ bs, a ∈ chain := by
        intro a ha
        obtain ⟨-, rfl⟩ | ⟨rest, rfl, -⟩ := hsplit
        · exact ha
        · exact List.mem_append_left _ ha
      refine ⟨bank :: bs, curBank, ⟨?_, ?_⟩, ?_⟩
      · intro a ha
        rcases List.mem_cons.1 ha with rfl | ha
        · exact href
        · rw [← hsame a (hsub a ha)]
          exact hacc a ha
      · obtain ⟨hzero, rfl⟩ | ⟨rest, rfl, hrefuse⟩ := hsplit
        · exact .inl ⟨hzero, rfl⟩
        · rw [hsame curBank (by simp)] at hrefuse
          exact .inr ⟨rest, rfl, hrefuse⟩
      · rw [hrun, Banks.addCount_cons fun hm => hb (hsub bank hm)]

theorem unreserveLoop_spec {curBank : ℕ} (h : Ancestry B bank (bs ++ rest))
    (hend : Ancestry B curBank rest) (hn : bs.length < n) :
    unreserveLoop count curBank n bank B = .ok (B.addCount (-count) bs) := by
  induction bs generalizing bank n B with
  | nil =>
    obtain ⟨n, rfl⟩ := Nat.exists_eq_succ_of_ne_zero hn.ne_bot
    have heq : bank = curBank := by
      cases rest with
      | nil => exact Eq.trans h hend.symm
      | cons c rest => exact h.1.trans hend.1.symm
    rw [unreserveLoop, if_pos heq, Banks.addCount_nil]
  | cons b bs ih =>
    have hnodup := h.nodup
    have hself := h
    obtain ⟨rfl, hz, hrest⟩ := h
    obtain ⟨n, rfl⟩ := Nat.exists_eq_succ_of_ne_zero hn.ne_bot
    have hb : bank ∉ bs ++ rest := (List.nodup_cons.1 hnodup).1
    have hne : bank ≠ curBank := by
      rintro rfl
      have := congrArg List.length (hself.unique hend)
      simp at this
      omega
    rw [unreserveLoop, if_neg hne, BitVec.sub_eq_add_neg,
      ih (B := B.setCount bank ((B.bank bank).allocCount + -count)) hrest hend (Nat.succ_lt_succ_iff.1 hn),
      Banks.addCount_cons fun hm => hb (List.mem_append_left _ hm)]

variable {frames : BitVec 32}

/-- Either no ancestor refuses, and all of them have counted the frames, or some ancestor does, and
nothing has changed. -/
theorem bankReserveFrames_spec (h : Ancestry B bank chain)
    (hn : chain.length < n) :
    bankReserveFrames n bank frames B =
      if ∃ b ∈ chain, (B.bank b).Refuses (frames.setWidth 64) then .ok (.limitReached, B)
      else .ok (.ok, B.addCount (frames.setWidth 64) chain) := by
  obtain ⟨bs, curBank, ⟨hacc, hsplit⟩, hrun⟩ :
      ∃ bs curBank, StopsAt (frames.setWidth 64) B chain bs curBank ∧
        reserveLoop (frames.setWidth 64) n bank B = .ok (curBank, B.addCount (frames.setWidth 64) bs) :=
    reserveLoop_spec h hn
  rw [bankReserveFrames, hrun]
  obtain ⟨rfl, rfl⟩ | ⟨rest, rfl, hrefuse⟩ := hsplit
  · have hnone : ¬∃ b ∈ chain, (B.bank b).Refuses (frames.setWidth 64) := by
      rintro ⟨b, hb, hr⟩
      exact hacc b hb hr
    rw [if_neg hnone]
    rfl
  · rw [if_pos ⟨curBank, by simp, hrefuse⟩]
    have hne : curBank ≠ 0 := h.ne_zero (by simp)
    have hlen : bs.length < n := by
      rw [List.length_append] at hn
      omega
    have hback : unreserveLoop (frames.setWidth 64) curBank n bank (B.addCount (frames.setWidth 64) bs) =
        .ok ((B.addCount (frames.setWidth 64) bs).addCount (-frames.setWidth 64) bs) :=
      unreserveLoop_spec (B := B.addCount (frames.setWidth 64) bs) h h.suffix hlen
    rw [Banks.addCount_neg] at hback
    change (if curBank ≠ 0 then _ else _) = _
    rw [if_pos hne, hback]
    rfl

theorem bankUnreserveFrames_spec (h : Ancestry B bank chain)
    (hn : chain.length < n) :
    bankUnreserveFrames n bank frames B = .ok (B.addCount (-frames.setWidth 64) chain) := by
  have hend : Ancestry B 0 [] := rfl
  exact unreserveLoop_spec (by rwa [List.append_nil]) hend hn

/-- The frames that the bank itself has left. -/
def Bank.room (b : Bank) : BitVec 64 := if b.limit < b.allocCount then 0 else b.limit - b.allocCount

theorem limitsLoop_spec {f a : BitVec 64} (h : Ancestry B bank chain) (hn : chain.length < n) :
    ∃ f' a', limitsLoop B n bank f a = .ok (f', a') ∧
      (∀ x, x ≤ f' ↔ x ≤ f ∧ ∀ b ∈ chain, x ≤ (B.bank b).limit) ∧
      ∀ x, x ≤ a' ↔ x ≤ a ∧ ∀ b ∈ chain, x ≤ (B.bank b).room := by
  induction chain generalizing bank n f a with
  | nil =>
    obtain ⟨n, rfl⟩ := Nat.exists_eq_succ_of_ne_zero hn.ne_bot
    have hz : bank = 0 := h
    refine ⟨f, a, ?_, by simp, by simp⟩
    rw [limitsLoop, if_pos hz]
  | cons b chain ih =>
    obtain ⟨rfl, hz, hrest⟩ := h
    obtain ⟨n, rfl⟩ := Nat.exists_eq_succ_of_ne_zero hn.ne_bot
    rw [limitsLoop, if_neg hz]
    obtain ⟨f', a', hrun, hf, ha⟩ := ih hrest (Nat.succ_lt_succ_iff.1 hn)
    refine ⟨f', a', hrun, fun x => ?_, fun x => ?_⟩
    · rw [hf x, List.forall_mem_cons, ← and_assoc]
      refine and_congr_left' ?_
      split <;> bv_omega
    · rw [ha x, List.forall_mem_cons, ← and_assoc]
      refine and_congr_left' ?_
      unfold Bank.room
      split
      · bv_omega
      · split <;> bv_omega

/-! ## Reservations and limits -/

/-- A reservation succeeds exactly if it is within the effective limit that the bank tells. Then all
ancestors have counted the frames, and otherwise nothing has changed. -/
def MatchesLimit (n bank : ℕ) (frames : BitVec 32) (chain : List ℕ) (B : Banks) : Prop :=
  ∃ answer B' limits, bankReserveFrames n bank frames B = .ok (answer, B') ∧
    bankGetLimits n bank B = .ok limits ∧
    (answer = .ok ↔ frames.toNat ≤ limits.effAllocLimit.toNat) ∧
    (answer = .ok →
      (∀ b ∈ chain,
        (B'.bank b).allocCount.toNat = (B.bank b).allocCount.toNat + frames.toNat) ∧
      ∀ b ∉ chain, B'.bank b = B.bank b) ∧
    (answer ≠ .ok → B' = B)

theorem bankGetLimits_spec (h : Ancestry B bank chain) (hn : chain.length < n) :
    ∃ limits, bankGetLimits n bank B = .ok limits ∧
      ∀ x, x ≤ limits.effAllocLimit ↔ ∀ b ∈ chain, x ≤ (B.bank b).room := by
  obtain ⟨f, a, hrun, -, ha⟩ :=
    limitsLoop_spec (f := BitVec.allOnes 64) (a := BitVec.allOnes 64) h hn
  refine ⟨_, by rw [bankGetLimits, hrun]; rfl, fun x => ?_⟩
  have hx : x ≤ BitVec.allOnes 64 := by
    rw [BitVec.le_def, BitVec.toNat_allOnes]
    omega
  exact (ha x).trans (and_iff_right hx)

/-- A reservation within what a bank has left does not go over its limit, not even in whole numbers. -/
theorem Bank.le_room {b : Bank} (hc : 1 ≤ c.toNat) :
    c ≤ b.room ↔ ¬b.Refuses c ∧ b.allocCount.toNat + c.toNat < 2 ^ 64 := by
  unfold room Refuses
  split <;> bv_omega

/-- The 64-bit sums make the difference: a reservation matches the limits that are told exactly if one
of the sums is over its limit, or none of them wraps around. -/
theorem matchesLimit_iff {frames : BitVec 32} (h : Ancestry B bank chain) (hn : chain.length < n)
    (hframes : 1 ≤ frames.toNat) :
    MatchesLimit n bank frames chain B ↔
      (∃ b ∈ chain, (B.bank b).Refuses (frames.setWidth 64)) ∨
        ∀ b ∈ chain, (B.bank b).allocCount.toNat + frames.toNat < 2 ^ 64 := by
  have hwidth : (frames.setWidth 64).toNat = frames.toNat := by bv_omega
  obtain ⟨limits, hlimits, heff⟩ := bankGetLimits_spec h hn
  have hle : frames.toNat ≤ limits.effAllocLimit.toNat ↔
      ∀ b ∈ chain, ¬(B.bank b).Refuses (frames.setWidth 64) ∧
        (B.bank b).allocCount.toNat + frames.toNat < 2 ^ 64 := by
    rw [← hwidth, ← BitVec.le_def, heff]
    exact forall₂_congr fun b _ => Bank.le_room (hwidth ▸ hframes)
  have hrun := @bankReserveFrames_spec _ _ _ _ frames h hn
  by_cases hrefuse : ∃ b ∈ chain, (B.bank b).Refuses (frames.setWidth 64)
  · rw [if_pos hrefuse] at hrun
    refine iff_of_true ⟨_, _, limits, hrun, hlimits, ?_, by simp, fun _ => rfl⟩ (.inl hrefuse)
    obtain ⟨b, hb, hr⟩ := hrefuse
    refine iff_of_false (by simp) fun hfits => ?_
    exact (hle.1 hfits b hb).1 hr
  · rw [if_neg hrefuse] at hrun
    have hcount : ∀ b ∈ chain, ((B.addCount (frames.setWidth 64) chain).bank b).allocCount =
        (B.bank b).allocCount + frames.setWidth 64 := fun b hb => by simp [Banks.addCount, hb]
    constructor
    · rintro ⟨answer, B', limits', hrun', hlimits', hiff, -⟩
      rw [hrun] at hrun'
      rw [hlimits] at hlimits'
      cases hrun'
      cases hlimits'
      exact .inr fun b hb => (hle.1 (hiff.1 rfl) b hb).2
    · rintro (hr | hfits)
      · exact absurd hr hrefuse
      · refine ⟨_, _, limits, hrun, hlimits, ?_, fun _ => ⟨?_, ?_⟩, by simp⟩
        · refine iff_of_true rfl (hle.2 fun b hb => ⟨fun hr => hrefuse ⟨b, hb, hr⟩, hfits b hb⟩)
        · intro b hb
          rw [hcount b hb, BitVec.toNat_add, hwidth, Nat.mod_eq_of_lt (hfits b hb)]
        · intro b hb
          simp [Banks.addCount, hb]

/-- Bank 1 has this limit and this count. Bank 2 is under it, and has counted seven frames of its ten. Two nodes
of the frame that it hands out are free. -/
def twoBanks (limit allocCount : BitVec 64) : Banks where
  parent b := if b = 2 then 1 else 0
  bank b :=
    if b = 2 then ⟨⟨0, 0, 0⟩, 10, 7, ⟨256, 12⟩, fun _ => 0, fun _ => 0⟩
    else ⟨⟨0, 0, 0⟩, limit, allocCount, ⟨0, 0⟩, fun _ => 0, fun _ => 0⟩

theorem ancestry_twoBanks (limit allocCount : BitVec 64) : Ancestry (twoBanks limit allocCount) 2 [2, 1] :=
  ⟨rfl, by decide, rfl, by decide, rfl⟩

theorem matchesLimit_iff_three : MatchesLimit 3 2 3 [2, 1] (twoBanks 30 26) :=
  (matchesLimit_iff (ancestry_twoBanks 30 26) (by decide) (by decide)).2 (.inr (by decide))

/-- The last frame that 64 bits can count is followed by the frame 0. -/
theorem matchesLimit_fails :
    ¬MatchesLimit 2 1 1 [1] (twoBanks 0xffffffffffffffff 0xffffffffffffffff) := by
  intro h
  obtain ⟨answer, B', limits, hrun, hlimits, hiff, -⟩ := h
  have hok : bankReserveFrames 2 1 1 (twoBanks 0xffffffffffffffff 0xffffffffffffffff) =
      .ok (.ok, (twoBanks 0xffffffffffffffff 0xffffffffffffffff).setCount 1 0) := rfl
  have hzero : (bankGetLimits 2 1 (twoBanks 0xffffffffffffffff 0xffffffffffffffff)).map
      (·.effAllocLimit) = .ok 0 := rfl
  rw [hok] at hrun
  cases hrun
  rw [hlimits] at hzero
  have heff : limits.effAllocLimit = 0 := Except.ok.inj hzero
  have := hiff.1 rfl
  rw [heff] at this
  exact absurd this (by decide)

end CapROS.SpaceBank
