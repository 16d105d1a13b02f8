import Mathlib.Data.Nat.Bitwise
import Mathlib.Tactic.Ring

/-!
# Blocks of the buddy system

A block of order `j` has `2 ^ j` units and starts at a multiple of `2 ^ j`. Two such blocks are
disjoint or one lies in the other. The buddy of the block at `p` starts at `p ^^^ 2 ^ j`; together
they are a block of order `j + 1`.
-/

namespace BuddyBlocks

variable {a b d i j m n p q x lo hi top : ℕ}

/-- Multiples of `d` are at least `d` apart. -/
theorem add_le_of_dvd (ha : d ∣ a) (hb : d ∣ b) (h : a < b) : a + d ≤ b := by
  obtain ⟨a, rfl⟩ := ha
  obtain ⟨b, rfl⟩ := hb
  have hab : a + 1 ≤ b := lt_of_mul_lt_mul_left h (Nat.zero_le d)
  calc d * a + d = d * (a + 1) := by ring
    _ ≤ d * b := Nat.mul_le_mul_left d hab

/-- Of two blocks that meet, the smaller lies in the other. -/
theorem nested (hp : 2 ^ i ∣ p) (hq : 2 ^ j ∣ q) (hij : i ≤ j) (hpx : p ≤ x) (hxp : x < p + 2 ^ i)
    (hqx : q ≤ x) (hxq : x < q + 2 ^ j) : q ≤ p ∧ p + 2 ^ i ≤ q + 2 ^ j := by
  have hdvd : (2 : ℕ) ^ i ∣ 2 ^ j := pow_dvd_pow 2 hij
  have hq' : 2 ^ i ∣ q := hdvd.trans hq
  constructor
  · by_contra hlt
    have := add_le_of_dvd hp hq' (by omega)
    omega
  · exact add_le_of_dvd hp (Nat.dvd_add hq' hdvd) (by omega)

/-- The buddy of a block follows it or precedes it. -/
theorem xor_two_pow (hp : 2 ^ j ∣ p) :
    (2 ^ (j + 1) ∣ p ∧ p ^^^ 2 ^ j = p + 2 ^ j) ∨
      ∃ q, 2 ^ (j + 1) ∣ q ∧ p = q + 2 ^ j ∧ p ^^^ 2 ^ j = q := by
  obtain ⟨a, rfl⟩ := hp
  have hxor : (2 ^ j * a) ^^^ 2 ^ j = 2 ^ j * (a ^^^ 1) := by
    have := Nat.shiftLeft_xor_distrib (i := j) (a := a) (b := 1)
    simpa only [Nat.shiftLeft_eq, mul_comm, one_mul] using this.symm
  rcases Nat.even_or_odd a with ha | ha
  · left
    obtain ⟨c, rfl⟩ := ha
    refine ⟨⟨c, by ring⟩, ?_⟩
    rw [hxor, Nat.xor_one_of_even ⟨c, rfl⟩]
    ring
  · right
    obtain ⟨c, rfl⟩ := ha
    refine ⟨2 ^ (j + 1) * c, ⟨c, rfl⟩, by ring, ?_⟩
    rw [hxor, Nat.xor_one_of_odd ⟨c, rfl⟩, Nat.add_sub_cancel]
    ring

theorem xor_two_pow_of_dvd (hp : 2 ^ (j + 1) ∣ p) : p ^^^ 2 ^ j = p + 2 ^ j := by
  have hj : (2 : ℕ) ^ j ∣ 2 ^ (j + 1) := pow_dvd_pow 2 (by omega)
  rcases xor_two_pow (hj.trans hp) with h | ⟨q, hq, hpq, -⟩
  · exact h.2
  · -- `p` and `q` would be multiples of `2 ^ (j + 1)` only half of that apart.
    have := add_le_of_dvd hq hp (by omega)
    omega

/-- The buddy of the buddy. -/
theorem xor_xor_two_pow (p j : ℕ) : (p ^^^ 2 ^ j) ^^^ 2 ^ j = p := by
  rw [Nat.xor_assoc, Nat.xor_self, Nat.xor_zero]

theorem xor_two_pow_ne (p j : ℕ) : p ^^^ 2 ^ j ≠ p := by
  intro h
  have hzero : 2 ^ j = 0 := by
    calc 2 ^ j = p ^^^ (p ^^^ 2 ^ j) := by rw [← Nat.xor_assoc, Nat.xor_self, Nat.zero_xor]
      _ = 0 := by rw [h, Nat.xor_self]
  exact (Nat.two_pow_pos j).ne' hzero

/-- Clearing the lowest bit of a number inside a block does not leave the block. -/
theorem le_and_pred (hp : 2 ^ j ∣ p) (hpx : p < x) (hxp : x < p + 2 ^ j) : p ≤ x &&& (x - 1) := by
  obtain ⟨a, rfl⟩ := hp
  have hdiv : ∀ y, 2 ^ j * a ≤ y → y < 2 ^ j * a + 2 ^ j → y / 2 ^ j = a := by
    intro y hy hy'
    refine Nat.div_eq_of_lt_le (by rwa [mul_comm]) ?_
    calc y < 2 ^ j * a + 2 ^ j := hy'
      _ = (a + 1) * 2 ^ j := by ring
  have hand : (x &&& (x - 1)) / 2 ^ j = a := by
    rw [Nat.and_div_two_pow, hdiv x hpx.le hxp, hdiv (x - 1) (by omega) (by omega), Nat.and_self]
  calc 2 ^ j * a = 2 ^ j * ((x &&& (x - 1)) / 2 ^ j) := by rw [hand]
    _ ≤ x &&& (x - 1) := Nat.mul_div_le _ _

theorem dvd_and (ha : 2 ^ j ∣ a) : 2 ^ j ∣ a &&& b := by
  apply Nat.dvd_of_mod_eq_zero
  rw [Nat.and_mod_two_pow, Nat.mod_eq_zero_of_dvd ha, Nat.zero_and]

section Tiling

variable {F F' : ℕ → ℕ → Prop}

/-- The family of blocks covers the unit `x`; `F p j` says that it has the block of order `j` at
`p`. -/
def Covered (F : ℕ → ℕ → Prop) (x : ℕ) : Prop := ∃ p j, F p j ∧ p ≤ x ∧ x < p + 2 ^ j

/-- A family of disjoint blocks. -/
structure Tiling (F : ℕ → ℕ → Prop) : Prop where
  aligned : ∀ p j, F p j → 2 ^ j ∣ p
  disjoint : ∀ p i q j x, F p i → F q j → p ≤ x → x < p + 2 ^ i → q ≤ x → x < q + 2 ^ j →
    p = q ∧ i = j

theorem covered_head (h : F p j) : Covered F p :=
  ⟨p, j, h, le_rfl, by have := Nat.two_pow_pos j; omega⟩

/-- Only one block starts at a place. -/
theorem Tiling.order_unique (h : Tiling F) (hi : F p i) (hj : F p j) : i = j := by
  have := Nat.two_pow_pos i
  have := Nat.two_pow_pos j
  exact (h.disjoint p i p j p hi hj le_rfl (by omega) le_rfl (by omega)).2

/-- A block is put in where nothing was covered. -/
theorem Tiling.insert (h : Tiling F) (hq : 2 ^ j ∣ q)
    (hfree : ∀ x, q ≤ x → x < q + 2 ^ j → ¬ Covered F x)
    (hF' : ∀ p i, F' p i ↔ p = q ∧ i = j ∨ F p i) :
    Tiling F' ∧ ∀ x, Covered F' x ↔ Covered F x ∨ q ≤ x ∧ x < q + 2 ^ j := by
  refine ⟨⟨?_, ?_⟩, ?_⟩
  · intro p i hp
    rcases (hF' p i).1 hp with ⟨rfl, rfl⟩ | hp
    · exact hq
    · exact h.aligned p i hp
  · intro p i p' i' x hp hp' h₁ h₂ h₃ h₄
    rcases (hF' p i).1 hp with ⟨rfl, rfl⟩ | hp <;> rcases (hF' p' i').1 hp' with ⟨rfl, rfl⟩ | hp'
    · exact ⟨rfl, rfl⟩
    · exact absurd ⟨p', i', hp', h₃, h₄⟩ (hfree x h₁ h₂)
    · exact absurd ⟨p, i, hp, h₁, h₂⟩ (hfree x h₃ h₄)
    · exact h.disjoint p i p' i' x hp hp' h₁ h₂ h₃ h₄
  · intro x
    constructor
    · rintro ⟨p, i, hp, hpx, hxp⟩
      rcases (hF' p i).1 hp with ⟨rfl, rfl⟩ | hp
      · exact .inr ⟨hpx, hxp⟩
      · exact .inl ⟨p, i, hp, hpx, hxp⟩
    · rintro (⟨p, i, hp, hpx, hxp⟩ | hx)
      · exact ⟨p, i, (hF' p i).2 (.inr hp), hpx, hxp⟩
      · exact ⟨q, j, (hF' q j).2 (.inl ⟨rfl, rfl⟩), hx⟩

/-- The block at `q` is taken out. -/
theorem Tiling.erase (h : Tiling F) (hq : F q j) (hF' : ∀ p i, F' p i ↔ p ≠ q ∧ F p i) :
    Tiling F' ∧ ∀ x, Covered F' x ↔ Covered F x ∧ ¬ (q ≤ x ∧ x < q + 2 ^ j) := by
  refine ⟨⟨?_, ?_⟩, ?_⟩
  · intro p i hp
    exact h.aligned p i ((hF' p i).1 hp).2
  · intro p i p' i' x hp hp'
    exact h.disjoint p i p' i' x ((hF' p i).1 hp).2 ((hF' p' i').1 hp').2
  · intro x
    constructor
    · rintro ⟨p, i, hp, hpx, hxp⟩
      obtain ⟨hpq, hp⟩ := (hF' p i).1 hp
      refine ⟨⟨p, i, hp, hpx, hxp⟩, fun hx => hpq ?_⟩
      exact (h.disjoint p i q j x hp hq hpx hxp hx.1 hx.2).1
    · rintro ⟨⟨p, i, hp, hpx, hxp⟩, hx⟩
      refine ⟨p, i, (hF' p i).2 ⟨?_, hp⟩, hpx, hxp⟩
      rintro rfl
      obtain rfl := h.order_unique hp hq
      exact hx ⟨hpx, hxp⟩

/-- No two blocks of an order below `top` that belong together are buddies. -/
def NoBuddies (S : ℕ → ℕ → Prop) (top : ℕ) (F : ℕ → ℕ → Prop) : Prop :=
  ∀ p j, j < top → S p (p ^^^ 2 ^ j) → F p j → ¬ F (p ^^^ 2 ^ j) j

variable {S : ℕ → ℕ → Prop}

/-- Blocks without a buddy are put in. -/
theorem NoBuddies.mono (hn : NoBuddies S top F) (hsymm : ∀ p q, S p q → S q p)
    (hF' : ∀ p i, i < top → S p (p ^^^ 2 ^ i) → F' p i → F p i ∨ ¬ F' (p ^^^ 2 ^ i) i) :
    NoBuddies S top F' := by
  intro p j hj hS hp hb
  have hS' : S (p ^^^ 2 ^ j) ((p ^^^ 2 ^ j) ^^^ 2 ^ j) := by
    rw [xor_xor_two_pow]
    exact hsymm _ _ hS
  have hp' : F p j := (hF' p j hj hS hp).resolve_right (fun h => h hb)
  have hb' : F (p ^^^ 2 ^ j) j := (hF' _ j hj hS' hb).resolve_right (fun h => by
    rw [xor_xor_two_pow] at h
    exact h hp)
  exact hn p j hj hS hp' hb'

/-- Without buddies, each block that is covered lies in a block of the family. -/
theorem NoBuddies.maximal (lo hi : ℕ) (hn : NoBuddies S top F) (h : Tiling F)
    (hS : ∀ p q, lo ≤ p → p < hi → lo ≤ q → q < hi → S p q) :
    ∀ m q, m ≤ top → 2 ^ m ∣ q → lo ≤ q → q + 2 ^ m ≤ hi →
      (∀ x, q ≤ x → x < q + 2 ^ m → Covered F x) →
      ∃ p j, F p j ∧ p ≤ q ∧ q + 2 ^ m ≤ p + 2 ^ j := by
  intro m
  induction m with
  | zero =>
    intro q _ _ _ _ hcov
    obtain ⟨p, j, hp, hpq, hqp⟩ := hcov q le_rfl (by simp)
    exact ⟨p, j, hp, hpq, by simp only [pow_zero]; omega⟩
  | succ m ih =>
    intro q htop hq hlo hhi hcov
    have hdvd : (2 : ℕ) ^ m ∣ 2 ^ (m + 1) := pow_dvd_pow 2 (by omega)
    have hqm : 2 ^ m ∣ q := hdvd.trans hq
    -- Each half lies in a block. A block larger than the half has the whole.
    have hhalf : ∀ r, 2 ^ m ∣ r → q ≤ r → r + 2 ^ m ≤ q + 2 ^ (m + 1) →
        F r m ∨ ∃ p j, F p j ∧ p ≤ q ∧ q + 2 ^ (m + 1) ≤ p + 2 ^ j := by
      intro r hr hqr hrq
      obtain ⟨p, j, hp, hpr, hrp⟩ := ih r (by omega) hr (by omega) (by omega)
        (fun x hx hx' => hcov x (by omega) (by omega))
      rcases Nat.lt_or_ge m j with hmj | hmj
      · exact .inr ⟨p, j, hp, nested hq (h.aligned p j hp) hmj hqr (by omega) hpr (by omega)⟩
      · have hjm : 2 ^ j ≤ 2 ^ m := Nat.pow_le_pow_right (by omega) hmj
        have hpr' : p = r := by omega
        have hjm' : m = j := Nat.pow_right_injective (le_refl 2) (by simp only; omega)
        subst hpr' hjm'
        exact .inl hp
    have hbuddy : q ^^^ 2 ^ m = q + 2 ^ m := xor_two_pow_of_dvd hq
    rcases hhalf q hqm le_rfl (by omega) with h₁ | h₁
    · rcases hhalf (q + 2 ^ m) (Nat.dvd_add hqm dvd_rfl) (by omega) (by omega) with h₂ | h₂
      · rw [← hbuddy] at h₂
        refine absurd h₂ (hn q m (by omega) (hS _ _ hlo (by omega) ?_ ?_) h₁)
        all_goals
          rw [hbuddy]
          omega
      · exact h₂
    · exact h₁

end Tiling

end BuddyBlocks
