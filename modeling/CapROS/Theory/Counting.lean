import Mathlib.Data.List.Basic

/-!
# Counting over an array

The number of entries of an array that satisfy a predicate, and how it changes when one entry is
replaced. The array is a function on the natural numbers, of which the first `n` values count.
-/

namespace Counting

variable {α : Type}

/-- The number of the first `n` entries of `g` that satisfy `p`. -/
def countBelow (p : α → Bool) (g : ℕ → α) (n : ℕ) : ℕ := (List.range n).countP fun i => p (g i)

theorem countBelow_succ (p : α → Bool) (g : ℕ → α) (n : ℕ) :
    countBelow p g (n + 1) = countBelow p g n + (p (g n)).toNat := by
  unfold countBelow
  rw [List.range_succ, List.countP_append, List.countP_singleton]
  cases p (g n) <;> rfl

/-- An entry beyond the end does not count. -/
theorem countBelow_update_of_le (p : α → Bool) (g : ℕ → α) {n f : ℕ} (v : α) (h : n ≤ f) :
    countBelow p (Function.update g f v) n = countBelow p g n := by
  apply List.countP_congr
  intro i hi
  rw [Function.update_of_ne (by have := List.mem_range.1 hi; omega)]

/-- When an entry is replaced, the old one no longer counts, and the new one does. -/
theorem countBelow_update (p : α → Bool) (g : ℕ → α) {n f : ℕ} (v : α) (h : f < n) :
    countBelow p (Function.update g f v) n + (p (g f)).toNat =
      countBelow p g n + (p v).toNat := by
  induction n with
  | zero => omega
  | succ n ih =>
    rw [countBelow_succ, countBelow_succ]
    rcases Nat.lt_succ_iff_lt_or_eq.1 h with hlt | rfl
    · have hstep := ih hlt
      rw [Function.update_of_ne (by omega)]
      omega
    · rw [countBelow_update_of_le p g v (Nat.le_refl f), Function.update_self]
      omega

theorem countBelow_pos {p : α → Bool} {g : ℕ → α} {n f : ℕ} (h : f < n) (hp : p (g f) = true) :
    0 < countBelow p g n := by
  unfold countBelow
  rw [List.countP_pos_iff]
  exact ⟨f, List.mem_range.2 h, hp⟩

theorem countBelow_eq_zero {p : α → Bool} {g : ℕ → α} {n : ℕ} (h : ∀ i, p (g i) = false) :
    countBelow p g n = 0 := by
  unfold countBelow
  rw [List.countP_eq_zero]
  intro i _
  simp [h i]

end Counting
