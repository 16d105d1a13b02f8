import CapROS.Theory.Cells
import Mathlib.Data.List.Nodup
import Mathlib.Logic.Equiv.Basic
import Mathlib.Order.Lattice
import Mathlib.Order.Nat

/-!
# Shellsort

Shellsort of the first cells of a memory, in place, with the steps `1, 4, 13, 40, ..`.
-/

namespace ShellSort

open Cells
open Function (update update_self update_apply update_of_ne update_eq_self)

variable {α : Type*} {gt : α → α → Bool} {a : ℕ → α} {v : α} {h i j k n p N fuel : ℕ}

/-- While the value `h` cells before the cell `j` is greater than `v`, it is moved to `j`, and `j` goes back.
Then `v` is put there. -/
def sink (gt : α → α → Bool) (h : ℕ) (v : α) : ℕ → (ℕ → α) → ℕ → ℕ → α
  | 0, a, j => update a j v
  | fuel + 1, a, j =>
    if h ≤ j ∧ gt (a (j - h)) v = true then sink gt h v fuel (update a j (a (j - h))) (j - h)
    else update a j v

/-- The values of `n` cells from `i` on are sunk. -/
def pass (gt : α → α → Bool) (h : ℕ) : ℕ → ℕ → (ℕ → α) → ℕ → α
  | 0, _, a => a
  | n + 1, i, a => pass gt h n (i + 1) (sink gt h (a i) i a i)

/-- The first step: the steps grow until they are more than a ninth of the length. -/
def firstStep (N : ℕ) : ℕ → ℕ → ℕ
  | 0, h => h
  | fuel + 1, h => if h ≤ N / 9 then firstStep N fuel (3 * h + 1) else h

/-- The passes with the steps `h`, `h / 3`, and so on. -/
def passes (gt : α → α → Bool) (N : ℕ) : ℕ → ℕ → (ℕ → α) → ℕ → α
  | 0, _, a => a
  | fuel + 1, h, a => if h = 0 then a else passes gt N fuel (h / 3) (pass gt h (N - h) h a)

/-- Shellsort of the first `N` cells. -/
def shellSort (gt : α → α → Bool) (N : ℕ) (a : ℕ → α) : ℕ → α :=
  passes gt N (firstStep N N 1) (firstStep N N 1) a

/-! ## The cells are permuted -/

/-- Exchanging two cells permutes the values. -/
theorem read_swap (f : ℕ → α) (hi : i < N) (hj : j < N) :
    (read (f ∘ Equiv.swap i j) 0 N).Perm (read f 0 N) := by
  have hperm : ((List.range N).map (Equiv.swap i j)).Perm (List.range N) := by
    refine (List.perm_ext_iff_of_nodup (List.Nodup.map (Equiv.swap i j).injective List.nodup_range) List.nodup_range).2
      fun p => ?_
    simp only [List.mem_map, List.mem_range]
    constructor
    · rintro ⟨q, hq, rfl⟩
      rw [Equiv.swap_apply_def]
      split_ifs <;> assumption
    · intro hp
      refine ⟨Equiv.swap i j p, ?_, Equiv.swap_apply_self i j p⟩
      rw [Equiv.swap_apply_def]
      split_ifs <;> assumption
  rw [read_eq_map, read_eq_map]
  simp only [Nat.zero_add]
  rw [show (fun i_1 => (f ∘ Equiv.swap i j) i_1) = f ∘ Equiv.swap i j from rfl, ← List.map_map]
  exact hperm.map f

/-- The value that is held out and those that are moved are permuted. -/
theorem sink_perm (hh : 0 < h) (hj : j < N) :
    (read (sink gt h v fuel a j) 0 N).Perm (read (update a j v) 0 N) := by
  induction fuel generalizing a j with
  | zero => exact List.Perm.refl _
  | succ fuel ih =>
    rw [sink]
    split_ifs with hgt
    · refine (ih (by omega)).trans ?_
      have hswap : update (update a j (a (j - h))) (j - h) v =
          update a j v ∘ Equiv.swap j (j - h) := by
        funext p
        have hne : j - h ≠ j := by omega
        simp only [Function.comp_apply, Equiv.swap_apply_def, update_apply]
        by_cases hpj : p = j
        · subst hpj
          simp [hne, hne.symm]
        · by_cases hph : p = j - h
          · subst hph
            simp [hne]
          · simp [hpj, hph]
      rw [hswap]
      exact read_swap _ hj (by omega)
    · exact List.Perm.refl _

theorem sink_of_lt (hp : j < p) : sink gt h v fuel a j p = a p := by
  induction fuel generalizing a j with
  | zero => exact update_of_ne (by omega) _ _
  | succ fuel ih =>
    rw [sink]
    split_ifs with hgt
    · rw [ih (by omega), update_of_ne (by omega)]
    · exact update_of_ne (by omega) _ _

theorem pass_perm (hh : 0 < h) (hN : i + n ≤ N) : (read (pass gt h n i a) 0 N).Perm (read a 0 N) := by
  induction n generalizing a i with
  | zero => exact List.Perm.refl _
  | succ n ih =>
    have hsink := @sink_perm _ gt a (a i) h i N i hh (by omega)
    rw [update_eq_self] at hsink
    exact (ih (by omega)).trans hsink

theorem pass_of_le (hN : i + n ≤ N) (hp : N ≤ p) : pass gt h n i a p = a p := by
  induction n generalizing a i with
  | zero => rfl
  | succ n ih => rw [pass, ih (by omega), sink_of_lt (by omega)]

theorem passes_perm : (read (passes gt N fuel h a) 0 N).Perm (read a 0 N) := by
  induction fuel generalizing a h with
  | zero => exact List.Perm.refl _
  | succ fuel ih =>
    rw [passes]
    split_ifs with h0
    · exact List.Perm.refl _
    · by_cases hle : h ≤ N
      · exact ih.trans (pass_perm (by omega) (by omega))
      · rw [Nat.sub_eq_zero_of_le (by omega)]
        exact ih

theorem passes_of_le (hp : N ≤ p) : passes gt N fuel h a p = a p := by
  induction fuel generalizing a h with
  | zero => rfl
  | succ fuel ih =>
    rw [passes]
    split_ifs with h0
    · rfl
    · by_cases hle : h ≤ N
      · rw [ih, pass_of_le (by omega) hp]
      · rw [Nat.sub_eq_zero_of_le (by omega), ih, pass]

/-- Shellsort permutes the first cells. -/
theorem shellSort_perm : (read (shellSort gt N a) 0 N).Perm (read a 0 N) := passes_perm

/-- Shellsort changes no other cells. -/
theorem shellSort_of_le (hp : N ≤ p) : shellSort gt N a p = a p := passes_of_le hp

/-! ## The cells are sorted -/

section Sorted

variable {κ : Type*} [LinearOrder κ] {key : α → κ}

/-- The first `n` cells are in order. -/
def Sorted (key : α → κ) (a : ℕ → α) (n : ℕ) : Prop := ∀ p q, p < q → q < n → key (a p) ≤ key (a q)

/-- With the step `1`, a value sinks to its place in the cells that are in order. -/
theorem sink_sorted (hgt : ∀ x y, gt x y = true ↔ key y < key x) (hfuel : j ≤ fuel)
    (hsorted : ∀ p q, p < q → q ≤ i → p ≠ j → q ≠ j → key (a p) ≤ key (a q))
    (hlt : ∀ q, j < q → q ≤ i → key v ≤ key (a q)) (hj : j ≤ i) :
    Sorted key (sink gt 1 v fuel a j) (i + 1) := by
  -- The loop ends where the value before is not greater.
  have hend : ∀ {a : ℕ → α} {j : ℕ}, j ≤ i →
      (∀ p q, p < q → q ≤ i → p ≠ j → q ≠ j → key (a p) ≤ key (a q)) →
      (∀ q, j < q → q ≤ i → key v ≤ key (a q)) → (∀ p, p < j → key (a p) ≤ key v) →
      Sorted key (update a j v) (i + 1) := by
    intro a j hj hsorted hlt hle p q hpq hq
    by_cases hpj : p = j
    · subst hpj
      rw [update_self, update_of_ne (by omega)]
      exact hlt q hpq (by omega)
    · rw [update_of_ne hpj]
      by_cases hqj : q = j
      · subst hqj
        rw [update_self]
        exact hle p hpq
      · rw [update_of_ne hqj]
        exact hsorted p q hpq (by omega) hpj hqj
  induction fuel generalizing a j with
  | zero =>
    obtain rfl : j = 0 := by omega
    exact hend hj hsorted hlt fun p hp => absurd hp (Nat.not_lt_zero p)
  | succ fuel ih =>
    rw [sink]
    split_ifs with hstep
    · obtain ⟨hpos, hgreater⟩ := hstep
      have hv := ((hgt _ _).1 hgreater).le
      refine ih (by omega) (fun p q hpq hq hp hq' => ?_) (fun q hjq hq => ?_) (by omega)
      · by_cases hpj : p = j
        · subst hpj
          rw [update_self, update_of_ne (by omega)]
          exact hsorted (p - 1) q (by omega) hq (by omega) (by omega)
        · rw [update_of_ne hpj]
          by_cases hqj : q = j
          · subst hqj
            rw [update_self]
            exact hsorted p (q - 1) (by omega) (by omega) hpj (by omega)
          · rw [update_of_ne hqj]
            exact hsorted p q hpq hq hpj hqj
      · by_cases hqj : q = j
        · subst hqj
          rw [update_self]
          exact hv
        · rw [update_of_ne hqj]
          exact hlt q (by omega) hq
    · refine hend hj hsorted hlt fun p hp => ?_
      have hle : key (a (j - 1)) ≤ key v := by
        refine le_of_not_gt fun hgreater => hstep ⟨by omega, (hgt _ _).2 hgreater⟩
      by_cases hpj : p = j - 1
      · rw [hpj]
        exact hle
      · exact (hsorted p (j - 1) (by omega) (by omega) (by omega) (by omega)).trans hle

theorem pass_sorted (hgt : ∀ x y, gt x y = true ↔ key y < key x) (hsorted : Sorted key a i) :
    Sorted key (pass gt 1 n i a) (i + n) := by
  induction n generalizing a i with
  | zero => exact hsorted
  | succ n ih =>
    rw [pass, show i + (n + 1) = i + 1 + n by omega]
    refine ih (sink_sorted hgt le_rfl (fun p q hpq hq _ hqi => ?_) (fun q hiq hq => ?_) le_rfl)
    · exact hsorted p q hpq (by omega)
    · omega

/-- The steps of the passes. -/
inductive Step : ℕ → Prop where
  | one : Step 1
  | next {h : ℕ} : Step h → Step (3 * h + 1)

theorem step_firstStep (hh : Step h) : Step (firstStep N fuel h) := by
  induction fuel generalizing h with
  | zero => exact hh
  | succ fuel ih =>
    rw [firstStep]
    split_ifs
    · exact ih hh.next
    · exact hh

/-- The last pass is one with the step `1`. -/
theorem passes_sorted (hgt : ∀ x y, gt x y = true ↔ key y < key x) (hh : Step h) (hfuel : h ≤ fuel) :
    Sorted key (passes gt N fuel h a) N := by
  induction hh generalizing a fuel with
  | one =>
    obtain ⟨fuel, rfl⟩ := Nat.exists_eq_add_of_le' hfuel
    rw [passes, if_neg Nat.one_ne_zero]
    have hzero : ∀ {fuel a}, passes gt N fuel (1 / 3) a = a := by
      intro fuel a
      cases fuel with
      | zero => rfl
      | succ fuel => exact if_pos rfl
    rw [hzero]
    by_cases hN : 1 ≤ N
    · have hsorted := @pass_sorted _ gt a 1 (N - 1) _ _ key hgt (by intro p q hpq hq; omega)
      rwa [Nat.add_sub_cancel' hN] at hsorted
    · intro p q hpq hq
      omega
  | @next h hh ih =>
    obtain ⟨fuel, rfl⟩ := Nat.exists_eq_add_of_le' (show 1 ≤ fuel by omega)
    rw [passes, if_neg (by omega), show (3 * h + 1) / 3 = h by omega]
    exact ih (by omega)

/-- Shellsort sorts the first cells. -/
theorem shellSort_sorted (hgt : ∀ x y, gt x y = true ↔ key y < key x) :
    Sorted key (shellSort gt N a) N :=
  passes_sorted hgt (step_firstStep .one) le_rfl

end Sorted

end ShellSort
