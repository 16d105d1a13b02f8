import Mathlib.Data.Finset.Card
import Mathlib.Data.Fintype.Basic

/-!
# Counting over a finite family

The number of members of a finite family whose value satisfies a predicate, and how it changes when the
value of one member is replaced.

* `census_eq_zero`: when there is no such member.
-/

namespace Census

variable {ι α : Type*} [Fintype ι] {p : α → Bool} {f : ι → α} {i : ι} {v : α}

/-- The number of members whose value satisfies `p`. -/
def census (p : α → Bool) (f : ι → α) : ℕ := (Finset.univ.filter fun i => p (f i) = true).card

/-- The number depends on which members satisfy the predicate, and on nothing else. -/
theorem census_congr {β : Type*} {q : β → Bool} {g : ι → β} (h : ∀ i, p (f i) = q (g i)) :
    census p f = census q g := by
  unfold census
  simp only [h]

section Update

variable [DecidableEq ι]

/-- The members that satisfy `p`, when one value is replaced. -/
theorem filter_update (p : α → Bool) (f : ι → α) (i : ι) (v : α) :
    (Finset.univ.filter fun j => p (Function.update f i v j) = true) =
      if p v = true then insert i ((Finset.univ.filter fun j => p (f j) = true).erase i)
      else (Finset.univ.filter fun j => p (f j) = true).erase i := by
  ext j
  by_cases hj : j = i
  · subst hj
    by_cases hv : p v = true <;> simp [hv]
  · by_cases hv : p v = true <;> simp [hv, hj]

/-- When a value is replaced, the old one no longer counts, and the new one does. -/
theorem census_update (p : α → Bool) (f : ι → α) (i : ι) (v : α) :
    census p (Function.update f i v) + (p (f i)).toNat = census p f + (p v).toNat := by
  have herase : ((Finset.univ.filter fun j => p (f j) = true).erase i).card + (p (f i)).toNat =
      census p f := by
    by_cases hi : p (f i) = true
    · have hmem : i ∈ Finset.univ.filter fun j => p (f j) = true :=
        Finset.mem_filter.2 ⟨Finset.mem_univ i, hi⟩
      rw [hi, Bool.toNat_true]
      exact Finset.card_erase_add_one hmem
    · have hmem : i ∉ Finset.univ.filter fun j => p (f j) = true := by simp [hi]
      rw [Finset.erase_eq_of_notMem hmem, Bool.eq_false_of_not_eq_true hi, Bool.toNat_false, Nat.add_zero]
      rfl
  unfold census at herase ⊢
  rw [filter_update]
  by_cases hv : p v = true
  · rw [if_pos hv, Finset.card_insert_of_notMem (Finset.notMem_erase i _), hv, Bool.toNat_true]
    omega
  · rw [if_neg hv, Bool.eq_false_of_not_eq_true hv, Bool.toNat_false]
    omega

end Update

theorem census_eq_zero (h : ∀ i, p (f i) = false) : census p f = 0 := by
  unfold census
  rw [Finset.card_eq_zero, Finset.filter_eq_empty_iff]
  intro i _
  simp [h i]

end Census
