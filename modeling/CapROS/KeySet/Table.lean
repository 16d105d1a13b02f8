import CapROS.Theory.ShellSort
import Mathlib.Algebra.Group.Nat.Defs

/-!
# The table of a key set

The table of `base/domain/keyset`: entries with the bits of a key and a data word, of which the first ones are
sorted by `sortTable` and the others follow in any order.

* `compare`: the order of the key bits.
* `sortTable`: the sorting.
* `sortTable_findEntry`: both are correct, for the same order.

An entry has 20 bytes, so that the sum of two indices is less than `2 ^ 32`.
-/

namespace CapROS.KeySet

open Cells ShellSort

/-- The words of a key. -/
structure KeyBits where
  w0 : UInt32
  w1 : UInt32
  w2 : UInt32
  w3 : UInt32
  deriving DecidableEq

/-- `struct table_entry`. -/
structure Entry where
  w : KeyBits
  /-- `w[4]`. -/
  data : UInt32
  deriving DecidableEq

def compare (k1 k2 : KeyBits) : ℤ :=
  if k1.w0 < k2.w0 then -1
  else if k2.w0 < k1.w0 then 1
  else if k1.w1 < k2.w1 then -1
  else if k2.w1 < k1.w1 then 1
  else if k1.w2 < k2.w2 then -1
  else if k2.w2 < k1.w2 then 1
  else if k1.w3 < k2.w3 then -1
  else if k2.w3 < k1.w3 then 1
  else 0

def sortTable (table : ℕ → Entry) (N : ℕ) : ℕ → Entry :=
  shellSort (fun x v => decide (compare x.w v.w > 0)) N table

/-- The loop of `findEntry` over the sorted entries, which are counted from 1 on. -/
def searchSorted (table : ℕ → Entry) (toFind : KeyBits) : ℕ → ℕ → ℕ → Option ℕ
  | 0, _, _ => none
  | fuel + 1, l, u =>
    if l ≤ u then
      let m := (l + u) / 2
      let cmpres := compare toFind (table (m - 1)).w
      if cmpres > 0 then searchSorted table toFind fuel (m + 1) u
      else if cmpres = 0 then some (m - 1)
      else searchSorted table toFind fuel l (m - 1)
    else none

/-- The loop over the other entries, from `i` on. -/
def searchUnsorted (table : ℕ → Entry) (toFind : KeyBits) : ℕ → ℕ → Option ℕ
  | 0, _ => none
  | unsorted + 1, i =>
    if compare (table i).w toFind = 0 then some i else searchUnsorted table toFind unsorted (i + 1)

/-- `findEntry`: the index of the entry. -/
def findEntry (table : ℕ → Entry) (toFind : KeyBits) (sorted unsorted : ℕ) : Option ℕ :=
  match searchSorted table toFind (sorted + 1) 1 sorted with
  | some i => some i
  | none => searchUnsorted table toFind unsorted sorted

/-! ## The order -/

/-- The words of a key as one number. -/
def KeyBits.rank (k : KeyBits) : ℕ :=
  ((k.w0.toNat * 2 ^ 32 + k.w1.toNat) * 2 ^ 32 + k.w2.toNat) * 2 ^ 32 + k.w3.toNat

theorem rank_injective : Function.Injective KeyBits.rank := by
  intro k1 k2 h
  obtain ⟨a0, a1, a2, a3⟩ := k1
  obtain ⟨b0, b1, b2, b3⟩ := k2
  have ha1 := a1.toNat_lt
  have ha2 := a2.toNat_lt
  have ha3 := a3.toNat_lt
  have hb1 := b1.toNat_lt
  have hb2 := b2.toNat_lt
  have hb3 := b3.toNat_lt
  simp only [KeyBits.rank] at h
  obtain rfl : a0 = b0 := UInt32.toNat_inj.1 (by omega)
  obtain rfl : a1 = b1 := UInt32.toNat_inj.1 (by omega)
  obtain rfl : a2 = b2 := UInt32.toNat_inj.1 (by omega)
  obtain rfl : a3 = b3 := UInt32.toNat_inj.1 (by omega)
  rfl

theorem compare_eq (k1 k2 : KeyBits) :
    compare k1 k2 = if k1.rank < k2.rank then -1 else if k2.rank < k1.rank then 1 else 0 := by
  obtain ⟨a0, a1, a2, a3⟩ := k1
  obtain ⟨b0, b1, b2, b3⟩ := k2
  have ha1 := a1.toNat_lt
  have ha2 := a2.toNat_lt
  have ha3 := a3.toNat_lt
  have hb1 := b1.toNat_lt
  have hb2 := b2.toNat_lt
  have hb3 := b3.toNat_lt
  simp only [compare, KeyBits.rank, UInt32.lt_iff_toNat_lt]
  split_ifs <;> omega

theorem compare_pos {k1 k2 : KeyBits} : compare k1 k2 > 0 ↔ k2.rank < k1.rank := by
  rw [compare_eq]
  split_ifs <;> omega

theorem compare_le_zero {k1 k2 : KeyBits} : compare k1 k2 ≤ 0 ↔ k1.rank ≤ k2.rank := by
  rw [← Int.not_lt, ← Nat.not_lt]
  exact not_congr compare_pos

theorem compare_eq_zero {k1 k2 : KeyBits} : compare k1 k2 = 0 ↔ k1 = k2 := by
  rw [compare_eq, ← rank_injective.eq_iff]
  by_cases hlt : k1.rank < k2.rank
  · rw [if_pos hlt]
    omega
  · rw [if_neg hlt]
    by_cases hgt : k2.rank < k1.rank
    · rw [if_pos hgt]
      omega
    · rw [if_neg hgt]
      exact iff_of_true rfl (by omega)

/-! ## Searching and sorting -/

variable {table : ℕ → Entry} {toFind : KeyBits} {fuel l u n sorted unsorted i N : ℕ}

/-- The first `n` entries are sorted. -/
def SortedKeys (table : ℕ → Entry) (n : ℕ) : Prop := Sorted (fun e => e.w.rank) table n

theorem searchSorted_spec (hsorted : SortedKeys table n) (hu : u ≤ n) (hl : 1 ≤ l) (hfuel : u + 1 ≤ l + fuel)
    (hbelow : ∀ i, i + 1 < l → (table i).w.rank < toFind.rank)
    (habove : ∀ i, u < i + 1 → i < n → toFind.rank < (table i).w.rank) :
    match searchSorted table toFind fuel l u with
    | some i => i < n ∧ (table i).w = toFind
    | none => ∀ i < n, (table i).w ≠ toFind := by
  induction fuel generalizing l u with
  | zero =>
    rw [searchSorted]
    intro i hi heq
    by_cases hil : i + 1 < l
    · exact absurd (heq ▸ hbelow i hil) (lt_irrefl _)
    · exact absurd (heq ▸ habove i (by omega) hi) (lt_irrefl _)
  | succ fuel ih =>
    rw [searchSorted]
    by_cases hlu : l ≤ u
    · simp only [if_pos hlu]
      by_cases hgt : compare toFind (table ((l + u) / 2 - 1)).w > 0
      · rw [if_pos hgt]
        have hlt := compare_pos.1 hgt
        refine ih hu (by omega) (by omega) (fun i hi => ?_) habove
        by_cases him : i = (l + u) / 2 - 1
        · rwa [him]
        · exact lt_of_le_of_lt (hsorted i ((l + u) / 2 - 1) (by omega) (by omega)) hlt
      · rw [if_neg hgt]
        by_cases heq : compare toFind (table ((l + u) / 2 - 1)).w = 0
        · rw [if_pos heq]
          exact ⟨by omega, (compare_eq_zero.1 heq).symm⟩
        · rw [if_neg heq]
          have hlt : toFind.rank < (table ((l + u) / 2 - 1)).w.rank := by
            refine lt_of_le_of_ne (le_of_not_gt fun h => hgt (compare_pos.2 h)) fun h => heq ?_
            exact compare_eq_zero.2 (rank_injective h)
          refine ih (by omega) hl (by omega) hbelow fun i hi hin => ?_
          by_cases him : i = (l + u) / 2 - 1
          · rwa [him]
          · exact lt_of_lt_of_le hlt (hsorted ((l + u) / 2 - 1) i (by omega) hin)
    · rw [if_neg hlu]
      intro i hi heq
      by_cases hil : i + 1 < l
      · exact absurd (heq ▸ hbelow i hil) (lt_irrefl _)
      · exact absurd (heq ▸ habove i (by omega) hi) (lt_irrefl _)

theorem searchUnsorted_spec :
    match searchUnsorted table toFind unsorted n with
    | some i => i < n + unsorted ∧ (table i).w = toFind
    | none => ∀ i, n ≤ i → i < n + unsorted → (table i).w ≠ toFind := by
  induction unsorted generalizing n with
  | zero =>
    rw [searchUnsorted]
    intro i hl hr
    omega
  | succ unsorted ih =>
    rw [searchUnsorted]
    by_cases heq : compare (table n).w toFind = 0
    · rw [if_pos heq]
      exact ⟨by omega, compare_eq_zero.1 heq⟩
    · rw [if_neg heq]
      have hih := @ih (n + 1)
      cases hsearch : searchUnsorted table toFind unsorted (n + 1) with
      | some i =>
        rw [hsearch] at hih
        exact ⟨by omega, hih.2⟩
      | none =>
        rw [hsearch] at hih
        intro i hl hr hkey
        by_cases hin : i = n
        · exact heq (compare_eq_zero.2 (hin ▸ hkey))
        · exact hih i (by omega) (by omega) hkey

theorem findEntry_spec (hsorted : SortedKeys table sorted) :
    match findEntry table toFind sorted unsorted with
    | some i => i < sorted + unsorted ∧ (table i).w = toFind
    | none => ∀ i < sorted + unsorted, (table i).w ≠ toFind := by
  have hbisect := @searchSorted_spec table toFind (sorted + 1) 1 sorted sorted hsorted le_rfl le_rfl (by omega)
    (fun i hi => by omega) (fun i hi hi' => by omega)
  have hscan := @searchUnsorted_spec table toFind sorted unsorted
  rw [findEntry]
  cases hs : searchSorted table toFind (sorted + 1) 1 sorted with
  | some i =>
    rw [hs] at hbisect
    exact ⟨by omega, hbisect.2⟩
  | none =>
    rw [hs] at hbisect
    cases hu : searchUnsorted table toFind unsorted sorted with
    | some i =>
      rw [hu] at hscan
      exact hscan
    | none =>
      rw [hu] at hscan
      intro i hi
      by_cases hlt : i < sorted
      · exact hbisect i hlt
      · exact hscan i (by omega) hi

theorem sortTable_perm : (read (sortTable table N) 0 N).Perm (read table 0 N) := shellSort_perm

theorem sortTable_sorted : SortedKeys (sortTable table N) N :=
  shellSort_sorted fun x y => by rw [decide_eq_true_iff, compare_pos]

/-- `sortTable` permutes the entries, sorts them by `compare`, and changes nothing behind them. If the first
entries of a table are sorted by `compare`, then `findEntry` finds an entry with the key, if there is one. -/
theorem sortTable_findEntry (table : ℕ → Entry) (N : ℕ) :
    (read (sortTable table N) 0 N).Perm (read table 0 N) ∧
    (∀ i j, i < j → j < N → compare (sortTable table N i).w (sortTable table N j).w ≤ 0) ∧
    (∀ i, N ≤ i → sortTable table N i = table i) ∧
    ∀ (table : ℕ → Entry) (toFind : KeyBits) (sorted unsorted : ℕ),
      (∀ i j, i < j → j < sorted → compare (table i).w (table j).w ≤ 0) →
      (∀ i, findEntry table toFind sorted unsorted = some i → i < sorted + unsorted ∧ (table i).w = toFind) ∧
      ((∃ i, findEntry table toFind sorted unsorted = some i) ↔ ∃ i < sorted + unsorted, (table i).w = toFind) := by
  refine ⟨sortTable_perm, fun i j hij hj => compare_le_zero.2 (sortTable_sorted i j hij hj),
    fun i hi => shellSort_of_le hi, ?_⟩
  intro table toFind sorted unsorted hsorted
  have hspec := @findEntry_spec table toFind sorted unsorted fun i j hij hj =>
    compare_le_zero.1 (hsorted i j hij hj)
  cases hfind : findEntry table toFind sorted unsorted with
  | some i =>
    rw [hfind] at hspec
    refine ⟨fun j hj => ?_, iff_of_true ⟨i, rfl⟩ ⟨i, hspec⟩⟩
    cases hj
    exact hspec
  | none =>
    rw [hfind] at hspec
    refine ⟨fun j hj => (Option.some_ne_none j hj.symm).elim, ?_⟩
    constructor
    · rintro ⟨i, hi⟩
      exact (Option.some_ne_none i hi.symm).elim
    · rintro ⟨i, hi, hkey⟩
      exact (hspec i hi hkey).elim

/-- A key behind one sorted entry. -/
theorem sortTable_findEntry_unsorted : ∃ i < 2, (if i = 0 then 3 else 1 : UInt32) = 1 ∧
    findEntry (fun i => ⟨⟨if i = 0 then 3 else 1, 0, 0, 0⟩, 0⟩) ⟨1, 0, 0, 0⟩ 1 1 = some i := by
  have hspec := (sortTable_findEntry (fun i => ⟨⟨if i = 0 then 3 else 1, 0, 0, 0⟩, 0⟩) 2).2.2.2
    (fun i => ⟨⟨if i = 0 then 3 else 1, 0, 0, 0⟩, 0⟩) ⟨1, 0, 0, 0⟩ 1 1 fun i j hij hj => by omega
  obtain ⟨i, hi⟩ := hspec.2.2 ⟨1, by decide, by decide⟩
  have hkey := hspec.1 i hi
  exact ⟨i, hkey.1, congrArg KeyBits.w0 hkey.2, hi⟩

end CapROS.KeySet
