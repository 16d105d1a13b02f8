import CapROS.Theory.Cells
import Mathlib.Algebra.BigOperators.Group.List.Basic
import Mathlib.Algebra.Order.Monoid.Canonical.Defs
import Mathlib.Algebra.GroupWithZero.Nat

/-!
# Records of different lengths in memory

A list of records that lie one after the other in memory. What it means that a record is at an address is a
parameter; it is about the cells of the record only.
-/

namespace Records

variable {α ε : Type*} {At : (ℕ → α) → ℕ → ε → Prop} {size : ε → ℕ} {mem mem' : ℕ → α} {a : ℕ} {l r es : List ε}
  {e : ε}

/-- The cells that the records take. -/
def total (size : ε → ℕ) (l : List ε) : ℕ := (l.map size).sum

@[simp] theorem total_nil : total size [] = 0 := rfl

@[simp] theorem total_cons : total size (e :: l) = size e + total size l := List.sum_cons

@[simp] theorem total_append : total size (l ++ r) = total size l + total size r := by
  rw [total, List.map_append, List.sum_append]
  rfl

theorem total_flatten {n : ℕ} {pages : List (List ε)} (h : ∀ p ∈ pages, total size p = n) :
    total size pages.flatten = pages.length * n := by
  induction pages with
  | nil => exact (Nat.zero_mul n).symm
  | cons p pages ih =>
    rw [List.flatten_cons, total_append, h p List.mem_cons_self, ih fun q hq => h q (List.mem_cons_of_mem p hq),
      List.length_cons, Nat.succ_mul, Nat.add_comm]

/-- The records lie in memory, one after the other from `a` on. -/
def Laid (At : (ℕ → α) → ℕ → ε → Prop) (size : ε → ℕ) (mem : ℕ → α) : ℕ → List ε → Prop
  | _, [] => True
  | a, e :: l => At mem a e ∧ Laid At size mem (a + size e) l

theorem laid_append : Laid At size mem a (l ++ r) ↔ Laid At size mem a l ∧ Laid At size mem (a + total size l) r := by
  induction l generalizing a with
  | nil => exact ⟨fun h => ⟨trivial, h⟩, fun h => h.2⟩
  | cons e l ih =>
    rw [List.cons_append, Laid, Laid, ih, total_cons, Nat.add_assoc, and_assoc]

/-- A record is about its own cells. -/
def Local (At : (ℕ → α) → ℕ → ε → Prop) (size : ε → ℕ) : Prop :=
  ∀ ⦃mem mem' : ℕ → α⦄ ⦃a : ℕ⦄ ⦃e : ε⦄, At mem a e → (∀ i, a ≤ i → i < a + size e → mem' i = mem i) → At mem' a e

/-- Writing elsewhere does not touch the records. -/
theorem Laid.frame (hlocal : Local At size) (h : Laid At size mem a l)
    (hsame : ∀ i, a ≤ i → i < a + total size l → mem' i = mem i) : Laid At size mem' a l := by
  induction l generalizing a with
  | nil => trivial
  | cons e l ih =>
    rw [total_cons] at hsame
    refine ⟨hlocal h.1 fun i hl hr => hsame i hl (by omega), ih h.2 fun i hl hr => hsame i (by omega) (by omega)⟩

/-- Records of the same total size are put in the place of one. -/
theorem Laid.replace (hlocal : Local At size) (h : Laid At size mem a (l ++ e :: r))
    (hes : Laid At size mem' (a + total size l) es) (htotal : total size es = size e)
    (hsame : ∀ i, i < a + total size l ∨ a + total size l + size e ≤ i → mem' i = mem i) :
    Laid At size mem' a (l ++ es ++ r) := by
  obtain ⟨hl, he, hr⟩ := laid_append.1 h
  rw [List.append_assoc, laid_append, laid_append, htotal]
  exact ⟨hl.frame hlocal fun i _ hi => hsame i (.inl hi), hes, hr.frame hlocal fun i hi _ => hsame i (.inr hi)⟩

/-- When the memory says what record is at an address, it says what records lie there. -/
theorem Laid.unique {l' : List ε} (hat : ∀ ⦃mem a e e'⦄, At mem a e → At mem a e' → e = e')
    (hpos : ∀ ⦃mem a e⦄, At mem a e → 0 < size e) (h : Laid At size mem a l) (h' : Laid At size mem a l')
    (htotal : total size l = total size l') : l = l' := by
  induction l generalizing a l' with
  | nil =>
    cases l' with
    | nil => rfl
    | cons e' l' =>
      have := hpos h'.1
      rw [total_nil, total_cons] at htotal
      omega
  | cons e l ih =>
    cases l' with
    | nil =>
      have := hpos h.1
      rw [total_nil, total_cons] at htotal
      omega
    | cons e' l' =>
      obtain rfl := hat h.1 h'.1
      rw [total_cons, total_cons] at htotal
      rw [ih h.2 h'.2 (by omega)]

/-- A record in a list of pages is in one of the pages. -/
theorem exists_page {pages : List (List ε)} (h : pages.flatten = l ++ e :: r) :
    ∃ front p q back, pages = front ++ (p ++ e :: q) :: back ∧ l = front.flatten ++ p ∧ r = q ++ back.flatten := by
  induction pages generalizing l with
  | nil => simp at h
  | cons page pages ih =>
    rw [List.flatten_cons] at h
    obtain ⟨as, hpage, hrest⟩ | ⟨as, hpage, hrest⟩ := List.append_eq_append_iff.1 h
    · obtain ⟨front, p, q, back, rfl, rfl, rfl⟩ := ih hrest
      exact ⟨page :: front, p, q, back, rfl, by simp [hpage], rfl⟩
    · cases as with
      | nil =>
        obtain ⟨front, p, q, back, rfl, hl, rfl⟩ := @ih [] (by simpa using hrest.symm)
        obtain ⟨hfront, rfl⟩ := List.append_eq_nil_iff.1 hl.symm
        exact ⟨page :: front, [], q, back, rfl, by simpa [hfront] using hpage.symm, rfl⟩
      | cons e' as =>
        obtain ⟨rfl, rfl⟩ := List.cons.inj hrest
        exact ⟨[], l, as, pages, by rw [hpage]; rfl, rfl, rfl⟩

end Records
