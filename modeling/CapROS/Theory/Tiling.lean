import Mathlib.Algebra.Order.Ring.Nat
import Mathlib.Data.List.Basic

/-!
# Lists of pieces that tile an interval

Each piece has a start and a size. The pieces of a list tile the interval from `a` to `b` if the first
starts at `a`, each of the others starts where the one before it ends, and the last ends at `b`.

* `tiles_append`, `tiles_split`: the pieces before and after a place.
* `Tiles.bounds`, `Tiles.apart`, `Tiles.start_injective`: the pieces are within the interval and apart.
-/

namespace Tiling

variable {α : Type*} {start size : α → ℕ} {a b x : ℕ} {l r : List α} {e f : α}

/-- The pieces lie one after the other from `a` to `b`, and none is empty. -/
def Tiles (start size : α → ℕ) : ℕ → List α → ℕ → Prop
  | a, [], b => a = b
  | a, e :: l, b => start e = a ∧ 0 < size e ∧ Tiles start size (a + size e) l b

theorem tiles_append :
    Tiles start size a (l ++ r) b ↔ ∃ m, Tiles start size a l m ∧ Tiles start size m r b := by
  induction l generalizing a with
  | nil => exact ⟨fun h => ⟨a, rfl, h⟩, fun ⟨m, hm, h⟩ => by rw [show a = m from hm]; exact h⟩
  | cons e l ih =>
    constructor
    · rintro ⟨hs, hp, ht⟩
      obtain ⟨m, hl, hr⟩ := ih.1 ht
      exact ⟨m, ⟨hs, hp, hl⟩, hr⟩
    · rintro ⟨m, ⟨hs, hp, hl⟩, hr⟩
      exact ⟨hs, hp, ih.2 ⟨m, hl, hr⟩⟩

/-- The pieces before and after one of them. -/
theorem tiles_split : Tiles start size a (l ++ e :: r) b ↔
    Tiles start size a l (start e) ∧ 0 < size e ∧ Tiles start size (start e + size e) r b := by
  rw [tiles_append]
  constructor
  · rintro ⟨m, hl, rfl, hp, hr⟩
    exact ⟨hl, hp, hr⟩
  · rintro ⟨hl, hp, hr⟩
    exact ⟨_, hl, rfl, hp, hr⟩

section Tiles

variable (h : Tiles start size a l b)
include h

theorem Tiles.le : a ≤ b := by
  induction l generalizing a with
  | nil => exact le_of_eq h
  | cons e l ih =>
    have := ih h.2.2
    omega

theorem Tiles.bounds (he : e ∈ l) :
    a ≤ start e ∧ 0 < size e ∧ start e + size e ≤ b := by
  obtain ⟨l, r, rfl⟩ := List.append_of_mem he
  obtain ⟨hl, hp, hr⟩ := tiles_split.1 h
  exact ⟨hl.le, hp, hr.le⟩

/-- The pieces are in the order of their starts. -/
theorem Tiles.pairwise :
    l.Pairwise fun e f => start e + size e ≤ start f := by
  induction l generalizing a with
  | nil => exact List.Pairwise.nil
  | cons e l ih =>
    obtain ⟨rfl, -, ht⟩ := h
    exact List.pairwise_cons.2 ⟨fun f hf => (ht.bounds hf).1, ih ht⟩

/-- Two pieces do not meet. -/
theorem Tiles.apart (he : e ∈ l) (hf : f ∈ l) (hne : e ≠ f) :
    start e + size e ≤ start f ∨ start f + size f ≤ start e := by
  obtain ⟨l, r, rfl⟩ := List.append_of_mem he
  obtain ⟨hl, -, hr⟩ := tiles_split.1 h
  obtain hf | hf := List.mem_append.1 hf
  · exact .inr (hl.bounds hf).2.2
  · obtain rfl | hf := List.mem_cons.1 hf
    · exact absurd rfl hne
    · exact .inl (hr.bounds hf).1

theorem Tiles.start_injective (he : e ∈ l) (hf : f ∈ l)
    (hs : start e = start f) : e = f := by
  by_contra hne
  have he' := (h.bounds he).2.1
  have hf' := (h.bounds hf).2.1
  have := h.apart he hf hne
  omega

end Tiles

end Tiling
