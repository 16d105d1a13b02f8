import Mathlib.Data.List.Basic

/-!
# Reading and writing runs of cells

Memory as a function from addresses to values, and the strings that are read from it and written to it.
-/

namespace Cells

variable {α : Type*} {f g : ℕ → α} {a b m n i : ℕ} {l : List α}

/-- The values of `n` cells from `a` on. -/
def read (f : ℕ → α) (a : ℕ) : ℕ → List α
  | 0 => []
  | n + 1 => f a :: read f (a + 1) n

/-- The memory with the values `l` in the cells from `a` on. -/
def write (f : ℕ → α) (a : ℕ) (l : List α) : ℕ → α :=
  fun i => if a ≤ i then (l[i - a]?).getD (f i) else f i

@[simp] theorem read_zero (f : ℕ → α) (a : ℕ) : read f a 0 = [] := rfl

theorem read_one (f : ℕ → α) (a : ℕ) : read f a 1 = [f a] := rfl

@[simp] theorem length_read (f : ℕ → α) (a n : ℕ) : (read f a n).length = n := by
  induction n generalizing a with
  | zero => rfl
  | succ n ih => rw [read, List.length_cons, ih]

/-- A run of cells is read in two parts. -/
theorem read_add (f : ℕ → α) (a m n : ℕ) : read f a (m + n) = read f a m ++ read f (a + m) n := by
  induction m generalizing a with
  | zero => simp
  | succ m ih =>
    rw [Nat.succ_add, read, ih, read, List.cons_append, Nat.add_right_comm, Nat.add_assoc a m 1]

theorem read_eq_map (f : ℕ → α) (a n : ℕ) : read f a n = (List.range n).map fun i => f (a + i) := by
  induction n generalizing a with
  | zero => rfl
  | succ n ih =>
    rw [read, ih, List.range_succ_eq_map, List.map_cons, List.map_map, Nat.add_zero]
    refine congrArg (f a :: ·) (List.map_congr_left fun i _ => ?_)
    simp only [Function.comp_apply, Nat.succ_eq_add_one]
    rw [Nat.add_assoc, Nat.add_comm 1 i]

theorem read_congr (h : ∀ i, a ≤ i → i < a + n → f i = g i) : read f a n = read g a n := by
  induction n generalizing a with
  | zero => rfl
  | succ n ih => rw [read, read, h a (Nat.le_refl a) (by omega), ih fun i hl hr => h i (by omega) (by omega)]

theorem write_of_lt (hi : i < a) : write f a l i = f i := if_neg (by omega)

theorem write_of_le (hi : a + l.length ≤ i) : write f a l i = f i := by
  rw [write, if_pos (by omega), List.getElem?_eq_none (by omega), Option.getD_none]

@[simp] theorem write_nil (f : ℕ → α) (a : ℕ) : write f a [] = f :=
  funext fun _ => (ite_eq_right_iff.2 fun _ => rfl)

/-- Writing changes nothing before the cells that are written. -/
theorem read_write_below (h : b + n ≤ a) : read (write f a l) b n = read f b n :=
  read_congr fun _ _ hr => write_of_lt (by omega)

/-- Writing changes nothing after the cells that are written. -/
theorem read_write_above (h : a + l.length ≤ b) : read (write f a l) b n = read f b n :=
  read_congr fun _ hl _ => write_of_le (by omega)

/-- What is written is read back. -/
theorem read_write (f : ℕ → α) (a : ℕ) (l : List α) : read (write f a l) a l.length = l := by
  induction l generalizing a with
  | nil => rfl
  | cons x l ih =>
    have hrest : read (write f a (x :: l)) (a + 1) l.length = read (write f (a + 1) l) (a + 1) l.length := by
      refine read_congr fun i hl _ => ?_
      rw [write, write, if_pos (by omega), if_pos hl, show i - a = (i - (a + 1)) + 1 by omega,
        List.getElem?_cons_succ]
    rw [List.length_cons, read, hrest, ih, write, if_pos (Nat.le_refl a), Nat.sub_self, List.getElem?_cons_zero,
      Option.getD_some]

/-- Writing at the end of a run of cells appends to it. -/
theorem read_write_append (h : b ≤ a) (hn : n = (a - b) + l.length) :
    read (write f a l) b n = read f b (a - b) ++ l := by
  rw [hn, read_add, read_write_below (by omega), Nat.add_sub_cancel' h, read_write]

/-- A part of what is written is read back. -/
theorem read_write_middle (f : ℕ → α) (a : ℕ) (l m r : List α) :
    read (write f a (l ++ (m ++ r))) (a + l.length) m.length = m := by
  have h := read_write f a (l ++ (m ++ r))
  rw [List.length_append, List.length_append, read_add, read_add] at h
  obtain ⟨-, h⟩ := List.append_inj h (length_read ..)
  exact (List.append_inj h (length_read ..)).1

theorem drop_read (f : ℕ → α) (a m n : ℕ) : (read f a (m + n)).drop m = read f (a + m) n := by
  rw [read_add, List.drop_append_of_le_length (by simp), List.drop_of_length_le (by simp), List.nil_append]

theorem write_of_ge (ha : a ≤ i) : write f a l i = (l[i - a]?).getD (f i) := if_pos ha

/-- Writing a string in two parts. -/
theorem write_append (f : ℕ → α) (a : ℕ) (l r : List α) :
    write f a (l ++ r) = write (write f a l) (a + l.length) r := by
  funext i
  by_cases ha : a ≤ i
  · by_cases hi : a + l.length ≤ i
    · rw [write_of_ge ha, write_of_ge hi, write_of_le hi, List.getElem?_append_right (by omega), Nat.sub_add_eq]
    · have hlt : i < a + l.length := Nat.lt_of_not_le hi
      rw [write_of_ge ha, write_of_lt hlt, write_of_ge ha, List.getElem?_append_left (by omega)]
  · have hlt : i < a := Nat.lt_of_not_le ha
    rw [write_of_lt hlt, write_of_lt (Nat.lt_add_right l.length hlt), write_of_lt hlt]

/-- Copying cells. -/
theorem write_read_add {k : ℕ} (hk : k < n) : write f a (read g b n) (a + k) = g (b + k) := by
  rw [write_of_ge (Nat.le_add_right a k), Nat.add_sub_cancel_left, read_eq_map, List.getElem?_map,
    List.getElem?_range hk, Option.map_some, Option.getD_some]

/-- Writing what is there. -/
theorem write_read (h : ∀ i, a ≤ i → i < a + n → f i = g i) : write g a (read f a n) = g := by
  funext i
  rcases Nat.lt_or_ge i a with ha | ha
  · exact write_of_lt ha
  · obtain ⟨k, rfl⟩ := Nat.exists_eq_add_of_le ha
    by_cases hk : k < n
    · rw [write_read_add hk, h (a + k) ha (by omega)]
    · exact write_of_le (by rw [length_read]; omega)

theorem length_flatMap_range {k : ℕ} {s : ℕ → List α} (hs : ∀ i, (s i).length = k) :
    ((List.range n).flatMap s).length = n * k := by
  induction n with
  | zero => simp
  | succ n ih =>
    rw [List.range_succ, List.flatMap_append, List.length_append, ih, List.flatMap_singleton, hs, Nat.succ_mul]

/-- One of several strings of the same length that are written one after the other is read back. -/
theorem read_write_flatMap {k : ℕ} (f : ℕ → α) (a : ℕ) (s : ℕ → List α) (hs : ∀ i, (s i).length = k) (hi : i < n) :
    read (write f a ((List.range n).flatMap s)) (a + i * k) k = s i := by
  obtain ⟨m, rfl⟩ : ∃ m, n = i + 1 + m := ⟨n - (i + 1), by omega⟩
  rw [List.range_add, List.range_succ, List.append_assoc, List.flatMap_append, List.flatMap_append,
    List.flatMap_singleton]
  have h := read_write_middle f a ((List.range i).flatMap s) (s i) (((List.range m).map (i + 1 + ·)).flatMap s)
  rwa [length_flatMap_range hs, hs] at h

end Cells
