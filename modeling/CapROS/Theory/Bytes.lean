import CapROS.Theory.Cells
import Mathlib.Algebra.Group.Nat.Defs
import Mathlib.Order.Nat

/-!
# Numbers in byte memory

Memory as a function from addresses to bytes, and fields in it that hold numbers with the lowest byte first.

* `getField_setField`, `getField_congr`: a field keeps its number when others are written.
-/

namespace Bytes

open Cells

variable {mem mem' : ℕ → UInt8} {a b i m n v : ℕ} {l : List UInt8}

/-- The number with the given bytes, the lowest one first. -/
def ofBytes : List UInt8 → ℕ
  | [] => 0
  | b :: l => b.toNat + 256 * ofBytes l

/-- The `n` lowest bytes of a number. -/
def toBytes : ℕ → ℕ → List UInt8
  | 0, _ => []
  | n + 1, v => UInt8.ofNat v :: toBytes n (v / 256)

@[simp] theorem length_toBytes (n v : ℕ) : (toBytes n v).length = n := by
  induction n generalizing v with
  | zero => rfl
  | succ n ih => rw [toBytes, List.length_cons, ih]

theorem ofBytes_toBytes (n v : ℕ) : ofBytes (toBytes n v) = v % 256 ^ n := by
  induction n generalizing v with
  | zero => exact (Nat.mod_one v).symm
  | succ n ih =>
    have hbyte : (UInt8.ofNat v).toNat = v % 256 := UInt8.toNat_ofNat'
    rw [toBytes, ofBytes, ih, hbyte, Nat.pow_succ', Nat.mod_mul]

theorem ofBytes_lt (l : List UInt8) : ofBytes l < 256 ^ l.length := by
  induction l with
  | nil => exact Nat.one_pos
  | cons b l ih =>
    have hb : b.toNat < 256 := b.toNat_lt
    rw [ofBytes, List.length_cons, Nat.pow_succ']
    omega

theorem ofBytes_replicate_zero (n : ℕ) : ofBytes (List.replicate n 0) = 0 := by
  induction n with
  | zero => rfl
  | succ n ih =>
    rw [List.replicate_succ, ofBytes, ih]
    rfl

/-- The number in the field of `n` bytes at `a`. -/
def getField (mem : ℕ → UInt8) (a n : ℕ) : ℕ := ofBytes (read mem a n)

/-- The memory with another number in the field of `n` bytes at `a`. -/
def setField (mem : ℕ → UInt8) (a n v : ℕ) : ℕ → UInt8 := write mem a (toBytes n v)

theorem getField_lt (mem : ℕ → UInt8) (a n : ℕ) : getField mem a n < 256 ^ n := by
  have h := ofBytes_lt (read mem a n)
  rwa [length_read] at h

theorem getField_congr (h : ∀ i, a ≤ i → i < a + n → mem i = mem' i) : getField mem a n = getField mem' a n :=
  congrArg ofBytes (read_congr h)

/-- A field of zero bytes. -/
theorem getField_eq_zero (h : ∀ i, a ≤ i → i < a + n → mem i = 0) : getField mem a n = 0 := by
  have hread : read mem a n = List.replicate n 0 := by
    rw [read_eq_map, List.eq_replicate_iff]
    refine ⟨by simp, fun b hb => ?_⟩
    obtain ⟨i, hi, rfl⟩ := List.mem_map.1 hb
    exact h _ (Nat.le_add_right _ _) (Nat.add_lt_add_left (List.mem_range.1 hi) _)
  rw [getField, hread, ofBytes_replicate_zero]

theorem setField_of_ne (h : i < a ∨ a + n ≤ i) : setField mem a n v i = mem i := by
  obtain h | h := h
  · exact write_of_lt h
  · exact write_of_le (by rwa [length_toBytes])

/-- A number that fits in the field is read back. -/
theorem getField_setField (h : v < 256 ^ n) : getField (setField mem a n v) a n = v := by
  have hread := read_write mem a (toBytes n v)
  rw [length_toBytes] at hread
  rw [getField, setField, hread, ofBytes_toBytes, Nat.mod_eq_of_lt h]

/-- A field keeps its number when other bytes are written. -/
theorem getField_write (h : b + m ≤ a ∨ a + l.length ≤ b) : getField (write mem a l) b m = getField mem b m := by
  refine getField_congr fun i hl hr => ?_
  obtain h | h := h
  · exact write_of_lt (by omega)
  · exact write_of_le (by omega)

/-- Another field keeps its number. -/
theorem getField_setField_of_disjoint (h : b + m ≤ a ∨ a + n ≤ b) :
    getField (setField mem a n v) b m = getField mem b m :=
  getField_congr fun i hl hr => setField_of_ne (by omega)

/-- The field at the start of a string of bytes, and what follows it. -/
theorem getField_of_read (h : read mem a (n + m) = toBytes n v ++ l) :
    getField mem a n = v % 256 ^ n ∧ read mem (a + n) m = l := by
  rw [read_add] at h
  obtain ⟨hfield, hrest⟩ := List.append_inj h (by simp)
  refine ⟨?_, hrest⟩
  rw [getField, hfield, ofBytes_toBytes]

theorem write_replicate {x : UInt8} (hl : a ≤ i) (hr : i < a + n) : write mem a (List.replicate n x) i = x := by
  rw [write, if_pos hl, List.getElem?_replicate_of_lt (by omega), Option.getD_some]

theorem write_add (hi : i < l.length) : write mem a l (a + i) = l.get ⟨i, hi⟩ := by
  rw [write, if_pos (Nat.le_add_right a i), Nat.add_sub_cancel_left, List.getElem?_eq_getElem hi]
  rfl

end Bytes
