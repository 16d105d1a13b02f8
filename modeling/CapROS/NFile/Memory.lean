import CapROS.NFile.Basic

/-!
# Running the operations of the file server

* `bind_ok`, `bind_error`, `get_bind`, `modifyMem_bind`: one operation after another.
* `AllocBlock_of_ne`, `AllocBlock_of_eq`: where a block comes from.
-/

namespace CapROS.NFile

open Cells Bytes

variable {α β : Type} {x : Op α} {f : α → Op β} {a : α} {e : Fault} {ss ss' : Server}

theorem bind_ok (h : x ss = .ok a ss') : (x >>= f) ss = f a ss' := by
  change EStateM.bind x f ss = f a ss'
  rw [EStateM.bind, h]

theorem bind_error (h : x ss = .error e ss') : (x >>= f) ss = .error e ss' := by
  change EStateM.bind x f ss = .error e ss'
  rw [EStateM.bind, h]

theorem get_bind {f : Server → Op β} : ((get : Op Server) >>= f) ss = f ss ss := rfl

theorem modifyMem_bind {g : (ℕ → UInt8) → ℕ → UInt8} {f : Unit → Op β} :
    (modifyMem g >>= f) ss = f () { ss with mem := g ss.mem } := rfl

theorem pure_apply : (pure a : Op α) ss = .ok a ss := rfl

/-! ## Memory -/

variable {mem mem' mem'' : ℕ → UInt8} {lo hi i k n ino tbl pg v : ℕ}

/-- The memories agree from `lo` up to `hi`. -/
def Same (mem mem' : ℕ → UInt8) (lo hi : ℕ) : Prop := ∀ i, lo ≤ i → i < hi → mem' i = mem i

theorem Same.refl (mem : ℕ → UInt8) (lo hi : ℕ) : Same mem mem lo hi := fun _ _ _ => rfl

theorem Same.trans (h : Same mem mem' lo hi) (h' : Same mem' mem'' lo hi) : Same mem mem'' lo hi :=
  fun i hl hr => (h' i hl hr).trans (h i hl hr)

theorem Same.mono (h : Same mem mem' lo hi) {lo' hi' : ℕ} (hlo : lo ≤ lo') (hhi : hi' ≤ hi) :
    Same mem mem' lo' hi' := fun i hl hr => h i (hlo.trans hl) (hr.trans_le hhi)

theorem Same.getField (h : Same mem mem' lo hi) (hlo : lo ≤ i) (hhi : i + n ≤ hi) :
    getField mem' i n = getField mem i n :=
  getField_congr fun _ hl hr => h _ (hlo.trans hl) (hr.trans_le hhi)

theorem Same.ptr (h : Same mem mem' lo hi) (hlo : lo ≤ tbl + 4 * k) (hhi : tbl + 4 * k + 4 ≤ hi) :
    ptr mem' tbl k = ptr mem tbl k := h.getField hlo hhi

theorem same_setField (h : hi ≤ i ∨ i + n ≤ lo) : Same mem (setField mem i n v) lo hi :=
  fun _ hl hr => setField_of_ne (by omega)

theorem ptr_setPtr (h : v < 2 ^ 32) : ptr (setPtr mem tbl k v) tbl k = v := getField_setField h

theorem ptr_setPtr_of_ne {k' : ℕ} (h : k' ≠ k) : ptr (setPtr mem tbl k v) tbl k' = ptr mem tbl k' :=
  getField_setField_of_disjoint (by omega)

theorem zeroBlock_apply (hl : pg ≤ i) (hr : i < pg + BLOCK_SIZE) : zeroBlock mem pg i = 0 := if_pos ⟨hl, hr⟩

/-! ## Allocation -/

theorem AllocBlock_of_ne (wantZero : Bool) (h : ss.first_free_block ≠ 0) : AllocBlock wantZero ss =
    .ok ss.first_free_block { ss with
      first_free_block := ptr ss.mem ss.first_free_block 0
      mem := if wantZero = true then zeroBlock ss.mem ss.first_free_block else ss.mem } := by
  rw [AllocBlock, get_bind, if_pos h]
  rfl

theorem AllocBlock_of_eq (wantZero : Bool) (h : ss.first_free_block = 0) : AllocBlock wantZero ss =
    .ok ss.top_addr { ss with top_addr := ss.top_addr + BLOCK_SIZE } := by
  rw [AllocBlock, get_bind, if_neg (not_not.2 h)]
  rfl

theorem useBlock_of_lt (hpos : 0 < pg) (hlt : pg < 2 * ss.arch.storage) : useBlock pg ss = .ok () ss := by
  rw [useBlock, get_bind, if_neg hpos.ne', if_neg (not_le.2 hlt)]
  rfl

theorem useBlock_of_le (hpos : 0 < pg) (hle : 2 * ss.arch.storage ≤ pg) : useBlock pg ss = .error .outOfSpace ss := by
  rw [useBlock, get_bind, if_neg hpos.ne', if_pos hle]
  rfl

end CapROS.NFile
