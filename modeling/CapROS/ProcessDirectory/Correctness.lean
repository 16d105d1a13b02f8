import CapROS.ProcessDirectory.Basic
import Mathlib.Data.List.GetD
import Mathlib.Data.List.Induction
import Mathlib.Data.List.Perm.Basic

/-!
# The process directory: what restart reads back

The writer is compared with a list of descriptors. `slotPtr L i` is where the `i`-th descriptor
goes, whatever the page boundaries, and `Holds L w ds` says that the pages of `w` hold the list
`ds` in that way. `storeList` is the effect of one call on the list.

* `storeProcessInfo_holds`: a call keeps `Holds`, and changes the list as `storeList` does.
* `roundTrip_iff_fits`: restart reads back exactly that list if and only if it fits behind the
  generation header.
-/

namespace CapROS.ProcessDirectory

/-! ## Where the descriptors go -/

section Layout

variable (L : HdrLayout)

/-- Where a descriptor is stored when `dpd` is `p`: at `p`, or at the start of the next page. -/
def settle (p : DpdPtr) : DpdPtr :=
  if roomInPage L p < sizeofDpd then ⟨p.page + 1, 0⟩ else p

/-- The value of `dpd` after `n` descriptors. -/
def endPtr : ℕ → DpdPtr
  | 0 => ⟨0, 0⟩
  | n + 1 => ⟨(settle L (endPtr n)).page, (settle L (endPtr n)).slot + 1⟩

/-- Where the `i`-th descriptor is stored. -/
def slotPtr (i : ℕ) : DpdPtr := settle L (endPtr L i)

theorem endPtr_succ (n : ℕ) :
    endPtr L (n + 1) = ⟨(slotPtr L n).page, (slotPtr L n).slot + 1⟩ := rfl

theorem offset_endPtr_le (n : ℕ) :
    (endPtr L n).offset L ≤ erosPageSize ∧
      (slotPtr L n).offset L + sizeofDpd ≤ erosPageSize := by
  have hfit : ∀ p : DpdPtr, p.offset L ≤ erosPageSize →
      (settle L p).offset L + sizeofDpd ≤ erosPageSize := by
    intro p hp
    have hroom := L.room
    unfold settle roomInPage
    split
    · simp [DpdPtr.offset, sizeofCount, sizeofDpd, erosPageSize]
    · rename_i h
      unfold sizeofDpd erosPageSize at *
      omega
  induction n with
  | zero =>
    have h0 : (endPtr L 0).offset L ≤ erosPageSize := by
      have hroom := L.room
      simp only [endPtr, DpdPtr.offset, if_true, mul_zero, add_zero]
      omega
    exact ⟨h0, hfit _ h0⟩
  | succ n ih =>
    have hn : (endPtr L (n + 1)).offset L ≤ erosPageSize := by
      refine le_trans (le_of_eq ?_) ih.2
      rw [endPtr_succ, DpdPtr.offset, DpdPtr.offset, Nat.mul_add, Nat.mul_one, Nat.add_assoc]
    exact ⟨hn, hfit _ hn⟩

/-- The order in which descriptors are stored. -/
def Before (p q : DpdPtr) : Prop := p.page < q.page ∨ p.page = q.page ∧ p.slot < q.slot

variable {p q : DpdPtr}

theorem Before.ne (h : Before p q) : p ≠ q := by
  rintro rfl
  unfold Before at h
  omega

theorem Before.trans {r : DpdPtr} (h₁ : Before p q) (h₂ : Before q r) : Before p r := by
  unfold Before at *
  omega

theorem settle_cases (p : DpdPtr) : settle L p = p ∨ settle L p = ⟨p.page + 1, 0⟩ := by
  unfold settle
  split
  · exact .inr rfl
  · exact .inl rfl

theorem slotPtr_before_endPtr_succ (n : ℕ) : Before (slotPtr L n) (endPtr L (n + 1)) :=
  .inr ⟨rfl, Nat.lt_succ_self _⟩

theorem slotPtr_before_succ (n : ℕ) : Before (slotPtr L n) (slotPtr L (n + 1)) := by
  have h := slotPtr_before_endPtr_succ L n
  rcases settle_cases L (endPtr L (n + 1)) with h' | h'
  · rw [slotPtr.eq_1 L (n + 1), h']
    exact h
  · rw [slotPtr.eq_1 L (n + 1), h']
    exact .inl (Nat.lt_succ_self _)

theorem endPtr_before_succ (n : ℕ) : Before (endPtr L n) (endPtr L (n + 1)) := by
  rcases settle_cases L (endPtr L n) with h | h
  · rw [endPtr_succ, slotPtr, h]
    exact .inr ⟨rfl, Nat.lt_succ_self _⟩
  · rw [endPtr_succ, slotPtr, h]
    exact .inl (Nat.lt_succ_self _)

variable {i j n : ℕ}

theorem slotPtr_before (h : i < j) : Before (slotPtr L i) (slotPtr L j) := by
  induction j, h using Nat.le_induction with
  | base => exact slotPtr_before_succ L i
  | succ j _ ih => exact ih.trans (slotPtr_before_succ L j)

theorem endPtr_before (h : i < j) : Before (endPtr L i) (endPtr L j) := by
  induction j, h using Nat.le_induction with
  | base => exact endPtr_before_succ L i
  | succ j _ ih => exact ih.trans (endPtr_before_succ L j)

theorem slotPtr_injective : Function.Injective (slotPtr L) := by
  intro i j h
  rcases lt_trichotomy i j with hij | rfl | hij
  · exact absurd h (slotPtr_before L hij).ne
  · rfl
  · exact absurd h.symm (slotPtr_before L hij).ne

theorem page_slotPtr_le (h : i < n) : (slotPtr L i).page ≤ (endPtr L n).page := by
  rcases Nat.eq_or_lt_of_le (Nat.succ_le_of_lt h) with rfl | h'
  · exact le_of_eq rfl
  · have := endPtr_before L h'
    unfold Before at this
    simp only [Nat.succ_eq_add_one, endPtr_succ] at this
    omega

theorem le_page_mul (n : ℕ) : n ≤ erosPageSize * ((endPtr L n).page + 1) := by
  suffices h : n ≤ erosPageSize * (endPtr L n).page + (endPtr L n).slot by
    have hoff := (offset_endPtr_le L n).1
    unfold DpdPtr.offset sizeofDpd at hoff
    rw [Nat.mul_add]
    omega
  induction n with
  | zero => omega
  | succ n ih =>
    have hoff := (offset_endPtr_le L n).1
    rcases settle_cases L (endPtr L n) with h | h
    · simp only [endPtr_succ, slotPtr, h]
      omega
    · simp only [endPtr_succ, slotPtr, h, Nat.mul_add]
      unfold DpdPtr.offset sizeofDpd at hoff
      omega

theorem endPtr_of_le_capacity (h : n ≤ L.capacity) : endPtr L n = ⟨0, n⟩ := by
  induction n with
  | zero => rfl
  | succ n ih =>
    have hset : slotPtr L n = ⟨0, n⟩ := by
      have hroom := L.room
      have hpos := L.pos
      have hoff : L.sizeofHdr + 13 * n < 4096 := by
        simp only [HdrLayout.capacity, sizeofDpd, erosPageSize] at h hroom
        omega
      unfold slotPtr settle
      rw [ih (by omega), if_neg]
      simp only [HdrLayout.capacity, roomInPage, DpdPtr.offset, if_true, sizeofDpd,
        erosPageSize] at *
      rw [Nat.mod_eq_of_lt hoff, Nat.mod_eq_of_lt (by omega)]
      omega
    rw [endPtr_succ, hset]

theorem slotPtr_of_lt_capacity (h : n < L.capacity) : slotPtr L n = ⟨0, n⟩ := by
  have h' := endPtr_of_le_capacity L (Nat.succ_le_of_lt h)
  simp only [Nat.succ_eq_add_one, endPtr_succ, DpdPtr.mk.injEq, Nat.add_right_cancel_iff] at h'
  cases hs : slotPtr L n
  simp_all

theorem slotPtr_capacity : slotPtr L L.capacity = ⟨1, 0⟩ := by
  have hroom := L.room
  unfold slotPtr settle
  rw [endPtr_of_le_capacity L le_rfl, if_pos]
  simp only [roomInPage, DpdPtr.offset, if_true, HdrLayout.capacity, sizeofDpd, erosPageSize] at *
  omega

theorem page_endPtr_pos_iff (n : ℕ) : 0 < (endPtr L n).page ↔ L.capacity < n := by
  constructor
  · intro h
    by_contra hn
    rw [endPtr_of_le_capacity L (Nat.le_of_not_lt hn)] at h
    exact Nat.lt_irrefl _ h
  · intro h
    have hpage := page_slotPtr_le L h
    rw [slotPtr_capacity] at hpage
    exact hpage

end Layout

/-! ## The pages as a list of descriptors -/

section Store

variable {L : HdrLayout}

/-- The pages of `w` hold the descriptors `ds`. The count kept in `dpdsInCurrentPage` is that of
all pages together. -/
structure Holds (L : HdrLayout) (w : Writer) (ds : List DiskProcessDescriptor) : Prop where
  dpd_eq : w.dpd = endPtr L ds.length
  count_eq : w.dpdsInCurrentPage = ds.length
  deref_eq : ∀ i (h : i < ds.length), w.deref (slotPtr L i) = ds[i]
  numDpdsLoc_eq : w.numDpdsLoc = w.dpd.page
  nextFrame_eq : w.nextProcDirFrame = w.dpd.page
  nDirFrames_eq : w.nDirFrames = w.dpd.page
  nextLid_eq : w.nextProcDirLid = w.firstDirFrame
  page_le : w.dpd.page ≤ w.numReservedPages
  /-- Once a directory frame has been started, the header's count is final. -/
  hdr_count : 0 < w.dpd.page → (w.pages 0).nDescriptors = L.capacity

/-- The effect of one call on the list of descriptors. -/
def storeList (ds : List DiskProcessDescriptor) (c : Call) :
    Except Halt (List DiskProcessDescriptor) :=
  match ds.findIdx? fun d => decide (d.oid = c.procOid) with
  | some k => do
      kassert ((ds.getD k c.descriptor).actHazard = ActHaz.wakeResume.toByte)
      .ok (ds.set k (mergeDescriptor (ds.getD k c.descriptor) c))
  | none => .ok (ds ++ [c.descriptor])

theorem holds_initStore (pages : ℕ → DirPage) (numReserved : ℕ) (cursor wrap : ℕ) :
    Holds L (initStore pages numReserved cursor wrap) [] where
  dpd_eq := rfl
  count_eq := rfl
  deref_eq := by simp
  numDpdsLoc_eq := rfl
  nextFrame_eq := rfl
  nDirFrames_eq := rfl
  nextLid_eq := rfl
  page_le := Nat.zero_le _
  hdr_count := fun h => absurd h (Nat.lt_irrefl 0)

variable {w : Writer} {ds : List DiskProcessDescriptor}

theorem slotPtr_length_cases (h : Holds L w ds) :
    (¬roomInPage L w.dpd < sizeofDpd ∧ slotPtr L ds.length = w.dpd) ∨
      (roomInPage L w.dpd < sizeofDpd ∧ slotPtr L ds.length = ⟨w.dpd.page + 1, 0⟩) := by
  unfold slotPtr settle
  rw [← h.dpd_eq]
  by_cases hroom : roomInPage L w.dpd < sizeofDpd
  · exact .inr ⟨hroom, if_pos hroom⟩
  · exact .inl ⟨hroom, if_neg hroom⟩

theorem findDuplicateFrom_eq (h : Holds L w ds)
    (oid : ℕ) (fuel i : ℕ) (hi : i ≤ ds.length) (hfuel : ds.length ≤ i + fuel) :
    findDuplicateFrom L w oid fuel (endPtr L i) =
      .ok (((ds.drop i).findIdx? fun d => decide (d.oid = oid)).map fun k => slotPtr L (i + k)) := by
  induction fuel generalizing i with
  | zero =>
    obtain rfl : i = ds.length := by omega
    simp [findDuplicateFrom, h.dpd_eq]
  | succ fuel ih =>
    rcases Nat.eq_or_lt_of_le hi with rfl | hlt
    · simp [findDuplicateFrom, h.dpd_eq]
    · have hne : endPtr L i ≠ w.dpd := by
        rw [h.dpd_eq]
        exact (endPtr_before L hlt).ne
      have hpage := page_slotPtr_le L hlt
      have hbound := h.page_le
      rw [h.dpd_eq] at hbound
      -- the cursor moves to the `i`-th descriptor, if need be over a page boundary
      have hmove : skipPageEnd L w (endPtr L i) = .ok (slotPtr L i) := by
        by_cases hroom : roomInPage L (endPtr L i) < sizeofDpd
        · have hs : slotPtr L i = ⟨(endPtr L i).page + 1, 0⟩ := if_pos hroom
          rw [hs] at hpage
          rw [skipPageEnd, if_pos hroom, kassert_pos (Nat.lt_of_lt_of_le hpage hbound), hs]
          rfl
        · rw [skipPageEnd, if_neg hroom, slotPtr, settle, if_neg hroom]
      rw [findDuplicateFrom, if_neg hne, hmove]
      simp only [ok_bind, h.deref_eq i hlt, List.drop_eq_getElem_cons hlt, List.findIdx?_cons]
      by_cases hoid : ds[i].oid = oid
      · simp [hoid]
      · have := ih (i + 1) hlt (by omega)
        rw [endPtr_succ] at this
        simp only [hoid, if_false, this]
        simp [Option.map_map, Function.comp_def, Nat.add_assoc, Nat.add_comm 1]

theorem procFindDuplicate_eq (h : Holds L w ds)
    (oid : ℕ) :
    procFindDuplicate L w oid =
      .ok ((ds.findIdx? fun d => decide (d.oid = oid)).map (slotPtr L)) := by
  have hfuel : ds.length ≤ 0 + erosPageSize * (w.dpd.page + 1) := by
    rw [h.dpd_eq, Nat.zero_add]
    exact le_page_mul L ds.length
  have hfind := findDuplicateFrom_eq h oid _ 0 (Nat.zero_le _) hfuel
  simpa [procFindDuplicate, endPtr] using hfind

@[simp]
theorem deref_store_self (w : Writer) (p : DpdPtr) (d : DiskProcessDescriptor) :
    (w.store p d).deref p = d := by
  simp [Writer.deref, Writer.store]

theorem deref_store_of_ne (w : Writer) {p q : DpdPtr} (d : DiskProcessDescriptor) (h : q ≠ p) :
    (w.store p d).deref q = w.deref q := by
  unfold Writer.deref Writer.store
  by_cases hpage : q.page = p.page
  · have hslot : q.slot ≠ p.slot := fun hs => h (by cases p; cases q; simp_all)
    simp [hpage, hslot]
  · simp [hpage]

theorem deref_storeCount (w : Writer) (page n : ℕ) (p : DpdPtr) :
    (w.storeCount page n).deref p = w.deref p := by
  unfold Writer.deref Writer.storeCount
  by_cases hpage : p.page = page
  · subst hpage
    simp
  · simp [hpage]

theorem nDescriptors_store (w : Writer) (p : DpdPtr) (d : DiskProcessDescriptor) (k : ℕ) :
    ((w.store p d).pages k).nDescriptors = (w.pages k).nDescriptors := by
  unfold Writer.store
  by_cases hk : k = p.page
  · subst hk
    simp
  · simp [hk]

theorem Holds.store (h : Holds L w ds) {k : ℕ}
    (hk : k < ds.length) (d : DiskProcessDescriptor) :
    Holds L (w.store (slotPtr L k) d) (ds.set k d) where
  dpd_eq := by simpa [Writer.store] using h.dpd_eq
  count_eq := by simpa [Writer.store] using h.count_eq
  deref_eq := by
    intro i hi
    rw [List.length_set] at hi
    by_cases hik : i = k
    · subst hik
      simp
    · have hne : slotPtr L i ≠ slotPtr L k := fun he => hik (slotPtr_injective L he)
      rw [deref_store_of_ne w d hne, h.deref_eq i hi, List.getElem_set_ne (Ne.symm hik)]
  numDpdsLoc_eq := h.numDpdsLoc_eq
  nextFrame_eq := h.nextFrame_eq
  nDirFrames_eq := h.nDirFrames_eq
  nextLid_eq := h.nextLid_eq
  page_le := h.page_le
  hdr_count := fun hp => (nDescriptors_store w _ d 0).trans (h.hdr_count hp)

theorem Holds.append (d : DiskProcessDescriptor)
    (hdpd : w.dpd = slotPtr L ds.length) (hcount : w.dpdsInCurrentPage = ds.length)
    (hderef : ∀ i (h : i < ds.length), w.deref (slotPtr L i) = ds[i])
    (hloc : w.numDpdsLoc = w.dpd.page) (hframe : w.nextProcDirFrame = w.dpd.page)
    (hn : w.nDirFrames = w.dpd.page) (hlid : w.nextProcDirLid = w.firstDirFrame)
    (hle : w.dpd.page ≤ w.numReservedPages)
    (hhdr : 0 < w.dpd.page → (w.pages 0).nDescriptors = L.capacity) :
    Holds L (appendDescriptor w d) (ds ++ [d]) where
  dpd_eq := by simp [appendDescriptor, endPtr_succ, hdpd]
  count_eq := by simp [appendDescriptor, hcount]
  deref_eq := by
    intro i hi
    have hstore : (appendDescriptor w d).deref (slotPtr L i) =
        (w.store (slotPtr L ds.length) d).deref (slotPtr L i) := by
      rw [← hdpd]
      rfl
    rw [hstore]
    rcases Nat.eq_or_lt_of_le (Nat.le_of_lt_succ (by simpa using hi)) with rfl | hlt
    · simp
    · have hne : slotPtr L i ≠ slotPtr L ds.length := (slotPtr_before L hlt).ne
      rw [deref_store_of_ne w d hne, hderef i hlt, List.getElem_append_left hlt]
  numDpdsLoc_eq := hloc
  nextFrame_eq := hframe
  nDirFrames_eq := hn
  nextLid_eq := hlid
  page_le := hle
  hdr_count := fun hp => (nDescriptors_store w _ d 0).trans (hhdr hp)

/-- Storing one more descriptor, unless the reserved pages are used up. They are not used up
while the descriptors fit behind the header. -/
theorem ensureRoom_append (h : Holds L w ds)
    (d : DiskProcessDescriptor) :
    (∃ w', ensureRoom L w = .ok w' ∧ Holds L (appendDescriptor w' d) (ds ++ [d])) ∨
      (ensureRoom L w = .error .assertion ∧ L.capacity ≤ ds.length) := by
  rcases slotPtr_length_cases h with ⟨hroom, hslot⟩ | ⟨hroom, hslot⟩
  · left
    refine ⟨w, if_neg hroom, Holds.append d hslot.symm h.count_eq h.deref_eq h.numDpdsLoc_eq
      h.nextFrame_eq h.nDirFrames_eq h.nextLid_eq h.page_le h.hdr_count⟩
  · have hcap : L.capacity ≤ ds.length := by
      have hpos : 0 < (endPtr L (ds.length + 1)).page := by
        rw [endPtr_succ, hslot]
        exact Nat.succ_pos _
      have := (page_endPtr_pos_iff L _).1 hpos
      omega
    by_cases hres : w.nextProcDirFrame < w.numReservedPages
    · left
      rw [ensureRoom, if_pos hroom, nextDirPage, kassert_pos hres]
      refine ⟨_, rfl, Holds.append d ?_ ?_ ?_ ?_ ?_ ?_ ?_ ?_ ?_⟩
      · rw [hslot, ← h.nextFrame_eq]
      · exact h.count_eq
      · intro i hi
        exact (deref_storeCount w _ _ _).trans (h.deref_eq i hi)
      · rfl
      · rfl
      · simp only [h.nDirFrames_eq, h.nextFrame_eq]
      · simp only [h.nextLid_eq]
      · exact hres
      · intro _
        simp only [Writer.storeCount]
        by_cases hpage : w.dpd.page = 0
        · -- the page being finished is the header's, which is exactly full
          have hlen : ds.length = L.capacity := by
            by_contra hne
            have hlt : L.capacity < ds.length := by omega
            have := (page_endPtr_pos_iff L _).2 hlt
            rw [← h.dpd_eq] at this
            omega
          rw [h.numDpdsLoc_eq, hpage, Function.update_self, h.count_eq, hlen]
        · rw [h.numDpdsLoc_eq, Function.update_of_ne (Ne.symm hpage)]
          exact h.hdr_count (Nat.pos_of_ne_zero hpage)
    · right
      rw [ensureRoom, if_pos hroom, nextDirPage, kassert_neg hres]
      exact ⟨rfl, hcap⟩

/-- A call changes the pages as `storeList` changes the list, unless the reserved pages are used
up. -/
theorem storeProcessInfo_holds {ds' : List DiskProcessDescriptor} {c : Call}
    (h : Holds L w ds) (hs : storeList ds c = .ok ds') :
    (∃ w', storeProcessInfo L w c = .ok w' ∧ Holds L w' ds') ∨
      (storeProcessInfo L w c = .error .assertion ∧ L.capacity < ds'.length) := by
  unfold storeProcessInfo
  rw [procFindDuplicate_eq h]
  unfold storeList at hs
  cases hfind : ds.findIdx? fun d => decide (d.oid = c.procOid) with
  | some k =>
    rw [hfind] at hs
    have hk : k < ds.length := (List.findIdx?_eq_some_iff_getElem.1 hfind).1
    have hderef := h.deref_eq k hk
    simp only [List.getD_eq_getElem ds _ hk] at hs
    by_cases hhaz : ds[k].actHazard = ActHaz.wakeResume.toByte
    · simp only [kassert_pos hhaz, ok_bind, Except.ok.injEq] at hs
      subst hs
      left
      refine ⟨_, ?_, h.store hk _⟩
      simp only [ok_bind, Option.map_some, hderef, kassert_pos hhaz]
    · simp [kassert_neg hhaz] at hs
  | none =>
    rw [hfind] at hs
    simp only [Except.ok.injEq] at hs
    subst hs
    rcases ensureRoom_append h c.descriptor with ⟨w', hw', hh⟩ | ⟨herr, hcap⟩
    · left
      exact ⟨_, by simp [hw'], hh⟩
    · right
      exact ⟨by simp [herr], by simp; omega⟩

end Store

/-! ## The list as a summary of the calls -/

section Summary

/-- The most recent call count among the calls for `oid`. -/
def latestCount (calls : List Call) (oid : ℕ) : ℕ :=
  ((calls.filter fun c => decide (c.procOid = oid)).map Call.callCount).foldl max 0

/-- All calls for `oid` so far were made for Resume keys. -/
def OnlyResume (calls : List Call) (oid : ℕ) : Prop :=
  ∀ c ∈ calls, c.procOid = oid → c.hazToSave = .wakeResume

variable {calls : List Call} {oid : ℕ}

theorem find_other_eq_none (h : OnlyResume calls oid) :
    ((calls.filter fun c => decide (c.procOid = oid)).find?
      fun c => decide (c.hazToSave ≠ .wakeResume)) = none := by
  simp only [List.find?_eq_none, List.mem_filter, decide_eq_true_eq, not_not]
  exact fun c hc => h c hc.1 hc.2

theorem mergedHazard_of_onlyResume (h : OnlyResume calls oid)
    (hmem : oid ∈ calls.map Call.procOid) :
    mergedHazard calls oid = some (.resume (latestCount calls oid)) := by
  obtain ⟨c, hc, rfl⟩ := List.mem_map.1 hmem
  have hne : (calls.filter fun d => decide (d.procOid = c.procOid)) ≠ [] :=
    List.ne_nil_of_mem (List.mem_filter.2 ⟨hc, by simp⟩)
  simp only [mergedHazard, find_other_eq_none h, if_neg hne, latestCount]

variable {c : Call}

theorem mergedHazard_append_of_ne (calls : List Call)
    (h : c.procOid ≠ oid) : mergedHazard (calls ++ [c]) oid = mergedHazard calls oid := by
  simp [mergedHazard, List.filter_append, h]

theorem mergedHazard_append_other
    (h : OnlyResume calls c.procOid) (hc : c.hazToSave ≠ .wakeResume) :
    mergedHazard (calls ++ [c]) c.procOid = some (.other c.hazToSave) := by
  have hnone := find_other_eq_none h
  simp only [mergedHazard, List.filter_append, List.find?_append, hnone]
  simp [hc]

theorem mergedHazard_append_resume
    (h : OnlyResume calls c.procOid) (hc : c.hazToSave = .wakeResume) :
    mergedHazard (calls ++ [c]) c.procOid =
      some (.resume (max (latestCount calls c.procOid) c.callCount)) := by
  have h' : OnlyResume (calls ++ [c]) c.procOid := by
    intro d hd hoid
    rcases List.mem_append.1 hd with hd | hd
    · exact h d hd hoid
    · rw [List.mem_singleton.1 hd, hc]
  rw [mergedHazard_of_onlyResume h' (by simp)]
  simp [latestCount, List.filter_append]

theorem mergedHazard_isSome_iff (calls : List Call) (oid : ℕ) :
    (mergedHazard calls oid).isSome ↔ oid ∈ calls.map Call.procOid := by
  simp only [mergedHazard]
  rw [List.mem_map]
  split
  · rename_i c hfind
    have hmem := List.mem_of_find?_eq_some hfind
    simp only [List.mem_filter, decide_eq_true_eq] at hmem
    simpa using ⟨c, hmem⟩
  · split
    · rename_i hnil
      simpa [List.filter_eq_nil_iff] using hnil
    · rename_i hne
      obtain ⟨c, hc⟩ := List.exists_mem_of_ne_nil _ hne
      simp only [List.mem_filter, decide_eq_true_eq] at hc
      simpa using ⟨c, hc⟩

/-- The descriptors `ds` say the same as the calls: one descriptor for each process, which
carries the merged hazard. -/
structure Summarizes (calls : List Call) (ds : List DiskProcessDescriptor) : Prop where
  nodup : (ds.map DiskProcessDescriptor.oid).Nodup
  mem_iff : ∀ oid, oid ∈ ds.map DiskProcessDescriptor.oid ↔ oid ∈ calls.map Call.procOid
  wake : ∀ d ∈ ds, ∃ h : ActHaz, d.actHazard = h.toByte ∧
    mergedHazard calls d.oid = some (h.wake d.callCount)

theorem Summarizes.nil : Summarizes [] [] where
  nodup := List.nodup_nil
  mem_iff := by simp
  wake := by simp

variable {ds : List DiskProcessDescriptor} {d : DiskProcessDescriptor}

theorem Summarizes.resume (hs : Summarizes calls ds) (hd : d ∈ ds)
    (h : OnlyResume calls d.oid) :
    d.actHazard = ActHaz.wakeResume.toByte ∧ d.callCount = latestCount calls d.oid := by
  obtain ⟨haz, hbyte, hwake⟩ := hs.wake d hd
  rw [mergedHazard_of_onlyResume h ((hs.mem_iff _).1 (List.mem_map_of_mem hd))] at hwake
  unfold ActHaz.wake at hwake
  split at hwake
  · rename_i heq
    subst heq
    simp only [Option.some.injEq, Wake.resume.injEq] at hwake
    exact ⟨hbyte, hwake.symm⟩
  · simp at hwake

theorem wake_mergeDescriptor
    (honly : OnlyResume calls c.procOid) (hhaz : d.actHazard = ActHaz.wakeResume.toByte)
    (hcount : d.callCount = latestCount calls c.procOid) :
    ∃ h : ActHaz, (mergeDescriptor d c).actHazard = h.toByte ∧
      mergedHazard (calls ++ [c]) c.procOid =
        some (h.wake (mergeDescriptor d c).callCount) := by
  by_cases hres : c.hazToSave = .wakeResume
  · refine ⟨.wakeResume, ?_, ?_⟩
    · unfold mergeDescriptor
      rw [if_pos hres]
      split <;> exact hhaz
    · rw [mergedHazard_append_resume honly hres, ← hcount]
      unfold mergeDescriptor ActHaz.wake
      rw [if_pos hres, if_pos rfl]
      by_cases hlt : d.callCount < c.callCount
      · rw [if_pos hlt, max_eq_right hlt.le]
      · rw [if_neg hlt, max_eq_left (Nat.le_of_not_lt hlt)]
  · refine ⟨c.hazToSave, ?_, ?_⟩
    · unfold mergeDescriptor
      rw [if_neg hres]
    · rw [mergedHazard_append_other honly hres, ActHaz.wake, if_neg hres]

@[simp]
theorem oid_mergeDescriptor (d : DiskProcessDescriptor) (c : Call) :
    (mergeDescriptor d c).oid = d.oid := by
  unfold mergeDescriptor
  split
  · split <;> rfl
  · rfl

theorem storeList_summarizes (hs : Summarizes calls ds) (honly : OnlyResume calls c.procOid) :
    ∃ ds', storeList ds c = .ok ds' ∧ Summarizes (calls ++ [c]) ds' := by
  unfold storeList
  cases hfind : ds.findIdx? fun d => decide (d.oid = c.procOid) with
  | some k =>
    obtain ⟨hk, hoid, -⟩ := List.findIdx?_eq_some_iff_getElem.1 hfind
    simp only [decide_eq_true_eq] at hoid
    have hmem : ds[k] ∈ ds := List.getElem_mem hk
    obtain ⟨hhaz, hcount⟩ := hs.resume hmem (hoid ▸ honly)
    rw [hoid] at hcount
    simp only [List.getD_eq_getElem ds _ hk, kassert_pos hhaz, ok_bind]
    refine ⟨_, rfl, ?_⟩
    -- the merge leaves the OIDs alone
    have hmap : (ds.set k (mergeDescriptor ds[k] c)).map DiskProcessDescriptor.oid =
        ds.map DiskProcessDescriptor.oid := by
      refine List.ext_getElem (by simp) fun i _ _ => ?_
      by_cases hik : k = i
      · subst hik
        simp
      · simp [hik]
    refine ⟨hmap ▸ hs.nodup, fun oid => ?_, fun d hd => ?_⟩
    · rw [hmap, hs.mem_iff, List.map_append, List.mem_append]
      constructor
      · exact .inl
      · rintro (h | h)
        · exact h
        · obtain rfl : oid = c.procOid := by simpa using h
          exact (hs.mem_iff _).1 (hoid ▸ List.mem_map_of_mem hmem)
    · obtain ⟨i, hi, rfl⟩ := List.getElem_of_mem hd
      rw [List.length_set] at hi
      by_cases hik : i = k
      · subst hik
        rw [List.getElem_set_self, oid_mergeDescriptor, hoid]
        exact wake_mergeDescriptor honly hhaz hcount
      · rw [List.getElem_set_ne (Ne.symm hik)]
        have hne : c.procOid ≠ ds[i].oid := by
          intro he
          have hi' : i < (ds.map DiskProcessDescriptor.oid).length := by simpa using hi
          have hk' : k < (ds.map DiskProcessDescriptor.oid).length := by simpa using hk
          have hsame : (ds.map DiskProcessDescriptor.oid)[i] =
              (ds.map DiskProcessDescriptor.oid)[k] := by simp [← he, hoid]
          exact hik (hs.nodup.getElem_inj_iff.1 hsame)
        rw [mergedHazard_append_of_ne calls hne]
        exact hs.wake _ (List.getElem_mem hi)
  | none =>
    refine ⟨_, rfl, ?_⟩
    have hnew : c.procOid ∉ ds.map DiskProcessDescriptor.oid := by
      intro hmem
      obtain ⟨d, hd, hoid⟩ := List.mem_map.1 hmem
      simpa [hoid] using List.findIdx?_eq_none_iff.1 hfind d hd
    have hnone : c.procOid ∉ calls.map Call.procOid := fun h => hnew ((hs.mem_iff _).2 h)
    refine ⟨?_, fun oid => ?_, fun d hd => ?_⟩
    · rw [List.map_append, List.map_singleton, ← List.concat_eq_append]
      exact hs.nodup.concat hnew
    · rw [List.map_append, List.map_append, List.mem_append, List.mem_append, hs.mem_iff]
      rfl
    · rcases List.mem_append.1 hd with hd | hd
      · have hne : c.procOid ≠ d.oid := fun he => hnew (he ▸ List.mem_map_of_mem hd)
        rw [mergedHazard_append_of_ne calls hne]
        exact hs.wake d hd
      · obtain rfl := List.mem_singleton.1 hd
        refine ⟨c.hazToSave, rfl, ?_⟩
        by_cases hres : c.hazToSave = .wakeResume
        · have hzero : latestCount calls c.procOid = 0 := by
            have : (calls.filter fun d => decide (d.procOid = c.procOid)) = [] := by
              simp only [List.filter_eq_nil_iff, decide_eq_true_eq]
              exact fun d hd he => hnone (he ▸ List.mem_map_of_mem hd)
            simp [latestCount, this]
          simp [Call.descriptor, mergedHazard_append_resume honly hres, hzero, ActHaz.wake, hres]
        · simp [Call.descriptor, mergedHazard_append_other honly hres, ActHaz.wake, hres]

theorem pairwise_phase1Calls (resumeKeys : List (ℕ × ℕ)) {activities : List Call}
    (hact : (activities.map Call.procOid).Nodup) :
    (phase1Calls resumeKeys activities).Pairwise
      fun c c' => c.procOid = c'.procOid → c.hazToSave = .wakeResume := by
  unfold phase1Calls
  refine List.pairwise_append.2 ⟨?_, ?_, ?_⟩
  · exact List.pairwise_map.2 (List.pairwise_of_forall fun _ _ _ => rfl)
  · refine (List.pairwise_map.1 hact).imp fun hne he => absurd he hne
  · intro c hc c' _ _
    obtain ⟨k, -, rfl⟩ := List.mem_map.1 hc
    rfl

/-- The whole of phase 1: the list ends up with one descriptor for each process, and the pages
hold that list unless the reserved pages ran out. -/
theorem foldlM_storeProcessInfo {L : HdrLayout} {w₀ : Writer} (h₀ : Holds L w₀ [])
    (hpair : calls.Pairwise fun c c' => c.procOid = c'.procOid → c.hazToSave = .wakeResume) :
    ∃ ds, Summarizes calls ds ∧
      ((∃ w, calls.foldlM (storeProcessInfo L) w₀ = .ok w ∧ Holds L w ds) ∨
        (calls.foldlM (storeProcessInfo L) w₀ = .error .assertion ∧ L.capacity < ds.length)) := by
  induction calls using List.reverseRecOn with
  | nil => exact ⟨[], .nil, .inl ⟨w₀, rfl, h₀⟩⟩
  | append_singleton calls c ih =>
    obtain ⟨hinit, -, hlast⟩ := List.pairwise_append.1 hpair
    obtain ⟨ds, hs, hfold⟩ := ih hinit
    have honly : OnlyResume calls c.procOid := fun c' hc' => hlast c' hc' c (by simp)
    obtain ⟨ds', hds', hs'⟩ := storeList_summarizes hs honly
    refine ⟨ds', hs', ?_⟩
    rw [List.foldlM_append]
    rcases hfold with ⟨w, hw, hh⟩ | ⟨herr, hcap⟩
    · rw [hw]
      simpa using storeProcessInfo_holds hh hds'
    · right
      rw [herr]
      refine ⟨rfl, Nat.lt_of_lt_of_le hcap ?_⟩
      have hsub : ds.map DiskProcessDescriptor.oid ⊆ ds'.map DiskProcessDescriptor.oid := by
        intro oid hoid
        rw [hs'.mem_iff, List.map_append, List.mem_append]
        exact .inl ((hs.mem_iff oid).1 hoid)
      simpa using (List.subperm_of_subset hs.nodup hsub).length_le

theorem Summarizes.length_eq (hs : Summarizes calls ds) : ds.length = numProcesses calls := by
  have hperm : (ds.map DiskProcessDescriptor.oid).Perm (calls.map Call.procOid).dedup := by
    refine (List.perm_ext_iff_of_nodup hs.nodup (List.nodup_dedup _)).2 fun oid => ?_
    rw [hs.mem_iff, List.mem_dedup]
  simpa [numProcesses] using hperm.length_eq

end Summary

/-! ## Reading the directory back -/

section Restart

variable {L : HdrLayout}

variable {α β : Type} {f : α → Except Halt β} {l : List α} {r : List β}

theorem length_of_mapM_ok (h : l.mapM f = .ok r) : r.length = l.length := by
  induction l generalizing r with
  | nil =>
    obtain rfl : [] = r := by simpa [pure, Except.pure] using h
    rfl
  | cons a l ih =>
    rw [List.mapM_cons] at h
    cases hfa : f a with
    | error e => simp [hfa] at h
    | ok b =>
      cases hl : l.mapM f with
      | error e => simp [hfa, hl] at h
      | ok bs =>
        obtain rfl : b :: bs = r := by simpa [hfa, hl, pure, Except.pure] using h
        simp [ih hl]

theorem exists_of_mapM_ok (h : l.mapM f = .ok r) {a : α} (ha : a ∈ l) : ∃ b ∈ r, f a = .ok b := by
  induction l generalizing r with
  | nil => cases ha
  | cons x l ih =>
    rw [List.mapM_cons] at h
    cases hfx : f x with
    | error e => simp [hfx] at h
    | ok b =>
      cases hl : l.mapM f with
      | error e => simp [hfx, hl] at h
      | ok bs =>
        obtain rfl : b :: bs = r := by simpa [hfx, hl, pure, Except.pure] using h
        rcases List.mem_cons.1 ha with rfl | ha
        · exact ⟨b, by simp, hfx⟩
        · obtain ⟨c, hc, hfa⟩ := ih hl ha
          exact ⟨c, by simp [hc], hfa⟩

theorem mapM_eq_ok {g : α → β} (h : ∀ a ∈ l, f a = .ok (g a)) : l.mapM f = .ok (l.map g) := by
  induction l with
  | nil => rfl
  | cons a l ih =>
    rw [List.mapM_cons, h a (by simp), ih fun b hb => h b (by simp [hb])]
    rfl

/-- What restart makes of a descriptor whose hazard byte is one. -/
def wakeOf (d : DiskProcessDescriptor) : ℕ × Wake :=
  (d.oid, ((ActHaz.ofByte d.actHazard).getD .none).wake d.callCount)

variable {calls : List Call} {ds : List DiskProcessDescriptor}

theorem addProcDescriptor_eq (hs : Summarizes calls ds) {d : DiskProcessDescriptor} (hd : d ∈ ds) :
    addProcDescriptor d = .ok (wakeOf d) ∧ mergedHazard calls d.oid = some (wakeOf d).2 := by
  obtain ⟨h, hbyte, hwake⟩ := hs.wake d hd
  simp only [addProcDescriptor, wakeOf, hbyte, ActHaz.ofByte_toByte, Option.getD_some, hwake,
    and_self]

theorem mem_map_wakeOf_iff (hs : Summarizes calls ds) (oid : ℕ) (wake : Wake) :
    (oid, wake) ∈ ds.map wakeOf ↔ mergedHazard calls oid = some wake := by
  constructor
  · intro h
    obtain ⟨d, hd, he⟩ := List.mem_map.1 h
    obtain ⟨rfl, rfl⟩ := Prod.mk.inj he
    exact (addProcDescriptor_eq hs hd).2
  · intro h
    have hmem : oid ∈ ds.map DiskProcessDescriptor.oid := by
      rw [hs.mem_iff, ← mergedHazard_isSome_iff, h]
      rfl
    obtain ⟨d, hd, rfl⟩ := List.mem_map.1 hmem
    have hd' := (addProcDescriptor_eq hs hd).2
    rw [h] at hd'
    exact List.mem_map.2 ⟨d, hd, Prod.ext rfl (Option.some.inj hd').symm⟩

theorem readHdrDescriptors_eq
    (hs : Summarizes calls ds) {hdr : DirPage} (hcount : hdr.nDescriptors = ds.length)
    (hslots : ∀ i (h : i < ds.length), hdr.slots i = ds[i]) (hcap : ds.length ≤ L.capacity) :
    readHdrDescriptors L hdr = .ok (ds.map wakeOf) := by
  have hmap : ds.map wakeOf = (List.range ds.length).map fun i => wakeOf (hdr.slots i) := by
    refine List.ext_getElem (by simp) fun i h _ => ?_
    have hi : i < ds.length := by simpa using h
    simp [hslots i hi]
  rw [readHdrDescriptors, hcount, hmap]
  refine mapM_eq_ok fun i hi => ?_
  have hi' : i < ds.length := List.mem_range.1 hi
  have hfit : L.sizeofHdr + sizeofDpd * i ≤ erosPageSize - sizeofDpd := by
    have hroom := L.room
    simp only [HdrLayout.capacity, sizeofDpd, erosPageSize] at hcap hroom ⊢
    omega
  rw [kassert_pos hfit, ok_bind, hslots i hi']
  exact (addProcDescriptor_eq hs (List.getElem_mem hi')).1

theorem writeProcDirFrames_last (w : Writer) (disk : ℕ → DirPage) {n : ℕ}
    (hn : w.nDirFrames = n + 1) :
    writeProcDirFrames w disk (dirFrameLid w.logWrapPoint w.nextProcDirLid n) =
      w.pages (n + 1) := by
  simp [writeProcDirFrames, hn, List.range_succ]

theorem nDescriptors_storeCount (w : Writer) (page n k : ℕ) :
    ((w.storeCount page n).pages k).nDescriptors =
      if k = page then n else (w.pages k).nDescriptors := by
  unfold Writer.storeCount
  by_cases hk : k = page
  · subst hk
    simp
  · simp [hk]

theorem length_endProcDirRead {frame : DirPage} {r : List (ℕ × Wake)}
    (h : endProcDirRead frame = .ok r) : r.length = frame.nDescriptors := by
  unfold endProcDirRead at h
  by_cases hle : frame.nDescriptors ≤ (erosPageSize - sizeofCount) / sizeofDpd
  · rw [kassert_pos hle, ok_bind] at h
    rw [length_of_mapM_ok h, List.length_range]
  · rw [kassert_neg hle] at h
    cases h

variable {w w₀ : Writer} {disk : ℕ → DirPage} {started : List (ℕ × Wake)}

theorem length_restartProcesses_ge {completions : List ℕ}
    (h : restartProcesses L w disk completions = .ok started)
    {k : ℕ} (hk : k ∈ completions) :
    (w.pages 0).nDescriptors +
      (disk (dirFrameLid w.logWrapPoint w.firstDirFrame k)).nDescriptors ≤ started.length := by
  unfold restartProcesses at h
  cases hhdr : readHdrDescriptors L (w.pages 0) with
  | error e => simp [hhdr] at h
  | ok inHdr =>
    rw [hhdr, ok_bind] at h
    cases hframes : completions.mapM fun k =>
        endProcDirRead (disk (dirFrameLid w.logWrapPoint w.firstDirFrame k)) with
    | error e => simp [hframes] at h
    | ok inFrames =>
      obtain rfl : inHdr ++ inFrames.flatten = started := by simpa [hframes] using h
      obtain ⟨inFrame, hmem, hread⟩ := exists_of_mapM_ok hframes hk
      have hhdrLen : inHdr.length = (w.pages 0).nDescriptors := by
        rw [length_of_mapM_ok hhdr, List.length_range]
      have hframeLen := (List.sublist_flatten_of_mem hmem).length_le
      rw [length_endProcDirRead hread] at hframeLen
      rw [List.length_append, hhdrLen]
      omega

/-- When directory frames were needed, restart starts too many processes if it gets through: the
header is full, and the last frame counts all the descriptors as its own. -/
theorem length_restartProcesses_gt (h : Holds L w ds) (hcap : L.capacity < ds.length)
    (hstart : restartProcesses L (w.storeCount w.numDpdsLoc w.dpdsInCurrentPage)
      (writeProcDirFrames (w.storeCount w.numDpdsLoc w.dpdsInCurrentPage) disk)
      (List.range w.nDirFrames) = .ok started) :
    ds.length < started.length := by
  have hpage : 0 < w.dpd.page := by
    rw [h.dpd_eq]
    exact (page_endPtr_pos_iff L _).2 hcap
  obtain ⟨n, hn⟩ : ∃ n, w.nDirFrames = n + 1 :=
    Nat.exists_eq_succ_of_ne_zero (by rw [h.nDirFrames_eq]; omega)
  have hloc : w.numDpdsLoc = n + 1 := by rw [h.numDpdsLoc_eq, ← h.nDirFrames_eq, hn]
  have hge := length_restartProcesses_ge hstart (k := n) (by simp [hn])
  have hlid : (w.storeCount w.numDpdsLoc w.dpdsInCurrentPage).firstDirFrame =
      (w.storeCount w.numDpdsLoc w.dpdsInCurrentPage).nextProcDirLid := h.nextLid_eq.symm
  have hn' : (w.storeCount w.numDpdsLoc w.dpdsInCurrentPage).nDirFrames = n + 1 := hn
  rw [hlid, writeProcDirFrames_last _ disk hn', nDescriptors_storeCount, nDescriptors_storeCount,
    hloc, if_neg (Nat.succ_ne_zero n).symm, if_pos rfl, h.hdr_count hpage, h.count_eq] at hge
  have hpos : 0 < L.capacity := by
    have hroom := L.room
    simp only [HdrLayout.capacity, sizeofDpd, erosPageSize] at hroom ⊢
    omega
  omega

/-- With more processes than fit behind the generation header, the counter that is carried over
into the directory frames makes restart read descriptors that were never written, or stop. -/
theorem not_roundTrip_of_capacity_lt (h₀ : Holds L w₀ []) (disk : ℕ → DirPage)
    (hpair : calls.Pairwise fun c c' => c.procOid = c'.procOid → c.hazToSave = .wakeResume)
    (hcap : L.capacity < numProcesses calls) : ¬RoundTrip L w₀ disk calls := by
  obtain ⟨ds, hs, hfold⟩ := foldlM_storeProcessInfo h₀ hpair
  rw [← hs.length_eq] at hcap
  rintro ⟨w, hw, hread⟩
  rcases hfold with ⟨w₁, hw₁, hh⟩ | ⟨herr, -⟩
  · obtain rfl : w₁.storeCount w₁.numDpdsLoc w₁.dpdsInCurrentPage = w := by
      simpa [storeAll, hw₁] using hw
    obtain ⟨started, hstart, hnodup, hmem⟩ := hread _ (List.Perm.refl _)
    have hgt := length_restartProcesses_gt hh hcap hstart
    -- but the processes started are exactly those with a descriptor
    have hsub : (started.map Prod.fst).length ≤ (ds.map DiskProcessDescriptor.oid).length := by
      refine (List.subperm_of_subset hnodup fun oid hoid => ?_).length_le
      obtain ⟨⟨oid', wake⟩, hin, rfl⟩ := List.mem_map.1 hoid
      rw [hs.mem_iff, ← mergedHazard_isSome_iff, (hmem _ _).1 hin]
      rfl
    simp only [List.length_map] at hsub
    omega
  · simp [storeAll, herr] at hw

theorem roundTrip_of_le_capacity (h₀ : Holds L w₀ []) (disk : ℕ → DirPage)
    (hpair : calls.Pairwise fun c c' => c.procOid = c'.procOid → c.hazToSave = .wakeResume)
    (hcap : numProcesses calls ≤ L.capacity) : RoundTrip L w₀ disk calls := by
  obtain ⟨ds, hs, hfold⟩ := foldlM_storeProcessInfo h₀ hpair
  rw [← hs.length_eq] at hcap
  rcases hfold with ⟨w₁, hw₁, hh⟩ | ⟨-, hcap'⟩
  · have hend := endPtr_of_le_capacity L hcap
    have hpage : w₁.dpd.page = 0 := by rw [hh.dpd_eq, hend]
    have hframes : w₁.nDirFrames = 0 := by rw [hh.nDirFrames_eq, hpage]
    refine ⟨w₁.storeCount w₁.numDpdsLoc w₁.dpdsInCurrentPage, by simp [storeAll, hw₁], ?_⟩
    intro completions hperm
    obtain rfl : completions = [] := by
      have : (w₁.storeCount w₁.numDpdsLoc w₁.dpdsInCurrentPage).nDirFrames = 0 := hframes
      simpa [this] using hperm
    have hhdr : readHdrDescriptors L
        ((w₁.storeCount w₁.numDpdsLoc w₁.dpdsInCurrentPage).pages 0) = .ok (ds.map wakeOf) := by
      refine readHdrDescriptors_eq hs ?_ (fun i hi => ?_) hcap
      · rw [nDescriptors_storeCount, hh.numDpdsLoc_eq, hpage, if_pos rfl, hh.count_eq]
      · rw [← hh.deref_eq i hi, slotPtr_of_lt_capacity L (Nat.lt_of_lt_of_le hi hcap),
          ← deref_storeCount w₁ w₁.numDpdsLoc w₁.dpdsInCurrentPage]
        rfl
    refine ⟨ds.map wakeOf, ?_, ?_, mem_map_wakeOf_iff hs⟩
    · simp [restartProcesses, hhdr, pure, Except.pure]
    · rw [List.map_map]
      exact hs.nodup
  · omega

/-- Restart reads back what `StoreProcessInfo` stored, process by process and with the merged
hazards, if and only if the processes fit behind the generation header. -/
theorem roundTrip_iff_fits (L : HdrLayout) (pages : ℕ → DirPage) (numReservedPages : ℕ)
    (logCursor logWrapPoint : ℕ) (disk : ℕ → DirPage) (resumeKeys : List (ℕ × ℕ))
    (activities : List Call) (hact : (activities.map Call.procOid).Nodup) :
    RoundTrip L (initStore pages numReservedPages logCursor logWrapPoint) disk
        (phase1Calls resumeKeys activities) ↔
      numProcesses (phase1Calls resumeKeys activities) ≤ L.capacity := by
  have h₀ := holds_initStore (L := L) pages numReservedPages logCursor logWrapPoint
  have hpair := pairwise_phase1Calls resumeKeys hact
  constructor
  · intro h
    by_contra hcap
    exact not_roundTrip_of_capacity_lt h₀ disk hpair (Nat.lt_of_not_le hcap) h
  · exact roundTrip_of_le_capacity h₀ disk hpair

/-- A page frame that was never used. -/
def zeroDirPage : DirPage := ⟨0, fun _ => ⟨0, 0, 0⟩⟩

/-- A process that waits for a reply to two stale Resume keys and also has an `Activity`, next to
a process that only waits. -/
theorem roundTrip_two_processes :
    RoundTrip armLayout (initStore (fun _ => zeroDirPage) 2 mainLogStart (frameToOID 1000))
      (fun _ => zeroDirPage)
      (phase1Calls [(firstPersistentOID, 5), (firstPersistentOID + 1, 7), (firstPersistentOID, 6)]
        [⟨firstPersistentOID, 0, .wakeOK⟩]) :=
  (roundTrip_iff_fits armLayout _ _ _ _ _ _ _ (by decide)).2 (by decide)

/-- `n` running processes in successive frames. -/
def runningProcesses (n : ℕ) : List Call :=
  (List.range n).map fun i => ⟨firstPersistentOID + frameToOID i, 0, .none⟩

theorem nodup_runningProcesses (n : ℕ) : ((runningProcesses n).map Call.procOid).Nodup := by
  rw [runningProcesses, List.map_map]
  refine List.nodup_range.map fun i j h => ?_
  exact Nat.eq_of_mul_eq_mul_right (by decide) (Nat.add_left_cancel h)

theorem numProcesses_runningProcesses (n : ℕ) :
    numProcesses (phase1Calls [] (runningProcesses n)) = n := by
  unfold phase1Calls numProcesses
  rw [List.map_nil, List.nil_append, (nodup_runningProcesses n).dedup, List.length_map,
    runningProcesses, List.length_map, List.length_range]

/-- On ARM 308 descriptors fit behind the header; with one process more the round trip fails. -/
theorem not_roundTrip_309_processes :
    ¬RoundTrip armLayout (initStore (fun _ => zeroDirPage) 2 mainLogStart (frameToOID 1000))
      (fun _ => zeroDirPage) (phase1Calls [] (runningProcesses 309)) := by
  refine not_roundTrip_of_capacity_lt (holds_initStore _ _ _ _) _
    (pairwise_phase1Calls [] (nodup_runningProcesses 309)) ?_
  rw [numProcesses_runningProcesses]
  decide

end Restart

end CapROS.ProcessDirectory
