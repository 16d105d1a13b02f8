import CapROS.RangeKey.Basic
import CapROS.Theory.IntervalTable

/-!
# The tables of mounted ranges

The tables `obRanges` and `lidRanges` of `kern_ObjectSource.c`. `AddRange` puts a new range where its
start belongs, and reports when the range overlaps one of its two neighbours; the end of a range is
exclusive. Ranges that adjoin each other stay two ranges: what `objC_FindFirstSubrange` answers lies in
one range.

* `Built`: the tables that calls of `AddRange` make, when no call reports an overlap.
* `Built.ascending`: these tables are sorted and disjoint.
* `Built.lookupOID_eq_some_iff`: `LookupOID` finds the range that contains the OID.
* `Built.finds`: what `objC_FindFirstSubrange` finds, unless the search starts at an OID where a range
  ends and none starts.
-/

namespace CapROS.RangeKey

open IntervalTable

def ktuneNRngTblEnts : ℕ := 14

def ktuneNLogTblEnts : ℕ := 4

/-- The place of a new range in the table, `i` of `AddRange`. -/
def newPlace (ranges : List ObjectRange) (rng : ObjectRange) : ℕ :=
  match lookupRange ranges rng.start with
  | none => 0
  | some u => u + 1

/-- One of the two checks of `AddRange` finds that the new range overlaps a neighbour. -/
def overlapReported (ranges : List ObjectRange) (rng : ObjectRange) : Prop :=
  let i := newPlace ranges rng
  (0 < i ∧ rng.start < (ranges.getD (i - 1) ⟨0, 0⟩).fin) ∨
    (i < ranges.length ∧ (ranges.getD i ⟨0, 0⟩).start < rng.fin)

instance (ranges : List ObjectRange) (rng : ObjectRange) : Decidable (overlapReported ranges rng) :=
  inferInstanceAs (Decidable (_ ∨ _))

/-- `AddRange`. An overlap is reported on the console, and the range is added all the same. -/
def addRange (ranges : List ObjectRange) (rng : ObjectRange) : List ObjectRange :=
  ranges.insertIdx (newPlace ranges rng) rng

/-- `AddRange` on a table with `limit` entries: a full table is fatal. -/
def mountRange (limit : ℕ) (ranges : List ObjectRange) (rng : ObjectRange) :
    Except Halt (List ObjectRange) :=
  if ranges.length = limit then .error .fatal else .ok (addRange ranges rng)

def objCAddRange := mountRange ktuneNRngTblEnts

/-- `AddLIDRange`, without the restart that waits for the range. -/
def addLIDRange := mountRange ktuneNLogTblEnts

/-- The tables that successive calls make, of which none reports an overlap, and the ranges that were
added, in any order. The two ends of a range are 64-bit words; nothing says that the end is not before
the start, and then the range contains no OID. -/
inductive Built (limit : ℕ) : List ObjectRange → List ObjectRange → Prop where
  | empty : Built limit [] []
  | add {added ranges ranges' : List ObjectRange} {rng : ObjectRange} (h : Built limit added ranges)
      (hstart : rng.start < wordSize) (hfin : rng.fin < wordSize)
      (hclear : ¬overlapReported ranges rng) (hadd : mountRange limit ranges rng = .ok ranges') :
      Built limit (rng :: added) ranges'

/-- The range contains the OID. -/
def ObjectRange.Mounts (rng : ObjectRange) (oid : ℕ) : Prop :=
  Covers ObjectRange.start ObjectRange.fin rng oid

instance (rng : ObjectRange) (oid : ℕ) : Decidable (rng.Mounts oid) :=
  inferInstanceAs (Decidable (_ ∧ _))

/-- Some range of the table contains the OID. -/
def Mounted (ranges : List ObjectRange) (oid : ℕ) : Prop := ∃ rng ∈ ranges, rng.Mounts oid

instance (ranges : List ObjectRange) (oid : ℕ) : Decidable (Mounted ranges oid) :=
  inferInstanceAs (Decidable (∃ rng ∈ ranges, _))

/-- The answer is the first maximal interval of mounted OIDs between the limits. -/
def FindsMaximal (ranges : List ObjectRange) (limStart limLast : ℕ) : Option (ℕ × ℕ) → Prop
  | none => ∀ oid, limStart ≤ oid → oid ≤ limLast → ¬Mounted ranges oid
  | some (subStart, subLast) =>
      limStart ≤ subStart ∧ subStart ≤ subLast ∧ subLast ≤ limLast ∧
        (∀ oid, limStart ≤ oid → oid < subStart → ¬Mounted ranges oid) ∧
        (∀ oid, subStart ≤ oid → oid ≤ subLast → Mounted ranges oid) ∧
        (subLast = limLast ∨ ¬Mounted ranges (subLast + 1))

/-- The answer is what the first range with OIDs between the limits has there. -/
def FindsFirst (ranges : List ObjectRange) (limStart limLast : ℕ) : Option (ℕ × ℕ) → Prop
  | none => ∀ oid, limStart ≤ oid → oid ≤ limLast → ¬Mounted ranges oid
  | some (subStart, subLast) =>
      subStart ≤ subLast ∧ (∀ oid, limStart ≤ oid → oid < subStart → ¬Mounted ranges oid) ∧
        ∃ rng ∈ ranges, ∀ oid,
          subStart ≤ oid ∧ oid ≤ subLast ↔ (limStart ≤ oid ∧ oid ≤ limLast) ∧ rng.Mounts oid

variable {added ranges ranges' front back passed rest : List ObjectRange} {rng a : ObjectRange}
  {oid limit limStart limLast : ℕ}

/-! ### The search -/

/-- The table is sorted, and each range ends before the next one starts. -/
def Sorted (ranges : List ObjectRange) : Prop := Ascending ObjectRange.start ObjectRange.fin ranges

/-- The table in two parts: the ranges that start at or before the OID, and those that start later. -/
structure SplitAt (ranges : List ObjectRange) (oid : ℕ) (front back : List ObjectRange) : Prop where
  eq : ranges = front ++ back
  front_le : ∀ a ∈ front, a.start ≤ oid
  lt_back : ∀ b ∈ back, oid < b.start

theorem lookupRangeFrom_eq_bisect (ranges : List ObjectRange) (oid fuel l u : ℕ) :
    lookupRangeFrom ranges oid fuel l u =
      bisect (fun i => oid < (ranges.getD i ⟨0, 0⟩).start) fuel l u := by
  induction fuel generalizing l u with
  | zero => rfl
  | succ fuel ih => simp only [lookupRangeFrom, bisect, ih]

theorem getD_of_lt {i : ℕ} (hi : i < ranges.length) (d : ObjectRange) :
    ranges.getD i d = ranges.get ⟨i, hi⟩ := by
  simp [List.getD, hi]

theorem Sorted.splitAt (h : Sorted ranges) (oid : ℕ) :
    ∃ front back, SplitAt ranges oid front back ∧
      lookupRangeFrom ranges oid ranges.length 0 ranges.length = front.length := by
  rw [lookupRangeFrom_eq_bisect]
  obtain ⟨-, hle, hbefore, hafter⟩ :=
    bisect_spec (p := fun i => oid < (ranges.getD i ⟨0, 0⟩).start) (Nat.le_add_left _ 0)
      (Nat.zero_le _) fun i j _ hij hj hi => by
        rw [getD_of_lt hj]
        rw [getD_of_lt (hij.trans_lt hj)] at hi
        exact hi.trans_le (h.getElem_le hij hj)
  generalize bisect (fun i => oid < (ranges.getD i ⟨0, 0⟩).start) ranges.length 0 ranges.length = n
    at hle hbefore hafter
  refine ⟨ranges.take n, ranges.drop n, ⟨(List.take_append_drop n ranges).symm, ?_, ?_⟩, ?_⟩
  · intro a ha
    obtain ⟨i, hi, rfl⟩ := List.mem_take_iff_getElem.1 ha
    have := hbefore i (Nat.zero_le i) (by omega)
    rw [getD_of_lt (by omega)] at this
    exact Nat.le_of_not_lt this
  · intro b hb
    obtain ⟨i, hi, rfl⟩ := List.mem_drop_iff_getElem.1 hb
    have := hafter (n + i) (by omega) (by omega)
    rwa [getD_of_lt (by omega)] at this
  · rw [List.length_take, Nat.min_eq_left hle]

theorem Sorted.lookupRange_cases (h : Sorted ranges) (oid : ℕ) :
    (lookupRange ranges oid = none ∧ SplitAt ranges oid [] ranges) ∨
      ∃ front a back, lookupRange ranges oid = some front.length ∧
        SplitAt ranges oid (front ++ [a]) back := by
  obtain ⟨front, back, hsplit, hlen⟩ := h.splitAt oid
  rw [lookupRange, hlen]
  rcases List.eq_nil_or_concat' front with rfl | ⟨init, a, rfl⟩
  · obtain rfl : ranges = back := hsplit.eq
    exact .inl ⟨rfl, hsplit⟩
  · refine .inr ⟨init, a, back, ?_, hsplit⟩
    rw [List.length_append]
    rfl

/-! ### Adding ranges -/

theorem newPlace_eq (ranges : List ObjectRange) (rng : ObjectRange) :
    newPlace ranges rng = lookupRangeFrom ranges rng.start ranges.length 0 ranges.length := by
  unfold newPlace lookupRange
  generalize lookupRangeFrom ranges rng.start ranges.length 0 ranges.length = n
  cases n with
  | zero | succ u => rfl

theorem insertIdx_length (front back : List ObjectRange) (rng : ObjectRange) :
    (front ++ back).insertIdx front.length rng = front ++ rng :: back := by
  induction front with
  | nil => rfl
  | cons a tl ih => rw [List.cons_append, List.length_cons, List.insertIdx_succ_cons, ih, List.cons_append]

/-- The checks look at the last range of the first part and at the first one of the second part. -/
theorem overlapReported_append (hplace : newPlace (front ++ back) rng = front.length) :
    overlapReported (front ++ back) rng ↔
      (∃ a ∈ front.getLast?, rng.start < a.fin) ∨ ∃ b ∈ back.head?, b.start < rng.fin := by
  unfold overlapReported
  rw [hplace]
  apply or_congr
  · rcases List.eq_nil_or_concat' front with rfl | ⟨init, a, rfl⟩
    · simp
    · simp [List.getD]
  · cases back with
    | nil => simp
    | cons b tl => simp [List.getD]

theorem Sorted.addRange (h : Sorted ranges) (hclear : ¬overlapReported ranges rng) :
    Sorted (addRange ranges rng) := by
  obtain ⟨front, back, ⟨rfl, hfront, hback⟩, hlen⟩ := h.splitAt rng.start
  have hplace : newPlace (front ++ back) rng = front.length := (newPlace_eq _ _).trans hlen
  rw [overlapReported_append hplace, not_or] at hclear
  rw [RangeKey.addRange, hplace, insertIdx_length]
  apply Ascending.insert h hfront fun b hb => (hback b hb).le
  · intro a ha
    exact Nat.le_of_not_lt fun hlt => hclear.1 ⟨a, ha, hlt⟩
  · intro b hb
    exact Nat.le_of_not_lt fun hlt => hclear.2 ⟨b, hb, hlt⟩

theorem mountRange_eq_ok (h : mountRange limit ranges rng = .ok ranges') : ranges' = addRange ranges rng := by
  unfold mountRange at h
  split at h
  · cases h
  · exact (Except.ok.inj h).symm

theorem Built.sorted (h : Built limit added ranges) : Sorted ranges := by
  induction h with
  | empty => exact ascending_nil
  | add _ _ _ hclear hadd ih =>
      rw [mountRange_eq_ok hadd]
      exact ih.addRange hclear

theorem Sorted.addRange_perm (h : Sorted ranges) (rng : ObjectRange) :
    (RangeKey.addRange ranges rng).Perm (rng :: ranges) := by
  obtain ⟨front, back, ⟨rfl, -, -⟩, hlen⟩ := h.splitAt rng.start
  have hplace : newPlace (front ++ back) rng = front.length := (newPlace_eq _ _).trans hlen
  rw [RangeKey.addRange, hplace, insertIdx_length]
  exact List.perm_middle

theorem Built.perm (h : Built limit added ranges) : ranges.Perm added := by
  induction h with
  | empty => exact .nil
  | add hbuilt _ _ _ hadd ih =>
      rw [mountRange_eq_ok hadd]
      exact (hbuilt.sorted.addRange_perm _).trans (ih.cons _)

theorem Built.fin_lt (h : Built limit added ranges) : ∀ a ∈ added, a.fin < wordSize := by
  induction h with
  | empty => simp
  | add _ _ hfin _ _ ih => exact List.forall_mem_cons.2 ⟨hfin, ih⟩

/-! ### Looking up an OID -/

/-- What is found is the range that contains the OID. -/
theorem Sorted.lookupOID_eq_some_iff (h : Sorted ranges) :
    lookupOID ranges oid = some rng ↔ rng ∈ ranges ∧ rng.Mounts oid := by
  rw [lookupOID]
  rcases h.lookupRange_cases oid with ⟨hnone, hsplit⟩ | ⟨front, a, back, hsome, rfl, hfront, hback⟩
  · rw [hnone]
    refine iff_of_false (by simp) ?_
    rintro ⟨hmem, hcov⟩
    exact absurd hcov.1 (Nat.not_le_of_lt (hsplit.lt_back rng hmem))
  · have hget : (front ++ [a] ++ back)[front.length]? = some a := by simp
    have hle : a.start ≤ oid := hfront a (by simp)
    rw [hsome, Option.bind_some, hget, Option.bind_some]
    constructor
    · intro heq
      split at heq
      · obtain rfl : a = rng := Option.some.inj heq
        exact ⟨by simp, hle, ‹_›⟩
      · cases heq
    · rintro ⟨hmem, hcov⟩
      -- only the last range that starts at or before the OID can contain it
      have hlast := Ascending.getLast?_of_covers h hback hfront hmem hcov
      obtain rfl : a = rng := by simpa using hlast
      exact if_pos hcov.2

theorem Sorted.lookupOID_eq_none_iff (h : Sorted ranges) :
    lookupOID ranges oid = none ↔ ¬Mounted ranges oid := by
  rw [Option.eq_none_iff_forall_ne_some]
  constructor
  · rintro hne ⟨rng, hmem, hcov⟩
    exact hne rng (h.lookupOID_eq_some_iff.2 ⟨hmem, hcov⟩)
  · intro hno rng hsome
    exact hno ⟨rng, h.lookupOID_eq_some_iff.1 hsome⟩

/-! ### The first subrange -/

/-- The answer that `objC_FindFirstSubrange` takes from a range. -/
def subrangeOf (limStart limLast : ℕ) (rng : ObjectRange) : Option (ℕ × ℕ) :=
  let subStart := max limStart rng.start
  let subLast := min limLast (sub64 rng.fin 1)
  if subLast < subStart then none else some (subStart, subLast)

theorem sub64_one {n : ℕ} (hpos : 0 < n) (hn : n < wordSize) : sub64 n 1 = n - 1 := by
  have heq : n + (wordSize - 1) = n - 1 + wordSize := by omega
  rw [sub64, heq, Nat.add_mod_right, Nat.mod_eq_of_lt (by omega)]

theorem not_mounted_before (h : Sorted (passed ++ rng :: rest)) (hpassed : ∀ a ∈ passed, a.fin ≤ limStart)
    (hlim : limStart ≤ oid) (hlt : oid < rng.start) : ¬Mounted (passed ++ rng :: rest) oid := by
  rintro ⟨a, ha, hcov⟩
  rcases List.mem_append.1 ha with ha | ha
  · exact absurd (hcov.2.trans_le (hpassed a ha)) (Nat.not_lt_of_ge hlim)
  · obtain ⟨hfirst, -⟩ := ascending_cons.1 (ascending_append.1 h).2.1
    rcases List.mem_cons.1 ha with rfl | ha
    · exact absurd hcov.1 (Nat.not_le_of_lt hlt)
    · exact absurd ((hfirst a ha).1.trans hcov.1) (Nat.not_le_of_lt hlt)

/-- The answer is right if it is taken from the first range that ends after the start of the limits. -/
theorem findsFirst_of_head (h : Sorted (passed ++ rest)) (hpassed : ∀ a ∈ passed, a.fin ≤ limStart)
    (hrest : ∀ a ∈ rest, limStart < a.fin) (hne : ∀ a ∈ rest, a.start < a.fin)
    (hword : ∀ a ∈ rest, a.fin < wordSize) :
    FindsFirst (passed ++ rest) limStart limLast (rest.head?.bind (subrangeOf limStart limLast)) := by
  cases rest with
  | nil =>
      rintro oid hstart - ⟨a, ha, hcov⟩
      rw [List.append_nil] at ha
      exact absurd (hcov.2.trans_le (hpassed a ha)) (Nat.not_lt_of_ge hstart)
  | cons rng tl =>
      have hend := hrest rng (by simp)
      have hlt := hne rng (by simp)
      have hsub : sub64 rng.fin 1 = rng.fin - 1 := sub64_one (by omega) (hword rng (by simp))
      simp only [List.head?_cons, Option.bind_some, subrangeOf, hsub]
      split
      · -- the range starts after the last OID of the limits
        intro oid hstart hlast
        exact not_mounted_before h hpassed hstart (by omega)
      · refine ⟨by omega, fun oid hstart hbefore => ?_, rng, by simp, fun oid => ?_⟩
        · exact not_mounted_before h hpassed hstart (by omega)
        · unfold ObjectRange.Mounts Covers
          omega

theorem findFirstSubrange_eq (ranges : List ObjectRange) (limStart limLast : ℕ) :
    findFirstSubrange ranges limStart limLast =
      (candidateRange ranges limStart).bind (subrangeOf limStart limLast) := rfl

/-- What `objC_FindFirstSubrange` finds in a table of ranges that are not empty, unless the limits start
at an OID where a range ends and none starts. -/
theorem Sorted.findsFirst (h : Sorted ranges) (hne : ∀ a ∈ ranges, a.start < a.fin)
    (hword : ∀ a ∈ ranges, a.fin < wordSize)
    (hlim : ∀ a ∈ ranges, a.fin = limStart → Mounted ranges limStart) :
    FindsFirst ranges limStart limLast (findFirstSubrange ranges limStart limLast) := by
  rw [findFirstSubrange_eq, candidateRange]
  rcases h.lookupRange_cases limStart with ⟨hnone, hsplit⟩ | ⟨front, a, back, hsome, rfl, hfront, hback⟩
  · rw [hnone]
    have hhead : ranges[0]? = ranges.head? := List.head?_eq_getElem?.symm
    rw [hhead]
    have hend : ∀ b ∈ ranges, limStart < b.fin := fun b hb => (hsplit.lt_back b hb).trans (hne b hb)
    have hsorted : Sorted ([] ++ ranges) := h
    exact findsFirst_of_head hsorted (by simp) hend hne hword
  · have hget : (front ++ [a] ++ back).getD front.length ⟨0, 0⟩ = a := by simp [List.getD]
    have hend : ∀ b ∈ back, limStart < b.fin := fun b hb =>
      (hback b hb).trans (hne b (List.mem_append_right _ hb))
    -- the last range that starts at or before the limits, and ends there, would contain their start
    have hfin : a.fin ≠ limStart := by
      intro heq
      obtain ⟨b, hb, hcov⟩ := hlim a (by simp) heq
      have hlast := Ascending.getLast?_of_covers h hback hfront hb hcov
      obtain rfl : a = b := by simpa using hlast
      exact absurd hcov.2 (by omega)
    have hpassed : ∀ b ∈ front, b.fin ≤ limStart := fun b hb =>
      ((ascending_append.1 (ascending_append.1 h).1).2.2 b hb a (by simp)).2.trans (hfront a (by simp))
    rw [hsome]
    dsimp only
    rw [hget]
    split
    · have hnext : (front ++ [a] ++ back)[front.length + 1]? = back.head? := by
        rw [List.head?_eq_getElem?, List.getElem?_append_right (by simp)]
        simp
      rw [hnext]
      apply findsFirst_of_head h _ hend (fun b hb => hne b (List.mem_append_right _ hb))
        fun b hb => hword b (List.mem_append_right _ hb)
      intro b hb
      rcases List.mem_append.1 hb with hb | hb
      · exact hpassed b hb
      · obtain rfl : b = a := by simpa using hb
        omega
    · have hnext : (front ++ [a] ++ back)[front.length]? = (a :: back).head? := by simp
      rw [hnext]
      rw [List.append_assoc, List.singleton_append] at h hne hword ⊢
      apply findsFirst_of_head h hpassed _ (fun b hb => hne b (List.mem_append_right _ hb))
        fun b hb => hword b (List.mem_append_right _ hb)
      exact List.forall_mem_cons.2 ⟨by omega, hend⟩

/-- The table is sorted and disjoint and holds what was added. `LookupOID` finds the range that contains
the OID, and `objC_FindFirstSubrange` what the first range with OIDs between the limits has there. -/
theorem rangeTable_lookup (h : Built limit added ranges) :
    ranges.Perm added ∧ ranges.Pairwise (fun a b => a.start ≤ b.start ∧ a.fin ≤ b.start) ∧
      (∀ oid rng, lookupOID ranges oid = some rng ↔ rng ∈ ranges ∧ rng.Mounts oid) ∧
      (∀ oid, lookupOID ranges oid = none ↔ ¬Mounted ranges oid) ∧
      ∀ limStart limLast, (∀ a ∈ ranges, a.start < a.fin) →
        (∀ a ∈ ranges, a.fin = limStart → Mounted ranges limStart) →
          FindsFirst ranges limStart limLast (findFirstSubrange ranges limStart limLast) := by
  refine ⟨h.perm, h.sorted, fun oid rng => h.sorted.lookupOID_eq_some_iff,
    fun oid => h.sorted.lookupOID_eq_none_iff, fun limStart limLast hne hlim => ?_⟩
  exact h.sorted.findsFirst hne (fun a ha => h.fin_lt a (h.perm.subset ha)) hlim

theorem built_adjoining : Built ktuneNRngTblEnts [⟨512, 768⟩, ⟨256, 512⟩] [⟨256, 512⟩, ⟨512, 768⟩] :=
  .add (.add .empty (by decide) (by decide) (by decide) rfl) (by decide) (by decide) (by decide) rfl

/-- The first of two adjoining ranges is found, and for limits that start with the second one, that one. -/
theorem rangeTable_lookup_adjoining :
    lookupOID [⟨256, 512⟩, ⟨512, 768⟩] 512 = some ⟨512, 768⟩ ∧
      FindsFirst [⟨256, 512⟩, ⟨512, 768⟩] 512 600
        (findFirstSubrange [⟨256, 512⟩, ⟨512, 768⟩] 512 600) := by
  obtain ⟨-, -, hlookup, -, hfinds⟩ := rangeTable_lookup built_adjoining
  refine ⟨(hlookup 512 ⟨512, 768⟩).2 ⟨by decide, by decide⟩, ?_⟩
  exact hfinds 512 600 (by decide) (by decide)

theorem built_apart : Built ktuneNRngTblEnts [⟨768, 1024⟩, ⟨256, 512⟩] [⟨256, 512⟩, ⟨768, 1024⟩] :=
  .add (.add .empty (by decide) (by decide) (by decide) rfl) (by decide) (by decide) (by decide) rfl

theorem built_vacant : Built ktuneNRngTblEnts [⟨512, 768⟩, ⟨256, 256⟩] [⟨256, 256⟩, ⟨512, 768⟩] :=
  .add (.add .empty (by decide) (by decide) (by decide) rfl) (by decide) (by decide) (by decide) rfl

/-- The subrange that is found is not maximal where ranges adjoin each other. Nothing is found from the
end of a range on, or if the next range is empty, though a later range is mounted. -/
theorem findFirstSubrange_not_maximal :
    (∃ added ranges, Built ktuneNRngTblEnts added ranges ∧
        ¬FindsMaximal ranges 256 767 (findFirstSubrange ranges 256 767)) ∧
      (∃ added ranges, Built ktuneNRngTblEnts added ranges ∧
        ¬FindsMaximal ranges 512 1023 (findFirstSubrange ranges 512 1023)) ∧
      ∃ added ranges, Built ktuneNRngTblEnts added ranges ∧
        ¬FindsMaximal ranges 0 1023 (findFirstSubrange ranges 0 1023) := by
  refine ⟨?_, ?_, ?_⟩
  · refine ⟨_, _, built_adjoining, ?_⟩
    have heq : findFirstSubrange [⟨256, 512⟩, ⟨512, 768⟩] 256 767 = some (256, 511) := by decide
    rw [heq]
    rintro ⟨-, -, -, -, -, hlast | hnext⟩
    · exact absurd hlast (by decide)
    · exact hnext (by decide)
  · refine ⟨_, _, built_apart, ?_⟩
    have heq : findFirstSubrange [⟨256, 512⟩, ⟨768, 1024⟩] 512 1023 = none := by decide
    rw [heq]
    intro hnone
    exact hnone 768 (by decide) (by decide) (by decide)
  · refine ⟨_, _, built_vacant, ?_⟩
    have heq : findFirstSubrange [⟨256, 256⟩, ⟨512, 768⟩] 0 1023 = none := by decide
    rw [heq]
    intro hnone
    exact hnone 512 (by decide) (by decide) (by decide)

end CapROS.RangeKey
