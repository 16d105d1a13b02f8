import CapROS.RangeKey.Confinement

/-!
# Comparing Range keys

The request `compare` tells how the range of a key in the message lies to that of the invoked key: not
at all, starting later, at the same OID, or earlier. It reports how far apart the two starts are, which
for a range that starts earlier is not an offset into the invoked range, and it reports no length.

* `compare_reports`: what the answer says about the common OIDs, unless the first OID of the invoked
  range is the last one of the other range.
-/

namespace CapROS.RangeKey

open Yielding

/-- The OIDs that two ranges have in common. -/
def common (rng other : Range) : Set ℕ := {oid | rng.Contains oid ∧ other.Contains oid}

/-- The 64-bit offset that the words `w2` and `w3` of an answer make up. -/
def Reply.offset (r : Reply) : ℕ := r.w3 * 2 ^ 32 + r.w2

/-- The answer reports an overlap exactly if the two ranges have an OID in common, and the offset is
then that of the first common OID in the invoked range. -/
def ComparesTo (rng other : Range) (r : Reply) : Prop :=
  (r.w1 ≠ 0 ↔ (common rng other).Nonempty) ∧
    ∀ first, IsLeast (common rng other) first → rng.start + r.offset = first

/-- The answer reports an overlap exactly if the two ranges have an OID in common. It reports then
which range starts first, and the offset of the first common OID in that range. -/
structure ReportsOverlap (rng other : Range) (r : Reply) : Prop where
  code : r.code = .ok
  overlap : r.w1 ≠ 0 ↔ (common rng other).Nonempty
  earlier : (common rng other).Nonempty → (r.w1 = 3 ↔ other.start < rng.start)
  offset : ∀ first, IsLeast (common rng other) first →
    (if r.w1 = 3 then other.start else rng.start) + r.offset = first

variable {layer : ObjectLayer} {rng other : Range} {key k : Key} {first : ℕ}

theorem common_nonempty_iff : (common rng other).Nonempty ↔
    other.start ≤ rng.last ∧ rng.start ≤ other.last := by
  have hrng := rng.start_le_last
  have hother := other.start_le_last
  constructor
  · rintro ⟨oid, ⟨h₁, h₂⟩, h₃, h₄⟩
    exact ⟨h₃.trans h₂, h₁.trans h₄⟩
  · rintro ⟨h₁, h₂⟩
    exact ⟨max rng.start other.start, ⟨le_max_left _ _, max_le hrng h₁⟩, le_max_right _ _,
      max_le h₂ hother⟩

theorem isLeast_common_iff (h : (common rng other).Nonempty) :
    IsLeast (common rng other) first ↔ first = max rng.start other.start := by
  have hrng := rng.start_le_last
  have hother := other.start_le_last
  obtain ⟨h₁, h₂⟩ := common_nonempty_iff.1 h
  have hleast : IsLeast (common rng other) (max rng.start other.start) := by
    refine ⟨⟨⟨le_max_left _ _, max_le hrng h₁⟩, le_max_right _ _, max_le h₂ hother⟩, ?_⟩
    rintro oid ⟨hin, hin'⟩
    exact max_le hin.1 hin'.1
  constructor
  · intro hfirst
    exact hfirst.unique hleast
  · rintro rfl
    exact hleast

theorem ReportsOverlap.of_disjoint {r : Reply} (hcode : r.code = .ok) (hw : r.w1 = 0)
    (h : ¬(common rng other).Nonempty) : ReportsOverlap rng other r where
  code := hcode
  overlap := iff_of_false (by simp [hw]) h
  earlier hne := absurd hne h
  offset first hfirst := absurd ⟨first, hfirst.1⟩ h

theorem ReportsOverlap.of_meet {r : Reply} (hcode : r.code = .ok) (hw : r.w1 ≠ 0)
    (h : (common rng other).Nonempty) (hearlier : r.w1 = 3 ↔ other.start < rng.start)
    (hoffset : r.offset = max rng.start other.start - min rng.start other.start) :
    ReportsOverlap rng other r where
  code := hcode
  overlap := iff_of_true hw h
  earlier _ := hearlier
  offset first hfirst := by
    rw [(isLeast_common_iff h).1 hfirst, hoffset]
    by_cases hlt : other.start < rng.start
    · rw [if_pos (hearlier.2 hlt), max_eq_left hlt.le, min_eq_right hlt.le]
      exact Nat.add_sub_cancel' hlt.le
    · have hle := Nat.le_of_not_lt hlt
      rw [if_neg (mt hearlier.1 hlt), max_eq_right hle, min_eq_left hle]
      exact Nat.add_sub_cancel' hle

theorem compare_eq (hk : keyGetRange k = .ok (other.start, other.last))
    (htype : k.keyType = .range ∨ k.keyType = .primeRange) (htouch : other.last ≠ rng.start) :
    ∃ r, compare rng k = pure r ∧ ReportsOverlap rng other r := by
  have hknown : ¬(k.keyType ≠ .range ∧ k.keyType ≠ .primeRange) := fun hne => htype.elim hne.1 hne.2
  unfold compare
  rw [if_neg hknown, hk]
  dsimp only
  by_cases hmeet : (common rng other).Nonempty
  · obtain ⟨h₁, h₂⟩ := common_nonempty_iff.1 hmeet
    rw [if_neg (by omega)]
    rcases Nat.lt_trichotomy other.start rng.start with hlt | heq | hgt
    · rw [if_pos hlt]
      refine ⟨_, rfl, .of_meet rfl (by simp) hmeet (iff_of_true rfl hlt) ?_⟩
      rw [Reply.offset, Nat.div_add_mod', max_eq_left hlt.le, min_eq_right hlt.le]
    · rw [if_neg (by omega), if_pos heq]
      refine ⟨_, rfl, .of_meet rfl (by simp) hmeet (iff_of_false (by simp) (by omega)) ?_⟩
      rw [heq, max_self, min_self, Nat.sub_self]
      rfl
    · rw [if_neg (by omega), if_neg (by omega)]
      refine ⟨_, rfl, .of_meet rfl (by simp) hmeet (iff_of_false (by simp) (by omega)) ?_⟩
      rw [Reply.offset, Nat.div_add_mod', max_eq_right hgt.le, min_eq_left hgt.le]
  · -- one range lies before the other, and does not even touch it
    have hapart := mt common_nonempty_iff.2 hmeet
    rw [if_pos (by omega)]
    exact ⟨_, rfl, .of_disjoint rfl rfl hmeet⟩

/-- The request `compare` with a key to a range, or with the prime range key, reports whether that
range and the invoked one overlap, which of them starts first, and where in that one the overlap
starts, unless the first OID of the invoked range is the last one of the other range. -/
theorem compare_reports (hprep : layer.prepareKey key = some k)
    (hk : keyGetRange k = .ok (other.start, other.last))
    (htype : k.keyType = .range ∨ k.keyType = .primeRange) (htouch : other.last ≠ rng.start) :
    ∃ r, rangeKey layer rng (.compare key) [] = .done r [] ∧ ReportsOverlap rng other r := by
  obtain ⟨r, hrun, hr⟩ := compare_eq hk htype htouch
  refine ⟨r, ?_, hr⟩
  simp only [rangeKey, hprep, ofOption_some, bind_apply, pure_apply, andThen_done, hrun]

/-- The fifteen frames before the middle of the ten frames. -/
def fifteenFrames : Range where
  start := firstPersistentOID + frameToOID 90
  last := firstPersistentOID + frameToOID 105 - 1
  start_le_last := by decide
  last_lt := by decide
  not_all := by decide

/-- The key to the fifteen frames. -/
def fifteenFramesKey : Key :=
  ⟨.range, 0, 0, .range (firstPersistentOID + frameToOID 90) (frameToOID 15)⟩

theorem compare_reports_fifteenFrames :
    ∃ r, rangeKey diskOfPages tenFrames (.compare fifteenFramesKey) [] = .done r [] ∧
      ReportsOverlap tenFrames fifteenFrames r :=
  compare_reports rfl rfl (.inl rfl) (by decide)

/-- The answer for a range that starts ten frames before the invoked one has the offset of the invoked
range in it. -/
theorem compare_earlier :
    ¬∀ (layer : ObjectLayer) (rng other : Range) (key k : Key), layer.prepareKey key = some k →
      keyGetRange k = .ok (other.start, other.last) → ∀ r,
        rangeKey layer rng (.compare key) [] = .done r [] → ComparesTo rng other r := by
  intro h
  have hc := h diskOfPages tenFrames fifteenFrames fifteenFramesKey fifteenFramesKey rfl rfl
    { code := .ok, w1 := 3, w2 := 2560, w3 := 0 } rfl
  have hmeet : (common tenFrames fifteenFrames).Nonempty := common_nonempty_iff.2 (by decide)
  have hoff := hc.2 _ ((isLeast_common_iff hmeet).2 rfl)
  exact absurd hoff (by decide)

end CapROS.RangeKey
