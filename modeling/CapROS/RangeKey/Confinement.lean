import CapROS.RangeKey.Basic

/-!
# Confinement of Range keys

A request to a Range key is confined to the key's range if and only if its offset does not wrap
around to an OID below the range, and, for `retypeFrame`, the objects of the frame all belong to
the range.

* `confined_iff_withinRange`: the exact condition, for every request.
* `getCap_not_confined`: a request that gives out a key to an object outside the range.
-/

namespace CapROS.RangeKey

open Yielding

/-! ## 64-bit arithmetic -/

theorem add64_lt (a b : ℕ) : add64 a b < wordSize := Nat.mod_lt _ (by decide)

variable {a b : ℕ}

theorem sub64_of_le (h : b ≤ a) (ha : a < wordSize) : sub64 a b = a - b := by
  unfold sub64
  rw [show a + (wordSize - b) = a - b + wordSize by omega, Nat.add_mod_right]
  exact Nat.mod_eq_of_lt (by omega)

theorem add64_of_lt (h : a + b < wordSize) : add64 a b = a + b := Nat.mod_eq_of_lt h

theorem add64_sub64 (ha : a < wordSize) (hb : b < wordSize) :
    add64 b (sub64 a b) = a := by
  unfold add64 sub64
  rw [Nat.add_mod_mod, show b + (a + (wordSize - b)) = a + wordSize by omega, Nat.add_mod_right]
  exact Nat.mod_eq_of_lt ha

/-- The keys that a Range key's words stand for: every one of them covers a `Range`, so that what
holds of every `Range` holds of every Range key. A key made by `makeSubrange` does not wrap. -/
theorem exists_range_of_key (k : Key)
    (h : k.keyType = .primeRange ∨ k.keyType = .physRange ∨
      k.keyType = .range ∧ ∃ oid count, k.body = .range oid count ∧ 0 < count ∧
        count ≤ uint32Max ∧ oid + count ≤ wordSize) :
    ∃ rng : Range, keyGetRange k = .ok (rng.start, rng.last) := by
  obtain ⟨keyType, keyPerms, keyData, body⟩ := k
  rcases h with h | h | ⟨h, oid, count, hb, hpos, hmax, hwrap⟩
  · obtain rfl : keyType = .primeRange := h
    exact ⟨⟨0, oidReservedPhysRange - 1, by decide, by decide, by decide⟩, rfl⟩
  · obtain rfl : keyType = .physRange := h
    exact ⟨⟨oidReservedPhysRange, wordSize - 1, by decide, by decide, by decide⟩, rfl⟩
  · obtain rfl : keyType = .range := h
    obtain rfl : body = .range oid count := hb
    have hlast : sub64 (add64 oid count) 1 = oid + count - 1 := by
      rcases Nat.eq_or_lt_of_le hwrap with heq | hlt
      · rw [add64, heq, Nat.mod_self]
        decide
      · rw [add64_of_lt hlt, sub64_of_le (by omega) hlt]
    refine ⟨⟨oid, oid + count - 1, by omega, by omega, fun h0 => ?_⟩, ?_⟩
    · unfold uint32Max at hmax
      unfold wordSize
      omega
    · simp only [keyGetRange, kassert_pos hpos, ok_bind, hlast]

/-! ## Handlers that reach one object -/

section OneObject

variable {rng : Range} {oid : ℕ} {layer : ObjectLayer}

/-- Some object was reached, and no other than `oid`. -/
def ReachesOnly (oid : ℕ) (l : List Access) : Prop := l ≠ [] ∧ ∀ a ∈ l, a.oid = oid

theorem ReachesOnly.accessesIn_iff {l : List Access} (h : ReachesOnly oid l) :
    AccessesIn rng l ↔ rng.Contains oid := by
  obtain ⟨hne, hall⟩ := h
  constructor
  · intro hin
    obtain ⟨a, ha⟩ := List.exists_mem_of_ne_nil l hne
    exact hall a ha ▸ hin a ha
  · intro hc a ha
    rw [hall a ha]
    exact hc

variable {a : Access}

theorem preserves_access (ha : a.oid = oid) :
    Preserves (ReachesOnly oid) (access a) := by
  refine preserves_modify fun l hl => ⟨by simp, fun b hb => ?_⟩
  rcases List.mem_append.1 hb with hb | hb
  · exact hl.2 b hb
  · rw [List.mem_singleton.1 hb, ha]

theorem reachesOnly_access (ha : a.oid = oid) : ReachesOnly oid ([] ++ [a]) :=
  ⟨by simp, by simp [ha]⟩

theorem preserves_ensureWritable : Preserves (ReachesOnly oid) (ensureWritable layer oid) :=
  preserves_bind (preserves_access rfl) fun _ => preserves_ofOption _

theorem preserves_initNodeIf (needed : Bool) :
    Preserves (ReachesOnly oid) (initNodeIf layer oid needed) := by
  unfold initNodeIf
  split
  · exact preserves_bind preserves_ensureWritable fun _ => preserves_access rfl
  · exact preserves_pure ()

theorem preserves_makeUnpreparedKey (kkt : KeyType) :
    Preserves (ReachesOnly oid) (makeUnpreparedKey layer oid kkt) :=
  preserves_bind (preserves_access rfl) fun _ =>
    preserves_bind (preserves_ofOption _) fun _ => preserves_pure _

theorem preserves_makePreparedKey (kkt : KeyType) :
    Preserves (ReachesOnly oid) (makePreparedKey layer oid kkt) :=
  preserves_bind (preserves_access rfl) fun _ =>
    preserves_bind (preserves_ofOption _) fun _ =>
      preserves_bind (preserves_initNodeIf _) fun _ => preserves_pure _

theorem preserves_makeKey (kkt : KeyType) :
    Preserves (ReachesOnly oid) (makeKey layer oid kkt) := by
  unfold makeKey
  split
  · exact preserves_makePreparedKey kkt
  · exact preserves_makeUnpreparedKey kkt

theorem reachesOnly_of_access {α : Type} (ha : a.oid = oid) {m : Handler α}
    (hm : Preserves (ReachesOnly oid) m) :
    ReachesOnly oid ((access a >>= fun _ => m) []).state :=
  hm _ (reachesOnly_access ha)

theorem makeKeyTo_reachesOnly (baseType : ℕ) (kkt : KeyType) (hasSlot : Bool) :
    ReachesOnly oid (makeKeyTo layer oid baseType kkt hasSlot []).state := by
  refine reachesOnly_of_access rfl (preserves_bind (preserves_ofOption _) fun objType => ?_)
  split
  · exact preserves_pure _
  · exact preserves_bind (preserves_makeKey kkt) fun _ => preserves_pure _

theorem getFrameCounts_reachesOnly {offset : ℕ} (h : ¬add64 offset rng.start > rng.last) :
    ReachesOnly (add64 offset rng.start) (getFrameCounts layer rng offset []).state := by
  simp only [getFrameCounts, if_neg h]
  refine reachesOnly_of_access rfl (preserves_bind (preserves_ofOption _) fun objType => ?_)
  refine preserves_bind (preserves_access rfl) fun _ =>
    preserves_bind (preserves_ofOption _) fun allocCount => ?_
  split
  · exact preserves_bind (preserves_access rfl) fun _ =>
      preserves_bind (preserves_ofOption _) fun _ => preserves_pure _
  · exact preserves_pure _

theorem makeKey_sat (kkt : KeyType) (l : List Access) :
    (makeKey layer oid kkt l).Sat (fun k _ => rng.Contains oid → KeyIn rng k) (fun _ => True)
      fun _ _ => True := by
  have hunprep : ∀ count, rng.Contains oid → KeyIn rng (newObjectKey kkt (.unprep oid count)) := by
    intro count h
    unfold newObjectKey
    split <;> exact h
  have hprep : rng.Contains oid → KeyIn rng (newObjectKey kkt (.prep oid)) := by
    intro h
    unfold newObjectKey
    split <;> exact h
  unfold makeKey
  split
  · refine sat_bind (R := fun _ _ => True) trivial fun _ _ _ => ?_
    refine sat_bind (R := fun _ _ => True) (sat_true _ _) fun _ _ _ => ?_
    exact sat_bind (R := fun _ _ => True) (sat_true _ _) fun _ _ _ => hprep
  · refine sat_bind (R := fun _ _ => True) trivial fun _ _ _ => ?_
    exact sat_bind (R := fun _ _ => True) (sat_true _ _) fun count _ _ => hunprep count

end OneObject

/-! ## Each request -/

section Requests

variable {layer : ObjectLayer} {rng : Range}

theorem accessesIn_nil : AccessesIn rng [] := fun _ h => absurd h List.not_mem_nil

variable {r : Reply} {req : Request}

theorem Reply.in_of_code (hkey : r.key = none) (hcode : r.code ≠ .ok) :
    r.In rng req :=
  ⟨fun k hk => absurd (hkey.symm.trans hk) (by simp), fun h => absurd h hcode⟩

theorem confined_of_pure (h : rangeKey layer rng req = pure r)
    (hr : r.In rng req) : Confined layer rng req := by
  unfold Confined
  rw [h]
  exact ⟨accessesIn_nil, hr⟩

theorem Confined.accessesIn (h : Confined layer rng req) :
    AccessesIn rng (rangeKey layer rng req []).state :=
  Outcome.sat_state.1 (h.mono (fun _ _ hd => hd.1) (fun _ hy => hy) fun _ _ he => he)

theorem confined_of_accessesIn (h : AccessesIn rng (rangeKey layer rng req []).state)
    (hr : (rangeKey layer rng req []).Sat (fun r _ => r.In rng req) (fun _ => True)
      fun _ _ => True) : Confined layer rng req := by
  unfold Confined
  cases hrun : rangeKey layer rng req [] with
  | done r l =>
    rw [hrun] at h hr
    exact ⟨h, hr⟩
  | yield l | halt e l =>
    rw [hrun] at h
    exact h

theorem confined_getCap_iff (wait : Bool) (w1 w2 w3 : BitVec 32) (hasSlot : Bool) :
    Confined layer rng (.getCap wait w1 w2 w3 hasSlot) ↔
      WithinRange layer rng (.getCap wait w1 w2 w3 hasSlot) := by
  set oid := add64 rng.start (wordOffset w2 w3)
  set baseType := baseTypeOf w1.toNat
  -- the checks that turn the request down, in the order of the source
  have hreject : ∀ h : rangeKey layer rng (.getCap wait w1 w2 w3 hasSlot) =
      pure { code := .rangeErr }, Confined layer rng (.getCap wait w1 w2 w3 hasSlot) :=
    fun h => confined_of_pure h (Reply.in_of_code rfl (by simp))
  by_cases hot : w1.toNat < otNUMTYPES
  swap
  · exact iff_of_true (hreject (if_pos (Nat.le_of_not_lt hot))) fun h => absurd h hot
  have hrun : rangeKey layer rng (.getCap wait w1 w2 w3 hasSlot) =
      makeObjectKey layer rng (wordOffset w2 w3) wait baseType (obKKT w1.toNat) hasSlot :=
    if_neg (Nat.not_le_of_lt hot)
  by_cases hlast : oid ≤ rng.last
  swap
  · exact iff_of_true (hreject (hrun.trans (if_pos (Nat.lt_of_not_le hlast))))
      fun _ h => absurd h hlast
  by_cases hndx : wordOffset w2 w3 % erosObjectsPerFrame < objectsPerFrame layer baseType
  swap
  · refine iff_of_true (hreject (hrun.trans ?_)) fun _ _ h => absurd h hndx
    simp only [makeObjectKey]
    rw [if_neg (Nat.not_lt_of_le hlast), if_pos (Nat.le_of_not_lt hndx)]
  by_cases hsource : wait ∨ haveSource layer oid
  swap
  · refine iff_of_true (hreject (hrun.trans ?_)) fun _ _ _ h => absurd h hsource
    simp only [makeObjectKey]
    rw [if_neg (Nat.not_lt_of_le hlast), if_neg (Nat.not_le_of_lt hndx), if_pos]
    simpa [not_or] using hsource
  -- what is left is to make the key
  have hkey : rangeKey layer rng (.getCap wait w1 w2 w3 hasSlot) =
      makeKeyTo layer oid baseType (obKKT w1.toNat) hasSlot := by
    rw [hrun]
    simp only [makeObjectKey]
    rw [if_neg (Nat.not_lt_of_le hlast), if_neg (Nat.not_le_of_lt hndx), if_neg]
    rcases hsource with h | h <;> simp [h, oid]
  have hreach : ReachesOnly oid
      (makeKeyTo layer oid baseType (obKKT w1.toNat) hasSlot []).state :=
    makeKeyTo_reachesOnly _ _ _
  constructor
  · intro h _ _ _ _
    have hin := h.accessesIn
    rw [hkey, hreach.accessesIn_iff] at hin
    exact hin.1
  · intro h
    have hin : rng.Contains oid := ⟨h hot hlast hndx hsource, hlast⟩
    refine confined_of_accessesIn ?_ ?_
    · rw [hkey]
      exact hreach.accessesIn_iff.2 hin
    · rw [hkey]
      refine sat_bind (R := fun _ _ => True) trivial fun _ _ _ => ?_
      refine sat_bind (R := fun _ _ => True) (sat_true _ _) fun objType _ _ => ?_
      split
      · exact ⟨fun k hk => absurd hk (by simp), fun _ => trivial⟩
      · refine sat_bind (makeKey_sat _ _) fun k _ (hk : rng.Contains oid → KeyIn rng k) =>
          ⟨fun k' hk' => ?_, fun _ => trivial⟩
        cases hasSlot with
        | false => simp at hk'
        | true =>
          obtain rfl : k = k' := by simpa using hk'
          exact hk hin

theorem confined_getFrameCounts_iff (w1 w2 : BitVec 32) :
    Confined layer rng (.getFrameCounts w1 w2) ↔ WithinRange layer rng (.getFrameCounts w1 w2) := by
  by_cases hlast : add64 (wordOffset w1 w2) rng.start ≤ rng.last
  swap
  · refine iff_of_true (confined_of_pure (r := { code := .rangeErr }) ?_ ?_) fun h => absurd h hlast
    · exact if_pos (Nat.lt_of_not_le hlast)
    · exact Reply.in_of_code rfl (by simp)
  have hreach : ReachesOnly (add64 (wordOffset w1 w2) rng.start)
      (getFrameCounts layer rng (wordOffset w1 w2) []).state :=
    getFrameCounts_reachesOnly (Nat.not_lt_of_le hlast)
  constructor
  · intro h _
    exact (hreach.accessesIn_iff.1 h.accessesIn).1
  · intro h
    refine confined_of_accessesIn (hreach.accessesIn_iff.2 ⟨h hlast, hlast⟩) ?_
    simp only [rangeKey, getFrameCounts, if_neg (Nat.not_lt_of_le hlast)]
    refine sat_bind (R := fun _ _ => True) trivial fun _ _ _ => ?_
    refine sat_bind (R := fun _ _ => True) (sat_true _ _) fun objType _ _ => ?_
    refine sat_bind (R := fun _ _ => True) trivial fun _ _ _ => ?_
    refine sat_bind (R := fun _ _ => True) (sat_true _ _) fun allocCount _ _ => ?_
    split
    · refine sat_bind (R := fun _ _ => True) trivial fun _ _ _ => ?_
      refine sat_bind (R := fun _ _ => True) (sat_true _ _) fun callCount _ _ => ?_
      exact ⟨fun k hk => absurd hk (by simp), fun _ => trivial⟩
    · exact ⟨fun k hk => absurd hk (by simp), fun _ => trivial⟩

theorem findFirstSubrange_bounds {ranges : List ObjectRange} {limStart limLast a b : ℕ}
    (h : findFirstSubrange ranges limStart limLast = some (a, b)) :
    limStart ≤ a ∧ a ≤ b ∧ b ≤ limLast := by
  unfold findFirstSubrange at h
  cases hc : candidateRange ranges limStart with
  | none => simp [hc] at h
  | some r =>
    simp only [hc, Option.bind_some] at h
    split at h
    · cases h
    · obtain ⟨rfl, rfl⟩ := Prod.mk.inj (Option.some.inj h)
      omega

theorem confined_nextSubrange_iff (w1 w2 : BitVec 32) :
    Confined layer rng (.nextSubrange w1 w2) ↔ WithinRange layer rng (.nextSubrange w1 w2) := by
  have hlt := rng.last_lt
  have hstart : rng.start < wordSize := Nat.lt_of_le_of_lt rng.start_le_last hlt
  simp only [WithinRange, Confined, rangeKey, pure_apply, nextSubrange]
  by_cases hlast : add64 (wordOffset w1 w2) rng.start ≤ rng.last
  swap
  · rw [if_pos (Nat.lt_of_not_le hlast)]
    exact iff_of_true ⟨accessesIn_nil, Reply.in_of_code rfl (by simp)⟩ fun h => absurd h hlast
  rw [if_neg (Nat.not_lt_of_le hlast)]
  cases hfind : findFirstSubrange layer.obRanges (add64 (wordOffset w1 w2) rng.start) rng.last with
  | none =>
    refine iff_of_true ⟨accessesIn_nil, Reply.in_of_code rfl (by simp)⟩ ?_
    intro _ a b hab
    cases hab
  | some sub =>
    obtain ⟨a, b⟩ := sub
    obtain ⟨-, hab, hb⟩ := findFirstSubrange_bounds hfind
    -- the receiver of the offset gets back to the start of the subrange
    have hback : add64 rng.start (sub64 a rng.start / 2 ^ 32 * 2 ^ 32 + sub64 a rng.start % 2 ^ 32)
        = a := by
      rw [Nat.div_add_mod']
      exact add64_sub64 (by omega) hstart
    constructor
    · rintro ⟨-, hin⟩ _ a' b' hab'
      obtain ⟨rfl, rfl⟩ := Prod.mk.inj (Option.some.inj hab')
      have h0 := hin.2 rfl 0 (by simp [uint32Max])
      rw [hback, add64_of_lt (by omega), Nat.add_zero] at h0
      exact h0.1
    · intro h
      have ha := h hlast a b rfl
      refine ⟨accessesIn_nil, fun k hk => absurd hk (by simp), fun _ i hi => ?_⟩
      have hi' : i < b - a + 1 := Nat.lt_of_lt_of_le hi (Nat.min_le_left _ _)
      rw [hback, add64_of_lt (by omega)]
      constructor <;> omega

theorem confined_makeSubrange (w1 w2 w3 : BitVec 32) (hasSlot : Bool) :
    Confined layer rng (.makeSubrange w1 w2 w3 hasSlot) := by
  refine ⟨accessesIn_nil, ?_⟩
  simp only [makeSubrange]
  set newStart := add64 (wordOffset w1 w2) rng.start
  set newLast := sub64 (add64 w3.toNat newStart) 1 with hnewLast
  split
  · exact Reply.in_of_code rfl (by simp)
  · rename_i hchecks
    simp only [not_or, Nat.not_lt] at hchecks
    obtain ⟨hge, hle, hlast⟩ := hchecks
    refine ⟨fun k hk => ?_, fun _ => trivial⟩
    cases hasSlot with
    | false => simp at hk
    | true =>
      obtain rfl : (⟨.range, 0, 0, .range newStart w3.toNat⟩ : Key) = k := by simpa using hk
      have hpos : 0 < w3.toNat := by
        -- a length of zero would make the last OID one less than the first
        by_contra h0
        have h0' : w3.toNat = 0 := by omega
        have hns : newStart < wordSize := add64_lt _ _
        rw [h0', add64_of_lt (by omega), Nat.zero_add] at hnewLast
        by_cases hz : newStart = 0
        · rw [hz] at hnewLast
          have : newLast = wordSize - 1 := by rw [hnewLast]; decide
          have hall := rng.not_all
          omega
        · rw [sub64_of_le (by omega) hns] at hnewLast
          omega
      refine ⟨newStart, newLast, ?_, hle, ⟨hge, by omega⟩, ⟨by omega, hlast⟩⟩
      simp only [keyGetRange, kassert_pos hpos, ok_bind, hnewLast, add64, Nat.add_comm]

theorem sat_objectOid_bind {α : Type} {k : Key} {f : ℕ → Handler α} {l : List Access}
    {Q : α → List Access → Prop} {Y : List Access → Prop} {E : Halt → List Access → Prop}
    (hE : E .nullDeref l) (hf : ∀ oid, (f oid l).Sat Q Y E) :
    ((objectOid k >>= f) l).Sat Q Y E := by
  unfold objectOid
  split
  · exact hf _
  · exact hE

theorem confined_identify (key : Key) : Confined layer rng (.identify key) := by
  have hlt := rng.last_lt
  refine sat_ofOption_bind accessesIn_nil fun k _ => ?_
  unfold identify
  cases validateKey k with
  | none => exact ⟨accessesIn_nil, Reply.in_of_code rfl (by simp)⟩
  | some t =>
    refine sat_objectOid_bind accessesIn_nil fun oid => ?_
    split
    · exact ⟨accessesIn_nil, Reply.in_of_code rfl (by simp)⟩
    · rename_i hin
      refine ⟨accessesIn_nil, fun k hk => absurd hk (by simp), fun _ => ?_⟩
      simp only [Nat.div_add_mod']
      rw [add64_of_lt (by omega)]
      constructor <;> omega

variable {oid n : ℕ}

theorem ensureWritable_sat (hin : rng.Contains oid) :
    (ensureWritable layer oid []).Sat (fun _ l => l = [.ensureWritable oid]) (AccessesIn rng)
      fun _ l => AccessesIn rng l := by
  unfold ensureWritable
  cases layer.ensureWritable oid with
  | true => exact rfl
  | false => exact fun a ha => List.mem_singleton.1 ha ▸ hin

theorem confined_rescind (key : Key) : Confined layer rng (.rescind key) := by
  refine sat_ofOption_bind accessesIn_nil fun k _ => ?_
  unfold rescind
  cases validateKey k with
  | none => exact ⟨accessesIn_nil, Reply.in_of_code rfl (by simp)⟩
  | some t =>
    refine sat_objectOid_bind accessesIn_nil fun oid => ?_
    split
    · exact ⟨accessesIn_nil, Reply.in_of_code rfl (by simp)⟩
    · rename_i hin
      simp only [not_or, Nat.not_lt] at hin
      refine sat_bind (ensureWritable_sat hin) fun _ l hl => ?_
      subst hl
      refine ⟨?_, fun k hk => absurd hk (by simp), fun _ => trivial⟩
      simpa [AccessesIn, Access.oid, Range.Contains] using hin

theorem confined_compare (key : Key) : Confined layer rng (.compare key) := by
  have hplain : ∀ r : Reply, r.key = none → r.In rng (.compare key) :=
    fun r hr => ⟨fun k hk => absurd (hr.symm.trans hk) (by simp), fun _ => trivial⟩
  refine sat_ofOption_bind accessesIn_nil fun k _ => ?_
  unfold compare
  split
  · exact ⟨accessesIn_nil, hplain _ rfl⟩
  · cases keyGetRange k with
    | error e => exact accessesIn_nil
    | ok r =>
      simp only
      split_ifs <;> exact ⟨accessesIn_nil, hplain _ rfl⟩

/-- The accesses of a loop over the objects of a frame stay in the range just if the first and
the last do. -/
theorem forall_successiveOids_iff (hoid : oid ≤ rng.last) (hn : 0 < n) :
    (∀ o ∈ successiveOids oid n, rng.Contains o) ↔
      rng.start ≤ oid ∧ oid + n ≤ rng.last + 1 := by
  have hlt := rng.last_lt
  have hmem : ∀ o, o ∈ successiveOids oid n ↔ ∃ i < n, add64 oid i = o := by
    intro o
    simp [successiveOids]
  constructor
  · intro h
    have h0 := h _ ((hmem _).2 ⟨0, hn, rfl⟩)
    rw [add64_of_lt (by omega), Nat.add_zero] at h0
    refine ⟨h0.1, ?_⟩
    by_contra hend
    -- the OID after the end of the range is met, and lies outside even if it wraps around
    have hout := h _ ((hmem _).2 ⟨rng.last + 1 - oid, by omega, rfl⟩)
    by_cases hw : rng.last + 1 < wordSize
    · rw [add64_of_lt (by omega)] at hout
      have := hout.2
      omega
    · have hzero : add64 oid (rng.last + 1 - oid) = 0 := by
        unfold add64
        rw [show oid + (rng.last + 1 - oid) = wordSize by omega, Nat.mod_self]
      rw [hzero] at hout
      have := rng.not_all (Nat.le_zero.1 hout.1)
      omega
  · rintro ⟨hstart, hend⟩ o ho
    obtain ⟨i, hi, rfl⟩ := (hmem o).1 ho
    rw [add64_of_lt (by omega)]
    constructor <;> omega

theorem accessesIn_retype_iff {m : ℕ} (hoid : oid ≤ rng.last) (f : ℕ → Access)
    (hf : ∀ o, (f o).oid = o) :
    AccessesIn rng ([] ++ (successiveOids oid m).map .destroy ++ (successiveOids oid n).map f) ↔
      (0 < max m n → rng.start ≤ oid ∧ oid + max m n ≤ rng.last + 1) := by
  have hsplit : AccessesIn rng
      ([] ++ (successiveOids oid m).map .destroy ++ (successiveOids oid n).map f) ↔
      (∀ o ∈ successiveOids oid m, rng.Contains o) ∧
        ∀ o ∈ successiveOids oid n, rng.Contains o := by
    simp only [AccessesIn, List.nil_append, List.mem_append, or_imp, forall_and,
      List.forall_mem_map, hf]
    exact Iff.rfl
  rw [hsplit]
  rcases Nat.eq_zero_or_pos m with rfl | hm
  · rcases Nat.eq_zero_or_pos n with rfl | hn
    · simp [successiveOids]
    · rw [forall_successiveOids_iff hoid hn, Nat.zero_max]
      simp [successiveOids, hn]
  · rw [forall_successiveOids_iff hoid hm]
    rcases Nat.eq_zero_or_pos n with rfl | hn
    · simp [successiveOids, hm]
    · rw [forall_successiveOids_iff hoid hn]
      omega

theorem confined_retypeFrame_iff (w1 w2 w3 : BitVec 32)
    (stringParams : Option (BitVec 8 × BitVec 32)) :
    Confined layer rng (.retypeFrame w1 w2 w3 stringParams) ↔
      WithinRange layer rng (.retypeFrame w1 w2 w3 stringParams) := by
  cases stringParams with
  | none =>
    exact iff_of_true (confined_of_pure rfl (Reply.in_of_code rfl (by simp))) trivial
  | some params =>
    obtain ⟨newType, allocationCount⟩ := params
    simp only [WithinRange, canRetype, retypeReach]
    set oid := add64 (wordOffset w1 w2) rng.start
    by_cases hlast : oid ≤ rng.last
    swap
    · refine iff_of_true (confined_of_pure (if_pos ?_) (Reply.in_of_code rfl (by simp)))
        fun h => absurd h hlast
      exact .inl (Nat.lt_of_not_le hlast)
    by_cases hndx : oidToObIndex oid = 0
    swap
    · exact iff_of_true (confined_of_pure (if_pos (.inr hndx)) (Reply.in_of_code rfl (by simp)))
        fun _ h => absurd h hndx
    have hrun : rangeKey layer rng (.retypeFrame w1 w2 w3 (some (newType, allocationCount))) =
        retypeObjects layer oid w3.toNat newType.toNat allocationCount.toNat :=
      if_neg (not_or.2 ⟨Nat.not_lt_of_le hlast, not_not.2 hndx⟩)
    have hreply : ({ code := .ok } : Reply).In rng
        (.retypeFrame w1 w2 w3 (some (newType, allocationCount))) :=
      ⟨fun k hk => absurd hk (by simp), fun _ => trivial⟩
    unfold Confined
    rw [hrun, retypeObjects]
    cases hpers : oidIsPersistent oid with
    | true =>
      have hacc := accessesIn_retype_iff (m := objectsPerFrame layer w3.toNat)
        (n := objectsPerFrame layer newType.toNat) hlast
        (fun o => .recordLocation newType.toNat o allocationCount.toNat) fun _ => rfl
      constructor
      · intro h _ _ _
        exact hacc.1 h.1
      · intro h
        exact ⟨hacc.2 (h hlast hndx (.inl rfl)), hreply⟩
    | false =>
      by_cases htype : newType.toNat = otPage ∨ newType.toNat = otNode
      swap
      · -- `EnsureObjFrames` stops the system
        refine iff_of_true ?_ fun _ _ h => absurd h (by simp [htype])
        simp only [Bool.false_eq_true, if_false, ensureObjFrames, check_neg htype, bind_apply,
          halt_apply, andThen_halt]
        exact accessesIn_nil
      cases hframes : layer.ensureObjFrames newType.toNat (objectsPerFrame layer newType.toNat) with
      | false =>
        refine iff_of_true ?_ fun _ _ h => absurd h (by simp)
        simp only [Bool.false_eq_true, if_false, ensureObjFrames, check_pos htype, bind_apply,
          pure_apply, andThen_done, hframes, ofOption_none, yield_apply, andThen_yield]
        exact accessesIn_nil
      | true =>
        have hacc := accessesIn_retype_iff (m := objectsPerFrame layer w3.toNat)
          (n := objectsPerFrame layer newType.toNat) hlast
          (fun o => .createNewNullObject newType.toNat o allocationCount.toNat) fun _ => rfl
        simp only [Bool.false_eq_true, if_false, ensureObjFrames, check_pos htype, bind_apply,
          pure_apply, andThen_done, hframes, if_true, ofOption_some, retypeDestroyOldObjects,
          accessAll, modify_apply]
        constructor
        · intro h _ _ _
          exact hacc.1 h.1
        · intro h
          exact ⟨hacc.2 (h hlast hndx (.inr ⟨htype, trivial⟩)), hreply⟩

end Requests

/-! ## The condition -/

/-- A request to a Range key stays inside the key's range just if its sum of range start and
offset has not wrapped around to below the range when the other checks let it through, and, for
`retypeFrame`, the objects reached do not run past the end of the range. -/
theorem confined_iff_withinRange (layer : ObjectLayer) (rng : Range) (req : Request) :
    Confined layer rng req ↔ WithinRange layer rng req := by
  cases req with
  | getType | query =>
    exact iff_of_true (confined_of_pure rfl ⟨fun k hk => absurd hk (by simp), fun _ => trivial⟩)
      trivial
  | nextSubrange w1 w2 => exact confined_nextSubrange_iff w1 w2
  | makeSubrange w1 w2 w3 hasSlot =>
    exact iff_of_true (confined_makeSubrange w1 w2 w3 hasSlot) trivial
  | identify key => exact iff_of_true (confined_identify key) trivial
  | rescind key => exact iff_of_true (confined_rescind key) trivial
  | getCap wait w1 w2 w3 hasSlot => exact confined_getCap_iff wait w1 w2 w3 hasSlot
  | compare key => exact iff_of_true (confined_compare key) trivial
  | getFrameCounts w1 w2 => exact confined_getFrameCounts_iff w1 w2
  | retypeFrame w1 w2 w3 stringParams => exact confined_retypeFrame_iff w1 w2 w3 stringParams
  | unknown =>
    exact iff_of_true (confined_of_pure rfl (Reply.in_of_code rfl (by simp))) trivial

/-- An object layer with one disk, on which every frame holds pages. -/
def diskOfPages : ObjectLayer where
  obRanges := [⟨firstPersistentOID, firstPersistentOID + frameToOID 1000⟩]
  objectType _ := some otPage
  objectCount _ _ := some 0
  object _ := none
  ensureWritable _ := true
  ensureObjFrames _ _ := true
  prepareKey := some
  behindTable _ := 0
  aktRange := 0

/-- Ten frames in the middle of the disk. -/
def tenFrames : Range where
  start := firstPersistentOID + frameToOID 100
  last := firstPersistentOID + frameToOID 110 - 1
  start_le_last := by decide
  last_lt := by decide
  not_all := by decide

/-- `getCap` with the offset `-0x6400` (modulo `2 ^ 64`) on a range that starts 100 frames into
the disk gives out a key to the first page of the disk. -/
theorem getCap_not_confined :
    ¬Confined diskOfPages tenFrames (.getCap false 0 0xffff9c00 0xffffffff true) := by
  intro h
  have hin := h.accessesIn (.getObjectType firstPersistentOID) (by decide)
  exact absurd hin (by decide)

end CapROS.RangeKey
