import CapROS.RangeKey.Confinement

/-!
# Objects within their frames

A frame holds fewer objects than it has OIDs: one page or seven nodes for 256 OIDs. `MakeObjectKey`
turns down an offset whose index within a frame is too large, but it takes the index of the offset
and not that of the OID. The two are the same just if the range starts on a frame boundary, which
`makeSubrange` does not ask for.

* `Obtained`: the Range keys that there are first, and those made from them by `makeSubrange`.
* `inFrame_iff_aligned`: the Range keys all of whose requests meet it.
-/

namespace CapROS.RangeKey

open Yielding

/-- The Range keys that can be had: the two keys that `mkimage` puts in the first image, those to
device memory (`devPrivs_publishMem`), those that `sysgen` and `npgen` put in the volsize node, and the
keys to subranges of these. The ranges of a volume consist of whole frames (`Volume.c`). The list has
the offsets of the `makeSubrange` requests. -/
inductive Obtained : List ℕ → Key → Prop
  | prime (k : Key) (hk : k.keyType = .primeRange) : Obtained [] k
  | phys (k : Key) (hk : k.keyType = .physRange) : Obtained [] k
  | published (page frames : ℕ) (hframes : 0 < frames) (hmax : frameToOID frames ≤ uint32Max)
      (hend : oidReservedPhysRange + frameToOID (page + frames) ≤ wordSize) :
      Obtained [] ⟨.range, 0, 0, .range (oidReservedPhysRange + frameToOID page) (frameToOID frames)⟩
  | volsize (first frames : ℕ) (hframes : 0 < frames) (hmax : frameToOID frames ≤ uint32Max)
      (hend : frameToOID (first + frames) ≤ wordSize) :
      Obtained [] ⟨.range, 0, 0, .range (frameToOID first) (frameToOID frames)⟩
  | makeSubrange {offsets : List ℕ} {k k' : Key} {rng : Range} (h : Obtained offsets k)
      (hk : keyGetRange k = .ok (rng.start, rng.last)) (w1 w2 w3 : BitVec 32)
      (hr : (makeSubrange rng (wordOffset w1 w2) w3.toNat true).key = some k') :
      Obtained (wordOffset w1 w2 :: offsets) k'

/-- The object that a key names. -/
def objectOidOf (k : Key) : Option ℕ :=
  match k.body with
  | .unprep oid _ => some oid
  | .prep oid => some oid
  | _ => none

/-- The base type of the objects that a request for a key is about. -/
def requestedBaseType : Request → ℕ
  | .getCap _ w1 _ _ _ => baseTypeOf w1.toNat
  | _ => otPage

/-- If the request returns a key to an object, the index of the object within its frame is below the
number of objects that a frame of the base type holds. -/
def InFrame (layer : ObjectLayer) (rng : Range) (req : Request) : Prop :=
  (rangeKey layer rng req []).Sat
    (fun r _ => ∀ k ∈ r.key, ∀ oid ∈ objectOidOf k,
      oidToObIndex oid < objectsPerFrame layer (requestedBaseType req))
    (fun _ => True) fun _ _ => True

/-- A Forwarder or GPT has to be initialised before there is a key to it. -/
def needsInit (kkt : KeyType) (node : FetchedNode) : Bool :=
  if kkt = .forwarder then !node.dataSlotIsNumber else decide (oldL2v node.l2vField < erosPageLgsize)

/-- The object layer has what the key needs: for a page or node key its allocation count, for a
Forwarder or GPT key the object, writeable if it has to be initialised. -/
def CanMakeKey (layer : ObjectLayer) (oid : ℕ) (kkt : KeyType) : Prop :=
  if kkt = .forwarder ∨ kkt = .gpt then
    ∃ node, layer.object oid = some node ∧ (needsInit kkt node = true → layer.ensureWritable oid = true)
  else (layer.objectCount oid false).isSome

/-- The checks of `MakeObjectKey`, which do not look at the object. -/
structure Passes (layer : ObjectLayer) (rng : Range) (wait : Bool) (w1 w2 w3 : BitVec 32) : Prop where
  type : w1.toNat < otNUMTYPES
  last : add64 rng.start (wordOffset w2 w3) ≤ rng.last
  index : wordOffset w2 w3 % erosObjectsPerFrame < objectsPerFrame layer (baseTypeOf w1.toNat)
  source : wait ∨ haveSource layer (add64 rng.start (wordOffset w2 w3))

/-- The request gets through the checks, and the object layer has an object of the type. -/
structure Granted (layer : ObjectLayer) (rng : Range) (wait : Bool) (w1 w2 w3 : BitVec 32) : Prop
    extends Passes layer rng wait w1 w2 w3 where
  typed : ∃ t, layer.objectType (add64 rng.start (wordOffset w2 w3)) = some t ∧
    (t = otNone ∨ t = baseTypeOf w1.toNat)
  object : CanMakeKey layer (add64 rng.start (wordOffset w2 w3)) (obKKT w1.toNat)

variable {layer : ObjectLayer} {rng : Range} {k : Key} {oid offset : ℕ} {kkt : KeyType}

/-! ## The key that is made -/

@[simp]
theorem objectOidOf_unprep (kkt : KeyType) (oid count : ℕ) :
    objectOidOf (newObjectKey kkt (.unprep oid count)) = some oid := by
  unfold newObjectKey
  split <;> rfl

@[simp]
theorem objectOidOf_prep (kkt : KeyType) (oid : ℕ) :
    objectOidOf (newObjectKey kkt (.prep oid)) = some oid := by
  unfold newObjectKey
  split <;> rfl

theorem makeKey_names (l : List Access) :
    (makeKey layer oid kkt l).Sat (fun k _ => objectOidOf k = some oid) (fun _ => True)
      fun _ _ => True := by
  unfold makeKey
  split
  · refine sat_bind (R := fun _ _ => True) trivial fun _ _ _ => ?_
    refine sat_bind (R := fun _ _ => True) (sat_true _ _) fun _ _ _ => ?_
    exact sat_bind (R := fun _ _ => True) (sat_true _ _) fun _ _ _ => objectOidOf_prep kkt oid
  · refine sat_bind (R := fun _ _ => True) trivial fun _ _ _ => ?_
    exact sat_bind (R := fun _ _ => True) (sat_true _ _) fun _ _ _ => objectOidOf_unprep kkt oid _

theorem initNodeIf_done {needed : Bool} (h : needed = true → layer.ensureWritable oid = true)
    (l : List Access) : ∃ l', initNodeIf layer oid needed l = .done () l' := by
  unfold initNodeIf ensureWritable
  split
  · rename_i hneeded
    rw [h hneeded]
    exact ⟨_, rfl⟩
  · exact ⟨l, rfl⟩

theorem ensureWritable_of_initNodeIf {needed : Bool} {l l' : List Access}
    (h : initNodeIf layer oid needed l = .done () l') (hneeded : needed = true) :
    layer.ensureWritable oid = true := by
  by_contra hwrite
  rw [Bool.not_eq_true] at hwrite
  rw [hneeded, initNodeIf, if_pos rfl, ensureWritable, hwrite] at h
  cases h

theorem makePreparedKey_apply (l : List Access) :
    makePreparedKey layer oid kkt l =
      ((Prog.ofOption (layer.object oid) >>= fun node =>
        initNodeIf layer oid (needsInit kkt node) >>= fun _ => pure (newObjectKey kkt (.prep oid)))
          (l ++ [.getObject oid])) := rfl

theorem makeUnpreparedKey_apply (l : List Access) :
    makeUnpreparedKey layer oid kkt l =
      ((Prog.ofOption (layer.objectCount oid false) >>= fun obCount =>
        pure (newObjectKey kkt (.unprep oid obCount))) (l ++ [.getObjectCount oid])) := rfl

theorem makeKey_done (h : CanMakeKey layer oid kkt) (l : List Access) :
    ∃ k l', makeKey layer oid kkt l = .done k l' := by
  unfold CanMakeKey at h
  unfold makeKey
  by_cases hkkt : kkt = .forwarder ∨ kkt = .gpt
  · rw [if_pos hkkt] at h
    rw [if_pos hkkt, makePreparedKey_apply]
    obtain ⟨node, hnode, hwrite⟩ := h
    obtain ⟨l', hl'⟩ := initNodeIf_done hwrite (l ++ [.getObject oid])
    refine ⟨newObjectKey kkt (.prep oid), l', ?_⟩
    rw [hnode, ofOption_some, bind_apply, pure_apply, andThen_done, bind_apply, hl', andThen_done,
      pure_apply]
  · rw [if_neg hkkt] at h
    rw [if_neg hkkt, makeUnpreparedKey_apply]
    obtain ⟨count, hcount⟩ := Option.isSome_iff_exists.1 h
    rw [hcount]
    exact ⟨_, _, rfl⟩

theorem canMakeKey_of_done {l l' : List Access} (h : makeKey layer oid kkt l = .done k l') :
    CanMakeKey layer oid kkt := by
  unfold CanMakeKey
  unfold makeKey at h
  by_cases hkkt : kkt = .forwarder ∨ kkt = .gpt
  · rw [if_pos hkkt, makePreparedKey_apply] at h
    rw [if_pos hkkt]
    cases hnode : layer.object oid with
    | none =>
      rw [hnode] at h
      cases h
    | some node =>
      refine ⟨node, rfl, fun hneeded => ?_⟩
      rw [hnode, ofOption_some, bind_apply, pure_apply, andThen_done, bind_apply] at h
      cases hinit : initNodeIf layer oid (needsInit kkt node) (l ++ [.getObject oid]) with
      | done u l₁ => exact ensureWritable_of_initNodeIf hinit hneeded
      | yield l₁ | halt e l₁ =>
        rw [hinit] at h
        cases h
  · rw [if_neg hkkt, makeUnpreparedKey_apply] at h
    rw [if_neg hkkt]
    cases hcount : layer.objectCount oid false with
    | none =>
      rw [hcount] at h
      cases h
    | some count => rfl

/-! ## One request -/

/-- The key in the answer of `makeKeyTo` is one to the object, of which the object layer has what it
takes, and whose type fits. -/
theorem makeKeyTo_sat (baseType : ℕ) (hasSlot : Bool) (l : List Access) :
    (makeKeyTo layer oid baseType kkt hasSlot l).Sat
      (fun r _ => ∀ k ∈ r.key, objectOidOf k = some oid ∧ CanMakeKey layer oid kkt ∧
        ∃ t, layer.objectType oid = some t ∧ (t = otNone ∨ t = baseType))
      (fun _ => True) fun _ _ => True := by
  refine sat_bind (R := fun _ _ => True) trivial fun _ l₁ _ => ?_
  refine sat_ofOption_bind trivial fun objType htype => ?_
  refine sat_ite (fun _ => by simp [Outcome.Sat]) fun hfit => ?_
  rw [bind_apply]
  cases hmake : makeKey layer oid kkt l₁ with
  | yield s | halt e s => trivial
  | done k s =>
    have hnames : (makeKey layer oid kkt l₁).Sat (fun k _ => objectOidOf k = some oid) (fun _ => True)
      fun _ _ => True := makeKey_names l₁
    rw [hmake] at hnames
    intro k' hk'
    cases hasSlot with
    | false => simp at hk'
    | true =>
      obtain rfl : k = k' := by simpa using hk'
      refine ⟨hnames, canMakeKey_of_done hmake, objType, htype, ?_⟩
      by_contra hne
      exact hfit (not_or.1 hne)

theorem makeKeyTo_done {baseType t : ℕ} (ht : layer.objectType oid = some t)
    (hfit : t = otNone ∨ t = baseType) (h : CanMakeKey layer oid kkt) (l : List Access) :
    ∃ r l', makeKeyTo layer oid baseType kkt true l = .done r l' ∧
      ∃ k ∈ r.key, objectOidOf k = some oid := by
  obtain ⟨k, l', hmake⟩ := makeKey_done h (l ++ [.getObjectType oid])
  have hnames : (makeKey layer oid kkt (l ++ [.getObjectType oid])).Sat (fun k _ => objectOidOf k = some oid)
    (fun _ => True) fun _ _ => True := makeKey_names (l ++ [.getObjectType oid])
  rw [hmake] at hnames
  refine ⟨{ code := .ok, w1 := otNone, key := some k }, l', ?_, k, rfl, hnames⟩
  have hok : ¬(t ≠ otNone ∧ t ≠ baseType) := fun hne => hfit.elim hne.1 hne.2
  simp only [makeKeyTo, access, bind_apply, modify_apply, andThen_done, ht, ofOption_some, pure_apply,
    if_neg hok, hmake]
  rfl

section Requests

variable {wait hasSlot : Bool} {w1 w2 w3 : BitVec 32}

theorem getCap_of_passes (h : Passes layer rng wait w1 w2 w3) :
    rangeKey layer rng (.getCap wait w1 w2 w3 hasSlot) =
      makeKeyTo layer (add64 rng.start (wordOffset w2 w3)) (baseTypeOf w1.toNat) (obKKT w1.toNat)
        hasSlot := by
  simp only [rangeKey, makeObjectKey]
  rw [if_neg (Nat.not_le_of_lt h.type), if_neg (Nat.not_lt_of_le h.last),
    if_neg (Nat.not_le_of_lt h.index), if_neg]
  rcases h.source with hs | hs <;> simp [hs]

theorem getCap_refused (h : ¬Passes layer rng wait w1 w2 w3) :
    rangeKey layer rng (.getCap wait w1 w2 w3 hasSlot) = pure { code := .rangeErr } := by
  simp only [rangeKey, makeObjectKey]
  by_cases htype : w1.toNat ≥ otNUMTYPES
  · rw [if_pos htype]
  rw [if_neg htype]
  by_cases hlast : add64 rng.start (wordOffset w2 w3) > rng.last
  · rw [if_pos hlast]
  rw [if_neg hlast]
  by_cases hindex : wordOffset w2 w3 % erosObjectsPerFrame ≥ objectsPerFrame layer (baseTypeOf w1.toNat)
  · rw [if_pos hindex]
  rw [if_neg hindex, if_pos]
  -- the other three checks are passed
  by_contra hsource
  refine h ⟨Nat.lt_of_not_le htype, Nat.le_of_not_lt hlast, Nat.lt_of_not_le hindex, ?_⟩
  by_cases hwait : wait = true
  · exact .inl hwait
  · right
    simpa [hwait] using hsource

theorem inFrame_of_pure {req : Request} {r : Reply} (h : rangeKey layer rng req = pure r)
    (hr : ∀ k ∈ r.key, objectOidOf k = none) : InFrame layer rng req := by
  unfold InFrame
  rw [h]
  intro k hk oid ho
  rw [hr k hk] at ho
  cases ho

/-- A key is returned for an index that the frame does not have exactly if the request is granted and
the sum of range start and offset has such an index. -/
theorem inFrame_getCap_iff : InFrame layer rng (.getCap wait w1 w2 w3 true) ↔
    (Granted layer rng wait w1 w2 w3 →
      oidToObIndex (add64 rng.start (wordOffset w2 w3)) < objectsPerFrame layer (baseTypeOf w1.toNat)) := by
  by_cases hpass : Passes layer rng wait w1 w2 w3
  swap
  · exact iff_of_true (inFrame_of_pure (getCap_refused hpass) (by simp)) fun hg =>
      absurd hg.toPasses hpass
  unfold InFrame
  rw [getCap_of_passes hpass]
  constructor
  · intro h hg
    obtain ⟨t, ht, hfit⟩ := hg.typed
    obtain ⟨r, l', hrun, k, hk, hoid⟩ := makeKeyTo_done ht hfit hg.object []
    rw [hrun] at h
    exact h k hk _ hoid
  · intro h
    refine (makeKeyTo_sat _ _ _).mono (fun r l hr k hk oid ho => ?_) (fun _ _ => trivial)
      fun _ _ _ => trivial
    obtain ⟨hoid, hcan, htyped⟩ := hr k hk
    obtain rfl := Option.some.inj (hoid.symm.trans ho)
    exact h ⟨hpass, htyped, hcan⟩

theorem inFrame_getCap_noSlot : InFrame layer rng (.getCap wait w1 w2 w3 false) := by
  by_cases hpass : Passes layer rng wait w1 w2 w3
  swap
  · exact inFrame_of_pure (getCap_refused hpass) (by simp)
  unfold InFrame
  rw [getCap_of_passes hpass]
  refine sat_bind (R := fun _ _ => True) trivial fun _ _ _ => ?_
  refine sat_ofOption_bind trivial fun objType _ => ?_
  refine sat_ite (fun _ => by simp [Outcome.Sat]) fun _ => ?_
  exact sat_bind (R := fun _ _ => True) (sat_true _ _) fun _ _ _ => by simp [Outcome.Sat]

theorem inFrame_of_noKey {req : Request} {m : Handler Reply} (h : rangeKey layer rng req = m)
    (hm : ∀ l, (m l).Sat (fun r _ => r.key = none) (fun _ => True) fun _ _ => True) :
    InFrame layer rng req := by
  unfold InFrame
  rw [h]
  refine (hm []).mono (fun r _ hr k hk => ?_) (fun _ _ => trivial) fun _ _ _ => trivial
  rw [hr] at hk
  cases hk

end Requests

/-! ## The keys -/

theorem oidToObIndex_add64 (a b : ℕ) : oidToObIndex (add64 a b) = (a + b) % erosObjectsPerFrame := by
  have hdvd : erosObjectsPerFrame ∣ wordSize :=
    Dvd.intro (2 ^ 56) (by norm_num [erosObjectsPerFrame, wordSize])
  rw [oidToObIndex, add64, Nat.mod_mod_of_dvd _ hdvd]

theorem nextSubrange_key (layer : ObjectLayer) (rng : Range) (offset : ℕ) :
    (nextSubrange layer rng offset).key = none := by
  unfold nextSubrange
  dsimp only
  split_ifs
  · rfl
  · split <;> rfl

theorem makeSubrange_noObject (rng : Range) (offset newLen : ℕ) (hasSlot : Bool) :
    ∀ k ∈ (makeSubrange rng offset newLen hasSlot).key, objectOidOf k = none := by
  unfold makeSubrange
  dsimp only
  split_ifs
  · simp
  · rintro k ⟨⟩
    rfl
  · simp

theorem inFrame_of_aligned (h : erosObjectsPerFrame ∣ rng.start) (layer : ObjectLayer) (req : Request) :
    InFrame layer rng req := by
  cases req with
  | getCap wait w1 w2 w3 hasSlot =>
    cases hasSlot with
    | false => exact inFrame_getCap_noSlot
    | true =>
      refine inFrame_getCap_iff.2 fun hg => ?_
      obtain ⟨c, hc⟩ := h
      rw [oidToObIndex_add64, hc, Nat.mul_add_mod]
      exact hg.index
  -- no other request returns a key to an object
  | getType | query => exact inFrame_of_pure rfl (by simp)
  | nextSubrange w1 w2 =>
    refine inFrame_of_pure (r := nextSubrange layer rng (wordOffset w1 w2)) rfl ?_
    rw [nextSubrange_key]
    simp
  | makeSubrange w1 w2 w3 hasSlot =>
    exact inFrame_of_pure (r := makeSubrange rng (wordOffset w1 w2) w3.toNat hasSlot) rfl
      (makeSubrange_noObject rng _ _ hasSlot)
  | identify key =>
    refine inFrame_of_noKey rfl fun l => sat_ofOption_bind trivial fun k _ => ?_
    unfold identify
    cases validateKey k with
    | none => rfl
    | some t => exact sat_objectOid_bind trivial fun _ => sat_ite (fun _ => rfl) fun _ => rfl
  | rescind key =>
    refine inFrame_of_noKey rfl fun l => sat_ofOption_bind trivial fun k _ => ?_
    unfold rescind
    cases validateKey k with
    | none => rfl
    | some t =>
      refine sat_objectOid_bind trivial fun _ => sat_ite (fun _ => rfl) fun _ => ?_
      exact sat_bind (R := fun _ _ => True) (sat_true _ _) fun _ _ _ => rfl
  | compare key =>
    refine inFrame_of_noKey rfl fun l => sat_ofOption_bind trivial fun k _ => ?_
    refine sat_ite (fun _ => rfl) fun _ => ?_
    cases keyGetRange k with
    | error e => trivial
    | ok r =>
      dsimp only
      split_ifs <;> rfl
  | getFrameCounts w1 w2 =>
    refine inFrame_of_noKey rfl fun l => ?_
    refine sat_ite (fun _ => rfl) fun _ => ?_
    refine sat_bind (R := fun _ _ => True) trivial fun _ _ _ => ?_
    refine sat_bind (R := fun _ _ => True) (sat_true _ _) fun _ _ _ => ?_
    refine sat_bind (R := fun _ _ => True) trivial fun _ _ _ => ?_
    refine sat_bind (R := fun _ _ => True) (sat_true _ _) fun _ _ _ => ?_
    refine sat_ite (fun _ => ?_) fun _ => rfl
    refine sat_bind (R := fun _ _ => True) trivial fun _ _ _ => ?_
    exact sat_bind (R := fun _ _ => True) (sat_true _ _) fun _ _ _ => rfl
  | retypeFrame w1 w2 w3 stringParams =>
    refine inFrame_of_noKey rfl fun l => ?_
    cases stringParams with
    | none => rfl
    | some params =>
      refine sat_ite (fun _ => rfl) fun _ => ?_
      refine sat_ite (fun _ => rfl) fun _ => ?_
      exact sat_bind (R := fun _ _ => True) (sat_true _ _) fun _ _ _ => rfl
  | unknown => exact inFrame_of_pure rfl (by simp)

/-- An object layer in which every frame holds pages. -/
def allPages : ObjectLayer where
  obRanges := []
  objectType _ := some otPage
  objectCount _ _ := some 0
  object _ := none
  ensureWritable _ := true
  ensureObjFrames _ _ := true
  prepareKey := some
  behindTable _ := 0
  aktRange := 0

/-- If a key to the first page of the range is always in its frame, the range starts on a frame
boundary. -/
theorem aligned_of_inFrame (h : InFrame allPages rng (.getCap true 0 0 0 true)) :
    erosObjectsPerFrame ∣ rng.start := by
  have hlt := rng.last_lt
  have hle := rng.start_le_last
  have hstart : add64 rng.start (wordOffset 0 0) = rng.start := by
    rw [show wordOffset 0 0 = 0 from rfl, add64_of_lt (by omega), Nat.add_zero]
  have hg : Granted allPages rng true 0 0 0 := by
    refine ⟨⟨by decide, ?_, by decide, .inl rfl⟩, ⟨otPage, rfl, .inr rfl⟩, rfl⟩
    rw [hstart]
    exact hle
  have hindex := inFrame_getCap_iff.1 h hg
  rw [hstart, show objectsPerFrame allPages (baseTypeOf (0 : BitVec 32).toNat) = 1 from rfl] at hindex
  exact Nat.dvd_of_mod_eq_zero (Nat.lt_one_iff.1 hindex)

theorem makeSubrange_key {newLen : ℕ} (hlen : newLen ≤ uint32Max)
    (h : (makeSubrange rng offset newLen true).key = some k) :
    k = ⟨.range, 0, 0, .range (add64 offset rng.start) newLen⟩ ∧ 0 < newLen ∧
      add64 offset rng.start + newLen ≤ wordSize := by
  have hns : add64 offset rng.start < wordSize := add64_lt _ _
  have hall := rng.not_all
  unfold makeSubrange at h
  dsimp only at h
  generalize add64 offset rng.start = newStart at *
  split_ifs at h with hchecks
  simp only [not_or, Nat.not_lt] at hchecks
  obtain ⟨hge, hle, hlast⟩ := hchecks
  refine ⟨(Option.some.inj h).symm, ?_, ?_⟩
  · -- a length of zero would make the last OID one less than the first
    by_contra h0
    obtain rfl : newLen = 0 := by omega
    rw [add64_of_lt (a := 0) (by omega), Nat.zero_add] at hle hlast
    by_cases hz : newStart = 0
    · rw [hz, show sub64 0 1 = wordSize - 1 from by decide] at hlast
      omega
    · rw [sub64_of_le (by omega) hns] at hle
      omega
  · by_contra hwrap
    -- the sum wraps around, and the last OID lies below the first
    have hword : uint32Max < wordSize := by decide
    have hsum : add64 newLen newStart = newLen + newStart - wordSize := by
      rw [add64, Nat.mod_eq_sub_mod (by omega)]
      exact Nat.mod_eq_of_lt (by omega)
    rw [hsum, sub64_of_le (by omega) (by omega)] at hle
    omega

/-- A Range key covers the range that it names. -/
theorem covers_range {oid count : ℕ} (hpos : 0 < count) (hmax : count ≤ uint32Max) (hend : oid + count ≤ wordSize) :
    ∃ rng : Range, keyGetRange ⟨.range, 0, 0, .range oid count⟩ = .ok (rng.start, rng.last) ∧ oid = rng.start := by
  obtain ⟨rng, hrng⟩ := exists_range_of_key ⟨.range, 0, 0, .range oid count⟩
    (.inr (.inr ⟨rfl, _, _, rfl, hpos, hmax, hend⟩))
  refine ⟨rng, hrng, ?_⟩
  simp only [keyGetRange, kassert_pos hpos, ok_bind] at hrng
  exact congrArg Prod.fst (Except.ok.inj hrng)

/-- Every Range key that can be had covers a range, which starts on a frame boundary just if the
offsets of the requests add up to a multiple of the OIDs of a frame. -/
theorem Obtained.covers {offsets : List ℕ} (h : Obtained offsets k) :
    ∃ rng : Range, keyGetRange k = .ok (rng.start, rng.last) ∧
      rng.start % erosObjectsPerFrame = offsets.sum % erosObjectsPerFrame := by
  induction h with
  | prime k hk =>
    obtain ⟨keyType, keyPerms, keyData, body⟩ := k
    obtain rfl : keyType = .primeRange := hk
    exact ⟨⟨0, oidReservedPhysRange - 1, by decide, by decide, by decide⟩, rfl, rfl⟩
  | phys k hk =>
    obtain ⟨keyType, keyPerms, keyData, body⟩ := k
    obtain rfl : keyType = .physRange := hk
    exact ⟨⟨oidReservedPhysRange, wordSize - 1, by decide, by decide, by decide⟩, rfl, by decide⟩
  | published page frames hframes hmax hend =>
    have hpos : 0 < frameToOID frames := Nat.mul_pos hframes (by decide)
    rw [frameToOID, Nat.add_mul, ← Nat.add_assoc] at hend
    obtain ⟨rng, hrng, hstart⟩ := covers_range hpos hmax hend
    refine ⟨rng, hrng, ?_⟩
    rw [← hstart, Nat.add_mul_mod_self_right]
    decide
  | volsize first frames hframes hmax hend =>
    have hpos : 0 < frameToOID frames := Nat.mul_pos hframes (by decide)
    rw [frameToOID, Nat.add_mul] at hend
    obtain ⟨rng, hrng, hstart⟩ := covers_range hpos hmax hend
    exact ⟨rng, hrng, by rw [← hstart, Nat.mul_mod_left]; rfl⟩
  | @makeSubrange offsets k k' rng _ hk w1 w2 w3 hr ih =>
    have hlen : w3.toNat ≤ uint32Max := Nat.le_sub_one_of_lt w3.isLt
    obtain ⟨rfl, hpos, hend⟩ := makeSubrange_key hlen hr
    obtain ⟨rng', hrng', hstart⟩ := covers_range hpos hlen hend
    refine ⟨rng', hrng', ?_⟩
    obtain ⟨rng₀, hrng₀, hmod⟩ := ih
    have hsame : rng₀.start = rng.start :=
      congrArg Prod.fst (Except.ok.inj (hrng₀.symm.trans hk))
    rw [hsame] at hmod
    rw [← hstart, List.sum_cons, ← oidToObIndex, oidToObIndex_add64, Nat.add_mod, hmod, ← Nat.add_mod]

/-- All requests to a Range key only return keys to objects that exist within their frames, whatever
the objects are, if and only if the offsets of the `makeSubrange` requests by which the key was made
add up to a whole number of frames. -/
theorem inFrame_iff_aligned {offsets : List ℕ} (h : Obtained offsets k)
    (hk : keyGetRange k = .ok (rng.start, rng.last)) :
    (∀ (layer : ObjectLayer) (req : Request), InFrame layer rng req) ↔
      erosObjectsPerFrame ∣ offsets.sum := by
  obtain ⟨rng', hk', hmod⟩ := h.covers
  have hstart : rng'.start = rng.start := congrArg Prod.fst (Except.ok.inj (hk'.symm.trans hk))
  rw [hstart] at hmod
  rw [Nat.dvd_iff_mod_eq_zero, ← hmod, ← Nat.dvd_iff_mod_eq_zero]
  constructor
  · intro hall
    exact aligned_of_inFrame (hall _ _)
  · intro hdvd layer req
    exact inFrame_of_aligned hdvd layer req

/-- The prime range key, and the range of all the OIDs it covers. -/
def primeRangeKey : Key := ⟨.primeRange, 0, 0, .words 0 0 0⟩

def primeRange : Range := ⟨0, oidReservedPhysRange - 1, by decide, by decide, by decide⟩

theorem keyGetRange_primeRangeKey :
    keyGetRange primeRangeKey = .ok (primeRange.start, primeRange.last) := rfl

/-- A subrange that starts with the second frame of the persistent OIDs. -/
theorem inFrame_secondFrame : ∃ rng : Range, rng.start = firstPersistentOID + 256 ∧
    ∀ (layer : ObjectLayer) (req : Request), InFrame layer rng req := by
  have hsub : Obtained [wordOffset 256 0x01000000] ⟨.range, 0, 0, .range (firstPersistentOID + 256) 512⟩ :=
    .makeSubrange (.prime primeRangeKey rfl) keyGetRange_primeRangeKey 256 0x01000000 512 rfl
  refine ⟨⟨firstPersistentOID + 256, firstPersistentOID + 767, by decide, by decide, by decide⟩, rfl, ?_⟩
  exact (inFrame_iff_aligned hsub rfl).2 (by decide)

/-- From a subrange that starts with the fourth OID of a frame, a key to a fourth page of the frame can
be had. -/
theorem inFrame_fails : ¬∀ (offsets : List ℕ) (k : Key) (rng : Range), Obtained offsets k →
    keyGetRange k = .ok (rng.start, rng.last) → ∀ (layer : ObjectLayer) (req : Request),
      InFrame layer rng req := by
  intro h
  have hsub : Obtained [wordOffset 3 0x01000000] ⟨.range, 0, 0, .range (firstPersistentOID + 3) 512⟩ :=
    .makeSubrange (.prime primeRangeKey rfl) keyGetRange_primeRangeKey 3 0x01000000 512 rfl
  have hin := h _ _ ⟨firstPersistentOID + 3, firstPersistentOID + 514, by decide, by decide, by decide⟩
    hsub rfl allPages (.getCap true 0 0 0 true)
  exact absurd (aligned_of_inFrame hin) (by decide)

end CapROS.RangeKey
