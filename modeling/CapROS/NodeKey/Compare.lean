import CapROS.MemoryTree.Basic
import CapROS.NodeKey.Basic

/-!
# Comparing keys

A key to an object has one form when it is prepared and another when it is not. The operation `compare`
of the Discrim key prepares both keys first, and so does the KeyBits key, which then shows the words
of the unprepared form.

* `compare_iff`: the keys for which it goes by what the KeyBits key shows.
-/

namespace CapROS.NodeKey

open MemoryTree

/-- The body of a key has the form that goes with its type. -/
def Formed (k : Key) : Prop :=
  match k.body with
  | .prep _ | .unprep _ _ => k.isObjectKey = true
  | .range _ _ => k.keyType = .range
  | .words _ _ _ => k.isObjectKey = false ∧ k.keyType ≠ .range

variable (mem : Memory)

/-- `key_MakeUnpreparedCopy`. The count is the call count of the object for a Resume key, and its
allocation count for the others. -/
def keyMakeUnpreparedCopy (k : Key) : Key :=
  if k.isObjectKey then
    match k.body with
    | .prep oid => { k with body := .unprep oid ((mem.currentCount k.keyType oid).getD 0) }
    | _ => k
  else k

/-- The case `get` of `KeyBitsKey`. -/
def keyBitsGet (k : Key) : Key := keyMakeUnpreparedCopy mem (mem.keyPrepare k)

/-- The type, the object and its count or the value, and the data of the keys are the same. -/
def SameBits (a b : Key) : Prop := a.keyType = b.keyType ∧ a.body = b.body ∧ a.keyData = b.keyData

/-- The case `compare` of `DiscrimKey`. -/
def compare (a b : Key) : Bool := compareKeys (mem.keyPrepare a) (mem.keyPrepare b)

variable {mem} {a b c k : Key}

theorem keyPrepare_of_ne (h : ∀ oid count, k.body ≠ .unprep oid count) : mem.keyPrepare k = k := by
  unfold Memory.keyPrepare
  split
  next oid count hb => exact absurd hb (h oid count)
  next => rfl

theorem keyPrepare_of_unprep {oid count : ℕ} (h : k.body = .unprep oid count)
    (hobject : k.isObjectKey = true) :
    mem.keyPrepare k =
      if mem.currentCount k.keyType oid = some count then { k with body := .prep oid } else .void := by
  simp only [Memory.keyPrepare, h, hobject, if_true]

/-- A key that has been prepared: either it designates an object, or its words are all there is. -/
inductive PreparedForm : Key → Prop where
  | object {k : Key} (oid : ℕ) (isObject : k.isObjectKey = true) (body : k.body = .prep oid) : PreparedForm k
  | other {k : Key} (isObject : k.isObjectKey = false) (body : ∀ oid count, k.body ≠ .unprep oid count) :
    PreparedForm k

theorem Formed.prepared (h : Formed k) : PreparedForm (mem.keyPrepare k) := by
  unfold Formed at h
  split at h
  next oid hb =>
    rw [keyPrepare_of_ne (by simp [hb])]
    exact .object oid h hb
  next oid count hb =>
    rw [keyPrepare_of_unprep hb h]
    split
    · exact .object oid h rfl
    · exact .other rfl (by simp [Key.void])
  next oid count hb =>
    rw [keyPrepare_of_ne (by simp [hb])]
    exact .other (by simp [Key.isObjectKey, h]) (by simp [hb])
  next w0 w1 w2 hb =>
    rw [keyPrepare_of_ne (by simp [hb])]
    exact .other h.1 (by simp [hb])

theorem PreparedForm.keyPrepare (h : PreparedForm k) : mem.keyPrepare k = k := by
  cases h with
  | object oid _ body => exact keyPrepare_of_ne (by simp [body])
  | other _ body => exact keyPrepare_of_ne body

/-! ## What holds of the comparison in any case -/

theorem compare_keyPrepare (ha : Formed a) (hb : Formed b) :
    compare mem (mem.keyPrepare a) (mem.keyPrepare b) = compare mem a b := by
  rw [compare, compare, ha.prepared.keyPrepare, hb.prepared.keyPrepare]

theorem compareKeys_iff : compareKeys a b = true ↔
    a.keyType = b.keyType ∧ (a.isObjectKey = true → objectOf a = objectOf b) ∧ a.keyData = b.keyData := by
  cases ho : a.isObjectKey <;> simp [compareKeys, ho, and_assoc]

theorem isObjectKey_congr (h : a.keyType = b.keyType) : a.isObjectKey = b.isObjectKey := by
  rw [Key.isObjectKey, Key.isObjectKey, h]

theorem compare_equivalence (mem : Memory) : Equivalence fun a b => compare mem a b = true where
  refl a := compareKeys_iff.2 ⟨rfl, fun _ => rfl, rfl⟩
  symm := by
    intro a b h
    obtain ⟨htype, hobject, hdata⟩ := compareKeys_iff.1 h
    refine compareKeys_iff.2 ⟨htype.symm, fun ho => ?_, hdata.symm⟩
    exact (hobject ((isObjectKey_congr htype).trans ho)).symm
  trans := by
    intro a b c h h'
    obtain ⟨htype, hobject, hdata⟩ := compareKeys_iff.1 h
    obtain ⟨htype', hobject', hdata'⟩ := compareKeys_iff.1 h'
    refine compareKeys_iff.2 ⟨htype.trans htype', fun ho => ?_, hdata.trans hdata'⟩
    exact (hobject ho).trans (hobject' ((isObjectKey_congr htype).symm.trans ho))

/-! ## Comparison and representation -/

/-- The keys, once prepared, are not to objects, and differ only in their words. -/
def DifferInWords (mem : Memory) (a b : Key) : Prop :=
  (mem.keyPrepare a).isObjectKey = false ∧
    (mem.keyPrepare a).keyType = (mem.keyPrepare b).keyType ∧
    (mem.keyPrepare a).keyData = (mem.keyPrepare b).keyData ∧
    (mem.keyPrepare a).body ≠ (mem.keyPrepare b).body

theorem keyMakeUnpreparedCopy_object {oid : ℕ} (ho : k.isObjectKey = true) (hb : k.body = .prep oid) :
    keyMakeUnpreparedCopy mem k =
      { k with body := .unprep oid ((mem.currentCount k.keyType oid).getD 0) } := by
  simp only [keyMakeUnpreparedCopy, ho, hb, if_true]

theorem keyMakeUnpreparedCopy_other (ho : k.isObjectKey = false) : keyMakeUnpreparedCopy mem k = k := by
  simp [keyMakeUnpreparedCopy, ho]

/-- The unprepared copies of keys to objects are the same if the objects are, and otherwise the
copies are the keys. -/
theorem sameBits_iff (ha : PreparedForm a) (hb : PreparedForm b) :
    SameBits (keyMakeUnpreparedCopy mem a) (keyMakeUnpreparedCopy mem b) ↔
      a.keyType = b.keyType ∧ (a.isObjectKey = true → objectOf a = objectOf b) ∧
        (a.isObjectKey = false → a.body = b.body) ∧ a.keyData = b.keyData := by
  have hsame : a.keyType = b.keyType → a.isObjectKey = b.isObjectKey := isObjectKey_congr
  cases ha with
  | object oid hoa hba =>
    rw [keyMakeUnpreparedCopy_object hoa hba]
    cases hb with
    | object oid' hob hbb =>
      rw [keyMakeUnpreparedCopy_object hob hbb]
      -- the count is that of the object
      simp only [SameBits, objectOf, hba, hbb, hoa, Option.some.injEq, KeyBody.unprep.injEq]
      constructor
      · rintro ⟨htype, ⟨rfl, -⟩, hdata⟩
        exact ⟨htype, fun _ => rfl, by simp, hdata⟩
      · rintro ⟨htype, hoid, -, hdata⟩
        obtain rfl := hoid trivial
        exact ⟨htype, ⟨rfl, by rw [htype]⟩, hdata⟩
    | other hob _ =>
      rw [keyMakeUnpreparedCopy_other hob]
      refine iff_of_false (fun h => ?_) fun h => ?_
      · simp [hoa, hob] at hsame
        exact hsame h.1
      · simp [hoa, hob] at hsame
        exact hsame h.1
  | other hoa _ =>
    rw [keyMakeUnpreparedCopy_other hoa]
    cases hb with
    | object oid' hob hbb =>
      rw [keyMakeUnpreparedCopy_object hob hbb]
      simp [hoa, hob] at hsame
      exact iff_of_false (fun h => hsame h.1) fun h => hsame h.1
    | other hob _ =>
      rw [keyMakeUnpreparedCopy_other hob]
      simp [SameBits, hoa]

/-- The comparison goes by what the KeyBits key shows, unless the keys differ in their words only. -/
theorem compare_iff (ha : Formed a) (hb : Formed b) :
    (compare mem a b = true ↔ SameBits (keyBitsGet mem a) (keyBitsGet mem b)) ↔
      ¬DifferInWords mem a b := by
  have hpa : PreparedForm (mem.keyPrepare a) := ha.prepared
  have hpb : PreparedForm (mem.keyPrepare b) := hb.prepared
  have hbits := @sameBits_iff mem _ _ hpa hpb
  rw [keyBitsGet, keyBitsGet, hbits, compare, compareKeys_iff, DifferInWords]
  cases ho : (mem.keyPrepare a).isObjectKey with
  | true => simp
  | false =>
    tauto

/-- A memory in which each OID has an object with the count 7. -/
def sevenMemory : Memory where
  gpt := fun _ => ⟨fun _ => .void, 12, Gpt.l2v_ge_page⟩
  currentCount := fun _ _ => some 7

/-- A prepared key is compared with an unprepared one. -/
theorem compare_iff_page :
    compare sevenMemory ⟨.page, 0, 0, .prep 5⟩ ⟨.page, 0, 0, .unprep 5 7⟩ = true ↔
      SameBits (keyBitsGet sevenMemory ⟨.page, 0, 0, .prep 5⟩)
        (keyBitsGet sevenMemory ⟨.page, 0, 0, .unprep 5 7⟩) :=
  (compare_iff (show Formed ⟨.page, 0, 0, .prep 5⟩ from rfl)
    (show Formed ⟨.page, 0, 0, .unprep 5 7⟩ from rfl)).2 fun h => Bool.noConfusion h.1

/-- The number keys 1 and 2 are reported to be equal. -/
theorem compare_fails :
    ¬(compare sevenMemory ⟨.number, 0, 0, .words 1 0 0⟩ ⟨.number, 0, 0, .words 2 0 0⟩ = true ↔
      SameBits (keyBitsGet sevenMemory ⟨.number, 0, 0, .words 1 0 0⟩)
        (keyBitsGet sevenMemory ⟨.number, 0, 0, .words 2 0 0⟩)) := by
  intro h
  obtain ⟨-, hbody, -⟩ := h.1 rfl
  simp [keyBitsGet, keyMakeUnpreparedCopy, Memory.keyPrepare, Key.isObjectKey] at hbody

end CapROS.NodeKey
