import CapROS.SpaceBank.Merging
import CapROS.SpaceBank.Storage
import Mathlib.Data.Set.Card
import Mathlib.Data.Set.Finite.Lattice

/-!
# The objects in an allocation tree

An allocation tree stands for a set of objects. An object is found by its node, its frame within the
node, and its number within the frame.
-/

namespace CapROS.SpaceBank

open LinkedTree LinkedTree.Tree ObjSpace
open RbTree (Ascending Failure nullPtr treeFind_spec treeRemove treeRemove_fair)

variable {N N' : TreeNodes} {T : AllocTree} {t : Tree} {oid o n fuel : ℕ}

/-! ## Objects -/

/-- The object is one of those in the tree. -/
def InUse (N : TreeNodes) (t : Tree) (oid : ℕ) : Prop :=
  ∃ n ∈ t.addrs, N.value n = treeKey oid ∧
    ((N.body n).map (frameOffset oid)).getLsbD (objNum oid) = true

/-- What holds of an allocation tree between the calls: its nodes are for aligned keys, and each of them
has an object. -/
structure Stocked (N : TreeNodes) (T : AllocTree) (t : Tree) : Prop where
  search : SearchTree N T t
  notNull : nullPtr ∉ t.addrs
  nilValue : N.value 0 = 1
  keys : ∀ n ∈ t.addrs, N.value n % sbObjectsPerTreenode = 0
  stocked : ∀ n ∈ t.addrs, ∃ idx, (N.body n).map idx ≠ 0#16

theorem frameOffset_val (oid : ℕ) : (frameOffset oid).val = oid / 256 % 8 := rfl

theorem treeKey_eq (oid : ℕ) : treeKey oid = oid / 2048 * 2048 := rfl

theorem objNum_eq (oid : ℕ) : objNum oid = oid % 256 := rfl

theorem frameOf_eq (oid : ℕ) : frameOf oid = oid / 256 * 256 := rfl

theorem oid_eq (oid : ℕ) : oid = treeKey oid + (frameOffset oid).val * ObjSpace.objectsPerFrame + objNum oid := by
  rw [frameOffset_val, treeKey_eq, objNum_eq, ObjSpace.objectsPerFrame]
  omega

section Compose

variable {key b : ℕ} {idx : Fin 8}

theorem treeKey_compose (hk : key % sbObjectsPerTreenode = 0) (hb : b < 256) :
    treeKey (key + idx.val * ObjSpace.objectsPerFrame + b) = key := by
  have hk : key % 2048 = 0 := hk
  rw [treeKey_eq, ObjSpace.objectsPerFrame]
  omega

theorem frameOffset_compose (hk : key % sbObjectsPerTreenode = 0) (hb : b < 256) :
    frameOffset (key + idx.val * ObjSpace.objectsPerFrame + b) = idx := by
  have hk : key % 2048 = 0 := hk
  ext
  rw [frameOffset_val, ObjSpace.objectsPerFrame]
  omega

theorem objNum_compose (hk : key % sbObjectsPerTreenode = 0) (hb : b < 256) :
    objNum (key + idx.val * ObjSpace.objectsPerFrame + b) = b := by
  have hk : key % 2048 = 0 := hk
  rw [objNum_eq, ObjSpace.objectsPerFrame]
  omega

end Compose

theorem lt_of_getLsbD {m : BitVec 16} {k : ℕ} (h : m.getLsbD k = true) : k < 16 := by
  by_contra hk
  rw [BitVec.getLsbD_of_ge m k (by omega)] at h
  cases h

theorem exists_bit {m : BitVec 16} (h : m ≠ 0#16) : ∃ k, m.getLsbD k = true := by
  by_contra hne
  apply h
  ext k hk
  have hk' : m.getLsbD k = false := by
    cases hm : m.getLsbD k with
    | false => rfl
    | true => exact absurd ⟨k, hm⟩ hne
  simpa [BitVec.getLsbD_eq_getElem hk] using hk'

theorem ne_zero_of_bit {m : BitVec 16} {k : ℕ} (h : m.getLsbD k = true) : m ≠ 0#16 := by
  rintro rfl
  simp at h

theorem Stocked.inUse_of_bit (h : Stocked N T t) (hn : n ∈ t.addrs) {idx : Fin 8} {k : ℕ}
    (hk : ((N.body n).map idx).getLsbD k = true) :
    InUse N t (N.value n + idx.val * ObjSpace.objectsPerFrame + k) := by
  have hlt := lt_of_getLsbD hk
  refine ⟨n, hn, (treeKey_compose (h.keys n hn) (by omega)).symm, ?_⟩
  rw [frameOffset_compose (h.keys n hn) (by omega), objNum_compose (h.keys n hn) (by omega)]
  exact hk

theorem finite_inUse (N : TreeNodes) (t : Tree) : {o | InUse N t o}.Finite := by
  refine (Set.Finite.biUnion t.addrs.finite_toSet fun n _ => Set.finite_lt_nat (N.value n + 2048)).subset ?_
  rintro o ⟨n, hn, hv, -⟩
  rw [treeKey_eq] at hv
  refine Set.mem_biUnion hn ?_
  show o < N.value n + 2048
  omega

/-! ## Finding an object -/

theorem findSubOb_mask : ∀ b < 16,
    (BitVec.ofNat 8 (2 ^ b)).setWidth 16 = if b < 8 then 1#16 <<< b else 0#16 := by decide

theorem and_bit_ne_zero {m : BitVec 16} {b : ℕ} (hb : b < 16) : m &&& 1#16 <<< b ≠ 0#16 ↔ m.getLsbD b = true := by
  constructor
  · intro h
    obtain ⟨k, hk⟩ := exists_bit h
    simp only [BitVec.getLsbD_and, BitVec.getLsbD_shiftLeft, Bool.and_eq_true, BitVec.getLsbD_one,
      decide_eq_true_eq, Bool.not_eq_true'] at hk
    obtain rfl : k = b := by
      simp at hk
      omega
    exact hk.1
  · intro h
    apply @ne_zero_of_bit _ b
    simp [h, hb]

theorem findSubOb_some {m : BitVec 16} {b : ℕ} (h : findSubOb m = some b) : b < 8 ∧ m.getLsbD b = true := by
  have hmem := List.mem_range.1 (List.mem_of_find?_eq_some h)
  have hb : b < 16 := hmem
  have hp := List.find?_some h
  rw [decide_eq_true_eq, findSubOb_mask b hb] at hp
  by_cases h8 : b < 8
  · rw [if_pos h8] at hp
    exact ⟨h8, (and_bit_ne_zero hb).1 hp⟩
  · simp [h8] at hp

theorem findSubOb_isSome {m : BitVec 16} {b : ℕ} (hb : b < 8) (h : m.getLsbD b = true) : (findSubOb m).isSome := by
  rw [findSubOb, List.find?_isSome]
  refine ⟨b, List.mem_range.2 (show b < 16 by omega), ?_⟩
  rw [decide_eq_true_eq, findSubOb_mask b (by omega), if_pos hb]
  exact (and_bit_ne_zero (by omega)).2 h

theorem allocTreeFindOID_some (h : Stocked N T t) (hfind : allocTreeFindOID N T = some oid) :
    InUse N t oid ∧ objNum oid < 8 := by
  unfold allocTreeFindOID at hfind
  have hroot : T.root = t.addr := h.search.rep.context
  split at hfind
  · cases hfind
  · rename_i h0
    have hmem : T.root ∈ t.addrs := by
      rw [hroot]
      exact LogDirectory.addr_mem_of_ne_zero (hroot ▸ h0)
    obtain ⟨idx, -, hidx⟩ := List.exists_of_findSome?_eq_some hfind
    obtain ⟨b, hb, rfl⟩ := Option.map_eq_some_iff.1 hidx
    obtain ⟨h8, hbit⟩ := findSubOb_some hb
    exact ⟨h.inUse_of_bit hmem hbit, by rwa [objNum_compose (h.keys _ hmem) (by omega)]⟩

theorem allocTreeFindOID_isSome (hroot : T.root ≠ 0) {idx : Fin 8} {b : ℕ} (hb : b < 8)
    (hbit : ((N.body T.root).map idx).getLsbD b = true) : (allocTreeFindOID N T).isSome := by
  rw [allocTreeFindOID, if_neg hroot, findInBody, List.findSome?_isSome_iff]
  exact ⟨idx, List.mem_finRange idx, by simpa using findSubOb_isSome hb hbit⟩

/-! ## Looking for a node -/

theorem Stocked.ne_zero (h : Stocked N T t) (hn : n ∈ t.addrs) : n ≠ 0 := h.search.rep.ne_zero hn

theorem Stocked.eq_of_value (h : Stocked N T t) {m : ℕ} (hn : n ∈ t.addrs) (hm : m ∈ t.addrs)
    (hv : N.value n = N.value m) : n = m := by
  by_contra hne
  exact ne_of_ascending h.search.ascending hn hm hne hv

theorem Stocked.findFrom (h : Stocked N T t) (hfuel : t.addrs.length < fuel) {last : ℕ}
    (hlast : last = 0 ∨ last ∈ t.addrs) (hn : n ∈ t.addrs) (hv : N.value n = treeKey oid) :
    findFrom fuel N T.root last oid = .ok n := by
  have hkey : treeKey oid % 2048 = 0 := hv ▸ h.keys n hn
  rw [SpaceBank.findFrom]
  by_cases heq : treeKey oid = N.value last
  · rw [if_pos heq]
    have hmem : last ∈ t.addrs := by
      refine hlast.resolve_left ?_
      rintro rfl
      rw [heq, h.nilValue] at hkey
      cases hkey
    rw [h.eq_of_value hmem hn (heq.symm.trans hv.symm)]
  · rw [if_neg heq]
    obtain ⟨m, hfind, hres⟩ := treeFind_spec (H := N.heap T.root) (treeKey oid) fuel h.search.rep
      h.search.ascending hfuel
    obtain ⟨hm, hvm⟩ := hres.resolve_right fun h0 => h0.2 n hn hv
    rw [hfind, h.eq_of_value hm hn (Eq.trans hvm hv.symm)]

/-! ## An object is taken out -/

/-- The map of the frame without the object. -/
def TreeBody.without (b : TreeBody) (oid : ℕ) : TreeBody :=
  { b with
    map := Function.update b.map (frameOffset oid) (b.map (frameOffset oid) &&& ~~~(1#16 <<< objNum oid)) }

@[simp]
theorem TreeNodes.body_setBody_self (N : TreeNodes) (n : ℕ) (b : TreeBody) : (N.setBody n b).body n = b :=
  Function.update_self ..

theorem TreeNodes.body_setBody_of_ne {m : ℕ} (h : m ≠ n) (b : TreeBody) : (N.setBody n b).body m = N.body m :=
  Function.update_of_ne h ..

theorem getLsbD_without (b : TreeBody) (hoid : objNum oid < 16) (idx : Fin 8) (k : ℕ) :
    ((b.without oid).map idx).getLsbD k = true ↔
      (b.map idx).getLsbD k = true ∧ ¬(idx = frameOffset oid ∧ k = objNum oid) := by
  by_cases hidx : idx = frameOffset oid
  · subst hidx
    have hbit : (1#16 <<< objNum oid).getLsbD k = decide (k = objNum oid) := by
      by_cases hk : k < 16
      · by_cases hne : k = objNum oid
        · subst hne
          simp [hk]
        · simp only [BitVec.getLsbD_shiftLeft, BitVec.getLsbD_one, hne, decide_false]
          by_cases hlt : k < objNum oid
          · simp [hlt]
          · have : k - objNum oid ≠ 0 := by omega
            simp [this]
      · rw [BitVec.getLsbD_of_ge _ _ (by omega)]
        simp
        omega
    simp only [TreeBody.without, Function.update_self, BitVec.getLsbD_and, BitVec.getLsbD_not, hbit]
    by_cases hk : k = objNum oid
    · simp [hk]
    · by_cases hk16 : k < 16
      · simp [hk, hk16]
      · simp [hk, BitVec.getLsbD_of_ge _ k (Nat.not_lt.1 hk16)]
  · simp [TreeBody.without, hidx]

theorem Stocked.inUse_without (h : Stocked N T t) (hn : n ∈ t.addrs) (hv : N.value n = treeKey oid)
    (hoid : objNum oid < 16) (o : ℕ) :
    InUse (N.setBody n ((N.body n).without oid)) t o ↔ InUse N t o ∧ o ≠ oid := by
  constructor
  · rintro ⟨m, hm, hvm, hbit⟩
    have hvm : N.value m = treeKey o := hvm
    by_cases hmn : m = n
    · subst hmn
      rw [TreeNodes.body_setBody_self] at hbit
      obtain ⟨hbit, hne⟩ := (getLsbD_without _ hoid _ _).1 hbit
      refine ⟨⟨m, hm, hvm, hbit⟩, ?_⟩
      rintro rfl
      exact hne ⟨rfl, rfl⟩
    · rw [TreeNodes.body_setBody_of_ne hmn] at hbit
      refine ⟨⟨m, hm, hvm, hbit⟩, ?_⟩
      rintro rfl
      exact hmn (h.eq_of_value hm hn (hvm.trans hv.symm))
  · rintro ⟨⟨m, hm, hvm, hbit⟩, hne⟩
    refine ⟨m, hm, hvm, ?_⟩
    by_cases hmn : m = n
    · subst hmn
      rw [TreeNodes.body_setBody_self]
      refine (getLsbD_without _ hoid _ _).2 ⟨hbit, ?_⟩
      rintro ⟨hoff, hnum⟩
      apply hne
      rw [oid_eq o, oid_eq oid, ← hvm, hv, hoff, hnum]
    · rw [TreeNodes.body_setBody_of_ne hmn]
      exact hbit

/-- What it means that the object has been taken out of the tree. -/
structure Cleared (N : TreeNodes) (t : Tree) (oid : ℕ) (result : RemoveResult) (N' : TreeNodes) (T' : AllocTree)
    (t' : Tree) : Prop where
  stocked : Stocked N' T' t'
  inUse : ∀ o, InUse N' t' o ↔ InUse N t o ∧ o ≠ oid
  subset : t'.addrs.Sublist t.addrs
  value : N'.value = N.value
  type : ∀ n ∈ t'.addrs, (N'.body n).type = (N.body n).type
  found : result ≠ .notFound
  frameEmpty : result = .frameEmpty → ∀ o, InUse N' t' o → frameOf o ≠ frameOf oid

theorem frameOf_ne (h : treeKey o = treeKey oid → frameOffset o ≠ frameOffset oid) : frameOf o ≠ frameOf oid := by
  intro heq
  have hdiv : o / 256 = oid / 256 := Nat.eq_of_mul_eq_mul_right (by decide) heq
  apply h
  · rw [treeKey_eq, treeKey_eq, show 2048 = 256 * 8 from rfl, ← Nat.div_div_eq_div_mul,
      ← Nat.div_div_eq_div_mul, hdiv]
  · ext
    rw [frameOffset_val, frameOffset_val, hdiv]

section ClearOID

variable (h : Stocked N T t) (hn : n ∈ t.addrs) (hv : N.value n = treeKey oid)
  (hbit : ((N.body n).map (frameOffset oid)).getLsbD (objNum oid) = true)

include h hn hv hbit

theorem Stocked.frame_empty (hzero : ((N.body n).without oid).map (frameOffset oid) = 0#16) (ho : InUse N t o)
    (hne : o ≠ oid) : frameOf o ≠ frameOf oid := by
  apply frameOf_ne
  intro hkey hoff
  obtain ⟨m, hm, hvm, hb⟩ := (h.inUse_without hn hv (lt_of_getLsbD hbit) o).2 ⟨ho, hne⟩
  obtain rfl : m = n := h.eq_of_value hm hn (hvm.trans (hkey.trans hv.symm))
  rw [TreeNodes.body_setBody_self, hoff, hzero] at hb
  simp at hb

theorem Stocked.cleared_keep (result : RemoveResult)
    (hkeep : ∃ idx, ((N.body n).without oid).map idx ≠ 0#16) (hfound : result ≠ .notFound)
    (hempty : result = .frameEmpty → ((N.body n).without oid).map (frameOffset oid) = 0#16) :
    Cleared N t oid result (N.setBody n ((N.body n).without oid)) { T with lastRemove := n } t where
  stocked := by
    refine ⟨⟨h.search.rep, h.search.fair, h.search.ascending, h.search.lastInsert, .inr hn⟩, h.notNull, h.nilValue, h.keys, fun m hm => ?_⟩
    by_cases hmn : m = n
    · subst hmn
      rwa [TreeNodes.body_setBody_self]
    · rw [TreeNodes.body_setBody_of_ne hmn]
      exact h.stocked m hm
  inUse := h.inUse_without hn hv (lt_of_getLsbD hbit)
  subset := .refl _
  value := rfl
  type m _ := by
    by_cases hmn : m = n
    · subst hmn
      rw [TreeNodes.body_setBody_self]
      rfl
    · rw [TreeNodes.body_setBody_of_ne hmn]
  found := hfound
  frameEmpty he o ho := by
    obtain ⟨ho, hne⟩ := (h.inUse_without hn hv (lt_of_getLsbD hbit) o).1 ho
    exact h.frame_empty hn hv hbit (hempty he) ho hne

theorem Stocked.cleared_remove (hfuel : t.addrs.length < fuel)
    (hnone : ∀ idx, ((N.body n).without oid).map idx = 0#16) :
    ∃ N' T' t', removeNode fuel (N.setBody n ((N.body n).without oid)) { T with lastRemove := n } n = .ok (N', T') ∧
      Cleared N t oid .frameEmpty N' T' t' := by
  have h0 := h.ne_zero hn
  have hnull : n ≠ nullPtr := fun he => h.notNull (he ▸ hn)
  obtain ⟨L', t', hrem, hrep, haddrs, hfair, -⟩ := treeRemove_fair (H := N.heap T.root) fuel h.search.rep
    h.search.fair h.search.ascending h.notNull hn hfuel
  have hsub : t'.addrs.Sublist t.addrs := haddrs ▸ List.erase_sublist
  have hnotMem : n ∉ t'.addrs := haddrs ▸ (h.search.rep.nodup).not_mem_erase
  have hne : ∀ m ∈ t'.addrs, m ≠ n := fun m hm he => hnotMem (he ▸ hm)
  have hmem : ∀ m ∈ t.addrs, m ≠ n → m ∈ t'.addrs := fun m hm hmn =>
    haddrs ▸ (List.mem_erase_of_ne hmn).2 hm
  set N₁ := N.setBody n ((N.body n).without oid) with hN₁
  refine ⟨{ N₁ with links := L'.setParent n N.freehead, freehead := n },
    { root := L'.root, lastInsert := 0, lastRemove := 0 }, t', ?_, ?_⟩
  · have hrem' : treeRemove fuel (N₁.heap T.root) n = .ok { links := L', value := N.value } := hrem
    rw [removeNode, hrem', ok_bind, treeDeleteNode, if_pos ⟨hnull, h0⟩]
    rfl
  have hbody : ∀ m ∈ t'.addrs, N₁.body m = N.body m := fun m hm => N.body_setBody_of_ne (hne m hm) _
  have hinUse : ∀ o, InUse { N₁ with links := L'.setParent n N.freehead, freehead := n } t' o ↔
      InUse N t o ∧ o ≠ oid := by
    intro o
    rw [← h.inUse_without hn hv (lt_of_getLsbD hbit) o]
    constructor
    · rintro ⟨m, hm, hvm, hb⟩
      exact ⟨m, hsub.subset hm, hvm, hb⟩
    · rintro ⟨m, hm, hvm, hb⟩
      refine ⟨m, hmem m hm ?_, hvm, hb⟩
      rintro rfl
      rw [TreeNodes.body_setBody_self, hnone] at hb
      simp at hb
  refine ⟨⟨⟨?_, hfair, ?_, .inl rfl, .inl rfl⟩, ?_, h.nilValue, ?_, ?_⟩, hinUse, hsub, rfl, ?_, by simp, ?_⟩
  · have hkeep : Keeps {n} L' (L'.setParent n N.freehead) := (Keeps.refl _ _).setParent (Set.mem_singleton n) _
    exact Rep.keeps (v := L'.root) hrep hkeep (fun i hi he => hnotMem (he ▸ hi)) hrep.nilColor hrep.nilChild
  · exact h.search.ascending.sublist hsub
  · exact fun hm => h.notNull (hsub.subset hm)
  · exact fun m hm => h.keys m (hsub.subset hm)
  · intro m hm
    obtain ⟨idx, hidx⟩ := h.stocked m (hsub.subset hm)
    exact ⟨idx, by rwa [hbody m hm]⟩
  · exact fun m hm => congrArg TreeBody.type (hbody m hm)
  · intro _ o ho
    obtain ⟨ho, hne⟩ := (hinUse o).1 ho
    exact h.frame_empty hn hv hbit (hnone _) ho hne

end ClearOID

theorem Stocked.clearOID_spec (h : Stocked N T t) (hfuel : t.addrs.length < fuel) (hn : n ∈ t.addrs)
    (hv : N.value n = treeKey oid) (hbit : ((N.body n).map (frameOffset oid)).getLsbD (objNum oid) = true) :
    ∃ result N' T' t', clearOID fuel N T ((N.body n).type (frameOffset oid)) oid = .ok (result, N', T') ∧
      Cleared N t oid result N' T' t' := by
  have h0 := h.ne_zero hn
  have hmap := ne_zero_of_bit hbit
  have hself : ((N.body n).without oid).map (frameOffset oid) =
      (N.body n).map (frameOffset oid) &&& ~~~(1#16 <<< objNum oid) := Function.update_self ..
  have hrun : clearOID fuel N T ((N.body n).type (frameOffset oid)) oid =
      if ((N.body n).without oid).map (frameOffset oid) = 0#16 then
        if ∀ idx, ((N.body n).without oid).map idx = 0#16 then do
          let R ← removeNode fuel (N.setBody n ((N.body n).without oid)) { T with lastRemove := n } n
          .ok (.frameEmpty, R.1, R.2)
        else .ok (.frameEmpty, N.setBody n ((N.body n).without oid), { T with lastRemove := n })
      else .ok (.removed, N.setBody n ((N.body n).without oid), { T with lastRemove := n }) := by
    rw [clearOID, h.findFrom hfuel h.search.lastRemove hn hv]
    simp only [ok_bind, if_neg h0, if_neg hmap, ne_eq, not_true_eq_false, if_false, hbit, Bool.true_eq_false]
    rw [hself]
    rfl
  rw [hrun]
  by_cases hzero : ((N.body n).without oid).map (frameOffset oid) = 0#16
  · rw [if_pos hzero]
    by_cases hnone : ∀ idx, ((N.body n).without oid).map idx = 0#16
    · obtain ⟨N', T', t', hrem, hcl⟩ := h.cleared_remove hn hv hbit hfuel hnone
      rw [if_pos hnone, hrem]
      exact ⟨.frameEmpty, N', T', t', rfl, hcl⟩
    · rw [if_neg hnone]
      exact ⟨_, _, _, t, rfl, h.cleared_keep hn hv hbit .frameEmpty (not_forall.1 hnone) (by simp) fun _ => hzero⟩
  · rw [if_neg hzero]
    exact ⟨_, _, _, t, rfl, h.cleared_keep hn hv hbit .removed ⟨_, hzero⟩ (by simp) (by simp)⟩

end CapROS.SpaceBank
