import CapROS.ObjSpace.Runs
import CapROS.SpaceBank.Objects

/-!
# The storage of a bank is destroyed

When a bank is destroyed with its storage, an object is found and taken out of the allocation tree
until none is found any more.

* `destroyStorage_iff`: the trees that are empty at the end.
-/

namespace CapROS.SpaceBank

open LinkedRing LinkedTree LinkedTree.Tree ObjSpace
open RbTree (nullPtr)

variable {G : Setting} {S S' : BankStorage} {t : Tree} {bank oid o : ℕ}

/-! ## Frames are given back -/

section Space

variable {s s' : ObjSpace.State} {type : BaseType} {frames : Set ℕ} {f : ℕ}

/-- The banks have these frames. The object space does not keep track of them, nor of what they contain. -/
def Holds (s : ObjSpace.State) (frames : Set ℕ) : Prop :=
  ∃ cleared inUse, Inv { s with cleared := cleared, inUse := inUse } ∧ ∀ f ∈ frames, inUse f = true

theorem Holds.subset {frames' : Set ℕ} (h : Holds s frames) (hsub : frames' ⊆ frames) : Holds s frames' := by
  obtain ⟨cleared, inUse, hinv, hall⟩ := h
  exact ⟨cleared, inUse, hinv, fun f hf => hall f (hsub hf)⟩

theorem Holds.release (h : Holds s frames) (hf : f ∈ frames) (bank : ℕ) (type : BaseType) :
    ∃ s', releaseFrame bank f type s = .ok s' ∧ Holds s' (frames \ {f}) := by
  obtain ⟨cleared, inUse, hinv, hall⟩ := h
  obtain ⟨hback, hfree⟩ := hinv.takeBack (hall f hf)
  obtain ⟨s', hs'⟩ : ∃ s', releaseFrame bank f type _ = .ok s' := releaseFrame_ok hback hfree
  have hrun := releaseFrame_with bank f type s (Function.update cleared f true) (Function.update inUse f false)
  have hs'' : releaseFrame bank f type { s with
      cleared := Function.update cleared f true
      inUse := Function.update inUse f false } = .ok s' := hs'
  rw [hrun] at hs''
  cases hrel : releaseFrame bank f type s with
  | error e => rw [hrel] at hs''; cases hs''
  | ok s₁ =>
    rw [hrel] at hs''
    cases hs''
    refine ⟨s₁, rfl, _, _, (releaseFrame_inv hback hfree hs').1, ?_⟩
    rintro g ⟨hg, hne⟩
    rw [Function.update_of_ne hne]
    exact hall g hg

end Space

/-! ## One round -/

/-- What the loop needs: the kernel knows the types of the frames in the tree, the bank has its
ancestors, and the frames are the bank's. -/
structure Destroyable (G : Setting) (S : BankStorage) (bank : ℕ) (t : Tree) : Prop where
  stocked : Stocked S.nodes (S.tree bank) t
  typed : ∀ n ∈ t.addrs, ∀ o, InUse S.nodes t o → S.nodes.value n = treeKey o →
    (S.nodes.body n).type (frameOffset o) = G.frameType (frameOf o)
  ancestry : ∃ chain, Ancestry S.banks bank chain ∧ chain.length < G.depth
  fuel : t.addrs.length < G.fuel
  frames : Holds S.space (frameOf '' {o | InUse S.nodes t o})

theorem allocTree_addCount (B : Banks) (c : BitVec 64) (bs : List ℕ) (b : ℕ) :
    ((B.addCount c bs).bank b).allocTree = (B.bank b).allocTree := by
  rw [Banks.addCount]
  dsimp only
  split <;> rfl

@[simp]
theorem BankStorage.tree_setTree (S : BankStorage) (bank : ℕ) (N : TreeNodes) (T : AllocTree) :
    (S.setTree bank N T).tree bank = T := by
  simp [tree, setTree, setBank, Banks.setBank]

theorem Destroyable.rescindObject (h : Destroyable G S bank t) (ho : InUse S.nodes t oid) :
    ∃ S' t', rescindObject G S bank (G.frameType (frameOf oid)) oid = .ok S' ∧ Destroyable G S' bank t' ∧
      ∀ o, InUse S'.nodes t' o ↔ InUse S.nodes t o ∧ o ≠ oid := by
  obtain ⟨n, hn, hv, hbit⟩ := id ho
  obtain ⟨result, N', T', t', hrun, hcl⟩ := h.stocked.clearOID_spec h.fuel hn hv hbit
  rw [h.typed n hn oid ho hv] at hrun
  obtain ⟨chain, hanc, hdepth⟩ := h.ancestry
  have htyped : ∀ m ∈ t'.addrs, ∀ o, InUse N' t' o → N'.value m = treeKey o →
      (N'.body m).type (frameOffset o) = G.frameType (frameOf o) := by
    intro m hm o ho' hvm
    rw [hcl.type m hm]
    rw [hcl.value] at hvm
    exact h.typed m (hcl.subset.subset hm) o ((hcl.inUse o).1 ho').1 hvm
  have hfuel : t'.addrs.length < G.fuel := hcl.subset.length_le.trans_lt h.fuel
  have hframes : frameOf '' {o | InUse N' t' o} ⊆ frameOf '' {o | InUse S.nodes t o} :=
    Set.image_mono fun o ho' => ((hcl.inUse o).1 ho').1
  cases hres : result with
  | notFound => exact absurd hres hcl.found
  | removed =>
    refine ⟨S.setTree bank N' T', t', ?_, ⟨?_, htyped, ⟨chain, hanc, hdepth⟩, hfuel, h.frames.subset hframes⟩,
      hcl.inUse⟩
    · rw [SpaceBank.rescindObject, allocTreeRemoveOID, hrun, hres]
      rfl
    · rw [BankStorage.tree_setTree]
      exact hcl.stocked
  | frameEmpty =>
    have hanc' : Ancestry (S.setTree bank N' T').banks bank chain := hanc
    obtain ⟨space, hrel, hholds⟩ := h.frames.release (Set.mem_image_of_mem frameOf ho) bank
      (G.frameType (frameOf oid))
    have hB : bankUnreserveFrames G.depth bank 1 (S.setTree bank N' T').banks = .ok _ :=
      bankUnreserveFrames_spec hanc' hdepth
    refine ⟨{ S.setTree bank N' T' with
      banks := (S.setTree bank N' T').banks.addCount (-(1#32).setWidth 64) chain
      space := space }, t', ?_, ⟨?_, htyped, ⟨chain, hanc, hdepth⟩, hfuel, ?_⟩, hcl.inUse⟩
    · have hrel' : releaseFrame bank (frameOf oid) (G.frameType (frameOf oid)) (S.setTree bank N' T').space =
          .ok space := hrel
      rw [SpaceBank.rescindObject, allocTreeRemoveOID, hrun, hres]
      simp only [ofTree, ok_bind, hB, hrel']
      rfl
    · have htree := allocTree_addCount (S.setTree bank N' T').banks (-(1#32).setWidth 64) chain bank
      have htree := htree.trans (BankStorage.tree_setTree S bank N' T')
      rw [BankStorage.tree, htree]
      exact hcl.stocked
    · refine hholds.subset ?_
      rintro f ⟨o, ho', rfl⟩
      exact ⟨hframes (Set.mem_image_of_mem frameOf ho'), hcl.frameEmpty hres o ho'⟩

/-! ## All rounds -/

theorem Destroyable.ends (h : Destroyable G S bank t) :
    ∃ rounds S' t', destroyStorage G bank rounds S = .ok S' ∧ Destroyable G S' bank t' ∧
      allocTreeFindOID S'.nodes (S'.tree bank) = none ∧ ∀ o, InUse S'.nodes t' o → InUse S.nodes t o := by
  induction hk : Set.ncard {o | InUse S.nodes t o} using Nat.strong_induction_on generalizing S t with
  | _ k ih =>
    cases hfind : allocTreeFindOID S.nodes (S.tree bank) with
    | none => exact ⟨1, S, t, by rw [destroyStorage, hfind], h, hfind, fun _ => id⟩
    | some oid =>
      obtain ⟨ho, -⟩ := allocTreeFindOID_some h.stocked hfind
      obtain ⟨S₁, t₁, hrun, h₁, hiff⟩ := h.rescindObject ho
      -- there is one object less
      have hlt : Set.ncard {o | InUse S₁.nodes t₁ o} < k := by
        rw [← hk]
        apply Set.ncard_lt_ncard _ (finite_inUse _ _)
        refine ⟨fun o ho₁ => ((hiff o).1 ho₁).1, fun hsub => ?_⟩
        exact ((hiff oid).1 (hsub ho)).2 rfl
      obtain ⟨rounds, S', t', hrest, h', hnone, hsub⟩ := ih _ hlt h₁ rfl
      refine ⟨rounds + 1, S', t', ?_, h', hnone, fun o ho' => ((hiff o).1 (hsub o ho')).1⟩
      simp only [destroyStorage, hfind, hrun, ok_bind, hrest]

theorem Destroyable.keeps (h : Destroyable G S bank t) (rounds : ℕ)
    (hrun : destroyStorage G bank rounds S = .ok S') :
    ∃ t', Destroyable G S' bank t' ∧ ∀ o, InUse S.nodes t o → 8 ≤ objNum o → InUse S'.nodes t' o := by
  induction rounds generalizing S t with
  | zero => cases hrun
  | succ rounds ih =>
    rw [destroyStorage] at hrun
    cases hfind : allocTreeFindOID S.nodes (S.tree bank) with
    | none =>
      rw [hfind] at hrun
      cases hrun
      exact ⟨t, h, fun o ho _ => ho⟩
    | some oid =>
      obtain ⟨ho, h8⟩ := allocTreeFindOID_some h.stocked hfind
      obtain ⟨S₁, t₁, hrun₁, h₁, hiff⟩ := h.rescindObject ho
      rw [hfind] at hrun
      simp only [hrun₁, ok_bind] at hrun
      obtain ⟨t', h', hkeep⟩ := ih h₁ hrun
      refine ⟨t', h', fun o ho₁ hge => hkeep o ((hiff o).2 ⟨ho₁, ?_⟩) hge⟩
      rintro rfl
      omega

theorem Stocked.root_eq_zero {N : TreeNodes} {T : AllocTree} (h : Stocked N T t) : T.root = 0 ↔ t = nil := by
  have hroot : T.root = t.addr := h.search.rep.context
  constructor
  · intro h0
    by_contra hne
    exact h.ne_zero (addr_mem hne) (hroot.symm.trans h0)
  · rintro rfl
    exact hroot

/-- Storage is destroyed as expected: an object of the tree is found, and the loop ends with an empty
tree. -/
def Destroys (G : Setting) (S : BankStorage) (bank : ℕ) (t : Tree) : Prop :=
  (∃ oid, allocTreeFindOID S.nodes (S.tree bank) = some oid ∧ InUse S.nodes t oid) ∧
    ∃ rounds S', destroyStorage G bank rounds S = .ok S' ∧ (S'.tree bank).root = 0

/-- The storage of a bank is destroyed as expected exactly if all its objects have numbers below 8 in
their frames. The mask with which objects are looked for has eight bits. -/
theorem destroys_iff (h : Destroyable G S bank t) (hne : t ≠ nil) :
    Destroys G S bank t ↔ ∀ oid, InUse S.nodes t oid → objNum oid < 8 := by
  constructor
  · rintro ⟨-, rounds, S', hrun, h0⟩ oid ho
    by_contra hge
    obtain ⟨t', h', hkeep⟩ := h.keeps rounds hrun
    obtain ⟨n, hn, -⟩ := hkeep oid ho (not_lt.1 hge)
    rw [h'.stocked.root_eq_zero] at h0
    subst h0
    cases hn
  · intro hall
    -- as long as there are objects, one is found
    have hfind : ∀ S' t', Destroyable G S' bank t' → t' ≠ nil →
        (∀ o, InUse S'.nodes t' o → InUse S.nodes t o) → (allocTreeFindOID S'.nodes (S'.tree bank)).isSome := by
      intro S' t' h' hne' hsub
      have hroot : (S'.tree bank).root = t'.addr := h'.stocked.search.rep.context
      have hmem : (S'.tree bank).root ∈ t'.addrs := hroot ▸ addr_mem hne'
      obtain ⟨idx, hidx⟩ := h'.stocked.stocked _ hmem
      obtain ⟨k, hk⟩ := exists_bit hidx
      have hlt := hall _ (hsub _ (h'.stocked.inUse_of_bit hmem hk))
      have hk16 := lt_of_getLsbD hk
      rw [objNum_compose (h'.stocked.keys _ hmem) (by omega)] at hlt
      exact allocTreeFindOID_isSome (h'.stocked.ne_zero hmem) hlt hk
    obtain ⟨oid, hoid⟩ := Option.isSome_iff_exists.1 (hfind S t h hne fun _ => id)
    obtain ⟨rounds, S', t', hrun, h', hnone, hsub⟩ := h.ends
    refine ⟨⟨oid, hoid, (allocTreeFindOID_some h.stocked hoid).1⟩, rounds, S', hrun, ?_⟩
    rw [h'.stocked.root_eq_zero]
    by_contra hne'
    have hsome := hfind S' t' h' hne' hsub
    rw [hnone] at hsome
    cases hsome

/-! ## A bank with one frame -/

/-- Nine nodes to a frame. -/
def nineNodes : Setting where
  perFrame type := if type = .page then 1 else 9
  getCap _ _ := true
  frameType _ := .node
  mounted _ := true
  fuel := 4
  depth := 2

/-- A range with one frame, which is in use. -/
def oneFrame : ObjSpace.State where
  rangeTable k := if k = 0 then { endOID := 256, endClearedOIDs := 256, nFrames := 1, nSubmaps := 1 } else {}
  curRanges := 1
  nextRangeSrmFrame := 1
  srm _ := false
  caches _ _ := {}
  cleared _ := false
  zeroed := []
  inUse o := decide (o = 0)

theorem holds_oneFrame : Holds oneFrame {0} := by
  refine ⟨oneFrame.cleared, oneFrame.inUse, ?_, by simp [oneFrame]⟩
  have hk : ∀ k < oneFrame.curRanges, k = 0 := fun k hk => Nat.lt_one_iff.1 hk
  have hocc : ∀ t n i, ¬Occupied oneFrame t n i := fun t n i hi => Nat.not_lt_zero _ hi.2
  constructor
  · intro k hlt
    rw [hk k hlt]
    exact ⟨by decide, by decide, 1, by decide, by decide⟩
  · intro k hge
    have h0 : k ≠ 0 := Nat.ne_of_gt hge
    simp [oneFrame, h0]
  · decide
  · intro k l hkl hl
    have := hk l hl
    omega
  · intro k l hkl hl
    have := hk l hl
    omega
  · intro k hlt
    rw [hk k hlt]
    decide
  · intro k _ f _ hbit
    cases hbit
  · intro o ho
    have h0 : o = 0 := of_decide_eq_true ho
    subst h0
    exact ⟨0, by decide, ⟨0, by decide, by decide⟩, by decide⟩
  · exact fun t n => le_rfl
  · exact fun t n i hi => absurd hi (hocc t n i)
  · exact fun t n i t' n' i' hi _ _ => absurd hi (hocc t n i)

/-- A bank whose nodes are in one frame, with this map. -/
def oneNode (map : BitVec 16) : BankStorage where
  nodes :=
    { links := { root := 0, child := fun _ _ => 0, parent := fun _ => 0, color := fun _ => .black }
      value := fun n => if n = 0 then 1 else 0
      body := fun _ => { type := fun _ => .node, map := fun idx => if idx.val = 0 then map else 0#16 }
      freehead := nullPtr
      top := 3 }
  banks :=
    { parent := fun _ => 0
      bank := fun _ => ⟨⟨2, 0, 0⟩, 10, 1, ⟨0, 0⟩, fun _ => 0, fun _ => 0⟩ }
  space := oneFrame

theorem inUse_oneNode {map : BitVec 16} :
    InUse (oneNode map).nodes (node .black nil 2 nil) oid ↔ oid < 256 ∧ map.getLsbD oid = true := by
  have hmap : ∀ n idx, ((oneNode map).nodes.body n).map idx = if idx.val = 0 then map else 0#16 := fun _ _ => rfl
  have hval : (oneNode map).nodes.value 2 = 0 := rfl
  constructor
  · rintro ⟨n, hn, hv, hbit⟩
    obtain rfl : n = 2 := by simpa [addrs] using hn
    rw [hval, treeKey_eq] at hv
    rw [hmap] at hbit
    by_cases hoff : (frameOffset oid).val = 0
    · have hval : oid / 256 % 8 = 0 := hoff
      have hlt : oid < 256 := by omega
      rw [if_pos hoff, objNum_eq, Nat.mod_eq_of_lt hlt] at hbit
      exact ⟨hlt, hbit⟩
    · simp [hoff] at hbit
  · rintro ⟨hlt, hbit⟩
    have hoff : (frameOffset oid).val = 0 := by
      rw [frameOffset_val]
      omega
    refine ⟨2, by simp [addrs], ?_, ?_⟩
    · rw [hval, treeKey_eq]
      omega
    · rwa [hmap, if_pos hoff, objNum_eq, Nat.mod_eq_of_lt hlt]

theorem destroyable_oneNode {map : BitVec 16} (hmap : map ≠ 0#16) :
    Destroyable nineNodes (oneNode map) 1 (node .black nil 2 nil) where
  stocked := by
    refine ⟨⟨⟨rfl, ⟨by decide, rfl, rfl, rfl, rfl, trivial, trivial⟩, by simp [plug, addrs], rfl, fun _ => rfl⟩,
      .inl ⟨rfl, 1, 0, rfl, rfl, rfl⟩, List.pairwise_singleton _ _, .inl rfl, .inl rfl⟩, by simp [addrs, nullPtr], rfl,
      by simp [addrs, oneNode], ?_⟩
    intro n _
    exact ⟨0, by simpa [oneNode] using hmap⟩
  typed n _ o _ _ := rfl
  ancestry := ⟨[1], ⟨rfl, by decide, rfl⟩, by decide⟩
  fuel := by simp [addrs, nineNodes]
  frames := by
    refine holds_oneFrame.subset ?_
    rintro f ⟨o, ho, rfl⟩
    have hlt := (inUse_oneNode.1 ho).1
    rw [Set.mem_singleton_iff, frameOf_eq]
    omega

/-- The nodes 0, 4 and 6 of the frame are in use. -/
theorem destroys_iff_three : Destroys nineNodes (oneNode 0x51#16) 1 (node .black nil 2 nil) := by
  refine (destroys_iff (destroyable_oneNode (by decide)) (by simp)).2 ?_
  intro oid ho
  obtain ⟨hlt, hbit⟩ := inUse_oneNode.1 ho
  have h16 := lt_of_getLsbD hbit
  have hnum : objNum oid = oid := Nat.mod_eq_of_lt hlt
  by_contra hge
  have hbits : ∀ k < 16, 8 ≤ k → (0x51#16).getLsbD k = false := by decide
  rw [hbits oid h16 (hnum ▸ not_lt.1 hge)] at hbit
  cases hbit

/-- The ninth node of a frame is the only one that is in use: it is not found. -/
theorem destroys_fails :
    ∃ G S t, Destroyable G S 1 t ∧ t ≠ nil ∧ (∀ type, 1 ≤ G.perFrame type ∧ G.perFrame type ≤ mapBits) ∧
      (∀ oid, InUse S.nodes t oid → objNum oid < G.perFrame (G.frameType (frameOf oid))) ∧
      ¬Destroys G S 1 t := by
  refine ⟨nineNodes, oneNode 256#16, _, destroyable_oneNode (by decide), by simp, ?_, ?_, ?_⟩
  · intro type
    cases type <;> decide
  · intro oid ho
    obtain ⟨hlt, hbit⟩ := inUse_oneNode.1 ho
    have h16 := lt_of_getLsbD hbit
    have hnum : objNum oid = oid := Nat.mod_eq_of_lt hlt
    show objNum oid < 9
    rw [hnum]
    by_contra hge
    have hbits : ∀ k < 16, 9 ≤ k → (256#16).getLsbD k = false := by decide
    rw [hbits oid h16 (not_lt.1 hge)] at hbit
    cases hbit
  · rintro ⟨⟨oid, hfind, -⟩, -⟩
    have hnone : allocTreeFindOID (oneNode 256#16).nodes ((oneNode 256#16).tree 1) = none := by decide
    rw [hnone] at hfind
    cases hfind

end CapROS.SpaceBank
