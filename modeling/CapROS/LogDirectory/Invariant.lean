import CapROS.LogDirectory.Chains
import Mathlib.Data.List.Perm.Subperm

/-!
# The invariant of the log directory

What the directory holds: a tree with the entries, the chains, in which each node of the tree is
once, and the free nodes. Before the first location is recorded there is no tree, no chain and no
free list.
-/

namespace CapROS.LogDirectory

open LinkedTree LinkedTree.Tree LinkedRing

/-- The contents of the log directory. -/
structure View where
  tree : Tree
  chain : ℕ → Chain
  free : List ℕ

/-- The directory has these contents. -/
structure Holds (D : Directory) (V : View) : Prop where
  tree : Rep D.tree [] V.tree
  fair : Fair V.tree
  sorted : Ascending (fun n => (D.od n).oid) V.tree.addrs
  chains : Chains D V.chain
  mem : ∀ n, n ∈ V.tree.addrs ↔ ¬Unchained V.chain n
  stack : Stack D.next 0 D.freeList V.free
  nodes : (V.tree.addrs ++ V.free).Perm
    (if D.highestGeneration = 0 then [] else List.range' 1 D.numLogDirEntries)
  count : D.logEntryCount = V.tree.addrs.length

/-- The chains after `z` has been taken out of the tree, before it leaves its chain: if the next
node `y` has been taken out in its place, `z` has been in the chain of `y` in between. -/
def exchanged (chain : ℕ → Chain) (i j y z : ℕ) : ℕ → Chain :=
  if y = z then chain
  else putIn (takeOut (putIn (takeOut chain i z) j z) j z) i z

structure Removal (D : Directory) (V : View) (z : ℕ) (D' : Directory) (V' : View) : Prop where
  addrs : V'.tree.addrs = V.tree.addrs.erase z
  free : V'.free = z :: V.free
  chain : ∃ i < ldMaxGenerations, ∃ j < ldMaxGenerations, ∃ y, nodeToSplice D.fuel D.tree z = .ok y ∧
    z ∈ (V.chain i).nodes ∧ y ∈ (V.chain j).nodes ∧
    V'.chain = takeOut (exchanged V.chain i j y z) i z
  rest : D' = { D with
    tree := D'.tree, table := D'.table, next := D'.next, prev := D'.prev,
    freeList := D'.freeList, logEntryCount := D'.logEntryCount }
  redBlack : ¬(V.tree.addr = z ∧ V.tree.addrs.length = 2) → RedBlack V'.tree

variable {D D' : Directory} {V V' : View} {chain : ℕ → Chain} {i j y z n : ℕ}

/-! ## Consequences -/

theorem Holds.nodup (h : Holds D V) : (V.tree.addrs ++ V.free).Nodup := by
  rw [h.nodes.nodup_iff]
  split_ifs
  · exact .nil
  · exact List.nodup_range'

theorem Holds.length (h : Holds D V) : V.tree.addrs.length + V.free.length ≤ D.numLogDirEntries := by
  have := h.nodes.length_eq
  rw [List.length_append] at this
  split_ifs at this
  · rw [this]
    exact Nat.zero_le _
  · rw [this, List.length_range']

theorem Holds.fuel (h : Holds D V) : V.tree.addrs.length + 1 < D.fuel := by
  have := h.length
  rw [Directory.fuel]
  omega

theorem Holds.exists_index (h : Holds D V) (hn : n ∈ V.tree.addrs) :
    ∃ i < ldMaxGenerations, n ∈ (V.chain i).nodes := by
  have := (h.mem n).1 hn
  unfold Unchained at this
  push Not at this
  exact this

theorem Holds.mem_tree (h : Holds D V) (hi : i < ldMaxGenerations) (hn : n ∈ (V.chain i).nodes) :
    n ∈ V.tree.addrs := (h.mem n).2 fun hu => hu i hi hn

theorem Holds.not_mem_tree (h : Holds D V) (hn : n ∈ V.free) : n ∉ V.tree.addrs :=
  fun hm => (List.nodup_append'.1 h.nodup).2.2 hm hn

theorem Holds.unchained_free (h : Holds D V) (hn : n ∈ V.free) : Unchained V.chain n := by
  by_contra hc
  exact h.not_mem_tree hn ((h.mem n).2 hc)

theorem Holds.oid_inj (h : Holds D V) {a b : ℕ} (ha : a ∈ V.tree.addrs) (hb : b ∈ V.tree.addrs)
    (hab : (D.od a).oid = (D.od b).oid) : a = b := by
  have hn : (V.tree.addrs.map fun n => (D.od n).oid).Nodup :=
    List.pairwise_map.2 (h.sorted.imp fun hlt => hlt.ne)
  exact List.inj_on_of_nodup_map hn ha hb hab

theorem Holds.find (h : Holds D V) (oid : ℕ) :
    ∃ n, findNode D oid = .ok n ∧
      (n ∈ V.tree.addrs ∧ (D.od n).oid = oid ∨ n = 0 ∧ ∀ m ∈ V.tree.addrs, (D.od m).oid ≠ oid) := by
  have hroot : D.tree.root = V.tree.addr := h.tree.context
  rw [findNode, hroot]
  exact findLoop_spec _ _ h.tree.linked h.sorted (by have := h.fuel; omega)

/-! ## Removal -/

theorem Unchained.move {a : ℕ} (h : Unchained chain a) (hn : (chain i).nodes.Nodup) (ha : a ≠ n) :
    Unchained (putIn (takeOut chain i n) j n) a := by
  intro k hk hm
  rw [mem_putIn] at hm
  rcases hm with hm | ⟨rfl, -⟩
  · exact h.out hn k hk hm
  · exact ha rfl

theorem mem_exchanged (hc : Chains D chain) (hi : i < ldMaxGenerations) (hj : j < ldMaxGenerations)
    (hz : z ∈ (chain i).nodes) {a k : ℕ} (hk : k < ldMaxGenerations) :
    a ∈ (exchanged chain i j y z k).nodes ↔ a ∈ (chain k).nodes := by
  unfold exchanged
  split_ifs with hyz
  · rfl
  · have hout : Unchained (takeOut chain i z) z := unchained_takeOut hc hi hz
    have hnod : (putIn (takeOut chain i z) j z j).nodes.Nodup := by
      have hn : (takeOut chain i z j).nodes.Nodup := by
        unfold takeOut
        by_cases hji : j = i
        · subst hji
          rw [Function.update_self, Chain.unlink, (perm_unlink _ _).nodup_iff]
          exact (hc.ring j hj).nodup.erase z
        · rw [Function.update_of_ne hji]
          exact (hc.ring j hj).nodup
      rw [putIn, Function.update_self, Chain.link, (perm_link _ _).nodup_iff]
      exact List.nodup_cons.2 ⟨hout j hj, hn⟩
    rw [mem_putIn, mem_takeOut hnod, mem_putIn, mem_takeOut (hc.ring i hi).nodup]
    constructor
    · rintro (⟨⟨h, -⟩ | h, h'⟩ | ⟨rfl, rfl⟩)
      · exact h
      · exact absurd h h'
      · exact hz
    · intro h
      by_cases haz : a = z ∧ k = i
      · exact .inr haz
      · refine .inl ⟨.inl ⟨h, haz⟩, ?_⟩
        rintro ⟨rfl, rfl⟩
        exact haz ⟨rfl, hc.index_eq hk hi h hz⟩

theorem removeExchanged_spec {x : ℕ} {L' : Links} {t' : Tree} (hc : Chains D chain)
    (hi : i < ldMaxGenerations) (hz : z ∈ (chain i).nodes) (hj : j < ldMaxGenerations)
    (hy : y ∈ (chain j).nodes) (hyz : y ≠ z)
    (hfix : fixupIfBlack D.fuel D.tree y x = .ok L') (hrep : Rep (replaceNode L' y z) [] t') :
    ∃ D', removeExchanged D z y x = .ok D' ∧ Chains D' (exchanged chain i j y z) ∧
      D' = { D with
        tree := replaceNode L' y z, table := D'.table, next := D'.next, prev := D'.prev } ∧
      ∀ a, Unchained chain a → D'.next a = D.next a := by
  have hgj := hc.gen j hj y hy
  obtain ⟨D₁, hs₁, h₁, heq₁, hn₁⟩ := swapEntry_spec hc hi hz hj (D.od y) hgj
  have hfuel : D₁.fuel = D.fuel := by rw [heq₁]; rfl
  have htree : D₁.tree = D.tree := by rw [heq₁]; rfl
  have hhigh : D₁.highestGeneration = D.highestGeneration := by rw [heq₁]; rfl
  have hz₁ : z ∈ (putIn (takeOut chain i z) j z j).nodes := by
    rw [mem_putIn]
    exact .inr ⟨rfl, rfl⟩
  have h₁' : Chains { D₁ with tree := L' } (putIn (takeOut chain i z) j z) :=
    ⟨h₁.ring, h₁.entry, h₁.gen, h₁.ne_zero⟩
  have hgi : D.generation z + i = ({ D₁ with tree := L' } : Directory).highestGeneration := by
    have := hc.gen i hi z hz
    simp only [hhigh, this]
  obtain ⟨D₂, hs₂, h₂, heq₂, hn₂⟩ := swapEntry_spec h₁' hj hz₁ hi (D.od z) hgi
  have htree₂ : D₂.tree = L' := by rw [heq₂]; rfl
  refine ⟨{ D₂ with tree := replaceNode L' y z }, ?_, ?_, ?_, ?_⟩
  · have hnil : (replaceNode D₂.tree y z).color 0 = .black := by
      rw [htree₂]
      exact hrep.nilColor
    simp only [removeExchanged, hs₁, ok_bind, hfuel, htree, hfix, hs₂, htree₂]
    rw [htree₂] at hnil
    simp only [ensure_pos hnil, ok_bind]
  · rw [exchanged, if_neg hyz]
    exact ⟨h₂.ring, h₂.entry, h₂.gen, h₂.ne_zero⟩
  · -- the entry of `z` is what it was
    have hod : D₂.od = D.od := by
      rw [heq₂]
      rw [heq₁]
      simp [setEntry]
    have hgen : D₂.generation = D.generation := by
      rw [heq₂]
      rw [heq₁]
      simp [setEntry]
    have hrest : D₂ = { D with
        tree := L', od := D₂.od, generation := D₂.generation, table := D₂.table,
        next := D₂.next, prev := D₂.prev } := by
      rw [heq₂]
      rw [heq₁]
      rfl
    rw [hod, hgen] at hrest
    simp only
    rw [hrest]
  · intro a ha
    have haz : a ≠ z := by
      rintro rfl
      exact ha i hi hz
    have ha' := ha.move (j := j) (hc.ring i hi).nodup haz
    exact (hn₂ a ha').trans (hn₁ a ha)

theorem removeMiddle_spec {L' : Links} {t' : Tree} (h : Holds D V) (hi : i < ldMaxGenerations)
    (hz : z ∈ (V.chain i).nodes) (hj : j < ldMaxGenerations) (hy : y ∈ (V.chain j).nodes)
    (hrem : Removed D.tree D.fuel V.tree z y L' t') :
    ∃ D', (if y = z then
          removeSpliced { D with tree := spliceOut D.tree y (onlyChild D.tree y) } z
            (onlyChild D.tree y)
        else
          removeExchanged { D with tree := spliceOut D.tree y (onlyChild D.tree y) } z y
            (onlyChild D.tree y)) = .ok D' ∧
      Chains D' (exchanged V.chain i j y z) ∧
      D' = { D with
        tree := if y = z then L' else replaceNode L' y z, table := D'.table, next := D'.next,
        prev := D'.prev } ∧
      ∀ a, Unchained V.chain a → D'.next a = D.next a := by
  have hc : Chains { D with tree := spliceOut D.tree y (onlyChild D.tree y) } V.chain :=
    ⟨h.chains.ring, h.chains.entry, h.chains.gen, h.chains.ne_zero⟩
  by_cases hyz : y = z
  · subst hyz
    have hfix := hrem.fixup
    refine ⟨{ D with tree := L' }, ?_, ?_, ?_, fun _ _ => rfl⟩
    · rw [if_pos rfl]
      simp only [removeSpliced, Directory.fuel] at hfix ⊢
      rw [hfix, ok_bind]
    · rw [exchanged, if_pos rfl]
      exact ⟨h.chains.ring, h.chains.entry, h.chains.gen, h.chains.ne_zero⟩
    · rw [if_pos rfl]
  · have hrep := hrem.rep
    rw [if_neg hyz] at hrep ⊢
    obtain ⟨D', hD', hc', heq, hnext⟩ :=
      removeExchanged_spec hc hi hz hj hy hyz hrem.fixup hrep
    refine ⟨D', hD', hc', ?_, hnext⟩
    rw [if_neg hyz]
    exact heq

theorem not_unchained_takeOut_exchanged (hc : Chains D chain) (hi : i < ldMaxGenerations)
    (hj : j < ldMaxGenerations) (hz : z ∈ (chain i).nodes) (a : ℕ)
    (hnod : (exchanged chain i j y z i).nodes.Nodup) :
    ¬Unchained (takeOut (exchanged chain i j y z) i z) a ↔ a ≠ z ∧ ¬Unchained chain a := by
  unfold Unchained
  push Not
  constructor
  · rintro ⟨k, hk, hm⟩
    rw [mem_takeOut hnod, mem_exchanged hc hi hj hz hk] at hm
    refine ⟨?_, k, hk, hm.1⟩
    rintro rfl
    exact hm.2 ⟨rfl, hc.index_eq hk hi hm.1 hz⟩
  · rintro ⟨haz, k, hk, hm⟩
    refine ⟨k, hk, ?_⟩
    rw [mem_takeOut hnod, mem_exchanged hc hi hj hz hk]
    exact ⟨hm, fun h => haz h.1⟩

theorem treeRemoveNode_spec (h : Holds D V) (hz : z ∈ V.tree.addrs) :
    ∃ D' V', treeRemoveNode D z = .ok D' ∧ Holds D' V' ∧ Removal D V z D' V' := by
  obtain ⟨y, L', t', hrem⟩ := removal_spec D.fuel h.tree h.fair hz
    (by have := h.fuel; omega)
  obtain ⟨i, hi, hzi⟩ := h.exists_index hz
  obtain ⟨j, hj, hyj⟩ := h.exists_index hrem.mem
  obtain ⟨D₂, hmid, hc₂, heq₂, hnext₂⟩ := removeMiddle_spec h hi hzi hj hyj hrem
  have hz₂ : z ∈ (exchanged V.chain i j y z i).nodes := (mem_exchanged h.chains hi hj hzi hi).2 hzi
  have hnod₂ := (hc₂.ring i hi).nodup
  obtain ⟨D₃, hun, hc₃, honly⟩ := unchainNode_spec hc₂ hi hz₂
  have hmem := fun a => not_unchained_takeOut_exchanged (y := y) h.chains hi hj hzi a hnod₂
  have hcount : D₃.logEntryCount = V.tree.addrs.length := by
    rw [honly.eq]
    simp only
    rw [heq₂]
    exact h.count
  have htree : D₃.tree = if y = z then L' else replaceNode L' y z := by
    rw [honly.eq]
    simp only
    rw [heq₂]
  have hfree : D₃.freeList = D.freeList := by
    rw [honly.eq]
    simp only
    rw [heq₂]
  have hrest : D₃ = { D with
      tree := D₃.tree, table := D₃.table, next := D₃.next, prev := D₃.prev } := by
    rw [honly.eq]
    simp only
    rw [heq₂]
  have hpos : 0 < D₃.logEntryCount := by
    rw [hcount]
    exact List.length_pos_of_mem hz
  have hnext₃ : ∀ a, Unchained V.chain a → D₃.next a = D.next a := by
    intro a ha
    refine (honly.next a ?_).trans (hnext₂ a ha)
    intro k hk hm
    exact ha k hk ((mem_exchanged h.chains hi hj hzi hk).1 hm)
  have hz0 := h.tree.ne_zero hz
  have hy0 := h.tree.ne_zero hrem.mem
  have hrep : Rep D₃.tree [] t' := by
    rw [htree]
    exact hrem.rep
  have hzfree : z ∉ V.free := fun hm => h.not_mem_tree hm hz
  refine ⟨{ D₃ with
      next := Function.update D₃.next z D₃.freeList, freeList := z,
      logEntryCount := D₃.logEntryCount - 1 },
    ⟨t', takeOut (exchanged V.chain i j y z) i z, z :: V.free⟩, ?_, ?_, ?_⟩
  · have hroot := h.tree.parent_root (fun he => by rw [show V.tree = nil from he] at hz; cases hz)
    rw [treeRemoveNode, ensure_pos hroot, ok_bind, ensure_pos h.tree.nilColor, ok_bind,
      ensure_pos hz0, ok_bind, hrem.splice, ok_bind, ensure_pos hy0, ok_bind]
    by_cases hyz : y = z
    · rw [if_pos hyz] at hmid
      simp only [if_pos hyz, hmid, ok_bind, hun, freeNode, ensure_pos hpos, ensure_pos hrep.nilColor]
    · rw [if_neg hyz] at hmid
      simp only [if_neg hyz, hmid, ok_bind, hun, freeNode, ensure_pos hpos, ensure_pos hrep.nilColor]
  · refine ⟨hrep, hrem.fair, ?_, ?_, ?_, ?_, ?_, ?_⟩
    · have hod : D₃.od = D.od := by rw [hrest]
      rw [hod, hrem.addrs]
      exact h.sorted.sublist List.erase_sublist
    · refine hc₃.congr rfl rfl ?_ (fun _ _ => rfl) fun _ _ => rfl
      intro a ha
      have : a ≠ z := ((hmem a).1 ha).1
      simp [this]
    · intro n
      rw [hrem.addrs, (List.nodup_append'.1 h.nodup).1.mem_erase_iff, hmem, h.mem]
    · have hs : Stack D₃.next 0 D₃.freeList V.free := by
        rw [hfree]
        exact h.stack.congr fun a ha => hnext₃ a (h.unchained_free ha)
      exact hs.push hzfree hz0
    · have hhigh : D₃.highestGeneration = D.highestGeneration := by rw [hrest]
      have hN : D₃.numLogDirEntries = D.numLogDirEntries := by rw [hrest]
      simp only [hhigh, hN, hrem.addrs]
      refine List.Perm.trans ?_ h.nodes
      refine (List.perm_middle).trans ?_
      rw [← List.cons_append]
      exact ((List.perm_cons_erase hz).symm).append_right _
    · simp only [hcount, hrem.addrs, List.length_erase_of_mem hz]
  · refine ⟨hrem.addrs, rfl, ⟨i, hi, j, hj, y, hrem.splice, hzi, hyj, rfl⟩, ?_, hrem.redBlack⟩
    simp only
    rw [hrest]

end CapROS.LogDirectory
