import CapROS.RbTree.RedRoot
import CapROS.SpaceBank.AllocTree

/-!
# Merging allocation trees

When a bank is destroyed and its storage is kept, its allocation tree is merged into that of its
parent: the nodes are taken out of the one tree and put into the other, or their maps are added to
those of a node with the same key.

* `mergeTrees_iff`: the trees for which it does so.
-/

namespace CapROS.SpaceBank

open LinkedTree LinkedTree.Tree ObjSpace
open LogDirectory (Fair)
open RbTree (Ascending Failure Heap nullPtr treeFind treeFind_spec treeInsert treeInsert_spec treeRemove treeRemove_fair)

/-! ## Allocation trees -/

/-- The nodes from `head` on, along the parent links, are those of the list. -/
def FreeChain (L : Links) : ℕ → List ℕ → Prop
  | head, [] => head = nullPtr
  | head, n :: free => head = n ∧ FreeChain L (L.parent n) free

/-- The allocation tree has the nodes of `t`, and is a search tree. -/
structure SearchTree (N : TreeNodes) (T : AllocTree) (t : Tree) : Prop where
  rep : Rep (N.links.setRoot T.root) [] t
  fair : Fair t
  ascending : Ascending N.value t.addrs
  lastInsert : T.lastInsert = 0 ∨ T.lastInsert ∈ t.addrs
  lastRemove : T.lastRemove = 0 ∨ T.lastRemove ∈ t.addrs

/-- In the tree there is a frame with objects in use. -/
def HasFrame (N : TreeNodes) (t : Tree) (key : ℕ) (idx : Fin 8) (type : BaseType) (map : BitVec 16) : Prop :=
  ∃ n ∈ t.addrs, N.value n = key ∧ (N.body n).map idx = map ∧ (N.body n).type idx = type ∧ map ≠ 0#16

/-- Two allocation trees without a common frame, and the list of the free nodes. -/
structure TwoTrees (N : TreeNodes) (dest src : AllocTree) (td ts : Tree) (free : List ℕ) : Prop where
  dest : SearchTree N dest td
  src : SearchTree N src ts
  chain : FreeChain N.links N.freehead free
  nodup : (td.addrs ++ ts.addrs ++ free).Nodup
  isNode : ∀ n ∈ td.addrs ++ ts.addrs ++ free, n ≠ 0 ∧ n ≠ nullPtr
  disjoint : ∀ {key idx type map type' map'}, HasFrame N td key idx type map → ¬HasFrame N ts key idx type' map'

/-- What a merge should do: the destination is a search tree with the frames of both trees, the source
is empty, and each node is in the destination or free. -/
def Merged (N : TreeNodes) (td ts : Tree) (free : List ℕ) (r : TreeNodes × AllocTree × AllocTree) : Prop :=
  ∃ td' free', SearchTree r.1 r.2.1 td' ∧
    (∀ key idx type map, HasFrame r.1 td' key idx type map ↔
      HasFrame N td key idx type map ∨ HasFrame N ts key idx type map) ∧
    r.2.2 = { root := 0, lastInsert := 0, lastRemove := 0 } ∧ FreeChain r.1.links r.1.freehead free' ∧
    (td'.addrs ++ free').Perm (td.addrs ++ ts.addrs ++ free)

variable {N : TreeNodes} {td ts : Tree} {free : List ℕ} {L L' : Links} {cur dest src n : ℕ} {S : Set ℕ}

theorem FreeChain.congr {head : ℕ} (h : FreeChain L head free) (hp : ∀ n ∈ free, L'.parent n = L.parent n) :
    FreeChain L' head free := by
  induction free generalizing head with
  | nil => exact h
  | cons n free ih =>
    refine ⟨h.1, ?_⟩
    rw [hp n (by simp)]
    exact ih h.2 fun m hm => hp m (by simp [hm])

/-! ## One round -/

/-- The state between two rounds. -/
structure Merging (N : TreeNodes) (dest src : ℕ) (td ts : Tree) (free : List ℕ) : Prop where
  dest : Rep (N.links.setRoot dest) [] td
  destAscending : Ascending N.value td.addrs
  src : Rep (N.links.setRoot src) [] ts
  srcFair : Fair ts
  srcAscending : Ascending N.value ts.addrs
  chain : FreeChain N.links N.freehead free
  nodup : (td.addrs ++ ts.addrs ++ free).Nodup
  isNode : ∀ n ∈ td.addrs ++ ts.addrs ++ free, n ≠ 0 ∧ n ≠ nullPtr
  disjoint : ∀ a ∈ td.addrs, ∀ b ∈ ts.addrs, N.value a = N.value b →
    ∀ idx, (N.body a).map idx = 0#16 ∨ (N.body b).map idx = 0#16

/-- The node `cur` has been taken out of the source. -/
structure Moving (N : TreeNodes) (cur dest src : ℕ) (td ts : Tree) (free : List ℕ) : Prop extends
    Merging N dest src td ts free where
  curNode : cur ≠ 0 ∧ cur ≠ nullPtr
  notMem : cur ∉ td.addrs ++ ts.addrs ++ free
  ne_value : ∀ b ∈ ts.addrs, N.value b ≠ N.value cur
  curDisjoint : ∀ a ∈ td.addrs, N.value a = N.value cur →
    ∀ idx, (N.body a).map idx = 0#16 ∨ (N.body cur).map idx = 0#16

theorem Keeps.of_setRoot {r : ℕ} (h : Keeps S (L.setRoot r) L') : Keeps S L L' := ⟨h.child, h.parent, h.color⟩

theorem ne_of_ascending {value : ℕ → ℕ} {xs : List ℕ} (h : Ascending value xs) {a b : ℕ} (ha : a ∈ xs)
    (hb : b ∈ xs) (hne : a ≠ b) : value a ≠ value b := by
  induction xs with
  | nil => cases ha
  | cons x xs ih =>
    rw [Ascending, List.pairwise_cons] at h
    rcases List.mem_cons.1 ha with hax | ha
    · rcases List.mem_cons.1 hb with hbx | hb
      · exact absurd (hax.trans hbx.symm) hne
      · exact hax ▸ (h.1 b hb).ne
    · rcases List.mem_cons.1 hb with hbx | hb
      · exact hbx ▸ (h.1 a ha).ne'
      · exact ih h.2 ha hb

theorem Merging.remove (fuel : ℕ) (h : Merging N dest src td ts free) (hne : ts ≠ nil) (hfuel : ts.addrs.length < fuel) :
    ∃ L' ts', treeRemove fuel (N.heap src) src = .ok { links := L', value := N.value } ∧
      Moving { N with links := L' } src dest L'.root td ts' free ∧ ts.addrs.Perm (src :: ts'.addrs) := by
  have hroot : src = ts.addr := h.src.context
  have hmem : src ∈ ts.addrs := hroot ▸ addr_mem hne
  have hnull : nullPtr ∉ ts.addrs := fun hm => (h.isNode nullPtr (by simp [hm])).2 rfl
  obtain ⟨L', ts', hrem, hrep, haddrs, hfair, hkeep⟩ :=
    treeRemove_fair (H := N.heap src) fuel h.src h.srcFair h.srcAscending hnull hmem hfuel
  have hkeep : Keeps (insert 0 ts.nodes) N.links L' := Keeps.of_setRoot hkeep
  have hperm : ts.addrs.Perm (src :: ts'.addrs) := haddrs ▸ List.perm_cons_erase hmem
  have hsub : ∀ b ∈ ts'.addrs, b ∈ ts.addrs := fun b hb => hperm.mem_iff.2 (List.mem_cons_of_mem _ hb)
  have hall : (td.addrs ++ ts.addrs ++ free).Perm (src :: (td.addrs ++ ts'.addrs ++ free)) := by
    rw [List.append_assoc, List.append_assoc]
    exact ((hperm.append_right free).append_left td.addrs).trans List.perm_middle
  have hnodup := hall.nodup_iff.1 h.nodup
  rw [List.nodup_cons] at hnodup
  have hout : ∀ i, i ∈ td.addrs ∨ i ∈ free → i ∉ insert 0 ts.nodes := by
    rintro i hi (rfl | his)
    · exact (h.isNode 0 (by rcases hi with hi | hi <;> simp [hi])).1 rfl
    · have hn := h.nodup
      rw [List.nodup_append', List.nodup_append'] at hn
      rcases hi with hi | hi
      · exact hn.1.2.2 hi his
      · exact hn.2.2 (List.mem_append_right _ his) hi
  refine ⟨L', ts', hrem, ⟨⟨?_, h.destAscending, hrep, hfair, ?_, ?_, hnodup.2, ?_, ?_⟩, ?_, hnodup.1, ?_, ?_⟩, hperm⟩
  · exact h.dest.keeps hkeep (fun i hi => hout i (.inl hi)) hrep.nilColor hrep.nilChild
  · exact haddrs ▸ h.srcAscending.sublist List.erase_sublist
  · exact h.chain.congr fun n hn => hkeep.parent n (hout n (.inr hn))
  · exact fun n hn => h.isNode n (hall.mem_iff.2 (List.mem_cons_of_mem _ hn))
  · exact fun a ha b hb => h.disjoint a ha b (hsub b hb)
  · exact h.isNode src (by simp [hmem])
  · intro b hb
    refine ne_of_ascending h.srcAscending (hsub b hb) hmem ?_
    rintro rfl
    exact hnodup.1 (by simp [hb])
  · exact fun a ha => h.disjoint a ha src hmem

theorem Moving.insert (fuel : ℕ) (h : Moving N cur dest src td ts free) (hrb : RedBlack td)
    (hnew : ∀ m ∈ td.addrs, N.value m ≠ N.value cur) (hfuel : td.addrs.length + 2 < fuel) :
    ∃ L' td', treeInsert fuel (N.heap dest) cur = .ok { links := L', value := N.value } ∧
      Merging { N with links := L' } L'.root src td' ts free ∧ RedBlack td' ∧
      td'.addrs.Perm (cur :: td.addrs) := by
  have hnull : nullPtr ∉ td.addrs := fun hm => (h.isNode nullPtr (by simp [hm])).2 rfl
  have hnotMem := h.notMem
  simp only [List.mem_append, not_or] at hnotMem
  obtain ⟨L', td', hins, hrep, hrb', hs', hperm, hkeep⟩ := treeInsert_spec (H := N.heap dest) fuel h.dest hrb
    h.destAscending hnull h.curNode.1 h.curNode.2 hnotMem.1.1 hnew hfuel
  have hkeep : Keeps td'.nodes N.links L' := Keeps.of_setRoot hkeep
  have hall : (td'.addrs ++ ts.addrs ++ free).Perm (cur :: (td.addrs ++ ts.addrs ++ free)) :=
    (hperm.append_right ts.addrs).append_right free
  have hnodup : (td'.addrs ++ ts.addrs ++ free).Nodup := hall.nodup_iff.2 (List.nodup_cons.2 ⟨h.notMem, h.nodup⟩)
  have hout : ∀ i, i ∈ ts.addrs ∨ i ∈ free → i ∉ td'.nodes := by
    intro i hi hit
    rw [List.nodup_append', List.nodup_append'] at hnodup
    rcases hi with hi | hi
    · exact hnodup.1.2.2 hit hi
    · exact hnodup.2.2 (List.mem_append_left _ hit) hi
  refine ⟨L', td', hins, ⟨hrep, hs', ?_, h.srcFair, h.srcAscending, ?_, ?_, ?_, ?_⟩, hrb', hperm⟩
  · exact h.src.keeps hkeep (fun i hi => hout i (.inl hi)) hrep.nilColor hrep.nilChild
  · exact h.chain.congr fun n hn => hkeep.parent n (hout n (.inr hn))
  · exact hnodup
  · intro n hn
    rcases List.mem_cons.1 (hall.mem_iff.1 hn) with rfl | hn
    · exact h.curNode
    · exact h.isNode n hn
  · intro a ha b hb hv
    rcases List.mem_cons.1 (hperm.mem_iff.1 ha) with rfl | ha
    · exact absurd hv.symm (h.ne_value b hb)
    · exact h.disjoint a ha b hb hv

/-- The frames of the node are added to those of the node `n` with the same key, and it is freed. -/
def TreeNodes.absorb (N : TreeNodes) (n cur : ℕ) : TreeNodes :=
  treeDeleteNode (N.setBody n ((N.body n).merge (N.body cur))) cur

section Moving

variable (h : Moving N cur dest src td ts free)
include h

theorem Moving.absorb_eq :
    N.absorb n cur = { N.setBody n ((N.body n).merge (N.body cur)) with
      links := N.links.setParent cur N.freehead
      freehead := cur } := by
  rw [TreeNodes.absorb, treeDeleteNode, if_pos ⟨h.curNode.2, h.curNode.1⟩]
  rfl

theorem Moving.value_absorb : (N.absorb n cur).value = N.value := by
  rw [h.absorb_eq]
  rfl

theorem Moving.body_absorb (m : ℕ) :
    (N.absorb n cur).body m = if m = n then (N.body n).merge (N.body cur) else N.body m := by
  rw [h.absorb_eq]
  exact Function.update_apply ..

theorem Moving.combine (hn : n ∈ td.addrs) (hv : N.value n = N.value cur) :
    Merging (N.absorb n cur) dest src td ts (cur :: free) := by
  have hnotMem := h.notMem
  simp only [List.mem_append, not_or] at hnotMem
  have hlinks : (N.absorb n cur).links = N.links.setParent cur N.freehead := by rw [h.absorb_eq]
  have hkeep : Keeps {cur} N.links (N.absorb n cur).links :=
    hlinks ▸ (Keeps.refl _ _).setParent (Set.mem_singleton cur) _
  have hcolor : (N.absorb n cur).links.color 0 = .black := by
    rw [hlinks]
    exact h.dest.nilColor
  have hchild : ∀ d, (N.absorb n cur).links.child d 0 = 0 := by
    rw [hlinks]
    exact h.dest.nilChild
  have hall : (td.addrs ++ ts.addrs ++ (cur :: free)).Perm (cur :: (td.addrs ++ ts.addrs ++ free)) :=
    List.perm_middle
  refine ⟨?_, ?_, ?_, h.srcFair, ?_, ?_, ?_, ?_, ?_⟩
  · exact h.dest.keeps hkeep (fun i hi he => hnotMem.1.1 (he ▸ hi)) hcolor hchild
  · exact h.value_absorb ▸ h.destAscending
  · exact h.src.keeps hkeep (fun i hi he => hnotMem.1.2 (he ▸ hi)) hcolor hchild
  · exact h.value_absorb ▸ h.srcAscending
  · have hhead : (N.absorb n cur).freehead = cur := by rw [h.absorb_eq]
    have hpar : (N.absorb n cur).links.parent cur = N.freehead := by rw [hlinks]; simp
    refine ⟨hhead, ?_⟩
    rw [hpar]
    exact h.chain.congr fun m hm => hkeep.parent m fun he => hnotMem.2 (he ▸ hm)
  · exact hall.nodup_iff.2 (List.nodup_cons.2 ⟨h.notMem, h.nodup⟩)
  · intro m hm
    rcases List.mem_cons.1 (hall.mem_iff.1 hm) with rfl | hm
    · exact h.curNode
    · exact h.isNode m hm
  · intro a ha b hb hab
    rw [h.value_absorb] at hab
    have hbn : b ≠ n := by
      rintro rfl
      have hnod := h.nodup
      rw [List.nodup_append', List.nodup_append'] at hnod
      exact hnod.1.2.2 hn hb
    have han : a ≠ n := by
      rintro rfl
      exact h.ne_value b hb (hab.symm.trans hv)
    rw [h.body_absorb, h.body_absorb, if_neg han, if_neg hbn]
    exact h.disjoint a ha b hb hab

/-! ## The frames -/

theorem Moving.hasFrame_absorb (hn : n ∈ td.addrs)
    (hv : N.value n = N.value cur) (key : ℕ) (idx : Fin 8) (type : BaseType) (map : BitVec 16) :
    HasFrame (N.absorb n cur) td key idx type map ↔ HasFrame N td key idx type map ∨
      N.value cur = key ∧ (N.body cur).map idx = map ∧ (N.body cur).type idx = type ∧ map ≠ 0#16 := by
  have hdis := h.curDisjoint n hn hv idx
  constructor
  · rintro ⟨m, hm, hk, hmap, htype, h0⟩
    rw [h.value_absorb] at hk
    rw [h.body_absorb] at hmap htype
    by_cases hmn : m = n
    · subst hmn
      rw [if_pos rfl] at hmap htype
      simp only [TreeBody.merge] at hmap htype
      by_cases hc : (N.body cur).map idx = 0#16
      · rw [if_neg (by simp [hc])] at hmap htype
        exact .inl ⟨m, hm, hk, hmap, htype, h0⟩
      · rw [if_pos hc] at hmap htype
        exact .inr ⟨hv.symm.trans hk, hmap, htype, h0⟩
    · rw [if_neg hmn] at hmap htype
      exact .inl ⟨m, hm, hk, hmap, htype, h0⟩
  · rintro (⟨m, hm, hk, hmap, htype, h0⟩ | ⟨hk, hmap, htype, h0⟩)
    · refine ⟨m, hm, h.value_absorb ▸ hk, ?_, ?_, h0⟩
      all_goals
        rw [h.body_absorb]
        by_cases hmn : m = n
        · subst hmn
          have hc : (N.body cur).map idx = 0#16 := hdis.resolve_left fun he => h0 (hmap.symm.trans he)
          simp [TreeBody.merge, hc, hmap, htype]
        · rw [if_neg hmn]
          assumption
    · refine ⟨n, hn, h.value_absorb ▸ hv.trans hk, ?_, ?_, h0⟩
      all_goals
        rw [h.body_absorb, if_pos rfl]
        simp [TreeBody.merge, hmap, htype, h0]

end Moving

theorem hasFrame_cons {t t' : Tree} (hperm : t.addrs.Perm (cur :: t'.addrs)) (key : ℕ) (idx : Fin 8)
    (type : BaseType) (map : BitVec 16) :
    HasFrame N t key idx type map ↔ HasFrame N t' key idx type map ∨
      N.value cur = key ∧ (N.body cur).map idx = map ∧ (N.body cur).type idx = type ∧ map ≠ 0#16 := by
  simp only [HasFrame, hperm.mem_iff, List.mem_cons, or_and_right, exists_or, exists_eq_left]
  exact or_comm

theorem Moving.hasFrame_absorb_src (h : Moving N cur dest src td ts free) (hn : n ∈ td.addrs) (key : ℕ)
    (idx : Fin 8) (type : BaseType) (map : BitVec 16) :
    HasFrame (N.absorb n cur) ts key idx type map ↔ HasFrame N ts key idx type map := by
  have hne : ∀ m ∈ ts.addrs, m ≠ n := by
    rintro m hm rfl
    have hnod := h.nodup
    rw [List.nodup_append', List.nodup_append'] at hnod
    exact hnod.1.2.2 hn hm
  have hbody : ∀ m ∈ ts.addrs, (N.absorb n cur).body m = N.body m := fun m hm => by
    rw [h.body_absorb, if_neg (hne m hm)]
  constructor
  · rintro ⟨m, hm, hk, hmap, htype, h0⟩
    rw [hbody m hm] at hmap htype
    exact ⟨m, hm, h.value_absorb ▸ hk, hmap, htype, h0⟩
  · rintro ⟨m, hm, hk, hmap, htype, h0⟩
    rw [← hbody m hm] at hmap htype
    exact ⟨m, hm, h.value_absorb ▸ hk, hmap, htype, h0⟩

/-! ## The loop -/

/-- What rounds have done so far: no node and no frame is lost. -/
structure Rounds (N : TreeNodes) (td ts : Tree) (free : List ℕ) (N' : TreeNodes) (dest' src' : ℕ)
    (td' ts' : Tree) (free' : List ℕ) : Prop where
  merging : Merging N' dest' src' td' ts' free'
  perm : (td'.addrs ++ ts'.addrs ++ free').Perm (td.addrs ++ ts.addrs ++ free)
  subset : ∀ m ∈ td.addrs, m ∈ td'.addrs
  value : N'.value = N.value
  frames : ∀ key idx type map, (HasFrame N' td' key idx type map ∨ HasFrame N' ts' key idx type map) ↔
    HasFrame N td key idx type map ∨ HasFrame N ts key idx type map

theorem Merging.round_insert (fuel n : ℕ) (h : Merging N dest src td ts free) (hne : ts ≠ nil) (hrb : RedBlack td)
    (hnew : ∀ m ∈ td.addrs, N.value m ≠ N.value src) (hfuel : td.addrs.length + ts.addrs.length + 2 < fuel) :
    ∃ N' dest' src' td' ts', mergeLoop fuel (n + 1) N dest src = mergeLoop fuel n N' dest' src' ∧
      Rounds N td ts free N' dest' src' td' ts' free ∧ RedBlack td' ∧ ts.addrs.Perm (src :: ts'.addrs) := by
  obtain ⟨L₁, ts', hrem, hmov, hperm⟩ := h.remove fuel hne (by omega)
  obtain ⟨L₂, td', hins, hmer, hrb', hperm'⟩ := hmov.insert fuel hrb hnew (by omega)
  have hsrc : src ≠ 0 := hmov.curNode.1
  obtain ⟨m, hfind, hres⟩ := treeFind_spec (H := TreeNodes.heap { N with links := L₁ } dest) (N.value src) fuel
    hmov.dest h.destAscending (by omega)
  obtain rfl : m = 0 := by
    rcases hres with ⟨hm, hv⟩ | ⟨h0, -⟩
    · exact absurd hv (hnew m hm)
    · exact h0
  refine ⟨{ N with links := L₂ }, L₂.root, L₁.root, td', ts', ?_, ⟨hmer, ?_, ?_, rfl, ?_⟩, hrb', hperm⟩
  · rw [mergeLoop, if_neg hsrc, hrem, ok_bind]
    simp only [TreeNodes.setHeap]
    rw [hfind, ok_bind, if_pos rfl]
    have hins' : treeInsert fuel (TreeNodes.heap { N with links := L₁ } dest) src =
        .ok { links := L₂, value := N.value } := hins
    rw [hins', ok_bind]
  · apply List.Perm.append_right
    calc (td'.addrs ++ ts'.addrs).Perm (src :: td.addrs ++ ts'.addrs) := hperm'.append_right _
      _ |>.Perm (td.addrs ++ src :: ts'.addrs) := List.perm_middle.symm
      _ |>.Perm (td.addrs ++ ts.addrs) := hperm.symm.append_left _
  · exact fun m hm => hperm'.mem_iff.2 (List.mem_cons_of_mem _ hm)
  · intro key idx type map
    have h₁ := hasFrame_cons (N := N) hperm' key idx type map
    have h₂ := hasFrame_cons (N := N) hperm key idx type map
    exact (or_congr_left h₁).trans (or_assoc.trans (or_congr_right (or_comm.trans h₂.symm)))

theorem Merging.round_combine {m : ℕ} (fuel n : ℕ) (h : Merging N dest src td ts free) (hne : ts ≠ nil) (hm : m ∈ td.addrs)
    (hv : N.value m = N.value src) (hfuel : td.addrs.length + ts.addrs.length + 2 < fuel) :
    ∃ N' src' ts', mergeLoop fuel (n + 1) N dest src = mergeLoop fuel n N' dest src' ∧
      Rounds N td ts free N' dest src' td ts' (src :: free) ∧ ts.addrs.Perm (src :: ts'.addrs) := by
  obtain ⟨L₁, ts', hrem, hmov, hperm⟩ := h.remove fuel hne (by omega)
  have hsrc : src ≠ 0 := hmov.curNode.1
  obtain ⟨m', hfind, hres⟩ := treeFind_spec (H := TreeNodes.heap { N with links := L₁ } dest) (N.value src) fuel
    hmov.dest h.destAscending (by omega)
  obtain ⟨hm', hv'⟩ := hres.resolve_right fun h0 => h0.2 m hm hv
  have hm0 : m' ≠ 0 := (h.isNode m' (by simp [show m' ∈ td.addrs from hm'])).1
  refine ⟨_, L₁.root, ts', ?_, ⟨hmov.combine hm' hv', ?_, fun _ => id, hmov.value_absorb, ?_⟩, hperm⟩
  · rw [mergeLoop, if_neg hsrc, hrem, ok_bind]
    simp only [TreeNodes.setHeap]
    rw [hfind, ok_bind, if_neg hm0]
    rfl
  · calc (td.addrs ++ ts'.addrs ++ src :: free).Perm (src :: (td.addrs ++ ts'.addrs ++ free)) := List.perm_middle
      _ |>.Perm (td.addrs ++ src :: ts'.addrs ++ free) := by
        rw [List.append_assoc, List.append_assoc]
        exact List.perm_middle.symm
      _ |>.Perm (td.addrs ++ ts.addrs ++ free) := (hperm.symm.append_left _).append_right _
  · intro key idx type map
    have h₁ := hmov.hasFrame_absorb hm' hv' key idx type map
    have h₂ := hmov.hasFrame_absorb_src hm' key idx type map
    have h₃ := hasFrame_cons (N := N) hperm key idx type map
    exact (or_congr h₁ h₂).trans (or_assoc.trans (or_congr_right (or_comm.trans h₃.symm)))

theorem Rounds.trans {N₁ N₂ : TreeNodes} {dest₁ src₁ dest₂ src₂ : ℕ} {td₁ ts₁ td₂ ts₂ : Tree}
    {free₁ free₂ : List ℕ} (h : Rounds N td ts free N₁ dest₁ src₁ td₁ ts₁ free₁)
    (h' : Rounds N₁ td₁ ts₁ free₁ N₂ dest₂ src₂ td₂ ts₂ free₂) :
    Rounds N td ts free N₂ dest₂ src₂ td₂ ts₂ free₂ where
  merging := h'.merging
  perm := h'.perm.trans h.perm
  subset m hm := h'.subset m (h.subset m hm)
  value := h'.value.trans h.value
  frames key idx type map := (h'.frames key idx type map).trans (h.frames key idx type map)

/-- The trees that the destination may be. Into a tree whose only node is red nothing can be inserted. -/
def Receives (N : TreeNodes) (td ts : Tree) : Prop :=
  RedBlack td ∨ ∃ i, td = node .red nil i nil ∧ ∀ b ∈ ts.addrs, N.value b = N.value i

theorem mergeLoop_spec (fuel k : ℕ) (h : Merging N dest src td ts free) (hr : Receives N td ts)
    (hfuel : td.addrs.length + ts.addrs.length + 2 < fuel) (hk : ts.addrs.length < k) :
    ∃ N' dest' td' free', mergeLoop fuel k N dest src = .ok (dest', N') ∧
      Rounds N td ts free N' dest' 0 td' nil free' ∧ Fair td' := by
  induction k generalizing N dest src td ts free with
  | zero => omega
  | succ k ih =>
    have hroot : src = ts.addr := h.src.context
    by_cases hne : ts = nil
    · subst hne
      obtain rfl : src = 0 := hroot
      refine ⟨N, dest, td, free, by rw [mergeLoop, if_pos rfl], ⟨h, .refl _, fun _ => id, rfl, fun _ _ _ _ => .rfl⟩, ?_⟩
      rcases hr with hrb | ⟨i, rfl, -⟩
      · exact .inl hrb
      · exact .inr ⟨i, rfl⟩
    · have hmem : src ∈ ts.addrs := hroot ▸ addr_mem hne
      by_cases hfound : ∃ m ∈ td.addrs, N.value m = N.value src
      · obtain ⟨m, hm, hv⟩ := hfound
        obtain ⟨N₁, src₁, ts₁, hround, hrounds, hperm⟩ := h.round_combine fuel k hne hm hv hfuel
        have hlen := hperm.length_eq
        rw [List.length_cons] at hlen
        have hr₁ : Receives N₁ td ts₁ := by
          refine hr.imp_right ?_
          rintro ⟨i, rfl, hb⟩
          refine ⟨i, rfl, fun b hb₁ => ?_⟩
          rw [hrounds.value]
          exact hb b (hperm.mem_iff.2 (List.mem_cons_of_mem _ hb₁))
        obtain ⟨N₂, dest₂, td₂, free₂, hloop, hrounds₂, hfair⟩ := ih hrounds.merging hr₁ (by omega) (by omega)
        exact ⟨N₂, dest₂, td₂, free₂, hround.trans hloop, hrounds.trans hrounds₂, hfair⟩
      · have hnew : ∀ m ∈ td.addrs, N.value m ≠ N.value src := fun m hm hv => hfound ⟨m, hm, hv⟩
        have hrb : RedBlack td := by
          refine hr.resolve_right ?_
          rintro ⟨i, rfl, hb⟩
          exact hnew i (by simp [addrs]) (hb src hmem).symm
        obtain ⟨N₁, dest₁, src₁, td₁, ts₁, hround, hrounds, hrb₁, hperm⟩ :=
          h.round_insert fuel k hne hrb hnew hfuel
        have hlen := hperm.length_eq
        have hall := hrounds.perm.length_eq
        simp only [List.length_append, List.length_cons] at hlen hall
        obtain ⟨N₂, dest₂, td₂, free₂, hloop, hrounds₂, hfair⟩ :=
          ih hrounds.merging (.inl hrb₁) (by omega) (by omega)
        exact ⟨N₂, dest₂, td₂, free₂, hround.trans hloop, hrounds.trans hrounds₂, hfair⟩

theorem mergeLoop_red (fuel k : ℕ) {i : ℕ} (h : Merging N dest src (node .red nil i nil) ts free)
    (hb : ∃ b ∈ ts.addrs, N.value b ≠ N.value i) (hfuel : ts.addrs.length + 3 < fuel)
    (hk : ts.addrs.length < k) : mergeLoop fuel k N dest src = .error .assertion := by
  induction k generalizing N src ts free with
  | zero => omega
  | succ k ih =>
    obtain ⟨b, hb, hvb⟩ := hb
    have hne : ts ≠ nil := by
      rintro rfl
      cases hb
    have hfuel' : (node .red nil i nil).addrs.length + ts.addrs.length + 2 < fuel := by
      simp only [addrs, List.nil_append, List.length_singleton]
      omega
    by_cases hv : N.value i = N.value src
    · obtain ⟨N₁, src₁, ts₁, hround, hrounds, hperm⟩ :=
        h.round_combine fuel k hne (by simp [addrs]) hv hfuel'
      have hlen := hperm.length_eq
      rw [List.length_cons] at hlen
      rw [hround]
      apply ih hrounds.merging ?_ (by omega) (by omega)
      rcases List.mem_cons.1 (hperm.mem_iff.1 hb) with rfl | hb
      · exact absurd hv.symm hvb
      · exact ⟨b, hb, by rwa [hrounds.value]⟩
    · -- the node is inserted below the red root
      obtain ⟨L₁, ts', hrem, hmov, -⟩ := h.remove fuel hne (by omega)
      have hsrc : src ≠ 0 := hmov.curNode.1
      have hi := h.isNode i (by simp [addrs])
      have hnotMem := hmov.notMem
      simp only [addrs, List.nil_append, List.mem_append, List.mem_singleton, not_or] at hnotMem
      obtain ⟨m, hfind, hres⟩ := treeFind_spec (H := TreeNodes.heap { N with links := L₁ } dest) (N.value src)
        fuel hmov.dest h.destAscending (by simp only [addrs, List.nil_append, List.length_singleton]; omega)
      obtain rfl : m = 0 := by
        rcases hres with ⟨hm, hvm⟩ | ⟨h0, -⟩
        · obtain rfl : m = i := by simpa [addrs] using hm
          exact absurd hvm hv
        · exact h0
      have hins : treeInsert fuel (TreeNodes.heap { N with links := L₁ } dest) src = .error .assertion :=
        RbTree.treeInsert_red hmov.dest hi.2 hsrc hmov.curNode.2 hnotMem.1.1 hv (by omega)
      rw [mergeLoop, if_neg hsrc, hrem, ok_bind]
      simp only [TreeNodes.setHeap]
      rw [hfind, ok_bind, if_pos rfl, hins, error_bind]

/-! ## The whole merge -/

theorem TwoTrees.merging {D T : AllocTree} (h : TwoTrees N D T td ts free) : Merging N D.root T.root td ts free where
  dest := h.dest.rep
  destAscending := h.dest.ascending
  src := h.src.rep
  srcFair := h.src.fair
  srcAscending := h.src.ascending
  chain := h.chain
  nodup := h.nodup
  isNode := h.isNode
  disjoint a ha b hb hv idx := by
    by_contra hne
    rw [not_or] at hne
    exact h.disjoint ⟨a, ha, rfl, rfl, rfl, hne.1⟩ ⟨b, hb, hv.symm, rfl, rfl, hne.2⟩

/-- The nodes 2 and 3 are the only ones of two trees. The node 2 has the given colour. -/
def twoNodes (c : Color) : TreeNodes where
  links := { root := 0, child := fun _ _ => 0, parent := fun _ => 0, color := fun n => if n = 2 then c else .black }
  value n := if n = 0 then 1 else if n = 2 then 2048 else 4096
  body _ := { type := fun _ => .page, map := fun idx => if idx.val = 0 then 1#16 else 0#16 }
  freehead := nullPtr
  top := 4

theorem twoTrees_twoNodes (c : Color) :
    TwoTrees (twoNodes c) ⟨2, 0, 0⟩ ⟨3, 0, 0⟩ (node c nil 2 nil) (node .black nil 3 nil) [] where
  dest := by
    refine ⟨⟨rfl, ⟨by decide, rfl, rfl, rfl, rfl, trivial, trivial⟩, by simp [plug, addrs], rfl, fun _ => rfl⟩,
      ?_, List.pairwise_singleton _ _, .inl rfl, .inl rfl⟩
    cases c with
    | red => exact .inr ⟨2, rfl⟩
    | black => exact .inl ⟨rfl, 1, 0, rfl, rfl, rfl⟩
  src := ⟨⟨rfl, ⟨by decide, rfl, rfl, rfl, rfl, trivial, trivial⟩, by simp [plug, addrs], rfl, fun _ => rfl⟩,
    .inl ⟨rfl, 1, 0, rfl, rfl, rfl⟩, List.pairwise_singleton _ _, .inl rfl, .inl rfl⟩
  chain := rfl
  nodup := by simp [addrs]
  isNode := by simp [addrs, nullPtr]
  disjoint := by
    rintro key idx type map type' map' ⟨a, ha, hk, -⟩ ⟨b, hb, hk', -⟩
    obtain rfl : a = 2 := by simpa [addrs] using ha
    obtain rfl : b = 3 := by simpa [addrs] using hb
    exact absurd (hk.trans hk'.symm) (by simp [twoNodes])

/-- Such a tree is left when the first of two objects is deallocated whose nodes were allocated one
after the other. -/
example : (do
    let N : TreeNodes := { twoNodes .black with top := 2 }
    let (_, N, D) ← allocTreeInsertOIDs (fun _ => 1) 20 N ⟨0, 0, 0⟩ .page 0 1
    let (_, N, D) ← allocTreeInsertOIDs (fun _ => 1) 20 N D .page 2048 1
    let (_, N, D) ← clearOID 20 N D .page 0
    let (_, N, T) ← allocTreeInsertOIDs (fun _ => 1) 20 N ⟨0, 0, 0⟩ .page 4096 1
    allocTreeMergeTrees 20 N D T) = .error .assertion := rfl

end CapROS.SpaceBank
