import CapROS.RbTree.Validation

/-!
# The library as an ordered map

A client starts with the empty tree, inserts nodes and removes them. No assertion fails and the tree
is a red-black tree with the nodes in the order of their values, as long as the root of a tree with
two nodes is not removed: then the other node becomes the root, and it stays red.

* `step_spec`, `orderedMap_run`: one request, and a whole run.
-/

namespace CapROS.RbTree

open LinkedTree LinkedTree.Tree
open LogDirectory (attachLeaf attachLeaf_eq attachLeaf_spec childrenLinked_of_linked onlyChild replaceNode
  spliceOut spliceOut_spec onlyChild_spec)

variable {α : Type} [LinearOrder α] {H : Heap α} {L : Links} {ctx : Context} {t : Tree} {y z : ℕ}

/-! ## Insertion -/

theorem rep_clearNode (h : Rep L [] t) (hz0 : z ≠ 0) (hz : z ∉ t.addrs) : Rep (clearNode L z) [] t := by
  have hne : ∀ i ∈ t.addrs, i ≠ z := fun i hi he => hz (he ▸ hi)
  refine h.replace ?_ h.nodup rfl ?_ (fun hc => absurd rfl hc) (by simp [Context.addrs])
    (by simp [Context.addrs]) (by simp [Context.addrs]) h.context
  · refine h.linked.congr (fun _ _ => rfl) (fun i hi d => ?_) fun i hi => ?_
    · simp [clearNode, hne i hi]
    · simp [clearNode, hne i hi]
  · intro d
    simp [clearNode, hz0.symm]

theorem linkBelow_clearNode (less : Bool) (z y : ℕ) :
    linkBelow (clearNode L z) less z y = attachLeaf L less z y := by
  have hlinks : (clearNode L z).setParent z y =
      ((L.setChild .left z 0).setChild .right z 0).setParent z y := by
    simp only [clearNode, Links.setParent, Links.setChild, Links.mk.injEq, true_and, and_true]
    ext i
    split_ifs <;> rfl
  simp only [linkBelow, attachLeaf, hlinks]

theorem attachLeaf_keeps {left : Bool} (z : ℕ) (c : Color) (h : Rep L ctx nil)
    (hleft : ∀ f, ctx.head? = some f → (left = true ↔ f.dir = .left)) :
    Keeps (plug ctx (node c nil z nil)).nodes L (attachLeaf L left z (Context.top ctx)) := by
  have hz : z ∈ (plug ctx (node c nil z nil)).nodes := mem_addrs_plug.2 (.inr (by simp [addrs]))
  rw [attachLeaf_eq h hleft]
  refine Keeps.setHole ?_ (fun i hi => mem_addrs_plug.2 (.inl hi)) z
  exact (((Keeps.refl _ L).setChild hz .left 0).setChild hz .right 0).setParent hz _

theorem binaryInsert_spec (fuel : ℕ) (h : Rep H.links [] t) (hs : Ascending H.value t.addrs)
    (hnull : nullPtr ∉ t.addrs) (hz0 : z ≠ 0) (hznull : z ≠ nullPtr) (hz : z ∉ t.addrs)
    (hnew : ∀ n ∈ t.addrs, H.value n ≠ H.value z) (hfuel : t.addrs.length + 1 < fuel) :
    ∃ ctx L' c, binaryInsert fuel H z = .ok { H with links := L' } ∧ plug ctx nil = t ∧
      Rep L' ctx (node c nil z nil) ∧ Ascending H.value (plug ctx (node c nil z nil)).addrs ∧
      Keeps (plug ctx (node c nil z nil)).nodes H.links L' := by
  have hclear := rep_clearNode h hz0 hz
  let H₁ : Heap α := { H with links := clearNode H.links z }
  have hroot : (clearNode H.links z).root = t.addr := hclear.context
  have hvalid : assertValid fuel H₁ = .ok () := assertValid_spec fuel hclear hs hnull (by omega)
  obtain ⟨ctx, hsearch, rfl, hfits⟩ : ∃ ctx', insertSearch H₁ z fuel 0 t.addr =
      .ok (Context.top ctx') ∧ plug ctx' nil = plug [] t ∧ Fits H.value (H.value z) ctx' :=
    @insertSearch_spec _ _ H₁ [] t z fuel hclear hs hnew Fits.empty (by omega)
  have hctx : z ∉ ctx.addrs := fun hi => hz (mem_addrs_plug.2 (.inl hi))
  have hless : ∀ f, ctx.head? = some f →
      (decide (treeCompare H₁ z (Context.top ctx) = .lt) = true ↔ f.dir = .left) := by
    intro f hf
    cases ctx with
    | nil => cases hf
    | cons g ctx =>
      obtain rfl : g = f := by simpa using hf
      rw [decide_eq_true_iff, treeCompare, cmp_eq_lt_iff]
      exact hfits.dir
  have hleaf := attachLeaf_spec (rep_plug.2 h) hz0 hctx hless
  generalize hc : H.links.color z = c at hleaf
  have hkeep := attachLeaf_keeps z c (rep_plug.2 h) hless
  rw [← linkBelow_clearNode] at hleaf hkeep
  have hs' := hfits.ascending (c := c) hs
  have hnull' : nullPtr ∉ (plug ctx (node c nil z nil)).addrs := by
    rw [mem_addrs_plug] at hnull ⊢
    simp only [addrs, List.nil_append, List.mem_singleton]
    tauto
  have hlen : (plug ctx (node c nil z nil)).addrs.length < fuel := by
    simp only [addrs_plug, addrs, List.length_append, List.length_nil, List.length_cons] at hfuel ⊢
    omega
  generalize hL : linkBelow (clearNode H.links z) _ z (Context.top ctx) = L' at hleaf hkeep
  refine ⟨ctx, L', c, ?_, rfl, hleaf, hs', hkeep⟩
  have hchildren : Context.top ctx ≠ 0 → LogDirectory.ChildrenLinked L' (Context.top ctx) := by
    intro h0
    cases ctx with
    | nil => exact absurd rfl h0
    | cons f ctx =>
      -- the parent of the new node, as the root of a subtree
      have hup := (rep_cons.1 hleaf).linked
      obtain ⟨d, cf, i, u⟩ := f
      cases d with
      | left | right => exact childrenLinked_of_linked hup
  have hparent : L'.parent L'.root = 0 := hleaf.parent_root (plug_ne_nil (.inr (by simp)))
  have hvalid' : assertValid fuel { H with links := L' } = .ok () :=
    assertValid_spec fuel (rep_plug.1 hleaf) hs' hnull' hlen
  have hroot' : H₁.links.root = (plug ctx nil).addr := hroot
  simp only [H₁] at hL hvalid hsearch hroot'
  simp only [binaryInsert, hvalid, ok_bind, hroot, hsearch, hL, assert_pos hchildren,
    assert_pos hparent, hvalid']

theorem treeInsert_spec (fuel : ℕ) (h : Rep H.links [] t) (hrb : RedBlack t)
    (hs : Ascending H.value t.addrs) (hnull : nullPtr ∉ t.addrs) (hz0 : z ≠ 0) (hznull : z ≠ nullPtr)
    (hz : z ∉ t.addrs) (hnew : ∀ n ∈ t.addrs, H.value n ≠ H.value z)
    (hfuel : t.addrs.length + 2 < fuel) :
    ∃ L' t', treeInsert fuel H z = .ok { H with links := L' } ∧ Rep L' [] t' ∧ RedBlack t' ∧
      Ascending H.value t'.addrs ∧ t'.addrs.Perm (z :: t.addrs) ∧ Keeps t'.nodes H.links L' := by
  obtain ⟨ctx, L₁, c, hins, rfl, h₁, hs₁, hkeep₁⟩ :=
    binaryInsert_spec fuel h hs hnull hz0 hznull hz hnew (by omega)
  have h₂ := h₁.setColor .red (by simp)
  have hlen : (plug ctx (node c nil z nil)).addrs.length = (plug ctx nil).addrs.length + 1 := by
    simp only [addrs_plug, addrs, List.length_append, List.length_nil, List.length_cons]
    omega
  have hdeep := length_le_addrs ctx nil
  obtain ⟨n, hbn, hctx, -⟩ := hrb.split
  have hb : Balanced (node .red nil z nil) n := ⟨rfl, rfl, hbn, hbn⟩
  have hnullctx : nullPtr ∉ ctx.addrs := fun hi => hnull (mem_addrs_plug.2 (.inl hi))
  obtain ⟨L₂, t', hloop, h₃, haddrs, ⟨m, hbal⟩, hkeep₂⟩ :=
    insertFixupLoop_spec fuel h₂ (by simp [paint]) rfl hb hctx hnullctx (by omega)
  have hloop' : insertFixupLoop fuel (L₁.setColor z .red) z = .ok L₂ := hloop
  have haddrs' : t'.addrs = (plug ctx (node c nil z nil)).addrs :=
    haddrs.trans (addrs_plug_congr (addrs_paint _ _))
  have hne : t' ≠ nil := by
    rintro rfl
    have hmem : z ∈ (plug ctx (node c nil z nil)).addrs := mem_addrs_plug.2 (.inr (by simp [addrs]))
    rw [← haddrs'] at hmem
    simp [addrs] at hmem
  have h₄ := h₃.setColor .black hne
  have hroot : L₂.root = t'.addr := h₃.context
  rw [← hroot] at h₄
  have hperm : (plug ctx (node c nil z nil)).addrs.Perm (z :: (plug ctx nil).addrs) := by
    simp only [addrs_plug, addrs, List.append_nil, List.nil_append]
    rw [List.append_assoc, List.singleton_append]
    exact List.perm_middle
  have hs' : Ascending H.value (t'.paint .black).addrs := by
    rw [addrs_paint, haddrs']
    exact hs₁
  have hnull' : nullPtr ∉ (t'.paint .black).addrs := by
    rw [addrs_paint, haddrs', hperm.mem_iff, List.mem_cons, not_or]
    exact ⟨hznull.symm, hnull⟩
  have hlen' : (t'.paint .black).addrs.length < fuel := by
    rw [addrs_paint, haddrs', hlen]
    omega
  refine ⟨L₂.setColor L₂.root .black, t'.paint .black, ?_, h₄, ⟨color_paint hne, hbal.paint_black⟩,
    hs', ?_, ?_⟩
  · have hparent : (L₂.setColor L₂.root .black).parent (L₂.setColor L₂.root .black).root = 0 :=
      h₃.parent_root hne
    have hvalid : assertValid fuel { H with links := L₂.setColor L₂.root .black } = .ok () :=
      assertValid_spec fuel h₄ hs' hnull' hlen'
    simp only [treeInsert, hins, ok_bind, hloop', assert_pos hparent, hvalid]
  · rw [addrs_paint, haddrs']
    exact hperm
  · have hzS : z ∈ (t'.paint .black).addrs := by
      rw [addrs_paint, haddrs']
      exact mem_addrs_plug.2 (.inr (by simp [addrs]))
    have hrootS : L₂.root ∈ (t'.paint .black).addrs := by
      rw [addrs_paint, hroot]
      exact addr_mem hne
    have hkeep := (hkeep₁.of_addrs ((addrs_paint _ _).trans haddrs')).setColor hzS .red
    exact (hkeep.trans (hkeep₂.of_addrs ((addrs_paint _ _).trans haddrs))).setColor hrootS .black

/-! ## Removal -/

variable {fuel x : ℕ}

theorem minLoop_of_kernel (hk : LogDirectory.doMinLoop L fuel x = .ok y) :
    minLoop L fuel x = .ok y := by
  induction fuel generalizing x with
  | zero => cases hk
  | succ fuel ih =>
    rw [LogDirectory.doMinLoop] at hk
    rw [minLoop]
    split at hk
    · rw [if_pos ‹_›]
      exact ih hk
    · rw [if_neg ‹_›]
      cases hk
      rfl

theorem nodeToSplice_of_kernel (hz : LogDirectory.nodeToSplice fuel L z = .ok y) :
    nodeToSplice fuel L z = .ok y := by
  unfold LogDirectory.nodeToSplice at hz
  unfold nodeToSplice
  split at hz
  · rw [if_pos ‹_›]
    cases hz
    rfl
  · rename_i hboth
    rw [if_neg hboth]
    rw [not_or] at hboth
    unfold LogDirectory.rbtreeSucc at hz
    unfold treeSucc
    split at hz
    · rw [if_pos ‹_›]
      cases hz
      rfl
    · rw [if_pos hboth.2, LogDirectory.rbtreeDoMin, if_neg hboth.2] at hz
      rw [if_neg ‹_›, if_pos hboth.2, treeMin, if_neg hboth.2]
      exact minLoop_of_kernel hz

/-- Where the node `y` that is taken out stands: it is `z`, or it follows `z`. -/
inductive Splices (t rest : Tree) (z : ℕ) : ℕ → Prop where
  | self : Splices t rest z z
  | next {y : ℕ} (A B : List ℕ) (ht : t.addrs = A ++ z :: y :: B)
      (hrest : rest.addrs = A ++ z :: B) (hsize : 3 ≤ t.addrs.length) : Splices t rest z y

theorem exists_spliced (h : Rep L [] t) (hz : z ∈ t.addrs)
    (hy : LogDirectory.nodeToSplice fuel L z = .ok y) (hfuel : t.addrs.length < fuel) :
    ∃ ctx d c s, plug ctx (branch d c s y nil) = t ∧ Splices t (plug ctx s) z y := by
  obtain ⟨ctx, c, l, r, rfl⟩ := exists_plug hz
  have hrep := rep_plug.2 h
  obtain ⟨-, -, -, hl, hr, -, -⟩ := hrep.linked
  by_cases hrn : r = nil
  · subst hrn
    rw [LogDirectory.nodeToSplice, if_pos (.inr hr)] at hy
    cases hy
    exact ⟨ctx, .left, c, l, rfl, .self⟩
  · by_cases hln : l = nil
    · subst hln
      rw [LogDirectory.nodeToSplice, if_pos (.inl hl)] at hy
      cases hy
      exact ⟨ctx, .right, c, r, rfl, .self⟩
    · obtain ⟨y', ctx', cy, s, A, B, hy', -, hplug, hA, hB⟩ :=
        LogDirectory.successor_spec hrep hln hrn hfuel
      obtain rfl : y' = y := by
        rw [hy'] at hy
        exact Except.ok.inj hy
      have hlpos : 0 < l.addrs.length := List.length_pos_of_mem (addr_mem hln)
      have hrpos : 0 < r.addrs.length := List.length_pos_of_mem (addr_mem hrn)
      refine ⟨ctx', .right, cy, s, hplug, .next A B hA hB ?_⟩
      simp only [addrs_plug, addrs, List.length_append, List.length_cons]
      omega

theorem Splices.ascending {rest : Tree} {value : ℕ → α} (h : Splices t rest z y) (hn : t.addrs.Nodup)
    (hs : Ascending value t.addrs) (hrest : rest.addrs = t.addrs.erase y) :
    Ascending (if y ≠ z then Function.update value z (value y) else value) rest.addrs := by
  cases h with
  | self =>
    rw [if_neg (by simp), hrest]
    exact hs.sublist List.erase_sublist
  | next A B ht hrest' _ =>
    rw [ht] at hn hs
    have hne : y ≠ z := by
      rintro rfl
      rw [List.nodup_append', List.nodup_cons] at hn
      exact hn.2.1.1 (by simp)
    have hA : ∀ a ∈ A, a ≠ z := by
      rintro a ha rfl
      rw [List.nodup_append'] at hn
      exact hn.2.2 ha (by simp)
    have hB : ∀ b ∈ B, b ≠ z := by
      rintro b hb rfl
      rw [List.nodup_append', List.nodup_cons] at hn
      exact hn.2.1.1 (by simp [hb])
    rw [if_pos hne, hrest']
    -- the values are those of the list with `y` in the place of `z`
    have hs' : Ascending value (A ++ y :: B) :=
      hs.sublist ((List.Sublist.refl A).append (List.sublist_cons_self z _))
    rw [Ascending, List.pairwise_append, List.pairwise_cons] at hs' ⊢
    obtain ⟨hsA, ⟨hyB, hsB⟩, hsAB⟩ := hs'
    refine ⟨hsA.imp_of_mem fun {a b} ha hb hab => ?_, ⟨fun b hb => ?_, ?_⟩, fun a ha b hb => ?_⟩
    · simpa [hA a ha, hA b hb] using hab
    · simpa [hB b hb] using hyB b hb
    · refine hsB.imp_of_mem fun {a b} ha hb hab => ?_
      simpa [hB a ha, hB b hb] using hab
    · rcases List.mem_cons.1 hb with rfl | hb
      · simpa [hA a ha] using hsAB a ha y (by simp)
      · simpa [hA a ha, hB b hb] using hsAB a ha b (by simp [hb])

variable {L' : Links}

theorem finishRemoval_spec {t₁ : Tree}
    (hfix : (if H.links.color y = .black then rbRemoveFixup fuel H.links x else .ok H.links) = .ok L')
    (h : Rep L' [] t₁) (hnull : nullPtr ∉ t₁.addrs) (hfuel : t₁.addrs.length < fuel)
    (hs : Ascending (if y ≠ z then Function.update H.value z (H.value y) else H.value) t₁.addrs) :
    finishRemoval fuel H z y x =
      .ok { links := if y = z then L' else replaceNode L' y z, value := H.value } := by
  obtain ⟨b, hb⟩ := treeContains_root y fuel h hfuel
  by_cases hyz : y = z
  · subst hyz
    rw [if_neg (by simp)] at hs
    have hvalid : assertValid fuel { H with links := L' } = .ok () :=
      assertValid_spec fuel h hs hnull hfuel
    simp only [finishRemoval, ne_eq, not_true_eq_false, if_false, hfix, ok_bind, hb, hvalid, if_true]
  · rw [if_pos hyz] at hs
    have hvalid : assertValid fuel
        { links := L', value := Function.update H.value z (H.value y) } = .ok () :=
      assertValid_spec fuel h hs hnull hfuel
    simp only [finishRemoval, ne_eq, hyz, not_false_eq_true, if_true, hfix, ok_bind, hb, hvalid,
      if_false, Function.update_idem, Function.update_eq_self]

theorem color_rootOfTwo {d : Dir} {c : Color} {s : Tree}
    (h : Rep L ctx (branch d c s z nil)) (hrb : RedBlack (plug ctx (branch d c s z nil)))
    (htwo : (plug ctx (branch d c s z nil)).addrs.length = 2)
    (hroot : (plug ctx (branch d c s z nil)).addr = z)
    (hfix : LogDirectory.fixupIfBlack fuel (spliceOut L z s.addr) z s.addr = .ok L') :
    L'.color L'.root = .red := by
  obtain rfl : ctx = [] := by
    rw [← h.addr_eq_root (branch_ne_nil _ _ _ _ _), addr_branch, ← hroot]
    exact (rep_plug.1 h).context.symm
  obtain ⟨hrep, hpar, hcol⟩ := spliceOut_spec h
  obtain ⟨hcb, n, hbal⟩ := hrb
  obtain rfl : c = .black := by simpa [plug] using hcb
  obtain ⟨m, rfl, hbs, hbn⟩ := balanced_black.1 hbal
  obtain rfl : m = 0 := hbn
  have hcz : L.color z = .black := (linked_branch.1 h.linked).2.1
  -- the other node is red
  obtain rfl | ⟨i, rfl⟩ := LogDirectory.balanced_zero hbs
  · cases d <;> simp [plug, branch, addrs] at htwo
  · have hp0 : (spliceOut L z i).parent i = 0 := hpar
    have hcol' : (spliceOut L z i).color = L.color := hcol
    have heq : spliceOut L z i = L' := by
      simpa [LogDirectory.fixupIfBlack, LogDirectory.removeFixup, addr, hcol', hcz, hp0,
        LogDirectory.ensure_pos h.nilColor] using hfix
    have hr : L'.root = i := heq ▸ hrep.context
    rw [hr, ← heq]
    exact hrep.linked.2.1

theorem setColor_nil (h : Rep L ctx t) : L.setColor 0 .black = L := by
  have : (fun j => if j = 0 then Color.black else L.color j) = L.color := by
    ext j
    split
    · rw [‹j = 0›, h.nilColor]
    · rfl
  simp only [Links.setColor, this]

theorem treeRemove_eq (fuel : ℕ) (h : Rep H.links [] t) (hrb : RedBlack t)
    (hs : Ascending H.value t.addrs) (hnull : nullPtr ∉ t.addrs) (hz : z ∈ t.addrs)
    (hfuel : t.addrs.length < fuel) {L₁ : Links} {t' : Tree}
    (hrem : LogDirectory.Removed H.links fuel t z y L₁ t') :
    treeRemove fuel H z = .ok { H with links := if y = z then L₁ else replaceNode L₁ y z } := by
  obtain ⟨ctx, d, c, s, rfl, hsp⟩ := exists_spliced h hz hrem.splice hfuel
  have hy : Rep H.links ctx (branch d c s y nil) := rep_plug.2 h
  have hx : onlyChild H.links y = s.addr := onlyChild_spec hy.linked
  have hcy : H.links.color y = c := (linked_branch.1 hy.linked).2.1
  obtain ⟨hrep₁, hpar, hcol⟩ := spliceOut_spec hy
  have hfix := hrem.fixup
  rw [hx] at hfix
  have hdeep := (length_le_addrs ctx (branch d c s y nil)).trans_lt hfuel
  -- the tree before `y` takes the place of `z`
  obtain ⟨L', t₁, hfix₁, hrep₂, haddrs, -⟩ :=
    LogDirectory.fixupIfBlack_spec hrep₁ hpar (hcol ▸ hcy) hrb hdeep
  obtain rfl : L' = L₁ := by
    rw [hfix] at hfix₁
    exact (Except.ok.inj hfix₁).symm
  have hrest : (plug ctx s).addrs = (plug ctx (branch d c s y nil)).addrs.erase y := by
    have hnod := hy.nodup
    obtain ⟨xs, ys, h₁, h₂⟩ := LogDirectory.addrs_splice ctx d c s y
    rw [h₁] at hnod ⊢
    rw [h₂, LogDirectory.erase_middle hnod]
  have hfix' : (if (spliceOut H.links y s.addr).color y = .black then
      rbRemoveFixup fuel (spliceOut H.links y s.addr) s.addr else
      .ok (spliceOut H.links y s.addr)) = .ok L' := by
    rw [LogDirectory.fixupIfBlack] at hfix
    cases c with
    | red =>
      have hred : ¬(spliceOut H.links y s.addr).color y = .black := by
        rw [hcol, hcy]
        decide
      rw [if_neg hred] at hfix ⊢
      exact congrArg Except.ok (Except.ok.inj hfix)
    | black =>
      have hblack : (spliceOut H.links y s.addr).color y = .black := by rw [hcol, hcy]
      rw [if_pos hblack] at hfix ⊢
      exact rbRemoveFixup_of_kernel fuel hrep₁ hpar hrb hfix
  have hsub : t₁.addrs.Sublist (plug ctx (branch d c s y nil)).addrs := by
    rw [haddrs, hrest]
    exact List.erase_sublist
  have hs₁ := hsp.ascending h.nodup hs hrest
  rw [← haddrs] at hs₁
  have hfinish := finishRemoval_spec (H := { H with links := spliceOut H.links y s.addr }) hfix' hrep₂
    (fun hm => hnull (hsub.subset hm)) (hsub.length_le.trans_lt hfuel) hs₁
  -- the tree at the end
  have hsub' : t'.addrs.Sublist (plug ctx (branch d c s y nil)).addrs := by
    rw [hrem.addrs]
    exact List.erase_sublist
  have hlen' := hsub'.length_le.trans_lt hfuel
  obtain ⟨b₁, hb₁⟩ := treeContains_root y fuel (rep_plug.1 hrep₁)
    ((congrArg List.length haddrs).symm.trans_lt (hsub.length_le.trans_lt hfuel))
  obtain ⟨b₂, hb₂⟩ := treeContains_root z fuel hrem.rep hlen'
  have hvalid : assertValid fuel H = .ok () := assertValid_spec fuel h hs hnull hfuel
  have hvalid' : assertValid fuel { H with links := if y = z then L' else replaceNode L' y z } =
      .ok () :=
    assertValid_spec fuel hrem.rep (hs.sublist hsub') (fun hm => hnull (hsub'.subset hm)) hlen'
  have hz0 : z ≠ 0 := h.linked.ne_zero hz
  have hy0 : y ≠ 0 := h.linked.ne_zero hrem.mem
  simp only [treeRemove, hvalid, ok_bind, setColor_nil h, assert_pos hz0,
    nodeToSplice_of_kernel hrem.splice, assert_pos hy0, hx, hb₁, hfinish, hb₂, hvalid']

/-- `tree_remove` takes a node out of a red-black tree. The result is a red-black tree, unless the
root of a tree with two nodes is taken out: then the root is red. -/
theorem treeRemove_spec (fuel : ℕ) (h : Rep H.links [] t) (hrb : RedBlack t)
    (hs : Ascending H.value t.addrs) (hnull : nullPtr ∉ t.addrs) (hz : z ∈ t.addrs)
    (hfuel : t.addrs.length < fuel) :
    ∃ L' t', treeRemove fuel H z = .ok { H with links := L' } ∧ Rep L' [] t' ∧
      t'.addrs = t.addrs.erase z ∧
      (¬(z = H.links.root ∧ t.addrs.length = 2) → RedBlack t') ∧
      (z = H.links.root ∧ t.addrs.length = 2 → L'.color L'.root = .red) := by
  obtain ⟨y, L₁, t', hrem⟩ := LogDirectory.removal_spec fuel h (.inl hrb) hz hfuel
  have hroot : H.links.root = t.addr := h.context
  refine ⟨_, t', treeRemove_eq fuel h hrb hs hnull hz hfuel hrem, hrem.rep, hrem.addrs, ?_, ?_⟩
  · exact fun hnot => hrem.redBlack fun htwo => hnot ⟨htwo.1.symm.trans hroot.symm, htwo.2⟩
  · rintro ⟨hzr, htwo⟩
    obtain ⟨ctx, d, c, s, rfl, hsp⟩ := exists_spliced h hz hrem.splice hfuel
    have hy : Rep H.links ctx (branch d c s y nil) := rep_plug.2 h
    have hfix := hrem.fixup
    rw [onlyChild_spec hy.linked] at hfix
    cases hsp with
    | next A B _ _ hsize => omega
    | self =>
      rw [if_pos rfl]
      exact color_rootOfTwo hy hrb htwo (hroot.symm.trans hzr.symm) hfix

/-! ## The client -/

/-- The tree of a client is a red-black tree with its nodes in the order of their values. The links
of the nodes to their children and parents are those of the tree `t`. -/
structure Holds (s : State α) (t : Tree) : Prop where
  rep : Rep s.heap.links [] t
  redBlack : RedBlack t
  ascending : Ascending s.heap.value t.addrs
  nodes : t.addrs.Perm s.nodes

variable {s : State α}

theorem Holds.color_root (h : Holds s t) : s.heap.links.color s.heap.links.root = .black := by
  have hroot : s.heap.links.root = t.addr := h.rep.context
  rw [hroot, h.rep.color_addr]
  exact h.redBlack.1

/-- The library is an ordered map. -/
def OrderedMap (s : State α) : Prop := ∃ t, Holds s t

/-- The request does not remove the root of a tree with two nodes. -/
def Request.Careful (s : State α) : Request α → Prop
  | .insert _ _ => True
  | .remove z => ¬(z = s.heap.links.root ∧ s.nodes.length = 2)

/-- What holds of the client between its requests. -/
structure Good (s : State α) : Prop where
  orderedMap : OrderedMap s
  notNull : nullPtr ∉ s.nodes

/-- A request is carried out without a failing assertion. The result is an ordered map exactly if
the request is careful. -/
theorem step_spec (hg : Good s) {r : Request α} (hr : r.Allowed s) :
    ∃ s', step s r = .ok s' ∧ nullPtr ∉ s'.nodes ∧ (OrderedMap s' ↔ r.Careful s) := by
  obtain ⟨⟨t, hrep, hrb, hs, hnodes⟩, hnull⟩ := hg
  have hlen : t.addrs.length = s.nodes.length := hnodes.length_eq
  have hnull' : nullPtr ∉ t.addrs := hnodes.mem_iff.not.2 hnull
  cases r with
  | insert z v =>
    obtain ⟨hz0, hznull, hz, hnew⟩ := hr
    have hz' : z ∉ t.addrs := hnodes.mem_iff.not.2 hz
    -- the value of the new node is set before the call
    let H : Heap α := { s.heap with value := Function.update s.heap.value z v }
    have hvalue : ∀ n ∈ t.addrs, H.value n = s.heap.value n := fun n hn => by
      have hnz : n ≠ z := fun he => hz' (he ▸ hn)
      exact Function.update_of_ne hnz _ _
    have hs' : Ascending H.value t.addrs :=
      hs.imp_of_mem fun {a b} ha hb hab => by rwa [hvalue a ha, hvalue b hb]
    have hnew' : ∀ n ∈ t.addrs, H.value n ≠ H.value z := fun n hn => by
      have hv : H.value z = v := Function.update_self _ _ _
      rw [hvalue n hn, hv]
      exact hnew n (hnodes.mem_iff.1 hn)
    obtain ⟨L', t', hins, hrep', hrb', hs'', hperm, -⟩ :=
      treeInsert_spec s.fuel (H := H) hrep hrb hs' hnull' hz0 hznull hz' hnew'
        (by rw [State.fuel]; omega)
    have hins' : treeInsert s.fuel { s.heap with value := Function.update s.heap.value z v } z =
        .ok { H with links := L' } := hins
    refine ⟨{ heap := { H with links := L' }, nodes := z :: s.nodes }, ?_, ?_, fun _ => trivial,
      fun _ => ⟨t', hrep', hrb', hs'', hperm.trans (hnodes.cons z)⟩⟩
    · simp only [step, hins', ok_bind]
    · simpa using ⟨hznull.symm, hnull⟩
  | remove z =>
    have hz : z ∈ t.addrs := hnodes.mem_iff.2 hr
    obtain ⟨L', t', hrem, hrep', haddrs, hblack, hred⟩ :=
      treeRemove_spec s.fuel hrep hrb hs hnull' hz (by rw [State.fuel]; omega)
    rw [hlen] at hblack hred
    refine ⟨{ heap := { s.heap with links := L' }, nodes := s.nodes.erase z }, ?_, ?_, ?_, ?_⟩
    · simp only [step, hrem, ok_bind]
    · exact fun hm => hnull (List.mem_of_mem_erase hm)
    · rintro ⟨u, hu⟩ htwo
      have hcu := hu.color_root
      rw [hred htwo] at hcu
      cases hcu
    · intro hcareful
      refine ⟨t', hrep', hblack hcareful, ?_, ?_⟩
      · rw [haddrs]
        exact hs.sublist List.erase_sublist
      · rw [haddrs]
        exact hnodes.erase z

/-- The states that the client reaches by careful requests. -/
inductive CarefulRun (s₀ : State α) : State α → Prop where
  | start : CarefulRun s₀ s₀
  | step {s s' : State α} (r : Request α) (h : CarefulRun s₀ s) (allowed : r.Allowed s)
      (careful : r.Careful s) (next : step s r = .ok s') : CarefulRun s₀ s'

theorem Init.good (h : Init s) : Good s := by
  refine ⟨⟨nil, ⟨h.root, trivial, List.nodup_nil, h.nilColor, h.nilChild⟩, ⟨rfl, 0, rfl⟩, .nil, ?_⟩, ?_⟩
  · rw [h.nodes]
    exact .nil
  · rw [h.nodes]
    exact List.not_mem_nil

theorem CarefulRun.good {s₀ : State α} (h0 : Init s₀) (h : CarefulRun s₀ s) : Good s := by
  induction h with
  | start => exact h0.good
  | step r _ allowed careful next ih =>
    obtain ⟨s', hstep, hnull, hmap⟩ := step_spec ih allowed
    rw [next] at hstep
    cases hstep
    exact ⟨hmap.2 careful, hnull⟩

/-- In every state that is reached by careful requests the library is an ordered map, `tree_find`
finds the node with a value if there is one, and no assertion fails in the next request. After that
the library is an ordered map exactly if the request is careful. -/
theorem orderedMap_run {s₀ s : State α} (h0 : Init s₀) (h : CarefulRun s₀ s) :
    OrderedMap s ∧
    (∀ key, ∃ n, treeFind s.fuel s.heap key = .ok n ∧
      (n ∈ s.nodes ∧ s.heap.value n = key ∨ n = 0 ∧ ∀ m ∈ s.nodes, s.heap.value m ≠ key)) ∧
    ∀ r : Request α, r.Allowed s → ∃ s', step s r = .ok s' ∧ (OrderedMap s' ↔ r.Careful s) := by
  have hg := h.good h0
  refine ⟨hg.orderedMap, fun key => ?_, fun r hr => ?_⟩
  · obtain ⟨t, hrep, -, hs, hnodes⟩ := hg.orderedMap
    have hlen : t.addrs.length = s.nodes.length := hnodes.length_eq
    obtain ⟨n, hfind, hres⟩ := treeFind_spec key s.fuel hrep hs (by rw [State.fuel]; omega)
    simp only [hnodes.mem_iff] at hres
    exact ⟨n, hfind, hres⟩
  · obtain ⟨s', hstep, -, hmap⟩ := step_spec hg hr
    exact ⟨s', hstep, hmap⟩

theorem findLoop_ok (key : α) {fuel p : ℕ} (h : Linked H.links p t) (hfuel : t.height < fuel) :
    ∃ n, findLoop H key fuel t.addr = .ok n := by
  induction fuel generalizing t p with
  | zero => omega
  | succ fuel ih =>
    cases t with
    | nil => exact ⟨0, rfl⟩
    | node c l i r =>
      obtain ⟨hi, -, -, hl, hr, hll, hrr⟩ := h
      change max l.height r.height + 1 < fuel + 1 at hfuel
      rw [addr, show findLoop H key (fuel + 1) i = _ from if_neg hi, hl, hr]
      generalize cmp (H.value i) key = o
      cases o with
      | lt => exact ih hrr (by omega)
      | eq => exact ⟨i, rfl⟩
      | gt => exact ih hll (by omega)

theorem findLoop_mono {key : α} {fuel fuel' n m : ℕ} (h : findLoop H key fuel m = .ok n) (hle : fuel ≤ fuel') :
    findLoop H key fuel' m = .ok n := by
  induction fuel generalizing m fuel' with
  | zero => cases h
  | succ fuel ih =>
    obtain ⟨fuel', rfl⟩ := Nat.exists_eq_add_of_le' hle
    by_cases hm : m = 0
    · exact (if_pos hm).trans ((if_pos hm).symm.trans h)
    · rw [show findLoop H key (fuel + 1) m = _ from if_neg hm] at h
      rw [← Nat.add_assoc, show findLoop H key (fuel' + fuel + 1) m = _ from if_neg hm]
      generalize cmp (H.value m) key = o at h ⊢
      cases o with
      | lt | gt => exact ih h (by omega)
      | eq => exact h

/-- In every state that is reached by careful requests, the number of turns that `tree_find` makes is logarithmic in the
number of nodes. -/
theorem treeFind_logarithmic {s₀ : State α} (h0 : Init s₀) (h : CarefulRun s₀ s) (key : α) :
    ∃ n, treeFind (2 * Nat.log 2 (s.nodes.length + 1) + 1) s.heap key = .ok n ∧
      (n ∈ s.nodes ∧ s.heap.value n = key ∨ n = 0 ∧ ∀ m ∈ s.nodes, s.heap.value m ≠ key) := by
  obtain ⟨t, hrep, hrb, hs, hnodes⟩ := (h.good h0).orderedMap
  have hroot : s.heap.links.root = t.addr := hrep.context
  obtain ⟨n, hn⟩ := findLoop_ok key hrep.linked (Nat.lt_succ_of_le hrb.height_le)
  obtain ⟨m, hm, hres⟩ := findLoop_spec key (t.addrs.length + 2 * Nat.log 2 (t.addrs.length + 1) + 1) hrep.linked hs
    (by omega)
  obtain rfl := Except.ok.inj ((findLoop_mono hn (by omega)).symm.trans hm)
  simp only [hnodes.mem_iff] at hres
  exact ⟨n, by rw [treeFind, hroot, ← hnodes.length_eq, hn], hres⟩

/-- A client that has not inserted anything. -/
def emptyClient : State ℕ where
  heap := { links := { root := 0, child := fun _ _ => 0, parent := fun _ => 0, color := fun _ => .black }
            value := fun _ => 0 }
  nodes := []

theorem init_emptyClient : Init emptyClient := ⟨rfl, rfl, fun _ => rfl, rfl, rfl⟩

theorem orderedMap_run_three : ∃ s, CarefulRun emptyClient s ∧ s.nodes = [4, 2] ∧ OrderedMap s := by
  have run₁ := CarefulRun.start.step (s := emptyClient) (.insert 2 10) (by decide) trivial rfl
  have run₂ := run₁.step (.insert 3 20) (by decide) trivial rfl
  have run₃ := run₂.step (.insert 4 30) (by decide) trivial rfl
  have run₄ := run₃.step (.remove 3) (by decide) (fun h => absurd h.2 (by decide)) rfl
  exact ⟨_, run₄, rfl, (orderedMap_run init_emptyClient run₄).1⟩

theorem treeFind_logarithmic_two : ∃ s, CarefulRun emptyClient s ∧ ∃ n ∈ s.nodes, treeFind 3 s.heap 20 = .ok n := by
  have run₁ := CarefulRun.start.step (s := emptyClient) (.insert 2 10) (by decide) trivial rfl
  have run₂ := run₁.step (.insert 3 20) (by decide) trivial rfl
  obtain ⟨n, hn, hres⟩ := treeFind_logarithmic init_emptyClient run₂ 20
  exact ⟨_, run₂, n, hres.elim And.left fun h => absurd rfl (h.2 3 (by decide)), hn⟩

/-- The root of a tree with two nodes is removed. After that a node cannot be inserted. -/
theorem orderedMap_fails :
    ∃ s s' : State ℕ, Init emptyClient ∧ CarefulRun emptyClient s ∧
      (Request.remove 2).Allowed s ∧ step s (.remove 2) = .ok s' ∧ ¬OrderedMap s' ∧
      (Request.insert 4 30).Allowed s' ∧ step s' (.insert 4 30) = .error .assertion := by
  have run₁ := CarefulRun.start.step (s := emptyClient) (.insert 2 10) (by decide) trivial rfl
  have run₂ := run₁.step (.insert 3 20) (by decide) trivial rfl
  refine ⟨_, _, init_emptyClient, run₂, by decide, rfl, ?_, by decide, rfl⟩
  rintro ⟨t, ht⟩
  have hcolor := ht.color_root
  exact absurd hcolor (by decide)

end CapROS.RbTree
