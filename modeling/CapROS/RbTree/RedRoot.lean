import CapROS.RbTree.OrderedMap

/-!
# Trees with a red root

If the root of a tree with two nodes is removed, the other node becomes the root and stays red. Nodes
can still be removed from such a tree, but none can be inserted.
-/

namespace CapROS.RbTree

open LinkedTree LinkedTree.Tree
open LogDirectory (Fair sideOf spliceOut spliceOut_spec)

variable {α : Type} [LinearOrder α] {H : Heap α} {L : Links} {t : Tree} {d : Dir} {c : Color}
  {i p x z : ℕ}

/-! ## Removal -/

theorem treeRemove_single {fuel : ℕ} (h : Rep H.links [] (node .red nil z nil)) (hz : z ≠ nullPtr)
    (hfuel : 1 < fuel) :
    treeRemove fuel H z = .ok { H with links := spliceOut H.links z 0 } ∧
      Rep (spliceOut H.links z 0) [] nil ∧
      Keeps (insert 0 (node .red nil z nil).nodes) H.links (spliceOut H.links z 0) := by
  have hs : Ascending H.value (node .red nil z nil).addrs := List.pairwise_singleton _ _
  have hvalid : assertValid fuel H = .ok () :=
    assertValid_spec fuel h hs (by simpa [addrs] using hz.symm) (by simpa [addrs] using hfuel)
  obtain ⟨hz0, hred, -, hl, hr, -, -⟩ := h.linked
  have hl : H.links.child .left z = 0 := hl
  have hr : H.links.child .right z = 0 := hr
  have hx : LogDirectory.onlyChild H.links z = 0 := by simp [LogDirectory.onlyChild, hl, hr]
  obtain ⟨hrep, -, hcol⟩ : Rep (spliceOut H.links z 0) [] nil ∧ _ ∧
      (spliceOut H.links z 0).color = H.links.color := spliceOut_spec (d := .left) (s := nil) h
  refine ⟨?_, hrep, LogDirectory.spliceOut_keeps (d := .left) (s := nil) h⟩
  have hsplice : nodeToSplice fuel H.links z = .ok z := if_pos (.inl hl)
  obtain ⟨b, hb⟩ := treeContains_root z fuel hrep (by simp only [addrs, List.length_nil]; omega)
  have hfix : (if (spliceOut H.links z 0).color z = .black then
      rbRemoveFixup fuel (spliceOut H.links z 0) 0 else .ok (spliceOut H.links z 0)) =
      .ok (spliceOut H.links z 0) := by
    rw [hcol, hred]
    exact if_neg (by decide)
  have hfinish := finishRemoval_spec (H := { H with links := spliceOut H.links z 0 }) (z := z) hfix hrep
    (by simp [addrs]) (by simp only [addrs, List.length_nil]; omega) (by simp [addrs, Ascending])
  have hvalid' : assertValid fuel { H with links := spliceOut H.links z 0 } = .ok () :=
    assertValid_spec fuel hrep .nil (by simp [addrs]) (by simp only [addrs, List.length_nil]; omega)
  rw [if_pos rfl] at hfinish
  simp only [treeRemove, hvalid, ok_bind, setColor_nil h, assert_pos hz0, hsplice, hx, hb, hfinish, hvalid']

/-- A node is removed from a tree that can occur, and such a tree is left. No nodes but those of the tree
and `TREE_NIL` change. -/
theorem treeRemove_fair (fuel : ℕ) (h : Rep H.links [] t) (hf : Fair t) (hs : Ascending H.value t.addrs)
    (hnull : nullPtr ∉ t.addrs) (hz : z ∈ t.addrs) (hfuel : t.addrs.length < fuel) :
    ∃ L' t', treeRemove fuel H z = .ok { H with links := L' } ∧ Rep L' [] t' ∧
      t'.addrs = t.addrs.erase z ∧ Fair t' ∧ Keeps (insert 0 t.nodes) H.links L' := by
  rcases hf with hrb | ⟨i, rfl⟩
  · obtain ⟨y, L₁, t', hrem⟩ := LogDirectory.removal_spec fuel h (.inl hrb) hz hfuel
    exact ⟨_, t', treeRemove_eq fuel h hrb hs hnull hz hfuel hrem, hrem.rep, hrem.addrs, hrem.fair,
      hrem.keeps⟩
  · obtain rfl : z = i := by simpa [addrs] using hz
    obtain ⟨hrem, hrep, hkeep⟩ := treeRemove_single h (by simpa [addrs, eq_comm] using hnull) hfuel
    exact ⟨_, nil, hrem, hrep, by simp [addrs], .inl ⟨rfl, 0, rfl⟩, hkeep⟩

/-! ## Insertion -/

/-- The grandparent of a node below the root is `TREE_NIL`, and that is noticed in the right half. -/
theorem rotateGrandparent_root (hp : L.parent (L.parent x) = 0) :
    rotateGrandparent L .right x = .error .assertion := by
  simp [rotateGrandparent, hp, assert_neg]

theorem insertFixupLoop_red {fuel : ℕ} (h : Rep L [⟨d, .red, p, nil⟩] (node .red nil z nil)) (hfuel : 0 < fuel) :
    insertFixupLoop fuel L z = .error .assertion := by
  obtain ⟨k, rfl⟩ : ∃ k, fuel = k + 1 := ⟨fuel - 1, by omega⟩
  obtain ⟨hz, hp, hroot, hred, hside, hchild⟩ := LogDirectory.redRootReads h
  have hc0 := h.nilChild
  have hnil := h.nilColor
  rw [insertFixupLoop, if_pos ⟨hroot, hz ▸ hred⟩]
  simp only [hz, hside, hp, hc0, hnil, reduceCtorEq, if_false, assert_pos (show (0 : ℕ) ≠ nullPtr by decide),
    ok_bind]
  cases d with
  | left =>
    -- the new node takes the place of the root, and has no parent
    have hr : Rep L [] (branch .right .red nil p (branch .right .red nil z nil)) := rep_cons.1 h
    obtain ⟨L', hrot, -, hpar⟩ := LogDirectory.rotate_red h
    have hin : z = L.child .left p := hchild.2 rfl
    rw [straighten, hz, Dir.flip, if_pos hin, rotate_of_kernel hr hrot]
    simp only [ok_bind, rotateGrandparent_root hpar, error_bind]
  | right =>
    have hout : z ≠ L.child .left p := hchild.not.2 (by simp)
    rw [straighten, hz, Dir.flip, if_neg hout]
    simp only [ok_bind, rotateGrandparent_root (L := L) (x := z) (by rw [hz, hp]), error_bind]

theorem treeInsert_red {fuel : ℕ} (h : Rep H.links [] (node .red nil p nil)) (hp : p ≠ nullPtr) (hz0 : z ≠ 0)
    (hznull : z ≠ nullPtr) (hz : z ≠ p) (hnew : H.value p ≠ H.value z) (hfuel : 2 < fuel) :
    treeInsert fuel H z = .error .assertion := by
  have hs : Ascending H.value (node .red nil p nil).addrs := List.pairwise_singleton _ _
  obtain ⟨ctx, L₁, c, hins, hplug, h₁, -⟩ :=
    binaryInsert_spec fuel h hs (by simpa [addrs] using hp.symm) hz0 hznull (by simpa [addrs] using hz)
      (by simpa [addrs] using hnew) (by simpa [addrs] using hfuel)
  -- the new node is a child of the only node
  obtain ⟨d, rfl⟩ : ∃ d, ctx = [⟨d, .red, p, nil⟩] := by
    cases ctx with
    | nil => cases hplug
    | cons f ctx =>
      cases ctx with
      | nil =>
        obtain ⟨d, cf, j, u⟩ := f
        refine ⟨d, ?_⟩
        cases d <;> simp only [plug, Frame.fill, branch, node.injEq, true_and, and_true] at hplug <;>
          obtain ⟨rfl, rfl, rfl⟩ := hplug <;> rfl
      | cons g ctx =>
        have hlen := length_le_addrs (f :: g :: ctx) nil
        rw [hplug] at hlen
        simp [addrs] at hlen
  have h₂ := h₁.setColor .red (by simp)
  rw [treeInsert, hins, ok_bind]
  have hloop : insertFixupLoop fuel (L₁.setColor z .red) z = .error .assertion :=
    insertFixupLoop_red h₂ (by omega)
  rw [hloop, error_bind]

end CapROS.RbTree
