import CapROS.LogDirectory.Rotation
import CapROS.Theory.RedBlack

/-!
# Restoring the colours

After an insertion and after a removal the log directory climbs the tree from the place of the
change to restore the balance. Both loops keep the order of the nodes, never rotate the empty tree
and end with a balanced tree. They change nodes of the tree only.
-/

namespace CapROS.LogDirectory

open LinkedTree LinkedTree.Tree

variable {L : Links} {ctx : Context} {t s : Tree} {d : Dir} {c : Color} {i n : ℕ}

theorem sideOf_eq (h : Rep L (⟨d, c, i, s⟩ :: ctx) t) (hp : L.parent t.addr = i)
    (hne : t ≠ nil ∨ s ≠ nil) : sideOf L t.addr = d := by
  have hl := h.eq_child_iff hne .left
  unfold sideOf
  rw [hp]
  cases d with
  | left => rw [if_pos (hl.2 rfl)]
  | right => rw [if_neg (hl.not.2 (by simp))]

/-! ## After an insertion -/

variable {e : Dir} {p g j : ℕ} {rest : Context} {u near far w : Tree}

theorem straighten_spec {cg : Color}
    (h : Rep L (⟨d, .red, p, s⟩ :: ⟨e, cg, g, u⟩ :: rest) t) (ht : t ≠ nil)
    (hbt : Balanced t n) (hct : t.color = .red) (hbs : Balanced s n) (hcs : s.color = .black) :
    ∃ x' p' s' t' L', straighten L e t.addr = .ok (x', L') ∧ t'.addr = x' ∧
      Rep L' (⟨e, .red, p', s'⟩ :: ⟨e, cg, g, u⟩ :: rest) t' ∧ t' ≠ nil ∧ Balanced t' n ∧
      t'.color = .red ∧ Balanced s' n ∧ s'.color = .black ∧
      (branch e .red t' p' s').addrs = (branch d .red t p s).addrs ∧
      Keeps (plug (⟨d, .red, p, s⟩ :: ⟨e, cg, g, u⟩ :: rest) t).nodes L L' := by
  have hp : L.parent t.addr = p := h.linked.parent_addr ht
  have hiff := h.eq_child_iff (.inl ht) e.flip
  obtain rfl | rfl := Dir.eq_or_eq_flip e d
  · refine ⟨t.addr, p, s, t, L, ?_, rfl, h, ht, hbt, hct, hbs, hcs, rfl, Keeps.refl _ L⟩
    rw [straighten, hp, if_neg (hiff.not.2 (by simp))]
  · -- the grandchild is an inner one: its parent goes down, and is the node to go on with
    obtain ⟨b, a, hta⟩ := exists_branch e ht
    rw [hct] at hta
    rw [hta] at hbt
    obtain ⟨hcb, hca, hbb, hba⟩ := balanced_red.1 hbt
    rw [hta] at h
    obtain ⟨L', hrot, hrep, hkeep⟩ := rotate_spec (rep_cons_flip.1 h)
    refine ⟨p, t.addr, a, branch e .red s p b, L', ?_, addr_branch _ _ _ _ _, ?_, branch_ne_nil _ _ _ _ _,
      balanced_red.2 ⟨hcs, hcb, hbs, hbb⟩, color_branch _ _ _ _ _, hba, hca, ?_, ?_⟩
    · rw [straighten, hp, if_pos (hiff.2 rfl), hrot]
      rfl
    · exact rep_cons.2 hrep
    · rw [branch_flip, ← addrs_rotate e .red .red, ← hta]
    · rw [plug, Frame.fill, branch_flip, hta]
      exact hkeep

theorem rotateGrandparent_ready (h : Rep L (⟨e, .red, p, s⟩ :: ⟨e, .black, g, u⟩ :: rest) t) :
    Rep ((L.setColor p .black).setColor g .red) rest
      (branch e.flip .red u g (branch e.flip .black s p t)) := by
  have h₁ := rep_cons.1 ((rep_cons.1 (h.paintTop .black)).paintTop .red)
  rw [branch_flip e .red, branch_flip e .black]
  exact h₁

theorem rotateGrandparent_spec
    (h : Rep L (⟨e, .red, p, s⟩ :: ⟨e, .black, g, u⟩ :: rest) t) (ht : t ≠ nil) :
    ∃ L', rotateGrandparent L e t.addr = .ok L' ∧
      Rep L' rest (branch e .black t p (branch e .red s g u)) ∧
      Keeps (plug (⟨e, .red, p, s⟩ :: ⟨e, .black, g, u⟩ :: rest) t).nodes L L' := by
  have hp : L.parent t.addr = p := h.linked.parent_addr ht
  have hg : L.parent p = g := h.parent_top
  obtain ⟨L', hrot, hrep, hkeep⟩ := rotate_spec (rotateGrandparent_ready h)
  refine ⟨L', ?_, ?_, ?_⟩
  · simp only [rotateGrandparent, Links.parent_setColor, hp, hg]
    exact hrot
  · rwa [branch_flip e .red, branch_flip e .black] at hrep
  · rw [branch_flip, branch_flip] at hkeep
    have hcolors := ((Keeps.refl _ L).setColor (mem_nodes_top _ _ t) .black).setColor
      (mem_nodes_second ⟨e, .red, p, s⟩ ⟨e, .black, g, u⟩ rest t) .red
    exact hcolors.trans (hkeep.of_addrs
      (addrs_plug_congr (addrs_branch_congr (addrs_branch_congr rfl rfl) rfl)))

section Round

variable {e : Dir} {p g : ℕ} {u : Tree} {rest : Context}

/-- What a round of `tree_insert_fixup` at the node `x` reads before it changes anything. -/
structure GrandparentReads (L : Links) (x p g : ℕ) (e : Dir) (u : Tree) : Prop where
  parent : L.parent x = p
  grandparent : L.parent p = g
  ne_root : x ≠ L.root
  red : L.color p = .red
  side : sideOf L p = e
  uncle : L.child e.flip g = u.addr
  uncleColor : L.color u.addr = u.color

theorem grandparentReads {cg : Color} (h : Rep L (⟨d, .red, p, s⟩ :: ⟨e, cg, g, u⟩ :: rest) t)
    (ht : t ≠ nil) : GrandparentReads L t.addr p g e u := by
  have hg : L.parent p = g := h.parent_top
  have hup := rep_cons.1 h
  have hpa : (Frame.fill ⟨d, .red, p, s⟩ t).addr = p := addr_branch _ _ _ _ _
  have hside : sideOf L p = e := by
    rw [← hpa]
    exact sideOf_eq hup (by rw [hpa]; exact hg) (.inl (branch_ne_nil _ _ _ _ _))
  exact ⟨h.linked.parent_addr ht, hg, fun he => by simpa using (h.addr_eq_root ht).1 he, h.color_top,
    hside, hup.child_flip_top, hup.color_sibling⟩

theorem redUncle_spec (h : Rep L (⟨d, .red, p, s⟩ :: ⟨e, .black, g, u⟩ :: rest) t)
    (hbt : Balanced t n) (hbs : Balanced s n) (hbu : Balanced u n) (hu : u.color = .red) :
    ∃ t', t'.addr = g ∧ t' ≠ nil ∧ t'.color = .red ∧ Balanced t' (n + 1) ∧
      Rep (((L.setColor p .black).setColor u.addr .black).setColor g .red) rest t' ∧
      (plug rest t').addrs = (plug (⟨d, .red, p, s⟩ :: ⟨e, .black, g, u⟩ :: rest) t).addrs ∧
      Keeps (plug (⟨d, .red, p, s⟩ :: ⟨e, .black, g, u⟩ :: rest) t).nodes L
        (((L.setColor p .black).setColor u.addr .black).setColor g .red) := by
  have hune : u ≠ nil := fun he => by rw [he] at hu; cases hu
  have h₁ := (rep_cons.1 (h.paintTop .black)).paintSibling hune .black
  have h₂ := rep_cons.1 (h₁.paintTop .red)
  have hu : u.addr ∈ (plug (⟨d, .red, p, s⟩ :: ⟨e, .black, g, u⟩ :: rest) t).nodes :=
    mem_addrs_plug.2 (.inl (by simp [Context.addrs, addr_mem hune]))
  have hcolors := ((Keeps.refl _ L).setColor (mem_nodes_top _ _ t) .black).setColor hu .black
  refine ⟨_, addr_branch _ _ _ _ _, branch_ne_nil _ _ _ _ _, color_branch _ _ _ _ _, ?_, h₂, ?_,
    hcolors.setColor (mem_nodes_second ⟨d, .red, p, s⟩ ⟨e, .black, g, u⟩ rest t) .red⟩
  · refine balanced_red.2 ⟨color_branch _ _ _ _ _, color_paint hune, ?_, hbu.paint_red ‹_›⟩
    exact balanced_black.2 ⟨n, rfl, hbt, hbs⟩
  · rw [plug, plug]
    refine addrs_plug_congr (addrs_branch_congr (addrs_branch_congr rfl rfl) ?_)
    exact addrs_paint _ _

theorem blackUncle_spec (h : Rep L (⟨d, .red, p, s⟩ :: ⟨e, .black, g, u⟩ :: rest) t) (ht : t ≠ nil)
    (hct : t.color = .red) (hbt : Balanced t n) (hcs : s.color = .black) (hbs : Balanced s n)
    (hcu : u.color = .black) (hbu : Balanced u n) (hrest : CtxBalanced rest (n + 1)) :
    ∃ t₁ p' s' L₁ L₂ t', straighten L e t.addr = .ok (t₁.addr, L₁) ∧ t₁ ≠ nil ∧
      Rep L₁ (⟨e, .red, p', s'⟩ :: ⟨e, .black, g, u⟩ :: rest) t₁ ∧
      rotateGrandparent L₁ e t₁.addr = .ok L₂ ∧ L₂.color (L₂.parent t₁.addr) = .black ∧
      Rep L₂ [] t' ∧ t'.addrs = (plug (⟨d, .red, p, s⟩ :: ⟨e, .black, g, u⟩ :: rest) t).addrs ∧
      (∃ m, Balanced t' m) ∧
      Keeps (plug (⟨d, .red, p, s⟩ :: ⟨e, .black, g, u⟩ :: rest) t).nodes L L₂ := by
  obtain ⟨x', p', s', t', L₁, hstr, rfl, h₁, ht', hbt', hct', hbs', hcs', haddrs, hkeep₁⟩ :=
    straighten_spec h ht hbt hct hbs hcs
  obtain ⟨L₂, hrot, h₂, hkeep₂⟩ := rotateGrandparent_spec h₁ ht'
  have hbal : RedBlack (plug rest (branch e .black t' p' (branch e .red s' g u))) := by
    refine redBlack_plug (n := n + 1) ?_ hrest (.inl (color_branch _ _ _ _ _))
    exact balanced_black.2 ⟨n, rfl, hbt', balanced_red.2 ⟨hcs', hcu, hbs', hbu⟩⟩
  have hf : Rep L₂ (⟨e, .black, p', branch e .red s' g u⟩ :: rest) t' := rep_cons.2 h₂
  refine ⟨t', p', s', L₁, L₂, _, hstr, ht', h₁, hrot, ?_, rep_plug.1 h₂, ?_, hbal.2,
    hkeep₁.trans (hkeep₂.of_addrs (addrs_plug_congr (addrs_branch_congr haddrs.symm rfl)))⟩
  · rw [hf.linked.parent_addr ht']
    exact hf.color_top
  · rw [plug, plug]
    refine addrs_plug_congr ?_
    rw [Frame.fill, Frame.fill]
    simp only
    rw [@addrs_branch_congr _ _ .black _ _ _ u _ haddrs.symm rfl]
    exact addrs_rotate e .black .red .black .red t' s' u p' g

end Round

/-- The loop of `tree_insert_fixup` ends with a balanced tree that has the same nodes in the same
order. Its root may be red. -/
theorem insertFixupLoop_spec (fuel : ℕ) (h : Rep L ctx t) (ht : t ≠ nil) (hct : t.color = .red)
    (hbt : Balanced t n) (hctx : CtxBalanced ctx n) (hfuel : ctx.length < fuel) :
    ∃ L' t', insertFixupLoop fuel L t.addr = .ok L' ∧ Rep L' [] t' ∧
      t'.addrs = (plug ctx t).addrs ∧ (∃ m, Balanced t' m) ∧ Keeps (plug ctx t).nodes L L' := by
  induction fuel generalizing L ctx t n with
  | zero => omega
  | succ fuel ih =>
    match ctx, hctx with
    | [], _ =>
      refine ⟨L, t, ?_, h, rfl, ⟨n, hbt⟩, Keeps.refl _ L⟩
      have hroot := (h.addr_eq_root ht).2 rfl
      simp [insertFixupLoop, hroot]
    | ⟨d, .black, p, s⟩ :: rest, hctx =>
      refine ⟨L, _, ?_, rep_plug.1 h, rfl, (redBlack_plug hbt hctx (.inr ⟨by simp, rfl⟩)).2, Keeps.refl _ L⟩
      have hcp : L.color (L.parent t.addr) = .black := by
        rw [h.linked.parent_addr ht]
        exact h.color_top
      simp [insertFixupLoop, hcp]
    | ⟨d, .red, p, s⟩ :: [], hctx => exact absurd rfl hctx.2.2.1
    | ⟨d, .red, p, s⟩ :: ⟨e, .red, g, u⟩ :: rest, hctx => cases hctx.2.2.2.1
    | ⟨d, .red, p, s⟩ :: ⟨e, .black, g, u⟩ :: rest, ⟨hcs, hbs, _, _, hbu, hrest⟩ =>
      obtain ⟨hp, hg, hne, hred, hside, huncle, hcu⟩ := grandparentReads h ht
      simp only [insertFixupLoop, hne, hp, hred, ne_eq, not_false_eq_true, and_self, if_true, hside, hg,
        huncle, hcu]
      simp only [List.length_cons] at hfuel
      cases hu : u.color with
      | red =>
        obtain ⟨t₁, rfl, hne₁, hct₁, hb₁, h₁, haddrs₁, hkeep₁⟩ := redUncle_spec h hbt hbs hbu hu
        obtain ⟨L', t', hloop, hrep, haddrs, hbal, hkeep⟩ := ih h₁ hne₁ hct₁ hb₁ hrest (by omega)
        refine ⟨L', t', ?_, hrep, haddrs.trans haddrs₁, hbal, hkeep₁.trans (hkeep.of_addrs haddrs₁.symm)⟩
        simpa [hp, hg] using hloop
      | black =>
        obtain ⟨t₁, -, -, L₁, L₂, t', hstr, -, -, hrot, hcp, hrep, haddrs, hbal, hkeep⟩ :=
          blackUncle_spec h ht hct hbt hcs hbs hu hbu hrest
        refine ⟨L₂, t', ?_, hrep, haddrs, hbal, hkeep⟩
        obtain ⟨k, rfl⟩ : ∃ k, fuel = k + 1 := ⟨fuel - 1, by omega⟩
        simp [hstr, hrot, insertFixupLoop, hcp]

/-! ## After a removal -/

/-- The tree is one black node short of the black height `n + 1`. If its root is red, the colour
black for the root makes up for that. -/
def Short (t : Tree) (n : ℕ) : Prop :=
  match t.color with
  | .red => Balanced (t.paint .black) (n + 1)
  | .black => Balanced t n

theorem short_of_red (hc : t.color = .red) : Short t n ↔ Balanced (t.paint .black) (n + 1) := by
  rw [Short, hc]

theorem short_of_black (hc : t.color = .black) : Short t n ↔ Balanced t n := by rw [Short, hc]

theorem parent_hole {L' : Links} {i : ℕ} (h : Rep L' (⟨d, c, i, s⟩ :: ctx) t)
    (hkeep : Keeps (plug (⟨d, c, i, s⟩ :: ctx) t).nodes L L') (hp : L.parent t.addr = i) :
    L'.parent t.addr = i := by
  by_cases ht : t = nil
  · subst ht
    exact (hkeep.parent 0 fun h0 => h.ne_zero h0 rfl).trans hp
  · exact h.linked.parent_addr ht

theorem liftRedSibling_ready (h : Rep L (⟨d, c, i, branch d .red near j far⟩ :: rest) t) :
    Rep ((L.setColor j .black).setColor i .red) rest
      (branch d .red t i (branch d .black near j far)) := by
  have h₁ := rep_cons.1 ((h.paintSibling (branch_ne_nil _ _ _ _ _) .black).paintTop .red)
  rwa [Frame.fill, addr_branch, paint_branch] at h₁

theorem liftRedSibling_spec (h : Rep L (⟨d, c, i, w⟩ :: rest) t)
    (hp : L.parent t.addr = i) (hctx : CtxBalanced (⟨d, c, i, w⟩ :: rest) (n + 1)) :
    ∃ L' c' w' rest', liftRedSibling d L t.addr = .ok L' ∧
      Rep L' (⟨d, c', i, w'⟩ :: rest') t ∧ L'.parent t.addr = i ∧
      CtxBalanced (⟨d, c', i, w'⟩ :: rest') (n + 1) ∧ w'.color = .black ∧
      (plug (⟨d, c', i, w'⟩ :: rest') t).addrs = (plug (⟨d, c, i, w⟩ :: rest) t).addrs ∧
      (c' = .red ∨ rest' = rest) ∧ Keeps (plug (⟨d, c, i, w⟩ :: rest) t).nodes L L' := by
  have hw : L.child d.flip i = w.addr := h.child_flip_top
  have hcw : L.color w.addr = w.color := h.color_sibling
  cases hc : w.color with
  | black =>
    refine ⟨L, c, w, rest, ?_, h, hp, hctx, hc, rfl, .inr rfl, Keeps.refl _ L⟩
    simp [liftRedSibling, hp, hw, hcw, hc]
  | red =>
    -- the node above a red sibling is black
    cases c with
    | red => rw [hctx.1] at hc; cases hc
    | black =>
      obtain ⟨hbw, hrest⟩ := ctxBalanced_black.1 hctx
      have hwne : w ≠ nil := hbw.ne_nil
      obtain ⟨near, far, hwb⟩ := exists_branch d hwne
      rw [hc] at hwb
      rw [hwb] at hbw
      obtain ⟨hcn, hcf, hbn, hbf⟩ := balanced_red.1 hbw
      have h₁ := h
      rw [hwb] at h₁
      obtain ⟨L', hrot, hrep, hkeep⟩ := rotate_spec (liftRedSibling_ready h₁)
      have hrep' : Rep L' (⟨d, .red, i, near⟩ :: ⟨d, .black, w.addr, far⟩ :: rest) t :=
        rep_cons.2 (rep_cons.2 hrep)
      have haddrs : (plug (⟨d, .red, i, near⟩ :: ⟨d, .black, w.addr, far⟩ :: rest) t).addrs =
          (plug (⟨d, .black, i, w⟩ :: rest) t).addrs := by
        rw [plug, plug, plug]
        refine addrs_plug_congr ?_
        rw [Frame.fill, Frame.fill, Frame.fill]
        simp only
        rw [hwb, addr_branch, ← addrs_rotate]
      have hkeep' : Keeps (plug (⟨d, .black, i, w⟩ :: rest) t).nodes L L' := by
        have hwS : w.addr ∈ (plug (⟨d, .black, i, w⟩ :: rest) t).nodes :=
          mem_addrs_plug.2 (.inl (by simp [Context.addrs, addr_mem hwne]))
        refine (((Keeps.refl _ L).setColor hwS .black).setColor (mem_nodes_top _ _ t) .red).trans ?_
        refine hkeep.of_addrs (addrs_plug_congr (addrs_branch_congr rfl ?_))
        exact (congrArg addrs hwb).trans (addrs_branch_congr rfl rfl)
      refine ⟨L', .red, near, ⟨d, .black, w.addr, far⟩ :: rest, ?_, hrep', ?_, ?_, hcn, haddrs, .inl rfl, hkeep'⟩
      · simpa [liftRedSibling, hp, hw, hcw, hc] using hrot
      · exact parent_hole hrep' (hkeep'.of_addrs haddrs) hp
      · exact ⟨hcn, hbn, by simp, rfl, hbf, hrest⟩

theorem reddenOuter_ready {a b : Tree} {k : ℕ}
    (h : Rep L (⟨d, c, i, branch d .black (branch d .red a k b) j far⟩ :: rest) t) :
    Rep ((L.setColor k .black).setColor j .red) (⟨d.flip, c, i, t⟩ :: rest)
      (branch d.flip .red far j (branch d.flip .black b k a)) := by
  have hs : Rep L (⟨d, .black, j, far⟩ :: ⟨d.flip, c, i, t⟩ :: rest) (branch d .red a k b) :=
    rep_cons.2 (rep_swap.1 h)
  have h₁ := rep_cons.1 ((hs.setColor .black (branch_ne_nil _ _ _ _ _)).paintTop .red)
  rw [Frame.fill, addr_branch, paint_branch] at h₁
  rwa [branch_flip d .red, branch_flip d .black]

theorem reddenOuter_spec
    (h : Rep L (⟨d, c, i, branch d .black near j far⟩ :: rest) t) (hp : L.parent t.addr = i)
    (hbn : Balanced near n) (hbf : Balanced far n)
    (hred : ¬(near.color = .black ∧ far.color = .black)) :
    ∃ L' near' j' far', reddenOuter d L t.addr = .ok L' ∧
      Rep L' (⟨d, c, i, branch d .black near' j' far'⟩ :: rest) t ∧ L'.parent t.addr = i ∧
      Balanced near' n ∧ Balanced far' n ∧ far'.color = .red ∧
      (branch d .black near' j' far').addrs = (branch d .black near j far).addrs ∧
      Keeps (plug (⟨d, c, i, branch d .black near j far⟩ :: rest) t).nodes L L' := by
  have hw : L.child d.flip i = j := h.child_flip_top.trans (addr_branch _ _ _ _ _)
  have hs : Rep L (⟨d, .black, j, far⟩ :: ⟨d.flip, c, i, t⟩ :: rest) near :=
    rep_cons.2 (rep_swap.1 h)
  have hjf : L.child d.flip j = far.addr := hs.child_flip_top
  have hjn : L.child d j = near.addr := hs.child_top
  have hcf : L.color far.addr = far.color := hs.color_sibling
  cases hc : far.color with
  | red =>
    refine ⟨L, near, j, far, ?_, h, hp, hbn, hbf, hc, rfl, Keeps.refl _ L⟩
    simp [reddenOuter, hp, hw, hjf, hcf, hc]
  | black =>
    -- the inner child is red, and takes the place of the sibling
    have hcn : near.color = .red := by
      cases hn : near.color with
      | red => rfl
      | black => exact absurd ⟨hn, hc⟩ hred
    have hne : near ≠ nil := fun he => by rw [he] at hcn; cases hcn
    obtain ⟨a, b, hab⟩ := exists_branch d hne
    rw [hcn] at hab
    rw [hab] at hbn
    obtain ⟨hca, hcb, hba, hbb⟩ := balanced_red.1 hbn
    have h₁ := h
    rw [hab] at h₁
    obtain ⟨L', hrot, hrep, hkeep⟩ := rotate_spec (reddenOuter_ready h₁)
    rw [branch_flip d .red, branch_flip d .black] at hrep
    have haddrs : (branch d .black a near.addr (branch d .red b j far)).addrs =
        (branch d .black near j far).addrs := by
      rw [hab, addr_branch]
      exact addrs_rotate d _ _ _ _ a b far near.addr j
    have hkeep' : Keeps (plug (⟨d, c, i, branch d .black near j far⟩ :: rest) t).nodes L L' := by
      have hnS : near.addr ∈ (plug (⟨d, c, i, branch d .black near j far⟩ :: rest) t).nodes :=
        mem_addrs_plug.2 (.inl (by simp [Context.addrs, addr_mem hne]))
      have hjS : j ∈ (plug (⟨d, c, i, branch d .black near j far⟩ :: rest) t).nodes :=
        mem_addrs_plug.2 (.inl (by simp [Context.addrs]))
      refine (((Keeps.refl _ L).setColor hnS .black).setColor hjS .red).trans (hkeep.mono ?_)
      intro k hk
      rw [hab]
      simp only [mem_nodes, mem_addrs_plug, Context.addrs, List.cons_append, List.mem_cons,
        List.mem_append, mem_addrs_branch] at hk ⊢
      tauto
    refine ⟨L', a, near.addr, branch d .red b j far, ?_, rep_swap.2 hrep, ?_, hba,
      balanced_red.2 ⟨hcb, hc, hbb, hbf⟩, color_branch _ _ _ _ _, haddrs, hkeep'⟩
    · simpa [reddenOuter, hp, hw, hjf, hjn, hcf, hc] using hrot
    · exact parent_hole (rep_swap.2 hrep)
        (hkeep'.of_addrs (addrs_plug_congr (addrs_branch_congr rfl haddrs))) hp

theorem rotateParent_ready
    (h : Rep L (⟨d, c, i, branch d .black near j far⟩ :: rest) t) (hfar : far ≠ nil) :
    Rep (((L.setColor j c).setColor i .black).setColor far.addr .black) rest
      (branch d .black t i (branch d c near j (far.paint .black))) := by
  have hs : Rep L (⟨d.flip, .black, j, near⟩ :: ⟨d.flip, c, i, t⟩ :: rest) far :=
    rep_swap.1 (rep_cons.2 (rep_swap.1 h))
  have h₁ := rep_cons.1 (hs.paintTop c)
  have h₂ := rep_cons.2 (h₁.paintTop .black)
  have h₃ := rep_cons.1 (rep_cons.1 (h₂.setColor .black hfar))
  simp only [Frame.fill] at h₃
  rwa [branch_flip d .black, branch_flip d c] at h₃

theorem rotateParent_spec
    (h : Rep L (⟨d, c, i, branch d .black near j far⟩ :: rest) t) (hp : L.parent t.addr = i)
    (hfar : far ≠ nil) :
    ∃ L', rotateParent d L t.addr = .ok L' ∧
      Rep L' rest (branch d c (branch d .black t i near) j (far.paint .black)) ∧
      Keeps (plug (⟨d, c, i, branch d .black near j far⟩ :: rest) t).nodes L L' := by
  have hw : L.child d.flip i = j := h.child_flip_top.trans (addr_branch _ _ _ _ _)
  have hci : L.color i = c := h.color_top
  have hs : Rep L (⟨d.flip, .black, j, near⟩ :: ⟨d.flip, c, i, t⟩ :: rest) far :=
    rep_swap.1 (rep_cons.2 (rep_swap.1 h))
  have hjf : L.child d.flip j = far.addr := hs.child_top
  obtain ⟨L', hrot, hrep, hkeep⟩ := rotate_spec (rotateParent_ready h hfar)
  refine ⟨L', ?_, hrep, ?_⟩
  · simpa [rotateParent, hp, hw, hci, hjf] using hrot
  · have hjS : j ∈ (plug (⟨d, c, i, branch d .black near j far⟩ :: rest) t).nodes :=
      mem_addrs_plug.2 (.inl (by simp [Context.addrs]))
    have hfS : far.addr ∈ (plug (⟨d, c, i, branch d .black near j far⟩ :: rest) t).nodes :=
      mem_addrs_plug.2 (.inl (by simp [Context.addrs, addr_mem hfar]))
    have hcolors := (((Keeps.refl _ L).setColor hjS c).setColor (mem_nodes_top _ _ t) .black).setColor hfS .black
    refine hcolors.trans (hkeep.of_addrs (addrs_plug_congr (addrs_branch_congr rfl ?_)))
    exact addrs_branch_congr rfl (addrs_paint _ _).symm

theorem redBlack_rotateParent
    (hctx : CtxBalanced (⟨d, c, i, w⟩ :: rest) (n + 1)) (hbt : Balanced t n) (hbn : Balanced near n)
    (hbf : Balanced far n) (hcf : far.color = .red) :
    RedBlack (plug rest (branch d c (branch d .black t i near) j (far.paint .black))) := by
  have hne : far ≠ nil := fun he => by rw [he] at hcf; cases hcf
  have hb₁ : Balanced (branch d .black t i near) (n + 1) := balanced_black.2 ⟨n, rfl, hbt, hbn⟩
  have hb₂ : Balanced (far.paint .black) (n + 1) := hbf.paint_red hcf
  cases c with
  | red =>
    obtain ⟨-, -, hrest, htop, hb⟩ := ctxBalanced_red.1 hctx
    refine redBlack_plug (balanced_red.2 ⟨color_branch _ _ _ _ _, color_paint hne, hb₁, hb₂⟩) hb ?_
    exact .inr ⟨hrest, htop⟩
  | black =>
    obtain ⟨-, hb⟩ := ctxBalanced_black.1 hctx
    exact redBlack_plug (balanced_black.2 ⟨n + 1, rfl, hb₁, hb₂⟩) hb (.inl (color_branch _ _ _ _ _))

theorem sibling_ne_nil (hctx : CtxBalanced (⟨d, c, i, w⟩ :: rest) (n + 1)) :
    w ≠ nil := by
  cases c with
  | red => exact hctx.2.1.ne_nil
  | black => exact hctx.1.ne_nil

theorem addr_ne_root {f : Frame} (h : Rep L (f :: ctx) t) : t.addr ≠ L.root := by
  by_cases ht : t = nil
  · subst ht
    have h' := rep_plug.1 h
    intro he
    exact h'.linked.ne_zero (addr_mem (plug_ne_nil (.inl (by simp)))) (h'.context.symm.trans he.symm)
  · exact fun he => by simpa using (h.addr_eq_root ht).1 he

/-- After the first step of a round of `remove_fixup` the sibling `j` is black. -/
structure Lifted (L : Links) (d : Dir) (c : Color) (i j : ℕ) (near far t : Tree) (ctx : Context)
    (n : ℕ) : Prop where
  rep : Rep L (⟨d, c, i, branch d .black near j far⟩ :: ctx) t
  parent : L.parent t.addr = i
  context : CtxBalanced (⟨d, c, i, branch d .black near j far⟩ :: ctx) (n + 1)
  near : Balanced near n
  far : Balanced far n

/-- The first step of a round. The hole is deeper afterwards only if the node above it is red. -/
theorem exists_lifted (h : Rep L (⟨d, c, i, w⟩ :: rest) t)
    (hp : L.parent t.addr = i) (hctx : CtxBalanced (⟨d, c, i, w⟩ :: rest) (n + 1)) :
    ∃ L' c' j near far rest', liftRedSibling d L t.addr = .ok L' ∧
      Lifted L' d c' i j near far t rest' n ∧
      (plug (⟨d, c', i, branch d .black near j far⟩ :: rest') t).addrs =
        (plug (⟨d, c, i, w⟩ :: rest) t).addrs ∧ (c' = .red ∨ rest'.length = rest.length) ∧
      Keeps (plug (⟨d, c, i, w⟩ :: rest) t).nodes L L' := by
  obtain ⟨L₁, c₁, w₁, rest₁, hlift, h₁, hp₁, hctx₁, hcw₁, haddrs₁, hlen, hkeep⟩ :=
    liftRedSibling_spec h hp hctx
  obtain ⟨near, far, hw₁⟩ := exists_branch d (sibling_ne_nil hctx₁)
  rw [hcw₁] at hw₁
  generalize w₁.addr = j at hw₁
  subst hw₁
  have hb : Balanced (branch d .black near j far) (n + 1) := by
    cases c₁ with
    | red => exact hctx₁.2.1
    | black => exact hctx₁.1
  obtain ⟨m, hm, hbn, hbf⟩ := balanced_black.1 hb
  obtain rfl : n = m := by omega
  exact ⟨L₁, c₁, j, near, far, rest₁, hlift, ⟨h₁, hp₁, hctx₁, hbn, hbf⟩, haddrs₁,
    hlen.imp_right fun he => by rw [he], hkeep⟩

section Lifted

variable {near far : Tree} {j : ℕ}

section Lifted

variable (h : Lifted L d c i j near far t ctx n)
include h

theorem Lifted.sibling : L.child d.flip i = j :=
  h.rep.child_flip_top.trans (addr_branch _ _ _ _ _)

theorem Lifted.sibling_ne_zero : j ≠ 0 := by
  have hs : Rep L (⟨d, .black, j, far⟩ :: ⟨d.flip, c, i, t⟩ :: ctx) near :=
    rep_cons.2 (rep_swap.1 h.rep)
  exact hs.context.1

theorem Lifted.children_black :
    (L.color (L.child .left j) = .black ∧ L.color (L.child .right j) = .black) ↔
      near.color = .black ∧ far.color = .black := by
  have hs : Rep L (⟨d, .black, j, far⟩ :: ⟨d.flip, c, i, t⟩ :: ctx) near :=
    rep_cons.2 (rep_swap.1 h.rep)
  have hcn : L.color (L.child d j) = near.color := by
    rw [hs.child_top]
    exact hs.color_addr
  have hcf : L.color (L.child d.flip j) = far.color := by
    rw [hs.child_flip_top]
    exact hs.color_sibling
  rw [← hcn, ← hcf]
  cases d
  · rfl
  · exact and_comm

theorem Lifted.redden (hbt : Balanced t n)
    (hblack : near.color = .black ∧ far.color = .black) :
    ∃ t' m, t'.addr = i ∧ t' ≠ nil ∧ t'.color = c ∧ Rep (L.setColor j .red) ctx t' ∧ Short t' m ∧
      CtxBalanced ctx (m + 1) ∧
      (plug ctx t').addrs = (plug (⟨d, c, i, branch d .black near j far⟩ :: ctx) t).addrs := by
  have h₂ := rep_cons.1 (h.rep.paintSibling (branch_ne_nil _ _ _ _ _) .red)
  rw [addr_branch, paint_branch] at h₂
  have hcol : (Frame.fill ⟨d, c, i, branch d .red near j far⟩ t).color = c := color_branch _ _ _ _ _
  have hbs : Balanced (branch d .red near j far) n :=
    balanced_red.2 ⟨hblack.1, hblack.2, h.near, h.far⟩
  have hstep : ∃ m, Short (Frame.fill ⟨d, c, i, branch d .red near j far⟩ t) m ∧
      CtxBalanced ctx (m + 1) := by
    have hctx := h.context
    cases c with
    | red =>
      refine ⟨n, (short_of_red hcol).2 ?_, hctx.2.2.2.2⟩
      rw [Frame.fill, paint_branch]
      exact balanced_black.2 ⟨n, rfl, hbt, hbs⟩
    | black =>
      refine ⟨n + 1, (short_of_black hcol).2 ?_, hctx.2⟩
      exact balanced_black.2 ⟨n, rfl, hbt, hbs⟩
  obtain ⟨m, hshort, hrest⟩ := hstep
  refine ⟨_, m, addr_branch _ _ _ _ _, branch_ne_nil _ _ _ _ _, hcol, h₂, hshort, hrest, ?_⟩
  rw [plug]
  refine addrs_plug_congr (addrs_branch_congr rfl ?_)
  exact addrs_branch_congr rfl rfl

theorem Lifted.rotate (hbt : Balanced t n)
    (hred : ¬(near.color = .black ∧ far.color = .black)) :
    ∃ near' j' far' L₂ L₃ t', reddenOuter d L t.addr = .ok L₂ ∧ L₂.parent t.addr = i ∧
      far' ≠ nil ∧ Rep L₂ (⟨d, c, i, branch d .black near' j' far'⟩ :: ctx) t ∧
      rotateParent d L₂ t.addr = .ok L₃ ∧ Rep L₃ [] t' ∧ t' ≠ nil ∧ RedBlack t' ∧
      t'.addrs = (plug (⟨d, c, i, branch d .black near j far⟩ :: ctx) t).addrs ∧
      Keeps (plug (⟨d, c, i, branch d .black near j far⟩ :: ctx) t).nodes L L₃ := by
  obtain ⟨L₂, near', j', far', hout, h₂, hp₂, hbn', hbf', hcf', haddrs₂, hkeep₂⟩ :=
    reddenOuter_spec h.rep h.parent h.near h.far hred
  have hfar : far' ≠ nil := fun he => by rw [he] at hcf'; cases hcf'
  obtain ⟨L₃, hrot, h₃, hkeep₃⟩ := rotateParent_spec h₂ hp₂ hfar
  have hkeep := hkeep₂.trans (hkeep₃.of_addrs (addrs_plug_congr (addrs_branch_congr rfl haddrs₂.symm)))
  refine ⟨near', j', far', L₂, L₃, _, hout, hp₂, hfar, h₂, hrot, rep_plug.1 h₃, plug_ne_nil (.inr (branch_ne_nil _ _ _ _ _)),
    redBlack_rotateParent h.context hbt hbn' hbf' hcf', ?_, hkeep⟩
  rw [plug]
  refine addrs_plug_congr ?_
  rw [Frame.fill]
  simp only
  rw [← addrs_branch_congr (c := .black) (t := t) rfl haddrs₂, addrs_rotate d .black .black c .black]
  exact addrs_branch_congr rfl (addrs_paint _ _)

end Lifted

end Lifted

/-- The loop of `remove_fixup` ends at a node whose colouring in black gives a red-black tree with
the same nodes in the same order. -/
theorem removeFixupLoop_spec (fuel : ℕ) (h : Rep L ctx t) (hp : L.parent t.addr = Context.top ctx)
    (hne : ctx ≠ [] ∨ t ≠ nil) (hshort : Short t n) (hctx : CtxBalanced ctx (n + 1))
    (hfuel : 0 < fuel ∧ (t.color = .black → ctx.length < fuel)) :
    ∃ x' L' t', removeFixupLoop fuel L t.addr = .ok (x', L') ∧
      Rep (L'.setColor x' .black) [] t' ∧ RedBlack t' ∧ t'.addrs = (plug ctx t).addrs ∧
      Keeps (plug ctx t).nodes L (L'.setColor x' .black) := by
  induction fuel generalizing L ctx t n with
  | zero => omega
  | succ fuel ih =>
    by_cases hexit : ctx = [] ∨ t.color = .red
    · -- the loop ends here
      have ht : t ≠ nil := by
        rintro rfl
        rcases hexit with rfl | hc
        · simp at hne
        · cases hc
      have hrb : RedBlack (plug ctx (t.paint .black)) := by
        cases hc : t.color with
        | red => exact redBlack_plug ((short_of_red hc).1 hshort) hctx (.inl (color_paint ht))
        | black =>
          obtain rfl := hexit.resolve_right (by simp [hc])
          rw [paint_of_color hc ht]
          exact ⟨hc, n, (short_of_black hc).1 hshort⟩
      refine ⟨t.addr, L, _, ?_, rep_plug.1 (h.setColor .black ht), hrb, ?_,
        (Keeps.refl _ L).setColor (mem_addrs_plug.2 (.inr (addr_mem ht))) .black⟩
      · have : ¬(t.addr ≠ L.root ∧ L.color t.addr = .black) := by
          rw [ne_eq, h.addr_eq_root ht, h.color_addr]
          rcases hexit with hx | hx <;> simp [hx]
        rw [removeFixupLoop, if_neg this]
      · exact addrs_plug_congr (addrs_paint _ _)
    · rw [not_or] at hexit
      obtain ⟨hcne, hcr⟩ := hexit
      have hcb : t.color = .black := by
        cases hc : t.color with
        | red => exact absurd hc hcr
        | black => rfl
      have hbt := (short_of_black hcb).1 hshort
      match ctx, hcne with
      | ⟨d, c, i, w⟩ :: rest, _ =>
        have hbw := sibling_ne_nil hctx
        have hside : sideOf L t.addr = d := sideOf_eq h hp (.inr hbw)
        have hsib : d = .left → L.child .right (L.parent t.addr) ≠ 0 := by
          rintro rfl
          have hch : L.child .right i = w.addr := h.child_flip_top
          rw [hp]
          change L.child .right i ≠ 0
          rw [hch]
          exact h.context.2.2.2.2.2.1.ne_zero (addr_mem hbw)
        obtain ⟨L₁, c₁, j, near, far, rest₁, hlift, h₁, haddrs₁, hlen, hkeep₁⟩ := exists_lifted h hp hctx
        have hdeep := hfuel.2 hcb
        rw [List.length_cons] at hdeep
        rw [removeFixupLoop, if_pos ⟨addr_ne_root h, h.color_addr.trans hcb⟩]
        simp only [hside, ensure_pos hsib, ok_bind, hlift, h₁.parent, h₁.sibling, h₁.children_black]
        by_cases hblack : near.color = .black ∧ far.color = .black
        · rw [if_pos hblack]
          obtain ⟨t₂, m, rfl, hne₂, hcol, h₂, hshort₂, hctx₂, haddrs₂⟩ := h₁.redden hbt hblack
          have hfuel₂ : 0 < fuel ∧ (t₂.color = .black → rest₁.length < fuel) := by
            refine ⟨by omega, fun hc => ?_⟩
            have := hlen.resolve_left (by simp [← hcol, hc])
            omega
          obtain ⟨x', L', t', hloop, hrep, hrb, haddrs, hkeep⟩ :=
            ih h₂ (h₂.linked.parent_addr hne₂) (.inr hne₂) hshort₂ hctx₂ hfuel₂
          have hj : j ∈ (plug (⟨d, c, t₂.addr, w⟩ :: rest) t).addrs := by
            rw [← haddrs₁]
            exact mem_addrs_plug.2 (.inl (by simp [Context.addrs]))
          exact ⟨x', L', t', hloop, hrep, hrb, haddrs.trans (haddrs₂.trans haddrs₁),
            (hkeep₁.setColor hj .red).trans (hkeep.of_addrs (haddrs₂.trans haddrs₁).symm)⟩
        · -- the last rotations: the loop ends at the root
          rw [if_neg hblack]
          obtain ⟨-, -, -, L₂, L₃, t', hout, -, -, -, hrot, hrep, hne', hrb, haddrs, hkeep⟩ :=
            h₁.rotate hbt hblack
          simp only [hout, ok_bind, hrot]
          have hroot : L₃.root = t'.addr := hrep.context
          have hmem : L₃.root ∈ (plug (⟨d, c, i, w⟩ :: rest) t).addrs := by
            rw [← haddrs₁, ← haddrs, hroot]
            exact addr_mem hne'
          refine ⟨L₃.root, L₃, t', ?_, ?_, hrb, haddrs.trans haddrs₁,
            (hkeep₁.trans (hkeep.of_addrs haddrs₁.symm)).setColor hmem .black⟩
          · obtain ⟨k, rfl⟩ : ∃ k, fuel = k + 1 := ⟨fuel - 1, by omega⟩
            rw [removeFixupLoop, if_neg (by simp)]
          · have h₅ := hrep.setColor .black hne'
            rwa [paint_of_color hrb.1 hne', ← hroot] at h₅

end CapROS.LogDirectory
