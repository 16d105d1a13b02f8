import CapROS.RbTree.Basic
import CapROS.LogDirectory.TreeRemoval

/-!
# Restoring the colours

The procedures of the library that change the shape of the tree do to a tree what their copies in
the log directory do, and the assertions that only the library has hold.
-/

namespace CapROS.RbTree

open LinkedTree LinkedTree.Tree
open LogDirectory (apart grandparentReads redUncle_spec blackUncle_spec exists_lifted Short sideOf
  sideOf_eq sibling_ne_nil addr_ne_root parent_root_rotated replaceChild_lowered rotated rotate_eq
  setParentIf)

variable {L L' : Links} {ctx rest : Context} {t s u w : Tree} {d e : Dir} {c cx cy : Color}
  {i n x y : ℕ}

@[simp]
theorem assert_pos {p : Prop} [Decidable p] (h : p) : assert p = .ok () := if_pos h

theorem assert_neg {p : Prop} [Decidable p] (h : ¬p) : assert p = .error .assertion := if_neg h

/-! ## Rotations -/

theorem rotate_of_kernel {a b c : Tree} (h : Rep L ctx (branch d cy c y (branch d cx b x a)))
    (hk : LogDirectory.rotate d L y = .ok L') : rotate d L y = .ok L' := by
  rw [rotate_eq h, Except.ok.injEq] at hk
  subst hk
  have hlin := h.linked
  simp only [linked_branch, addr_branch] at hlin
  obtain ⟨hy0, -, hpy, -, hxy, -, -, -, -, hbx, -⟩ := hlin
  have hby : y ≠ b.addr := fun he =>
    (apart h.nodup).notMem_y.2.1 (he ▸ LogDirectory.addr_mem_of_ne_zero (he ▸ hy0))
  let L₃ := (setParentIf (L.setChild d.flip y b.addr) b.addr y).setParent x (Context.top ctx)
  have hrepl : LogDirectory.replaceChild .left L₃ y x = L₃.setHole ctx x :=
    replaceChild_lowered .left h
  have hset : ((L₃.setHole ctx x).setChild d x y).setParent y x =
      setParentIf ((L₃.setHole ctx x).setChild d x y) y x := by
    rw [setParentIf, if_pos hy0]
  have hroot : (((L₃.setHole ctx x).setChild d x y).setParent y x).parent
      (((L₃.setHole ctx x).setChild d x y).setParent y x).root = 0 := by
    rw [hset]
    exact parent_root_rotated h
  have hpar : (setParentIf (L.setChild d.flip y b.addr) b.addr y).parent y = Context.top ctx := by
    simp [hby, hpy]
  simp only [rotate, hxy, hbx, Links.child_setChild, and_self, if_true, hpar]
  change (do
    assert ((((LogDirectory.replaceChild .left L₃ y x).setChild d x y).setParent y x).parent
      (((LogDirectory.replaceChild .left L₃ y x).setChild d x y).setParent y x).root = 0)
    Except.ok (((LogDirectory.replaceChild .left L₃ y x).setChild d x y).setParent y x)) = _
  rw [hrepl, assert_pos hroot, hset]
  rfl

theorem bind_ok {ε α β : Type} {m : Except ε α} {f : α → β} {b : β}
    (h : (do let a ← m; .ok (f a)) = Except.ok b) : ∃ a, m = .ok a ∧ f a = b := by
  cases m with
  | error e => cases h
  | ok a => exact ⟨a, rfl, Except.ok.inj h⟩

/-! ## After an insertion -/

section Insertion

variable {p g x' : ℕ}

theorem straighten_of_kernel (h : Rep L (⟨d, .red, p, s⟩ :: ⟨e, .black, g, u⟩ :: rest) t)
    (ht : t ≠ nil) (hct : t.color = .red)
    (hk : LogDirectory.straighten L e t.addr = .ok (x', L')) :
    straighten L e t.addr = .ok (x', L') := by
  have hp : L.parent t.addr = p := h.linked.parent_addr ht
  have hiff := h.eq_child_iff (.inl ht) e.flip
  rw [LogDirectory.straighten, hp] at hk
  rw [straighten, hp]
  obtain rfl | rfl := Dir.eq_or_eq_flip e d
  · have hout : t.addr ≠ L.child d.flip p := hiff.not.2 (by simp)
    rw [if_neg hout] at hk ⊢
    cases hk
    rfl
  · have hin : t.addr = L.child e.flip p := hiff.2 rfl
    rw [if_pos hin] at hk ⊢
    obtain ⟨L₁, hrot, heq⟩ := bind_ok hk
    obtain ⟨b, a, hta⟩ := exists_branch e ht
    rw [hct] at hta
    generalize t.addr = k at hta heq
    subst hta
    rw [rotate_of_kernel (rep_cons_flip.1 h) hrot, ← heq]
    rfl

theorem rotateGrandparent_of_kernel (h : Rep L (⟨e, .red, p, s⟩ :: ⟨e, .black, g, u⟩ :: rest) t)
    (ht : t ≠ nil) (hnull : g ≠ nullPtr)
    (hk : LogDirectory.rotateGrandparent L e t.addr = .ok L') :
    rotateGrandparent L e t.addr = .ok L' := by
  have hp : L.parent t.addr = p := h.linked.parent_addr ht
  have hg : L.parent p = g := h.parent_top
  have hg0 : g ≠ 0 := (rep_cons.1 h).context.1
  have hassert : g ≠ if e = .left then nullPtr else 0 := by
    split
    · exact hnull
    · exact hg0
  simp only [LogDirectory.rotateGrandparent, Links.parent_setColor, hp, hg] at hk
  simp only [rotateGrandparent, Links.parent_setColor, hp, hg, assert_pos hassert]
  exact rotate_of_kernel (LogDirectory.rotateGrandparent_ready h) hk

/-- The loop of `tree_insert` ends with a balanced tree that has the same nodes in the same order, and
changes those nodes only. Its root may be red. -/
theorem insertFixupLoop_spec (fuel : ℕ) (h : Rep L ctx t) (ht : t ≠ nil) (hct : t.color = .red)
    (hbt : Balanced t n) (hctx : CtxBalanced ctx n) (hnull : nullPtr ∉ ctx.addrs)
    (hfuel : ctx.length < fuel) :
    ∃ L' t', insertFixupLoop fuel L t.addr = .ok L' ∧ Rep L' [] t' ∧
      t'.addrs = (plug ctx t).addrs ∧ (∃ m, Balanced t' m) ∧ Keeps (plug ctx t).nodes L L' := by
  induction fuel generalizing L ctx t n with
  | zero => omega
  | succ fuel ih =>
    match ctx, hctx with
    | [], _ =>
      refine ⟨L, t, ?_, h, rfl, ⟨n, hbt⟩, Keeps.refl _ L⟩
      have hroot := (h.addr_eq_root ht).2 rfl
      simp [insertFixupLoop, hroot]
    | ⟨d, .black, p, s⟩ :: rest, hctx =>
      refine ⟨L, _, ?_, rep_plug.1 h, rfl, (redBlack_plug hbt hctx (.inr ⟨by simp, rfl⟩)).2, Keeps.refl _ L⟩
      have hcp : L.color (L.parent t.addr) = .black := by
        rw [h.linked.parent_addr ht]
        exact h.color_top
      simp [insertFixupLoop, hcp]
    | ⟨d, .red, p, s⟩ :: [], hctx => exact absurd rfl hctx.2.2.1
    | ⟨d, .red, p, s⟩ :: ⟨e, .red, g, u⟩ :: rest, hctx => cases hctx.2.2.2.1
    | ⟨d, .red, p, s⟩ :: ⟨e, .black, g, u⟩ :: rest, ⟨hcs, hbs, _, _, hbu, hrest⟩ =>
      obtain ⟨hp, hg, hne, hred, hside, huncle, hcu⟩ := grandparentReads h ht
      have hg0 : g ≠ 0 := (rep_cons.1 h).context.1
      simp only [Context.addrs, List.cons_append, List.mem_cons, List.mem_append, not_or] at hnull
      have hgnull : g ≠ nullPtr := Ne.symm hnull.2.2.1
      simp only [List.length_cons] at hfuel
      simp only [insertFixupLoop, hne, hp, hred, ne_eq, not_false_eq_true, and_self, if_true, hside, hg,
        huncle, hcu, assert_pos hgnull, ok_bind]
      cases hu : u.color with
      | red =>
        -- the assertion of the right half: below `TREE_NIL` there is no red uncle
        obtain ⟨t₁, rfl, hne₁, hct₁, hb₁, h₁, haddrs₁, hkeep₁⟩ := redUncle_spec h hbt hbs hbu hu
        obtain ⟨L', t', hloop, hrep, haddrs, hbal, hkeep⟩ :=
          ih h₁ hne₁ hct₁ hb₁ hrest hnull.2.2.2.2 (by omega)
        refine ⟨L', t', ?_, hrep, haddrs.trans haddrs₁, hbal, hkeep₁.trans (hkeep.of_addrs haddrs₁.symm)⟩
        simpa [hp, hg, hg0] using hloop
      | black =>
        obtain ⟨t₁, p', s', L₁, L₂, t', hstr, hne₁, h₁, hrot, hcp, hrep, haddrs, hbal, hkeep⟩ :=
          blackUncle_spec h ht hct hbt hcs hbs hu hbu hrest
        refine ⟨L₂, t', ?_, hrep, haddrs, hbal, hkeep⟩
        obtain ⟨k, rfl⟩ : ∃ k, fuel = k + 1 := ⟨fuel - 1, by omega⟩
        have hstr' := straighten_of_kernel h ht hct hstr
        have hrot' := rotateGrandparent_of_kernel h₁ hne₁ hgnull hrot
        simp [hstr', hrot', insertFixupLoop, hcp]

end Insertion

/-! ## After a removal -/

section Removal

variable {near far : Tree} {j : ℕ}

theorem liftRedSibling_of_kernel (h : Rep L (⟨d, c, i, w⟩ :: rest) t) (hp : L.parent t.addr = i)
    (hk : LogDirectory.liftRedSibling d L t.addr = .ok L') : liftRedSibling d L t.addr = .ok L' := by
  have hw : L.child d.flip i = w.addr := h.child_flip_top
  have hi0 : i ≠ 0 := h.context.1
  simp only [LogDirectory.liftRedSibling, hp, hw, h.color_sibling, Links.parent_setColor] at hk
  simp only [liftRedSibling, hp, hw, h.color_sibling, Links.parent_setColor, assert_pos hi0, ok_bind]
  cases hc : w.color with
  | black => simpa [hc] using hk
  | red =>
    rw [if_pos hc] at hk
    rw [if_pos rfl]
    have hne : w ≠ nil := fun he => by rw [he] at hc; cases hc
    obtain ⟨near, far, hb⟩ := exists_branch d hne
    rw [hc] at hb
    generalize w.addr = j at hb hk
    subst hb
    exact rotate_of_kernel (LogDirectory.liftRedSibling_ready h) hk

theorem reddenOuter_of_kernel (h : Rep L (⟨d, c, i, branch d .black near j far⟩ :: rest) t)
    (hp : L.parent t.addr = i) (hred : ¬(near.color = .black ∧ far.color = .black))
    (hk : LogDirectory.reddenOuter d L t.addr = .ok L') : reddenOuter d L t.addr = .ok L' := by
  have hw : L.child d.flip i = j := h.child_flip_top.trans (addr_branch _ _ _ _ _)
  have hs : Rep L (⟨d, .black, j, far⟩ :: ⟨d.flip, c, i, t⟩ :: rest) near :=
    rep_cons.2 (rep_swap.1 h)
  have hj0 : j ≠ 0 := hs.context.1
  have hjf : L.child d.flip j = far.addr := hs.child_flip_top
  have hjn : L.child d j = near.addr := hs.child_top
  simp only [LogDirectory.reddenOuter, hp, hw, hjf, hjn, hs.color_sibling] at hk
  simp only [reddenOuter, hp, hw, hjf, hjn, hs.color_sibling, assert_pos hj0, ok_bind]
  cases hc : far.color with
  | red => simpa [hc] using hk
  | black =>
    rw [if_pos hc] at hk
    rw [if_pos rfl]
    have hcn : near.color = .red := by
      cases hn : near.color with
      | red => rfl
      | black => exact absurd ⟨hn, hc⟩ hred
    have hne : near ≠ nil := fun he => by rw [he] at hcn; cases hcn
    obtain ⟨a, b, hab⟩ := exists_branch d hne
    rw [hcn] at hab
    generalize near.addr = k at hab hk
    subst hab
    exact rotate_of_kernel (LogDirectory.reddenOuter_ready h) hk

theorem rotateParent_of_kernel (h : Rep L (⟨d, c, i, branch d .black near j far⟩ :: rest) t)
    (hp : L.parent t.addr = i) (hfar : far ≠ nil)
    (hk : LogDirectory.rotateParent d L t.addr = .ok L') : rotateParent d L t.addr = .ok L' := by
  have hw : L.child d.flip i = j := h.child_flip_top.trans (addr_branch _ _ _ _ _)
  have hci : L.color i = c := h.color_top
  have hs : Rep L (⟨d.flip, .black, j, near⟩ :: ⟨d.flip, c, i, t⟩ :: rest) far :=
    rep_swap.1 (rep_cons.2 (rep_swap.1 h))
  have hjf : L.child d.flip j = far.addr := hs.child_top
  simp only [LogDirectory.rotateParent, hp, hw, hci, hjf, Links.parent_setColor,
    Links.child_setColor] at hk
  simp only [rotateParent, hp, hw, hci, hjf, Links.parent_setColor, Links.child_setColor]
  exact rotate_of_kernel (LogDirectory.rotateParent_ready h hfar) hk

theorem removeFixupLoop_of_kernel {r : ℕ × Links} (fuel : ℕ) (h : Rep L ctx t)
    (hp : L.parent t.addr = Context.top ctx) (hshort : Short t n) (hctx : CtxBalanced ctx (n + 1))
    (hk : LogDirectory.removeFixupLoop fuel L t.addr = .ok r) :
    removeFixupLoop fuel L t.addr = .ok r := by
  induction fuel generalizing L ctx t n with
  | zero => cases hk
  | succ fuel ih =>
    rw [LogDirectory.removeFixupLoop] at hk
    rw [removeFixupLoop]
    by_cases hloop : t.addr ≠ L.root ∧ L.color t.addr = .black
    · rw [if_pos hloop] at hk ⊢
      have hcb : t.color = .black := h.color_addr ▸ hloop.2
      have hbt := (LogDirectory.short_of_black hcb).1 hshort
      cases ctx with
      | nil => exact absurd h.context.symm hloop.1
      | cons frame rest =>
        obtain ⟨d, c, i, w⟩ := frame
        have hbw := sibling_ne_nil hctx
        have hside : sideOf L t.addr = d := sideOf_eq h hp (.inr hbw)
        have hsib : d = .left → L.child .right (L.parent t.addr) ≠ 0 := by
          rintro rfl
          rw [hp]
          change L.child .right i ≠ 0
          rw [show L.child .right i = w.addr from h.child_flip_top]
          exact h.context.2.2.2.2.2.1.ne_zero (addr_mem hbw)
        obtain ⟨L₁, c₁, j, near, far, rest₁, hlift, h₁, -, -⟩ := exists_lifted h hp hctx
        simp only [hside, LogDirectory.ensure_pos hsib, ok_bind, hlift, h₁.parent, h₁.sibling,
          h₁.children_black] at hk
        simp only [hside, liftRedSibling_of_kernel h hp hlift, ok_bind, h₁.parent, h₁.sibling,
          h₁.children_black, assert_pos h₁.sibling_ne_zero]
        by_cases hblack : near.color = .black ∧ far.color = .black
        · rw [if_pos hblack] at hk ⊢
          obtain ⟨t₂, m, rfl, hne₂, -, h₂, hshort₂, hctx₂, -⟩ := h₁.redden hbt hblack
          exact ih h₂ (h₂.linked.parent_addr hne₂) hshort₂ hctx₂ hk
        · rw [if_neg hblack] at hk ⊢
          obtain ⟨near', j', far', L₂, L₃, t', hout, hp₂, hfar, h₂, hrot, hrep, -, -, -⟩ :=
            h₁.rotate hbt hblack
          simp only [hout, ok_bind, hrot] at hk
          simp only [reddenOuter_of_kernel h₁.rep h₁.parent hblack hout, ok_bind,
            rotateParent_of_kernel h₂ hp₂ hfar hrot]
          -- both loops end at the root
          cases fuel with
          | zero => cases hk
          | succ fuel => simpa [LogDirectory.removeFixupLoop, removeFixupLoop] using hk
    · rw [if_neg hloop] at hk ⊢
      cases hk
      rfl

theorem rbRemoveFixup_of_kernel (fuel : ℕ) (h : Rep L ctx s)
    (hp : L.parent s.addr = Context.top ctx)
    (hrb : RedBlack (plug ctx (branch d .black s y nil)))
    (hk : LogDirectory.removeFixup fuel L s.addr = .ok L') : rbRemoveFixup fuel L s.addr = .ok L' := by
  simp only [LogDirectory.removeFixup, LogDirectory.ensure_pos h.nilColor, ok_bind] at hk
  rw [rbRemoveFixup]
  by_cases hroot : L.parent s.addr = 0
  · rw [if_pos hroot] at hk ⊢
    cases hk
    rfl
  · rw [if_neg hroot] at hk ⊢
    obtain ⟨n, hb, hctx, -⟩ := hrb.split
    obtain ⟨m, rfl, hbs, hbn⟩ := balanced_black.1 hb
    obtain rfl : m = 0 := hbn
    have hshort : Short s 0 := by
      cases hcs : s.color with
      | red => exact (LogDirectory.short_of_red hcs).2 (hbs.paint_red hcs)
      | black => exact (LogDirectory.short_of_black hcs).2 hbs
    cases hloop : LogDirectory.removeFixupLoop fuel L s.addr with
    | error e =>
      rw [hloop] at hk
      cases hk
    | ok r =>
      have hloop' := removeFixupLoop_of_kernel fuel h hp hshort hctx hloop
      simp only [hloop, ok_bind, LogDirectory.ensure] at hk
      split at hk
      · rw [ok_bind] at hk
        split at hk
        · cases hk
          simp_all
        · cases hk
      · cases hk

end Removal

end CapROS.RbTree
