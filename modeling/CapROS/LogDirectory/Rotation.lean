import CapROS.LogDirectory.Basic
import CapROS.Theory.LinkedForest

/-!
# Rotations and other changes of the links

What the single changes of links in the log directory's tree come to when the links hold a tree.
-/

namespace CapROS.LogDirectory

open LinkedTree LinkedTree.Tree

section Links

variable {L : Links} {ctx : Context}

@[simp]
theorem ensure_pos {p : Prop} [Decidable p] (h : p) (e : Failure) : ensure p e = .ok () := if_pos h

@[simp]
theorem root_setParentIf (i v : ℕ) : (setParentIf L i v).root = L.root := by
  unfold setParentIf
  split <;> rfl

@[simp]
theorem child_setParentIf (i v : ℕ) : (setParentIf L i v).child = L.child := by
  unfold setParentIf
  split <;> rfl

@[simp]
theorem color_setParentIf (i v : ℕ) : (setParentIf L i v).color = L.color := by
  unfold setParentIf
  split <;> rfl

@[simp]
theorem parent_setParentIf (i v j : ℕ) :
    (setParentIf L i v).parent j = if j = i ∧ i ≠ 0 then v else L.parent j := by
  unfold setParentIf
  split <;> simp_all

theorem replaceChild_eq {x y : ℕ} (d : Dir) (hp : L.parent y = Context.top ctx)
    (hh : HoleAt L ctx y)
    (hne : ∀ f, ctx.head? = some f → f.addr ≠ 0 ∧ L.child f.dir.flip f.addr ≠ y) :
    replaceChild d L y x = L.setHole ctx x := by
  cases ctx with
  | nil => simp [replaceChild, hp, Context.top, Links.setHole]
  | cons f ctx =>
    obtain ⟨h0, hs⟩ := hne f rfl
    simp only [replaceChild, hp, Context.top, Links.setHole, if_neg h0]
    obtain rfl | rfl := Dir.eq_or_eq_flip f.dir d
    · rw [if_pos (Eq.symm hh)]
    · rw [if_neg (Ne.symm hs), Dir.flip_flip]

end Links

section Rotation

variable {L : Links} {ctx : Context} {d : Dir} {cx cy : Color} {a b c : Tree} {x y : ℕ}

/-- The links after a rotation at `y`, where `b` is the root of the subtree that changes sides. -/
def rotated (L : Links) (ctx : Context) (d : Dir) (x y b : ℕ) : Links :=
  let L := (setParentIf (L.setChild d.flip y b) b y).setParent x (Context.top ctx)
  setParentIf ((L.setHole ctx x).setChild d x y) y x

/-- The nodes that take part in a rotation are different from each other and from the others. -/
structure Apart (ctx : Context) (a b c : Tree) (x y : ℕ) : Prop where
  ne : y ≠ x
  notMem_x : x ∉ a.addrs ∧ x ∉ b.addrs ∧ x ∉ c.addrs
  notMem_y : y ∉ a.addrs ∧ y ∉ b.addrs ∧ y ∉ c.addrs
  nodup : b.addrs.Nodup
  ab : b.addrs.Disjoint a.addrs
  bc : b.addrs.Disjoint c.addrs
  context : ∀ i ∈ ctx.addrs, i ≠ x ∧ i ≠ y ∧ i ∉ a.addrs ∧ i ∉ b.addrs ∧ i ∉ c.addrs

theorem apart (h : (plug ctx (branch d cy c y (branch d cx b x a))).addrs.Nodup) :
    Apart ctx a b c x y := by
  have hnd := nodup_of_plug h
  simp only [nodup_branch, mem_addrs_branch, not_or] at hnd
  obtain ⟨hyc, ⟨hyx, hyb, hya⟩, -, ⟨hxb, hxa, hndb, -, hba⟩, hdis⟩ := hnd
  refine ⟨hyx, ⟨hxa, hxb, fun hx => hdis hx (by simp)⟩, ⟨hya, hyb, hyc⟩, hndb, hba,
    fun j hj hjc => hdis hjc (by simp [hj]), fun i hi => ?_⟩
  have hout := not_mem_of_nodup h hi
  simp only [mem_addrs_branch, not_or] at hout
  tauto

theorem head_mem_addrs {f : Frame} (hf : ctx.head? = some f) : f.addr ∈ ctx.addrs := by
  cases ctx with
  | nil => cases hf
  | cons g ctx =>
    obtain rfl : g = f := by simpa using hf
    simp [Context.addrs]

theorem ne_head {i : ℕ} (hi : i ∉ ctx.addrs) (e : Dir) (f : Frame) (hf : ctx.head? = some f) :
    ¬(e = f.dir ∧ i = f.addr) := fun hfe => hi (hfe.2 ▸ head_mem_addrs hf)

@[simp]
theorem color_rotated (b : ℕ) : (rotated L ctx d x y b).color = L.color := by simp [rotated]

theorem parent_rotated_of_ne {b j : ℕ} (hx : j ≠ x) (hy : j ≠ y) (hb : j ≠ b) :
    (rotated L ctx d x y b).parent j = L.parent j := by
  simp [rotated, hx, hy, hb]

theorem child_rotated_of_ne {b j : ℕ} {e : Dir} (hx : j ≠ x) (hy : j ≠ y)
    (hf : ∀ f, ctx.head? = some f → ¬(e = f.dir ∧ j = f.addr)) :
    (rotated L ctx d x y b).child e j = L.child e j := by
  simp [rotated, hx, hy, Links.child_setHole_of_ne _ _ hf]

theorem addr_mem_of_ne_zero {t : Tree} (h : t.addr ≠ 0) : t.addr ∈ t.addrs :=
  addr_mem fun he => h (by rw [he]; rfl)

theorem linked_rotated (h : Rep L ctx (branch d cy c y (branch d cx b x a))) :
    Linked (rotated L ctx d x y b.addr) (Context.top ctx)
      (branch d cx (branch d cy c y b) x a) := by
  have hlin := h.linked
  simp only [linked_branch, addr_branch] at hlin
  obtain ⟨hy0, hcoly, hpy, hcy, hxy, hc, hx0, hcolx, hpx, hbx, hax, hb, ha⟩ := hlin
  obtain ⟨hyx, ⟨hxa, hxb, hxc⟩, ⟨hya, hyb, hyc⟩, hndb, hab, hbc, hout⟩ := apart h.nodup
  have hby : b.addr ≠ y := fun he => hyb (he ▸ addr_mem_of_ne_zero (he ▸ hy0))
  have hbx' : b.addr ≠ x := fun he => hxb (he ▸ addr_mem_of_ne_zero (he ▸ hx0))
  have hnx : x ∉ ctx.addrs := fun hi => (hout x hi).1 rfl
  have hny : y ∉ ctx.addrs := fun hi => (hout y hi).2.1 rfl
  simp only [linked_branch, addr_branch]
  refine ⟨hx0, by simp [hcolx], ?_, ?_, ?_, ⟨hy0, by simp [hcoly], ?_, ?_, ?_, ?_, ?_⟩, ?_⟩
  · simp [rotated, Ne.symm hyx]
  · simp [rotated]
  · rw [← hax]
    simp [rotated, Links.child_setHole_of_ne _ _ (ne_head hnx d.flip), Ne.symm hyx]
  · simp [rotated, hy0]
  · rw [← hcy]
    simp [rotated, Links.child_setHole_of_ne _ _ (ne_head hny d), hyx]
  · simp [rotated, Links.child_setHole_of_ne _ _ (ne_head hny d.flip)]
  · -- the subtree below `y` that stays there
    refine hc.congr (fun j _ => by simp) (fun j hj e => ?_) fun j hj => ?_
    · exact child_rotated_of_ne (fun he => hxc (he ▸ hj)) (fun he => hyc (he ▸ hj))
        (ne_head (fun hi => (hout j hi).2.2.2.2 hj) e)
    · refine parent_rotated_of_ne (fun he => hxc (he ▸ hj)) (fun he => hyc (he ▸ hj)) fun he => ?_
      exact hbc (he ▸ addr_mem_of_ne_zero (he ▸ hc.ne_zero hj)) hj
  · -- the subtree that changes sides
    refine hb.reparent hndb (fun j _ => by simp) (fun j hj e => ?_) (fun j hj hne => ?_) fun hne => ?_
    · exact child_rotated_of_ne (fun he => hxb (he ▸ hj)) (fun he => hyb (he ▸ hj))
        (ne_head (fun hi => (hout j hi).2.2.2.1 hj) e)
    · exact parent_rotated_of_ne (fun he => hxb (he ▸ hj)) (fun he => hyb (he ▸ hj)) hne
    · simp [rotated, hby, hbx', hb.ne_zero (addr_mem hne)]
  · -- the subtree below `x` that stays there
    refine ha.congr (fun j _ => by simp) (fun j hj e => ?_) fun j hj => ?_
    · exact child_rotated_of_ne (fun he => hxa (he ▸ hj)) (fun he => hya (he ▸ hj))
        (ne_head (fun hi => (hout j hi).2.2.1 hj) e)
    · refine parent_rotated_of_ne (fun he => hxa (he ▸ hj)) (fun he => hya (he ▸ hj)) fun he => ?_
      exact hab (he ▸ addr_mem_of_ne_zero (he ▸ ha.ne_zero hj)) hj

theorem rep_rotated (h : Rep L ctx (branch d cy c y (branch d cx b x a))) :
    Rep (rotated L ctx d x y b.addr) ctx (branch d cx (branch d cy c y b) x a) := by
  obtain ⟨-, -, -, -, -, -, hout⟩ := apart h.nodup
  have hx0 : x ≠ 0 := h.ne_zero (mem_addrs_plug.2 (.inr (by simp)))
  have hy0 : y ≠ 0 := h.ne_zero (mem_addrs_plug.2 (.inr (by simp)))
  have h0 : 0 ∉ ctx.addrs := fun hi => h.context.ne_zero hi rfl
  refine h.replace (linked_rotated h) ?_ (by simp) ?_ ?_ (fun j _ => by simp) ?_ ?_ ?_
  · have hn := h.nodup
    rwa [addrs_plug_congr (addrs_rotate d cy cx cx cy c b a y x)] at hn
  · intro e
    exact child_rotated_of_ne hx0.symm hy0.symm (ne_head h0 e)
  · intro hne
    simp [rotated, Links.root_setHole _ _ hne]
  · intro j hj e hf
    exact child_rotated_of_ne (hout j hj).1 (hout j hj).2.1 hf
  · intro j hj
    refine parent_rotated_of_ne (hout j hj).1 (hout j hj).2.1 fun he => ?_
    exact (hout j hj).2.2.2.1 (he ▸ addr_mem_of_ne_zero (he ▸ h.context.ne_zero hj))
  · rw [addr_branch]
    cases ctx with
    | nil => simp [HoleAt, rotated, Links.setHole]
    | cons f ctx =>
      have hfx := (hout f.addr (head_mem_addrs rfl)).1
      simp [HoleAt, rotated, Links.setHole, hfx]

/-- In a rotation the upper node is replaced in the link into the hole, whichever child of its parent
it is compared with first. -/
theorem replaceChild_lowered (e : Dir) (h : Rep L ctx (branch d cy c y (branch d cx b x a))) :
    let L₃ := (setParentIf (L.setChild d.flip y b.addr) b.addr y).setParent x (Context.top ctx)
    replaceChild e L₃ y x = L₃.setHole ctx x := by
  intro L₃
  have hlin := h.linked
  simp only [linked_branch, addr_branch] at hlin
  obtain ⟨hy0, -, hpy, -⟩ := hlin
  obtain ⟨hyx, -, ⟨-, hyb, -⟩, -, -, -, hout⟩ := apart h.nodup
  have hby : y ≠ b.addr := fun he => hyb (he ▸ addr_mem_of_ne_zero (he ▸ hy0))
  apply replaceChild_eq
  · simp [L₃, hyx, hby, hpy]
  · have hh := h.holeAt
    cases ctx with
    | nil => simpa [HoleAt, L₃] using hh
    | cons f ctx =>
      have hfy := (hout f.addr (head_mem_addrs rfl)).2.1
      simpa [HoleAt, L₃, hfy] using hh
  · intro f hf
    cases ctx with
    | nil => cases hf
    | cons g ctx =>
      obtain rfl : g = f := by simpa using hf
      have hgy := (hout g.addr (head_mem_addrs rfl)).2.1
      refine ⟨h.context.1, ?_⟩
      have hs := (h.eq_child_iff (.inl (by cases d <;> simp [branch])) g.dir.flip).not.2
        (Dir.flip_ne _)
      simpa [L₃, hgy] using Ne.symm hs

theorem parent_root_rotated (h : Rep L ctx (branch d cy c y (branch d cx b x a))) :
    (rotated L ctx d x y b.addr).parent (rotated L ctx d x y b.addr).root = 0 :=
  (rep_rotated h).parent_root (plug_ne_nil (.inr (branch_ne_nil _ _ _ _ _)))

theorem rotate_eq (h : Rep L ctx (branch d cy c y (branch d cx b x a))) :
    rotate d L y = .ok (rotated L ctx d x y b.addr) := by
  have hlin := h.linked
  simp only [linked_branch, addr_branch] at hlin
  obtain ⟨hy0, -, hpy, -, hxy, -, hx0, -, -, hbx, -⟩ := hlin
  obtain ⟨-, -, ⟨-, hyb, -⟩, -⟩ := apart h.nodup
  have hby : y ≠ b.addr := fun he => hyb (he ▸ addr_mem_of_ne_zero (he ▸ hy0))
  -- the links into the hole are still those of `L` when the child is replaced
  let L₃ := (setParentIf (L.setChild d.flip y b.addr) b.addr y).setParent x (Context.top ctx)
  have hrepl : replaceChild d L₃ y x = L₃.setHole ctx x := replaceChild_lowered d h
  have hroot : (setParentIf ((L₃.setHole ctx x).setChild d x y) y x).parent
      (setParentIf ((L₃.setHole ctx x).setChild d x y) y x).root = 0 := parent_root_rotated h
  have hpar : (setParentIf (L.setChild d.flip y b.addr) b.addr y).parent y = Context.top ctx := by
    simp [hby, hpy]
  simp only [rotate, hxy, hbx, ensure_pos hx0, ok_bind, Links.child_setChild, and_self, if_true, hpar]
  change (do
    ensure ((setParentIf ((replaceChild d L₃ y x).setChild d x y) y x).parent
      (setParentIf ((replaceChild d L₃ y x).setChild d x y) y x).root = 0) .assertion
    Except.ok (setParentIf ((replaceChild d L₃ y x).setChild d x y) y x)) = _
  rw [hrepl, ensure_pos hroot]
  rfl

theorem Keeps.setParentIf {S : Set ℕ} {L₁ : Links} {i : ℕ} (h : Keeps S L L₁) (hi : i ≠ 0 → i ∈ S) (v : ℕ) :
    Keeps S L (setParentIf L₁ i v) := by
  unfold LogDirectory.setParentIf
  split
  · exact h.setParent (hi ‹_›) v
  · exact h

theorem rotated_keeps : Keeps (plug ctx (branch d cy c y (branch d cx b x a))).nodes L
    (rotated L ctx d x y b.addr) := by
  have hctx : ∀ i ∈ ctx.addrs, i ∈ (plug ctx (branch d cy c y (branch d cx b x a))).nodes :=
    fun i hi => mem_addrs_plug.2 (.inl hi)
  have hb : b.addr ≠ 0 → b.addr ∈ (plug ctx (branch d cy c y (branch d cx b x a))).nodes :=
    fun h0 => mem_addrs_plug.2 (.inr (by simp [addr_mem_of_ne_zero h0]))
  have hx : x ∈ (plug ctx (branch d cy c y (branch d cx b x a))).nodes := mem_addrs_plug.2 (.inr (by simp))
  have hy : y ∈ (plug ctx (branch d cy c y (branch d cx b x a))).nodes := mem_addrs_plug.2 (.inr (by simp))
  have h₁ := Keeps.setParentIf ((Keeps.refl _ L).setChild hy d.flip b.addr) hb y
  have h₂ := (h₁.setParent hx (Context.top ctx)).setHole hctx x
  exact Keeps.setParentIf (h₂.setChild hx d y) (fun _ => hy) x

theorem rotate_spec (h : Rep L ctx (branch d cy c y (branch d cx b x a))) :
    ∃ L', rotate d L y = .ok L' ∧ Rep L' ctx (branch d cx (branch d cy c y b) x a) ∧
      Keeps (plug ctx (branch d cy c y (branch d cx b x a))).nodes L L' :=
  ⟨_, rotate_eq h, rep_rotated h, rotated_keeps⟩

end Rotation

end CapROS.LogDirectory
