import CapROS.LogDirectory.TreeSearch

/-!
# Removing a node from the tree

A node with at most one child is taken out, and its child takes its place. For a node `z` with two
children the next node `y` is taken out, and takes the place of `z` in the end. If the tree had two
nodes and its root is taken out, the other one stays, and it stays red.

* `spliceOut_spec`, `replaceNode_spec`: the two changes of links. `spliceOut_keeps`, `replaceNode_keeps`: they
  are within the tree, but for those of `TREE_NIL` and of the new node.
-/

namespace CapROS.LogDirectory

open LinkedTree LinkedTree.Tree

variable {L : Links} {ctx : Context} {t s l r : Tree} {d : Dir} {c : Color} {y z : ℕ}

/-! ## Links -/

theorem spliceOut_eq (h : Rep L ctx (branch d c s y nil)) :
    spliceOut L y s.addr = (L.setParent s.addr (Context.top ctx)).setHole ctx s.addr := by
  obtain ⟨hy0, -, hpy, -⟩ := linked_branch.1 h.linked
  have hys := (nodup_branch.1 (nodup_of_plug h.nodup)).1
  have hyx : y ≠ s.addr := by
    intro he
    by_cases hsn : s = nil
    · rw [hsn] at he
      exact hy0 he
    · exact hys (he ▸ addr_mem hsn)
  rw [spliceOut, hpy]
  apply replaceChild_eq
  · simp [hyx, hpy]
  · have hh := h.holeAt
    rw [addr_branch] at hh
    cases ctx with
    | nil | cons f ctx => exact hh
  · intro f hf
    cases ctx with
    | nil => cases hf
    | cons g ctx =>
      obtain rfl : g = f := by simpa using hf
      refine ⟨h.context.1, ?_⟩
      have hi := (h.eq_child_iff (.inl (branch_ne_nil _ _ _ _ _)) g.dir.flip).not.2 (Dir.flip_ne _)
      rw [addr_branch] at hi
      exact Ne.symm hi

/-- The child of a node takes its place. -/
theorem spliceOut_spec (h : Rep L ctx (branch d c s y nil)) :
    Rep (spliceOut L y s.addr) ctx s ∧ (spliceOut L y s.addr).parent s.addr = Context.top ctx ∧
      (spliceOut L y s.addr).color = L.color := by
  obtain ⟨-, -, -, -, -, hs, -⟩ := linked_branch.1 h.linked
  obtain ⟨-, -, hns, -, -⟩ := nodup_branch.1 (nodup_of_plug h.nodup)
  have hout : ∀ i ∈ ctx.addrs, i ∉ s.addrs := fun i hi => by
    have := not_mem_of_nodup h.nodup hi
    rw [mem_addrs_branch] at this
    tauto
  have hside : ∀ i ∈ s.addrs, ∀ e f, ctx.head? = some f → ¬(e = f.dir ∧ i = f.addr) := by
    rintro i hi e f hf ⟨-, rfl⟩
    exact hout _ (head_mem_addrs hf) hi
  rw [spliceOut_eq h]
  refine ⟨?_, by simp, by simp⟩
  refine h.replace ?_ ?_ (by simp) ?_ ?_ (by simp) ?_ ?_ ?_
  · refine hs.reparent hns (by simp) ?_ ?_ (by simp)
    · intro i hi e
      exact Links.child_setHole_of_ne _ _ (hside i hi e)
    · intro i _ hne
      simp [hne]
  · have hnod := h.nodup
    rw [addrs_plug] at hnod ⊢
    have hsub : List.Sublist s.addrs (branch d c s y nil).addrs := by
      cases d <;> simp [branch, addrs]
    exact hnod.sublist ((List.Sublist.refl _).append hsub |>.append (.refl _))
  · intro e
    refine Links.child_setHole_of_ne _ _ ?_
    rintro f hf ⟨-, h0⟩
    exact h.context.ne_zero (head_mem_addrs hf) h0.symm
  · intro hne
    rw [Links.root_setHole _ _ hne]
    rfl
  · intro i _ e he
    exact Links.child_setHole_of_ne _ _ he
  · intro i hi
    have hne : i ≠ s.addr := by
      rintro rfl
      by_cases hsn : s = nil
      · rw [hsn] at hi
        exact h.context.ne_zero hi rfl
      · exact hout _ hi (addr_mem hsn)
    simp [hne]
  · cases ctx with
    | nil => rfl
    | cons f ctx => simp [HoleAt, Links.setHole]

theorem spliceOut_keeps (h : Rep L ctx (branch d c s y nil)) :
    Keeps (insert 0 (plug ctx (branch d c s y nil)).nodes) L (spliceOut L y s.addr) := by
  have hs : s.addr ∈ insert 0 (plug ctx (branch d c s y nil)).nodes := by
    by_cases hs0 : s.addr = 0
    · exact .inl hs0
    · exact .inr (mem_addrs_plug.2 (.inr (by simp [addr_mem_of_ne_zero hs0])))
  rw [spliceOut_eq h]
  exact ((Keeps.refl _ L).setParent hs _).setHole (fun i hi => .inr (mem_addrs_plug.2 (.inl hi))) _

theorem setRoot_setParentIf (i v w : ℕ) :
    (setParentIf L i v).setRoot w = setParentIf (L.setRoot w) i v := by
  unfold setParentIf
  split <;> rfl

section Replacing

variable (h : Rep L ctx (node c l z r)) (hy : y ∉ (plug ctx (node c l z r)).addrs)
include h hy

theorem replaceNode_eq :
    replaceNode L y z =
      setParentIf (setParentIf (((((L.setParent y (Context.top ctx)).setChild .left y l.addr).setChild
        .right y r.addr).setColor y c).setHole ctx y) l.addr y) r.addr y := by
  have hroot := h.addr_eq_root (by simp)
  obtain ⟨hz0, hc, hpz, hl, hr, -, -⟩ := h.linked
  cases ctx with
  | nil =>
    have hrz : L.root = z := (hroot.2 rfl).symm
    simp [replaceNode, hpz, hl, hr, hc, Context.top, hrz, Links.setHole, setRoot_setParentIf]
  | cons f ctx =>
    have hrz : L.root ≠ z := fun he => by simpa using hroot.1 he.symm
    have hf0 : f.addr ≠ 0 := h.context.1
    have hyf : f.addr ≠ y := fun he => hy (he ▸ mem_addrs_plug.2 (.inl (by simp [Context.addrs])))
    have hchild := h.eq_child_iff (.inl (by simp)) .left
    simp only [addr] at hchild
    obtain ⟨e, cf, i, u⟩ := f
    have hyi : y ≠ i := Ne.symm hyf
    cases e with
    | left =>
      have hz := hchild.2 rfl
      simp [replaceNode, hpz, hl, hr, hc, Context.top, hrz, Links.setHole, hf0, hyf, hyi, hz.symm]
    | right =>
      have hz := hchild.not.2 (by simp)
      simp [replaceNode, hpz, hl, hr, hc, Context.top, hrz, Links.setHole, hf0, hyf, hyi, Ne.symm hz]

/-- A new node takes the place of an old one. -/
theorem replaceNode_spec (hy0 : y ≠ 0) :
    Rep (replaceNode L y z) ctx (node c l y r) := by
  rw [replaceNode_eq h hy]
  obtain ⟨hz0, hc, hpz, hl, hr, hll, hrr⟩ := h.linked
  obtain ⟨hzl, hzr, hnl, hnr, hlr⟩ := nodup_branch (d := .left) (c := c) |>.1 (nodup_of_plug h.nodup)
  have hyout : y ∉ ctx.addrs ∧ y ∉ l.addrs ∧ y ∉ r.addrs ∧ y ≠ z := by
    rw [mem_addrs_plug] at hy
    simp only [addrs, List.mem_append, List.mem_cons] at hy
    tauto
  obtain ⟨hyc, hyl, hyr, -⟩ := hyout
  have hout : ∀ i ∈ ctx.addrs, i ∉ l.addrs ∧ i ∉ r.addrs := fun i hi => by
    have := not_mem_of_nodup h.nodup hi
    simp only [addrs, List.mem_append, List.mem_cons] at this
    tauto
  have hmem : ∀ {t : Tree}, t.addr ≠ 0 → t.addr ∈ t.addrs := addr_mem_of_ne_zero
  have hside : ∀ i, i ∉ ctx.addrs → ∀ e f, ctx.head? = some f → ¬(e = f.dir ∧ i = f.addr) := by
    rintro i hi e f hf ⟨-, rfl⟩
    exact hi (head_mem_addrs hf)
  have hinl : ∀ i ∈ l.addrs, i ∉ ctx.addrs := fun i hi hic => (hout i hic).1 hi
  have hinr : ∀ i ∈ r.addrs, i ∉ ctx.addrs := fun i hi hic => (hout i hic).2 hi
  have hylz : y ≠ l.addr ∨ l.addr = 0 := by
    by_cases h0 : l.addr = 0
    · exact .inr h0
    · exact .inl fun he => hyl (he ▸ hmem h0)
  have hyrz : y ≠ r.addr ∨ r.addr = 0 := by
    by_cases h0 : r.addr = 0
    · exact .inr h0
    · exact .inl fun he => hyr (he ▸ hmem h0)
  refine h.replace ?_ ?_ ?_ ?_ ?_ ?_ ?_ ?_ ?_
  · refine ⟨hy0, by simp, ?_, ?_, ?_, ?_, ?_⟩
    · have h₁ : ¬(y = r.addr ∧ r.addr ≠ 0) := by tauto
      have h₂ : ¬(y = l.addr ∧ l.addr ≠ 0) := by tauto
      simp [h₁, h₂]
    · rw [child_setParentIf, child_setParentIf, Links.child_setHole_of_ne _ _ (hside y hyc _)]
      simp
    · rw [child_setParentIf, child_setParentIf, Links.child_setHole_of_ne _ _ (hside y hyc _)]
      simp
    · refine hll.reparent hnl ?_ ?_ ?_ ?_
      · intro i hi
        have : i ≠ y := fun he => hyl (he ▸ hi)
        simp [this]
      · intro i hi e
        have : i ≠ y := fun he => hyl (he ▸ hi)
        rw [child_setParentIf, child_setParentIf, Links.child_setHole_of_ne _ _ (hside i (hinl i hi) _)]
        simp [this]
      · intro i hi hne
        have h₁ : i ≠ y := fun he => hyl (he ▸ hi)
        have h₂ : ¬(i = r.addr ∧ r.addr ≠ 0) := fun h => hlr hi (h.1 ▸ hmem h.2)
        simp [h₁, h₂, hne]
      · intro hne
        have h0 : l.addr ≠ 0 := fun he => hne (hll.addr_eq_zero.1 he)
        have h₂ : ¬(l.addr = r.addr ∧ r.addr ≠ 0) := fun h => hlr (hmem h0) (h.1 ▸ hmem h.2)
        simp [h₂, h0]
    · refine hrr.reparent hnr ?_ ?_ ?_ ?_
      · intro i hi
        have : i ≠ y := fun he => hyr (he ▸ hi)
        simp [this]
      · intro i hi e
        have : i ≠ y := fun he => hyr (he ▸ hi)
        rw [child_setParentIf, child_setParentIf, Links.child_setHole_of_ne _ _ (hside i (hinr i hi) _)]
        simp [this]
      · intro i hi hne
        have h₁ : i ≠ y := fun he => hyr (he ▸ hi)
        have h₂ : ¬(i = l.addr ∧ l.addr ≠ 0) := fun h => hlr (h.1 ▸ hmem h.2) hi
        simp [h₁, h₂, hne]
      · intro hne
        have h0 : r.addr ≠ 0 := fun he => hne (hrr.addr_eq_zero.1 he)
        simp [h0]
  · have hn := h.nodup
    rw [addrs_plug] at hn ⊢
    simp only [addrs, List.append_assoc, List.cons_append] at hn ⊢
    have hy' := hy
    rw [addrs_plug] at hy'
    simp only [addrs, List.append_assoc, List.cons_append] at hy'
    rw [← List.append_assoc, List.nodup_middle, List.nodup_cons] at hn ⊢
    refine ⟨?_, hn.2⟩
    simp only [List.mem_append, List.mem_cons, not_or] at hy' ⊢
    tauto
  · simp [hy0.symm]
  · intro e
    have h0 : ∀ f, ctx.head? = some f → ¬(e = f.dir ∧ 0 = f.addr) := by
      rintro f hf ⟨-, h0⟩
      exact h.context.ne_zero (head_mem_addrs hf) h0.symm
    rw [child_setParentIf, child_setParentIf, Links.child_setHole_of_ne _ _ h0]
    simp [hy0.symm]
  · intro hne
    rw [root_setParentIf, root_setParentIf, Links.root_setHole _ _ hne]
    rfl
  · intro i hi
    have : i ≠ y := fun he => hyc (he ▸ hi)
    simp [this]
  · intro i hi e he
    have : i ≠ y := fun he => hyc (he ▸ hi)
    rw [child_setParentIf, child_setParentIf, Links.child_setHole_of_ne _ _ he]
    simp [this]
  · intro i hi
    have h₁ : i ≠ y := fun he => hyc (he ▸ hi)
    have h₂ : ¬(i = l.addr ∧ l.addr ≠ 0) := fun h => (hout i hi).1 (h.1 ▸ hmem h.2)
    have h₃ : ¬(i = r.addr ∧ r.addr ≠ 0) := fun h => (hout i hi).2 (h.1 ▸ hmem h.2)
    simp [h₁, h₂, h₃]
  · cases ctx with
    | nil | cons f ctx => simp [HoleAt, Links.setHole, addr]

theorem replaceNode_keeps :
    Keeps (insert y (plug ctx (node c l z r)).nodes) L (replaceNode L y z) := by
  have hctx : ∀ i ∈ ctx.addrs, i ∈ insert y (plug ctx (node c l z r)).nodes :=
    fun i hi => .inr (mem_addrs_plug.2 (.inl hi))
  have hl : l.addr ≠ 0 → l.addr ∈ insert y (plug ctx (node c l z r)).nodes :=
    fun h0 => .inr (mem_addrs_plug.2 (.inr (by simp [addrs, addr_mem_of_ne_zero h0])))
  have hr : r.addr ≠ 0 → r.addr ∈ insert y (plug ctx (node c l z r)).nodes :=
    fun h0 => .inr (mem_addrs_plug.2 (.inr (by simp [addrs, addr_mem_of_ne_zero h0])))
  have hyS : y ∈ insert y (plug ctx (node c l z r)).nodes := .inl rfl
  rw [replaceNode_eq h hy]
  have h₁ := ((Keeps.refl _ L).setParent hyS (Context.top ctx)).setChild hyS .left l.addr
  have h₂ := ((h₁.setChild hyS .right r.addr).setColor hyS c).setHole hctx y
  exact Keeps.setParentIf (Keeps.setParentIf h₂ hl y) hr y

end Replacing

/-! ## The node that is taken out -/

theorem doMinLoop_spec (fuel : ℕ) (h : Rep L ctx t) (ht : t ≠ nil) (hfuel : t.addrs.length < fuel) :
    ∃ ctx' y c r, doMinLoop L fuel t.addr = .ok y ∧ t = plug ctx' (node c nil y r) ∧
      ctx'.sides.1 = [] := by
  induction fuel generalizing t ctx with
  | zero => omega
  | succ fuel ih =>
    match t, ht with
    | node c l i r, _ =>
      obtain ⟨-, -, -, hl, -, hll, -⟩ := h.linked
      rw [addr, doMinLoop, hl]
      by_cases hln : l = nil
      · subst hln
        exact ⟨[], i, c, r, by simp [addr], rfl, rfl⟩
      · have hl0 : l.addr ≠ 0 := fun he => hln (hll.addr_eq_zero.1 he)
        have hrep : Rep L (⟨.left, c, i, r⟩ :: ctx) l := rep_cons.2 h
        simp only [addrs, List.length_append, List.length_cons] at hfuel
        obtain ⟨ctx', y, cy, ry, hloop, hplug, hside⟩ := ih hrep hln (by omega)
        refine ⟨ctx' ++ [⟨.left, c, i, r⟩], y, cy, ry, ?_, ?_, ?_⟩
        · rw [if_pos hl0, hloop]
        · rw [plug_append, ← hplug]
          rfl
        · rw [← hside]
          clear hloop hplug hside
          induction ctx' with
          | nil => rfl
          | cons f ctx' ihc =>
            obtain ⟨d, cf, j, u⟩ := f
            cases d <;> simp only [List.cons_append, Context.sides, ihc]

/-! ## The removal -/

/-- A red-black tree, or what the removal of the root leaves of one with two nodes. -/
def Fair (t : Tree) : Prop := RedBlack t ∨ ∃ i, t = node .red nil i nil

theorem balanced_zero (h : Balanced t 0) : t = nil ∨ ∃ i, t = node .red nil i nil := by
  have hnil : ∀ {t : Tree}, t.color = .black → Balanced t 0 → t = nil := by
    intro t hc hb
    match t with
    | nil => rfl
    | node .red l i r => cases hc
    | node .black l i r =>
      obtain ⟨m, hm, -⟩ := hb
      omega
  match t with
  | nil => exact .inl rfl
  | node .black l i r =>
    obtain ⟨m, hm, -⟩ := h
    omega
  | node .red l i r =>
    obtain ⟨hcl, hcr, hbl, hbr⟩ := h
    exact .inr ⟨i, by rw [hnil hcl hbl, hnil hcr hbr]⟩

theorem fixupIfBlack_spec {fuel : ℕ} (h : Rep L ctx s) (hp : L.parent s.addr = Context.top ctx)
    (hy : L.color y = c) (hrb : RedBlack (plug ctx (branch d c s y nil))) (hfuel : ctx.length < fuel) :
    ∃ L' t', fixupIfBlack fuel L y s.addr = .ok L' ∧ Rep L' [] t' ∧
      t'.addrs = (plug ctx s).addrs ∧
      (RedBlack t' ∨ ctx = [] ∧ t' = s ∧ ∃ i, s = node .red nil i nil) ∧ Keeps (plug ctx s).nodes L L' := by
  obtain ⟨n, hb, hctx, hc⟩ := hrb.split
  cases c with
  | red =>
    obtain ⟨hcs, -, hbs, -⟩ := balanced_red.1 hb
    refine ⟨L, _, ?_, rep_plug.1 h, rfl, .inl (redBlack_plug hbs hctx (.inl hcs)), Keeps.refl _ L⟩
    simp [fixupIfBlack, hy]
  | black =>
    obtain ⟨m, rfl, hbs, hbn⟩ := balanced_black.1 hb
    obtain rfl : m = 0 := hbn
    by_cases hroot : ctx = []
    · -- the early return of `remove_fixup`
      subst hroot
      refine ⟨L, s, ?_, h, rfl, ?_, Keeps.refl _ L⟩
      · have hp0 : L.parent s.addr = 0 := hp
        simp only [fixupIfBlack, hy, if_true, removeFixup, ensure_pos h.nilColor, ok_bind, hp0]
      · rcases balanced_zero hbs with rfl | hred
        · exact .inl ⟨rfl, 0, rfl⟩
        · exact .inr ⟨rfl, rfl, hred⟩
    · have hshort : Short s 0 := by
        cases hcs : s.color with
        | red => exact (short_of_red hcs).2 (hbs.paint_red hcs)
        | black => exact (short_of_black hcs).2 hbs
      obtain ⟨x', L', t', hloop, hrep, hrb', haddrs, hkeep⟩ :=
        removeFixupLoop_spec fuel h hp (.inl hroot) hshort hctx ⟨by omega, fun _ => hfuel⟩
      refine ⟨L'.setColor x' .black, t', ?_, hrep, haddrs, .inl hrb', hkeep⟩
      have hp0 : L.parent s.addr ≠ 0 := by
        rw [hp]
        exact fun he => hroot (h.top_eq_zero.1 he)
      have hne : t' ≠ nil := by
        rintro rfl
        have hmem : Context.top ctx ∈ (plug ctx s).addrs := mem_addrs_plug.2 (.inl (Rep.top_mem hroot))
        rw [← haddrs] at hmem
        simp [addrs] at hmem
      simp only [fixupIfBlack, hy, if_true, removeFixup, ensure_pos h.nilColor, ok_bind, hp0, if_false,
        hloop, ensure_pos (hrep.parent_root hne), ensure_pos hrep.nilColor]

theorem redBlack_replace {i j : ℕ} (h : RedBlack (plug ctx (node c l i r))) :
    RedBlack (plug ctx (node c l j r)) := by
  obtain ⟨n, hb, hctx, hc⟩ := h.split
  have hb' : Balanced (node c l j r) n := by cases c <;> exact hb
  exact redBlack_plug hb' hctx hc

theorem onlyChild_spec {p : ℕ} (h : Linked L p (branch d c s y nil)) : onlyChild L y = s.addr := by
  rw [linked_branch] at h
  obtain ⟨-, -, -, hs, hn, -, -⟩ := h
  have hn : L.child d.flip y = 0 := hn
  unfold onlyChild
  cases d with
  | left =>
    have hn : L.child .right y = 0 := hn
    by_cases h0 : s.addr = 0
    · simp [hs, hn, h0]
    · simp [hs, h0]
  | right =>
    have hn : L.child .left y = 0 := hn
    simp [hs, hn]

/-- What `tree_remove_node` does to the tree: the links after the restoring of the colours, and
after `y` has taken the place of `z`. -/
structure Removed (L : Links) (fuel : ℕ) (t : Tree) (z y : ℕ) (L' : Links) (t' : Tree) : Prop where
  splice : nodeToSplice fuel L z = .ok y
  mem : y ∈ t.addrs
  fixup : fixupIfBlack fuel (spliceOut L y (onlyChild L y)) y (onlyChild L y) = .ok L'
  rep : Rep (if y = z then L' else replaceNode L' y z) [] t'
  addrs : t'.addrs = t.addrs.erase z
  fair : Fair t'
  redBlack : ¬(t.addr = z ∧ t.addrs.length = 2) → RedBlack t'
  keeps : Keeps (insert 0 t.nodes) L (if y = z then L' else replaceNode L' y z)

theorem erase_middle {xs ys : List ℕ} (h : (xs ++ z :: ys).Nodup) :
    (xs ++ z :: ys).erase z = xs ++ ys := by
  rw [List.nodup_middle, List.nodup_cons, List.mem_append, not_or] at h
  rw [List.erase_append_right _ h.1.1, List.erase_cons_head]

theorem addrs_splice (ctx : Context) (d : Dir) (c : Color) (s : Tree) (z : ℕ) :
    ∃ xs ys, (plug ctx (branch d c s z nil)).addrs = xs ++ z :: ys ∧ (plug ctx s).addrs = xs ++ ys := by
  simp only [addrs_plug]
  cases d with
  | left => exact ⟨ctx.sides.1 ++ s.addrs, ctx.sides.2, by simp [branch, addrs], rfl⟩
  | right => exact ⟨ctx.sides.1, s.addrs ++ ctx.sides.2, by simp [branch, addrs], by simp⟩

theorem nodes_splice (ctx : Context) (d : Dir) (c : Color) (s : Tree) (z : ℕ) :
    (plug ctx s).nodes ⊆ insert 0 (plug ctx (branch d c s z nil)).nodes := by
  intro i hi
  rw [mem_nodes, mem_addrs_plug] at hi
  exact .inr (mem_addrs_plug.2 (hi.imp_right fun hi => by simp [hi]))

theorem removal_single {fuel : ℕ} (h : Rep L ctx (branch d c s z nil))
    (hf : Fair (plug ctx (branch d c s z nil)))
    (hfuel : (plug ctx (branch d c s z nil)).addrs.length < fuel) :
    ∃ L' t', Removed L fuel (plug ctx (branch d c s z nil)) z z L' t' := by
  have hlen := length_le_addrs ctx (branch d c s z nil)
  have hx := onlyChild_spec h.linked
  obtain ⟨hrep, hpar, hcol⟩ := spliceOut_spec h
  have hlin := h.linked
  rw [linked_branch] at hlin
  obtain ⟨-, hcz, -, -, hn, -, -⟩ := hlin
  have hsplice : nodeToSplice fuel L z = .ok z := by
    have hn : L.child d.flip z = 0 := hn
    have : L.child .left z = 0 ∨ L.child .right z = 0 := by
      cases d
      · exact .inr hn
      · exact .inl hn
    rw [nodeToSplice, if_pos this]
  have herase : (plug ctx s).addrs = (plug ctx (branch d c s z nil)).addrs.erase z := by
    have hnod := h.nodup
    obtain ⟨xs, ys, h₁, h₂⟩ := addrs_splice ctx d c s z
    rw [h₁] at hnod ⊢
    rw [h₂, erase_middle hnod]
  have hmem : z ∈ (plug ctx (branch d c s z nil)).addrs := mem_addrs_plug.2 (.inr (by simp))
  rcases hf with hrb | ⟨i, hi⟩
  · obtain ⟨L', t', hfix, hrep', haddrs, hres, hkeep⟩ :=
      fixupIfBlack_spec hrep hpar (hcol ▸ hcz) hrb (hlen.trans_lt hfuel)
    refine ⟨L', t', hsplice, hmem, by rwa [hx], by simpa using hrep', haddrs.trans herase, ?_, ?_, ?_⟩
    · rcases hres with hrb' | ⟨-, rfl, hred⟩
      · exact .inl hrb'
      · exact .inr hred
    · intro htwo
      rcases hres with hrb' | ⟨rfl, -, j, rfl⟩
      · exact hrb'
      · refine absurd ⟨by simp [plug], ?_⟩ htwo
        cases d <;> simp [plug, branch, addrs]
    · rw [if_pos rfl]
      exact (spliceOut_keeps h).trans (hkeep.mono (nodes_splice ctx d c s z))
  · -- the only node is removed, and it is red
    have hctx : ctx = [] := by
      cases ctx with
      | nil => rfl
      | cons f ctx =>
        have hone : (plug (f :: ctx) (branch d c s z nil)).addrs.length = 1 := by rw [hi]; rfl
        rw [addrs_plug] at hone
        obtain ⟨e, cf, j, u⟩ := f
        cases d <;> cases e <;>
          simp only [Context.sides, branch, addrs, List.length_append, List.length_cons,
            List.length_nil] at hone <;> omega
    subst hctx
    have hb : branch d c s z nil = node .red nil i nil := hi
    obtain ⟨rfl, rfl⟩ : c = .red ∧ s = nil := by
      cases d <;> simp only [branch, node.injEq] at hb <;> tauto
    refine ⟨spliceOut L z 0, nil, hsplice, hmem, ?_, ?_, herase, .inl ⟨rfl, 0, rfl⟩,
      fun _ => ⟨rfl, 0, rfl⟩, ?_⟩
    rotate_left
    · rw [if_pos rfl]
      exact hrep
    · rw [if_pos rfl]
      exact spliceOut_keeps h
    have hred : (spliceOut L z 0).color z = .red := by
      have hcol' : (spliceOut L z 0).color = L.color := hcol
      rw [hcol']
      exact hcz
    rw [hx]
    simp [fixupIfBlack, addr, hred]

theorem successor_spec {fuel : ℕ} (h : Rep L ctx (node c l z r)) (hl : l ≠ nil) (hr : r ≠ nil)
    (hfuel : (plug ctx (node c l z r)).addrs.length < fuel) :
    ∃ y ctx' cy s A B, nodeToSplice fuel L z = .ok y ∧ ctx' ≠ [] ∧
      plug ctx' (branch .right cy s y nil) = plug ctx (node c l z r) ∧
      (plug ctx (node c l z r)).addrs = A ++ z :: y :: B ∧ (plug ctx' s).addrs = A ++ z :: B := by
  obtain ⟨hz0, -, -, hzl, hzr, hll, hrr⟩ := h.linked
  have hl0 : l.addr ≠ 0 := fun he => hl (hll.addr_eq_zero.1 he)
  have hr0 : r.addr ≠ 0 := fun he => hr (hrr.addr_eq_zero.1 he)
  have hlen : r.addrs.length < fuel := by
    simp only [addrs_plug, addrs, List.length_append, List.length_cons] at hfuel
    omega
  have hright : Rep L (⟨.right, c, z, l⟩ :: ctx) r := rep_cons.2 h
  obtain ⟨ctx', y, cy, s, hmin, rfl, hside⟩ := doMinLoop_spec fuel hright hr hlen
  have hplug : ∀ u, plug (ctx' ++ ⟨.right, c, z, l⟩ :: ctx) u = plug ctx (node c l z (plug ctx' u)) :=
    fun u => by rw [plug_append]; rfl
  refine ⟨y, ctx' ++ ⟨.right, c, z, l⟩ :: ctx, cy, s, ctx.sides.1 ++ l.addrs,
    s.addrs ++ ctx'.sides.2 ++ ctx.sides.2, ?_, by simp, hplug _, ?_, ?_⟩
  · simp only [nodeToSplice, hzl, hzr, hl0, hr0, or_self, if_false, rbtreeSucc, hz0, ne_eq,
      not_false_eq_true, if_true, rbtreeDoMin, hmin]
  · simp [addrs_plug, addrs, hside]
  · rw [hplug]
    simp [addrs_plug, addrs, hside]

theorem removal_double {fuel : ℕ} (h : Rep L ctx (node c l z r)) (hl : l ≠ nil) (hr : r ≠ nil)
    (hf : Fair (plug ctx (node c l z r))) (hfuel : (plug ctx (node c l z r)).addrs.length < fuel) :
    ∃ y L' t', y ≠ z ∧ Removed L fuel (plug ctx (node c l z r)) z y L' t' := by
  have hrb : RedBlack (plug ctx (node c l z r)) := by
    refine hf.resolve_right ?_
    rintro ⟨i, hi⟩
    have hone : (plug ctx (node c l z r)).addrs.length = 1 := by rw [hi]; rfl
    have hpos : 0 < l.addrs.length := List.length_pos_of_mem (addr_mem hl)
    simp only [addrs_plug, addrs, List.length_append, List.length_cons] at hone
    omega
  -- the tree seen from `y`
  obtain ⟨y, ctx', cy, s, A, B, hsplice, hctx', hplug, hA, hB⟩ := successor_spec h hl hr hfuel
  have hy : Rep L ctx' (branch .right cy s y nil) := by
    rw [rep_plug, hplug]
    exact rep_plug.1 h
  have hnod : (A ++ z :: y :: B).Nodup := hA ▸ (rep_plug.1 h).nodup
  have hx := onlyChild_spec hy.linked
  obtain ⟨hrep, hpar, hcol⟩ := spliceOut_spec hy
  have hcy : L.color y = cy := ((linked_branch).1 hy.linked).2.1
  have hlen' : ctx'.length < fuel := by
    refine (length_le_addrs _ (branch .right cy s y nil)).trans_lt ?_
    rw [hplug]
    exact hfuel
  obtain ⟨L', t₁, hfix, hrep₁, haddrs, hres, hkeep₁⟩ :=
    fixupIfBlack_spec hrep hpar (hcol ▸ hcy) (hplug.symm ▸ hrb) hlen'
  have hkeep := (spliceOut_keeps hy).trans (hkeep₁.mono (nodes_splice ctx' .right cy s y))
  rw [hplug] at hkeep
  have hrb₁ : RedBlack t₁ := hres.resolve_right fun hc => hctx' hc.1
  rw [hB] at haddrs
  -- the tree seen from `z`
  obtain ⟨ctx₁, c₁, l₁, r₁, rfl⟩ := exists_plug (t := t₁) (i := z) (by simp [haddrs])
  have hne : y ≠ z ∧ y ∉ A ++ z :: B := by
    rw [List.append_cons, List.nodup_middle, List.nodup_cons] at hnod
    constructor
    · rintro rfl
      exact hnod.1 (by simp)
    · intro hm
      exact hnod.1 (by simpa using hm)
  have hy0 : y ≠ 0 := hy.linked.ne_zero (by simp)
  have hrep₂ := replaceNode_spec (rep_plug.2 hrep₁) (haddrs ▸ hne.2) hy0
  have hkeep₂ : Keeps (insert 0 (plug ctx (node c l z r)).nodes) L' (replaceNode L' y z) := by
    refine (replaceNode_keeps (rep_plug.2 hrep₁) (haddrs ▸ hne.2)).mono ?_
    rintro i (rfl | hi)
    · exact .inr (by simp [hA])
    · rw [mem_nodes, haddrs] at hi
      refine .inr ?_
      rw [mem_nodes, hA]
      simp only [List.mem_append, List.mem_cons] at hi ⊢
      tauto
  have hnodB : (A ++ z :: B).Nodup := haddrs ▸ (rep_plug.2 hrep₁).nodup
  rw [addrs_plug, addrs] at haddrs
  have hsplit : (ctx₁.sides.1 ++ l₁.addrs) ++ z :: (r₁.addrs ++ ctx₁.sides.2) = A ++ z :: B := by
    rw [← haddrs]
    simp
  have hnotin : z ∉ A ∧ z ∉ B := by
    rw [List.nodup_middle, List.nodup_cons, List.mem_append, not_or] at hnodB
    exact hnodB.1
  obtain ⟨hA₁, -, hB₁⟩ := (List.append_cons_inj_of_notMem hnotin.1 hnotin.2).1 hsplit.symm
  have hrb₂ : RedBlack (plug ctx₁ (node c₁ l₁ y r₁)) := redBlack_replace hrb₁
  refine ⟨y, L', _, hne.1, hsplice, ?_, by rwa [hx], ?_, ?_, .inl hrb₂, fun _ => hrb₂, ?_⟩
  · rw [hA]
    simp
  · rw [if_neg hne.1]
    exact rep_plug.1 hrep₂
  · rw [hA, erase_middle hnod, hA₁, hB₁, addrs_plug, addrs]
    simp
  · rw [if_neg hne.1]
    exact hkeep.trans hkeep₂

theorem removal_spec (fuel : ℕ) (h : Rep L [] t) (hf : Fair t) (hz : z ∈ t.addrs)
    (hfuel : t.addrs.length < fuel) : ∃ y L' t', Removed L fuel t z y L' t' := by
  obtain ⟨ctx, c, l, r, rfl⟩ := exists_plug hz
  have hrep := rep_plug.2 h
  by_cases hr : r = nil
  · subst hr
    obtain ⟨L', t', hrem⟩ := removal_single (d := .left) hrep hf hfuel
    exact ⟨z, L', t', hrem⟩
  · by_cases hl : l = nil
    · subst hl
      obtain ⟨L', t', hrem⟩ := removal_single (d := .right) hrep hf hfuel
      exact ⟨z, L', t', hrem⟩
    · obtain ⟨y, L', t', -, hrem⟩ := removal_double hrep hl hr hf hfuel
      exact ⟨y, L', t', hrem⟩

end CapROS.LogDirectory
