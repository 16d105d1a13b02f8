import CapROS.LogDirectory.Fixup

/-!
# Searching the tree and adding a node

The nodes of the tree are in the order of their keys, the OIDs. The two searches, `find_node` and
that of `binary_insert`, go down the tree and end after at most as many rounds as there are nodes.
A new node becomes a red leaf, and then the balance is restored.
-/

namespace CapROS.LogDirectory

open LinkedTree LinkedTree.Tree

/-- The keys of the nodes increase along the list. -/
def Ascending (key : ℕ → ℕ) (xs : List ℕ) : Prop := xs.Pairwise fun a b => key a < key b

variable {L : Links} {ctx : Context} {t s : Tree} {D : Directory} {oid : ℕ}

/-! ## Searching -/

theorem findLoop_spec (fuel p : ℕ) (h : Linked D.tree p t)
    (hs : Ascending (fun n => (D.od n).oid) t.addrs) (hfuel : t.addrs.length < fuel) :
    ∃ n, findLoop D oid fuel t.addr = .ok n ∧
      (n ∈ t.addrs ∧ (D.od n).oid = oid ∨ n = 0 ∧ ∀ m ∈ t.addrs, (D.od m).oid ≠ oid) := by
  induction fuel generalizing t p with
  | zero => omega
  | succ fuel ih =>
    cases t with
    | nil => exact ⟨0, by simp [findLoop, addr], .inr ⟨rfl, by simp [addrs]⟩⟩
    | node c l i r =>
      obtain ⟨hi, -, -, hl, hr, hll, hrr⟩ := h
      simp only [addrs, List.length_append, List.length_cons] at hfuel
      rw [Ascending, addrs, List.pairwise_append, List.pairwise_cons] at hs
      obtain ⟨hsl, ⟨hir, hsr⟩, hlir⟩ := hs
      have hil : ∀ a ∈ l.addrs, (D.od a).oid < (D.od i).oid := fun a ha => hlir a ha i (by simp)
      rw [addr, findLoop, if_neg hi]
      simp only [addrs, List.mem_append, List.mem_cons]
      by_cases heq : oid = (D.od i).oid
      · exact ⟨i, if_pos heq, .inl ⟨.inr (.inl rfl), heq.symm⟩⟩
      · rw [if_neg heq]
        by_cases hlt : oid < (D.od i).oid
        · -- the right subtree has larger OIDs only
          rw [if_pos hlt, hl]
          obtain ⟨n, hn, hres⟩ := ih i hll hsl (by omega)
          refine ⟨n, hn, hres.imp (fun h => ⟨.inl h.1, h.2⟩) fun h => ⟨h.1, ?_⟩⟩
          rintro m (hm | rfl | hm)
          · exact h.2 m hm
          · omega
          · have := hir m hm
            omega
        · rw [if_neg hlt, hr]
          obtain ⟨n, hn, hres⟩ := ih i hrr hsr (by omega)
          refine ⟨n, hn, hres.imp (fun h => ⟨.inr (.inr h.1), h.2⟩) fun h => ⟨h.1, ?_⟩⟩
          rintro m (hm | rfl | hm)
          · have := hil m hm
            omega
          · omega
          · exact h.2 m hm

variable {c : Color} {l r : Tree} {p i tn fuel : ℕ}

theorem childrenLinked_of_linked (h : Linked L p (node c l i r)) : ChildrenLinked L i := by
  obtain ⟨-, -, -, hl, hr, hll, hrr⟩ := h
  rw [ChildrenLinked, hl, hr]
  constructor
  · by_cases hne : l = nil
    · exact .inl (by rw [hne]; rfl)
    · exact .inr (hll.parent_addr hne)
  · by_cases hne : r = nil
    · exact .inl (by rw [hne]; rfl)
    · exact .inr (hrr.parent_addr hne)

/-- The place for a new node with the given OID. -/
structure Fits (key : ℕ → ℕ) (oid : ℕ) (ctx : Context) : Prop where
  before : ∀ a ∈ ctx.sides.1, key a < oid
  after : ∀ a ∈ ctx.sides.2, oid < key a

theorem Fits.nil (key : ℕ → ℕ) (oid : ℕ) : Fits key oid [] := ⟨by simp [Context.sides], by simp [Context.sides]⟩

variable {key : ℕ → ℕ}

theorem Fits.left (h : Fits key oid ctx)
    (hi : oid < key i) (hr : ∀ a ∈ r.addrs, oid < key a) : Fits key oid (⟨.left, c, i, r⟩ :: ctx) where
  before a ha := h.before a ha
  after a ha := by
    simp only [Context.sides, List.cons_append, List.mem_cons, List.mem_append] at ha
    rcases ha with rfl | ha | ha
    · exact hi
    · exact hr a ha
    · exact h.after a ha

theorem Fits.right (h : Fits key oid ctx)
    (hi : key i < oid) (hl : ∀ a ∈ l.addrs, key a < oid) : Fits key oid (⟨.right, c, i, l⟩ :: ctx) where
  before a ha := by
    simp only [Context.sides, List.mem_append, List.mem_singleton] at ha
    rcases ha with (ha | ha) | rfl
    · exact h.before a ha
    · exact hl a ha
    · exact hi
  after a ha := h.after a ha

theorem insertSearch_spec (oid fuel : ℕ) (h : Rep D.tree ctx t)
    (hs : Ascending (fun n => (D.od n).oid) t.addrs) (hctx : Fits (fun n => (D.od n).oid) oid ctx)
    (hfuel : t.addrs.length < fuel) :
    (∃ x ∈ t.addrs, (D.od x).oid = oid ∧
      insertSearch D oid fuel (Context.top ctx) t.addr = .ok (.found x)) ∨
    ∃ ctx', insertSearch D oid fuel (Context.top ctx) t.addr = .ok (.under (Context.top ctx')) ∧
      plug ctx' nil = plug ctx t ∧ Fits (fun n => (D.od n).oid) oid ctx' := by
  induction fuel generalizing t ctx with
  | zero => omega
  | succ fuel ih =>
    cases t with
    | nil => exact .inr ⟨ctx, by simp [insertSearch, addr], rfl, hctx⟩
    | node c l i r =>
      have hlink := h.linked
      have hch := childrenLinked_of_linked hlink
      obtain ⟨hi, -, -, hl, hr, -, -⟩ := hlink
      simp only [addrs, List.length_append, List.length_cons] at hfuel
      rw [Ascending, addrs, List.pairwise_append, List.pairwise_cons] at hs
      obtain ⟨hsl, ⟨hir, hsr⟩, hlir⟩ := hs
      have hil : ∀ a ∈ l.addrs, (D.od a).oid < (D.od i).oid := fun a ha => hlir a ha i (by simp)
      rw [addr, insertSearch, if_neg hi, ensure_pos hch, ok_bind]
      simp only [addrs, List.mem_append, List.mem_cons]
      by_cases heq : oid = (D.od i).oid
      · exact .inl ⟨i, .inr (.inl rfl), heq.symm, if_pos heq⟩
      · rw [if_neg heq]
        by_cases hlt : oid < (D.od i).oid
        · rw [if_pos hlt, hl]
          have hrep : Rep D.tree (⟨.left, c, i, r⟩ :: ctx) l := rep_cons.2 h
          have hfit := hctx.left (c := c) (r := r) hlt fun a ha => hlt.trans (hir a ha)
          refine (ih hrep hsl hfit (by omega)).imp ?_ ?_
          · rintro ⟨x, hx, hox, hloop⟩
            exact ⟨x, .inl hx, hox, hloop⟩
          · rintro ⟨ctx', hloop, hplug, hfit'⟩
            exact ⟨ctx', hloop, hplug, hfit'⟩
        · rw [if_neg hlt, hr]
          have hgt : (D.od i).oid < oid := by omega
          have hrep : Rep D.tree (⟨.right, c, i, l⟩ :: ctx) r := rep_cons.2 h
          have hfit := hctx.right (c := c) (l := l) hgt fun a ha => (hil a ha).trans hgt
          refine (ih hrep hsr hfit (by omega)).imp ?_ ?_
          · rintro ⟨x, hx, hox, hloop⟩
            exact ⟨x, .inr (.inr hx), hox, hloop⟩
          · rintro ⟨ctx', hloop, hplug, hfit'⟩
            exact ⟨ctx', hloop, hplug, hfit'⟩

theorem Fits.dir {f : Frame} (h : Fits key oid (f :: ctx)) :
    oid < key f.addr ↔ f.dir = .left := by
  obtain ⟨d, c, i, u⟩ := f
  cases d with
  | left =>
    have := h.after i (by simp [Context.sides])
    simpa using this
  | right =>
    have := h.before i (by simp [Context.sides])
    simp only [reduceCtorEq, iff_false]
    omega

/-! ## Adding a node -/

variable {left : Bool}

theorem attachLeaf_eq (h : Rep L ctx nil)
    (hleft : ∀ f, ctx.head? = some f → (left = true ↔ f.dir = .left)) :
    attachLeaf L left tn (Context.top ctx) =
      (((L.setChild .left tn 0).setChild .right tn 0).setParent tn (Context.top ctx)).setHole ctx tn := by
  cases ctx with
  | nil => simp [attachLeaf, Context.top, Links.setHole]
  | cons f ctx =>
    obtain ⟨d, c, i, u⟩ := f
    have h0 : i ≠ 0 := h.context.1
    have hl := hleft _ rfl
    cases d with
    | left => simp [attachLeaf, Context.top, Links.setHole, h0, hl.2 rfl]
    | right =>
      have hfalse : left = false := by simpa using hl
      simp [attachLeaf, Context.top, Links.setHole, h0, hfalse]

theorem attachLeaf_spec (h : Rep L ctx nil) (htn : tn ≠ 0)
    (hnew : tn ∉ ctx.addrs) (hleft : ∀ f, ctx.head? = some f → (left = true ↔ f.dir = .left)) :
    Rep (attachLeaf L left tn (Context.top ctx)) ctx (node (L.color tn) nil tn nil) := by
  have hhead : ∀ e f, ctx.head? = some f → ¬(e = f.dir ∧ tn = f.addr) := ne_head hnew
  rw [attachLeaf_eq h hleft]
  refine h.replace ?_ ?_ (by simp) ?_ ?_ (by simp) ?_ ?_ ?_
  · refine ⟨htn, by simp, by simp, ?_, ?_, trivial, trivial⟩
    · rw [Links.child_setHole_of_ne _ _ (hhead _)]
      simp [addr]
    · rw [Links.child_setHole_of_ne _ _ (hhead _)]
      simp [addr]
  · have hn := h.nodup
    have hmem := hnew
    rw [← Context.mem_sides] at hmem
    rw [addrs_plug] at hn ⊢
    simp only [addrs, List.append_nil, List.nil_append] at hn ⊢
    rw [List.append_assoc, List.singleton_append, List.nodup_middle, List.nodup_cons]
    exact ⟨hmem, hn⟩
  · intro d
    rw [Links.child_setHole_of_ne]
    · simp [htn.symm]
    · rintro f hf ⟨-, h0⟩
      exact h.context.ne_zero (head_mem_addrs hf) h0.symm
  · intro hne
    rw [Links.root_setHole _ _ hne]
    rfl
  · intro i hi d hd
    have hit : i ≠ tn := fun he => hnew (he ▸ hi)
    rw [Links.child_setHole_of_ne _ _ hd]
    simp [hit]
  · intro i hi
    have hit : i ≠ tn := fun he => hnew (he ▸ hi)
    simp [hit]
  · cases ctx with
    | nil => rfl
    | cons f ctx => simp [HoleAt, Links.setHole, addr]

theorem colorNewNode_spec (h : Rep L ctx (node c nil tn nil))
    (hrb : RedBlack (plug ctx nil)) (hfuel : ctx.length < fuel) :
    ∃ L' t', colorNewNode fuel L tn = .ok L' ∧ Rep L' [] t' ∧ RedBlack t' ∧
      t'.addrs = (plug ctx (node c nil tn nil)).addrs := by
  have h₁ := h.setColor .red (by simp)
  obtain ⟨n, hbn, hctx, -⟩ := hrb.split
  have hb : Balanced (node .red nil tn nil) n := ⟨rfl, rfl, hbn, hbn⟩
  obtain ⟨L', t', hloop, hrep, haddrs, ⟨m, hbal⟩, -⟩ :=
    insertFixupLoop_spec fuel h₁ (by simp [paint]) rfl hb hctx hfuel
  have hne : t' ≠ nil := by
    rintro rfl
    have : tn ∈ (plug ctx (Tree.paint .red (node c nil tn nil))).addrs :=
      mem_addrs_plug.2 (.inr (by simp [addrs, paint]))
    rw [← haddrs] at this
    simp [addrs] at this
  have h₂ := hrep.setColor .black hne
  have hroot : L'.root = t'.addr := hrep.context
  refine ⟨L'.setColor L'.root .black, t'.paint .black, ?_, ?_, ⟨color_paint hne, hbal.paint_black⟩, ?_⟩
  · have hpar : (L'.setColor L'.root .black).parent (L'.setColor L'.root .black).root = 0 :=
      hrep.parent_root hne
    have hcol : (L'.setColor L'.root .black).color 0 = .black := by
      rw [hroot]
      exact h₂.nilColor
    have hloop' : insertFixupLoop fuel (L.setColor tn .red) tn = .ok L' := hloop
    have hnil : (L.setColor tn .red).color 0 = .black := h₁.nilColor
    simp only [colorNewNode, treeInsertFixup, ensure_pos hnil, ok_bind, hloop',
      ensure_pos hrep.nilColor, ensure_pos hpar, ensure_pos hcol]
  · rw [hroot]
    exact h₂
  · rw [addrs_paint, haddrs]
    exact addrs_plug_congr (addrs_paint _ _)

/-! ## Below a red root -/

theorem ensure_neg {p : Prop} [Decidable p] (h : ¬p) (e : Failure) : ensure p e = .error e := if_neg h

theorem rotateGrandparent_root {e : Dir} {x : ℕ} (hp : L.parent (L.parent x) = 0)
    (hc : L.child e 0 = 0) : rotateGrandparent L e x = .error .assertion := by
  simp [rotateGrandparent, rotate, hp, hc, ensure_neg]

variable {d : Dir}

theorem redRootReads (h : Rep L [⟨d, .red, p, nil⟩] (node .red nil tn nil)) :
    L.parent tn = p ∧ L.parent p = 0 ∧ tn ≠ L.root ∧ L.color p = .red ∧ sideOf L p = .right ∧
      (tn = L.child .left p ↔ .left = d) := by
  have hp : L.parent p = 0 := h.parent_top
  have hp0 : p ≠ 0 := h.context.1
  refine ⟨h.linked.2.2.1, hp, fun he => by simpa using (h.addr_eq_root (by simp)).1 he, h.color_top, ?_,
    h.eq_child_iff (.inl (by simp)) .left⟩
  simp [sideOf, hp, h.nilChild, hp0]

theorem rotate_red (h : Rep L [⟨.left, .red, p, nil⟩] (node .red nil tn nil)) :
    ∃ L', rotate .right L p = .ok L' ∧ (∀ e, L'.child e 0 = 0) ∧ L'.parent (L'.parent p) = 0 := by
  obtain ⟨L', hrot, hrep, -⟩ := rotate_spec (d := .right) (rep_cons.1 h : Rep _ [] _)
  have h₂ : Rep L' [⟨.right, .red, tn, nil⟩] (node .red nil p nil) := rep_cons.2 hrep
  refine ⟨L', hrot, hrep.nilChild, ?_⟩
  rw [show L'.parent p = tn from h₂.linked.2.2.1]
  exact h₂.parent_top

/-- A new node below a red root that is the only node stops the kernel: the parent of the root is
taken for its grandparent. -/
theorem colorNewNode_red (h : Rep L [⟨d, .red, p, nil⟩] (node c nil tn nil)) (hfuel : 0 < fuel) :
    colorNewNode fuel L tn = .error .assertion := by
  obtain ⟨k, rfl⟩ : ∃ k, fuel = k + 1 := ⟨fuel - 1, by omega⟩
  have h₁ : Rep (L.setColor tn .red) [⟨d, .red, p, nil⟩] (node .red nil tn nil) :=
    h.setColor .red (by simp)
  have hnil : (L.setColor tn .red).color 0 = .black := h₁.nilColor
  have hloop : insertFixupLoop (k + 1) (L.setColor tn .red) tn = .error .assertion := by
    generalize L.setColor tn .red = L at h₁ hnil
    obtain ⟨htn, hp, hroot, hred, hside, hchild⟩ := redRootReads h₁
    have hc0 := h₁.nilChild
    rw [insertFixupLoop, if_pos ⟨hroot, htn ▸ hred⟩]
    simp only [htn, hside, hp, hc0, hnil, reduceCtorEq, if_false]
    cases d with
    | left =>
      -- the new node takes the place of the root, and has no parent
      obtain ⟨L', hrot, hnilChild, hpar⟩ := rotate_red h₁
      have hin : tn = L.child .left p := hchild.2 rfl
      rw [straighten, htn, Dir.flip, if_pos hin, hrot]
      simp only [ok_bind, rotateGrandparent_root hpar (hnilChild _), error_bind]
    | right =>
      have hout : tn ≠ L.child .left p := hchild.not.2 (by simp)
      rw [straighten, htn, Dir.flip, if_neg hout]
      simp only [ok_bind, rotateGrandparent_root (L := L) (x := tn) (by rw [htn, hp]) (hc0 _),
        error_bind]
  simp only [colorNewNode, treeInsertFixup, ensure_pos hnil, ok_bind, hloop, error_bind]

end CapROS.LogDirectory
