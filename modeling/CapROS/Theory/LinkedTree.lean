import Mathlib.Data.List.Nodup

/-!
# Binary trees in linked nodes

Binary trees with coloured nodes, as trees and as they stand in memory: nodes with an address,
each with links to its two children and to its parent. The address 0 is the empty tree, a node
like any other whose links are not followed.

* `Rep`: the links hold the tree `plug ctx t`, seen from its subtree `t`.
* `Balanced`, `CtxBalanced`: the red-black balance of a tree, and of a tree with a hole.
-/

namespace LinkedTree

/-- The colour of a node. -/
inductive Color where
  | red
  | black
  deriving DecidableEq, Repr

/-- The side of a child. -/
inductive Dir where
  | left
  | right
  deriving DecidableEq, Repr

/-- The other side. -/
def Dir.flip : Dir → Dir
  | .left => .right
  | .right => .left

@[simp]
theorem Dir.flip_flip (d : Dir) : d.flip.flip = d := by cases d <;> rfl

@[simp]
theorem Dir.flip_ne (d : Dir) : d.flip ≠ d := by cases d <;> decide

@[simp]
theorem Dir.ne_flip (d : Dir) : d ≠ d.flip := by cases d <;> decide

theorem Dir.eq_or_eq_flip (d e : Dir) : e = d ∨ e = d.flip := by cases d <;> cases e <;> simp [flip]

/-- A binary tree of nodes, each given by its address. -/
inductive Tree where
  | nil
  | node (c : Color) (l : Tree) (i : ℕ) (r : Tree)
  deriving DecidableEq, Repr

namespace Tree

/-- The tree with `t` on side `d` and `s` on the other one. -/
def branch (d : Dir) (c : Color) (t : Tree) (i : ℕ) (s : Tree) : Tree :=
  match d with
  | .left => node c t i s
  | .right => node c s i t

/-- The address of the root. -/
def addr : Tree → ℕ
  | nil => 0
  | node _ _ i _ => i

/-- The colour of the root. The empty tree is black. -/
def color : Tree → Color
  | nil => .black
  | node c _ _ _ => c

/-- The addresses of the nodes, from left to right. -/
def addrs : Tree → List ℕ
  | nil => []
  | node _ l i r => l.addrs ++ i :: r.addrs

/-- The tree with its root coloured anew. -/
def paint (c : Color) : Tree → Tree
  | nil => nil
  | node _ l i r => node c l i r

@[simp]
theorem addr_branch (d : Dir) (c : Color) (t : Tree) (i : ℕ) (s : Tree) : (branch d c t i s).addr = i := by
  cases d <;> rfl

@[simp]
theorem color_branch (d : Dir) (c : Color) (t : Tree) (i : ℕ) (s : Tree) : (branch d c t i s).color = c := by
  cases d <;> rfl

@[simp]
theorem paint_branch (d : Dir) (c c' : Color) (t : Tree) (i : ℕ) (s : Tree) :
    (branch d c t i s).paint c' = branch d c' t i s := by
  cases d <;> rfl

@[simp]
theorem addr_paint (c : Color) (t : Tree) : (t.paint c).addr = t.addr := by cases t <;> rfl

@[simp]
theorem addrs_paint (c : Color) (t : Tree) : (t.paint c).addrs = t.addrs := by cases t <;> rfl

@[simp]
theorem mem_addrs_branch {d : Dir} {c : Color} {t s : Tree} {i j : ℕ} :
    j ∈ (branch d c t i s).addrs ↔ j = i ∨ j ∈ t.addrs ∨ j ∈ s.addrs := by
  cases d <;> simp only [branch, addrs, List.mem_append, List.mem_cons] <;> tauto

/-- A rotation does not change the order of the nodes. -/
theorem addrs_rotate (d : Dir) (c c' c₁ c₂ : Color) (t s u : Tree) (i j : ℕ) :
    (branch d c t i (branch d c' s j u)).addrs = (branch d c₁ (branch d c₂ t i s) j u).addrs := by
  cases d <;> simp [branch, addrs]

theorem addrs_branch_congr {d : Dir} {c c' : Color} {t t' s s' : Tree} {i : ℕ}
    (ht : t.addrs = t'.addrs) (hs : s.addrs = s'.addrs) :
    (branch d c t i s).addrs = (branch d c' t' i s').addrs := by
  cases d <;> simp [branch, addrs, ht, hs]

theorem exists_branch (d : Dir) {t : Tree} (h : t ≠ nil) :
    ∃ l r, t = branch d t.color l t.addr r := by
  cases t with
  | nil => exact absurd rfl h
  | node c l i r =>
    cases d with
    | left => exact ⟨l, r, rfl⟩
    | right => exact ⟨r, l, rfl⟩

theorem branch_flip (d : Dir) (c : Color) (t : Tree) (i : ℕ) (s : Tree) :
    branch d.flip c t i s = branch d c s i t := by
  cases d <;> rfl

theorem branch_ne_nil (d : Dir) (c : Color) (t : Tree) (i : ℕ) (s : Tree) :
    branch d c t i s ≠ nil := by
  cases d <;> simp [branch]

theorem nodup_branch {d : Dir} {c : Color} {t s : Tree} {i : ℕ} :
    (branch d c t i s).addrs.Nodup ↔
      i ∉ t.addrs ∧ i ∉ s.addrs ∧ t.addrs.Nodup ∧ s.addrs.Nodup ∧ t.addrs.Disjoint s.addrs := by
  cases d with
  | left | right =>
    simp only [branch, addrs, List.nodup_append', List.nodup_cons, List.disjoint_cons_right]
    tauto

theorem addr_mem {t : Tree} (h : t ≠ nil) : t.addr ∈ t.addrs := by
  cases t with
  | nil => exact absurd rfl h
  | node c l i r => simp [addr, addrs]

end Tree

open LinkedTree.Tree

/-! ## Trees with a hole -/

/-- A node on the way from the hole to the root: the hole is on side `dir` of it. -/
structure Frame where
  dir : Dir
  color : Color
  addr : ℕ
  sibling : Tree

/-- A tree with a hole, as the nodes from the hole up to the root. -/
abbrev Context := List Frame

/-- The subtree at a frame when the hole holds `t`. -/
def Frame.fill (f : Frame) (t : Tree) : Tree := branch f.dir f.color t f.addr f.sibling

/-- Fill the hole. -/
def plug : Context → Tree → Tree
  | [], t => t
  | f :: ctx, t => plug ctx (f.fill t)

namespace Context

/-- The address of the node above the hole, 0 if the hole is the root. -/
def top : Context → ℕ
  | [] => 0
  | f :: _ => f.addr

/-- The colour of the node above the hole. -/
def topColor : Context → Color
  | [] => .black
  | f :: _ => f.color

/-- The addresses before and after the hole. -/
def sides : Context → List ℕ × List ℕ
  | [] => ([], [])
  | f :: ctx =>
      match f.dir with
      | .left => ((sides ctx).1, f.addr :: f.sibling.addrs ++ (sides ctx).2)
      | .right => ((sides ctx).1 ++ f.sibling.addrs ++ [f.addr], (sides ctx).2)

/-- The addresses in a tree with a hole. -/
def addrs : Context → List ℕ
  | [] => []
  | f :: ctx => f.addr :: f.sibling.addrs ++ addrs ctx

end Context

theorem addrs_plug (ctx : Context) (t : Tree) :
    (plug ctx t).addrs = (Context.sides ctx).1 ++ t.addrs ++ (Context.sides ctx).2 := by
  induction ctx generalizing t with
  | nil => simp [plug, Context.sides]
  | cons f ctx ih =>
    obtain ⟨d, c, i, s⟩ := f
    cases d <;> simp [plug, Context.sides, Frame.fill, ih, branch, addrs]

/-- The order of the nodes depends only on the order in the hole. -/
theorem addrs_plug_congr {ctx : Context} {t t' : Tree} (h : t.addrs = t'.addrs) :
    (plug ctx t).addrs = (plug ctx t').addrs := by
  rw [addrs_plug, addrs_plug, h]

theorem Context.mem_sides {ctx : Context} {i : ℕ} :
    i ∈ ctx.sides.1 ++ ctx.sides.2 ↔ i ∈ ctx.addrs := by
  induction ctx with
  | nil => simp [sides, addrs]
  | cons f ctx ih =>
    obtain ⟨d, c, j, s⟩ := f
    rw [List.mem_append] at ih
    cases d <;> simp only [sides, addrs, List.mem_append, List.mem_cons, List.not_mem_nil] <;> tauto

theorem mem_addrs_plug {ctx : Context} {t : Tree} {i : ℕ} :
    i ∈ (plug ctx t).addrs ↔ i ∈ ctx.addrs ∨ i ∈ t.addrs := by
  rw [addrs_plug, ← Context.mem_sides]
  simp only [List.mem_append]
  tauto

theorem plug_ne_nil {ctx : Context} {t : Tree} (h : ctx ≠ [] ∨ t ≠ nil) : plug ctx t ≠ nil := by
  induction ctx generalizing t with
  | nil => simpa [plug] using h
  | cons f ctx ih =>
    apply ih
    right
    obtain ⟨d, c, i, s⟩ := f
    cases d <;> simp [Frame.fill, branch]

/-- The nodes outside the hole are not among those in it. -/
theorem not_mem_of_nodup {ctx : Context} {t : Tree} (h : (plug ctx t).addrs.Nodup) {i : ℕ}
    (hi : i ∈ ctx.addrs) : i ∉ t.addrs := by
  rw [addrs_plug, List.nodup_append', List.nodup_append'] at h
  obtain ⟨⟨-, -, h₁⟩, -, h₂⟩ := h
  intro ht
  rcases List.mem_append.1 (Context.mem_sides.2 hi) with hs | hs
  · exact h₁ hs ht
  · exact h₂ (List.mem_append_right _ ht) hs

theorem nodup_of_plug {ctx : Context} {t : Tree} (h : (plug ctx t).addrs.Nodup) : t.addrs.Nodup := by
  rw [addrs_plug, List.nodup_append', List.nodup_append'] at h
  exact h.1.2.1

theorem length_le_addrs (ctx : Context) (t : Tree) : ctx.length ≤ (plug ctx t).addrs.length := by
  induction ctx generalizing t with
  | nil => simp
  | cons f ctx ih =>
    have hlen : ∀ (ctx : Context) (t : Tree),
        (plug ctx t).addrs.length = (plug ctx nil).addrs.length + t.addrs.length := by
      intro ctx t
      simp only [addrs_plug, List.length_append, addrs, List.length_nil]
      omega
    have hf : 0 < (f.fill t).addrs.length :=
      List.length_pos_of_mem (addr_mem (branch_ne_nil _ _ _ _ _))
    have hn := ih nil
    rw [plug, hlen, List.length_cons]
    omega

/-- The hole may be in a tree with a hole. -/
theorem plug_append (ctx' ctx : Context) (t : Tree) :
    plug (ctx' ++ ctx) t = plug ctx (plug ctx' t) := by
  induction ctx' generalizing t with
  | nil => rfl
  | cons f ctx' ih => rw [List.cons_append, plug, ih, plug]

/-- Around every node there is a tree with a hole. -/
theorem exists_plug {t : Tree} {i : ℕ} (h : i ∈ t.addrs) :
    ∃ ctx c l r, t = plug ctx (node c l i r) := by
  induction t with
  | nil => simp [addrs] at h
  | node c l j r ihl ihr =>
    simp only [addrs, List.mem_append, List.mem_cons] at h
    rcases h with h | rfl | h
    · obtain ⟨ctx, c', l', r', rfl⟩ := ihl h
      exact ⟨ctx ++ [⟨.left, c, j, r⟩], c', l', r', by rw [plug_append]; rfl⟩
    · exact ⟨[], c, l, r, rfl⟩
    · obtain ⟨ctx, c', l', r', rfl⟩ := ihr h
      exact ⟨ctx ++ [⟨.right, c, j, l⟩], c', l', r', by rw [plug_append]; rfl⟩

/-! ## Links -/

/-- The links of the nodes in memory. -/
structure Links where
  root : ℕ
  child : Dir → ℕ → ℕ
  parent : ℕ → ℕ
  color : ℕ → Color

namespace Links

variable (L : Links)

/-- `i->child = v`, on the given side. -/
def setChild (d : Dir) (i v : ℕ) : Links :=
  { L with child := fun e j => if e = d ∧ j = i then v else L.child e j }

/-- `i->parent = v`. -/
def setParent (i v : ℕ) : Links :=
  { L with parent := fun j => if j = i then v else L.parent j }

/-- `i->color = c`. -/
def setColor (i : ℕ) (c : Color) : Links :=
  { L with color := fun j => if j = i then c else L.color j }

/-- The root is `v`. -/
def setRoot (v : ℕ) : Links := { L with root := v }

variable (d e : Dir) (i j v : ℕ) (c : Color)

@[simp]
theorem root_setChild : (L.setChild d i v).root = L.root := rfl

@[simp]
theorem child_setChild :
    (L.setChild d i v).child e j = if e = d ∧ j = i then v else L.child e j := rfl

@[simp]
theorem parent_setChild : (L.setChild d i v).parent = L.parent := rfl

@[simp]
theorem color_setChild : (L.setChild d i v).color = L.color := rfl

@[simp]
theorem root_setParent : (L.setParent i v).root = L.root := rfl

@[simp]
theorem child_setParent : (L.setParent i v).child = L.child := rfl

@[simp]
theorem parent_setParent :
    (L.setParent i v).parent j = if j = i then v else L.parent j := rfl

@[simp]
theorem color_setParent : (L.setParent i v).color = L.color := rfl

@[simp]
theorem root_setColor : (L.setColor i c).root = L.root := rfl

@[simp]
theorem child_setColor : (L.setColor i c).child = L.child := rfl

@[simp]
theorem parent_setColor : (L.setColor i c).parent = L.parent := rfl

@[simp]
theorem color_setColor : (L.setColor i c).color j = if j = i then c else L.color j := rfl

@[simp]
theorem root_setRoot : (L.setRoot v).root = v := rfl

@[simp]
theorem child_setRoot : (L.setRoot v).child = L.child := rfl

@[simp]
theorem parent_setRoot : (L.setRoot v).parent = L.parent := rfl

@[simp]
theorem color_setRoot : (L.setRoot v).color = L.color := rfl

/-- The link into the hole of `ctx` becomes `v`. -/
def setHole (ctx : Context) (v : ℕ) : Links :=
  match ctx with
  | [] => L.setRoot v
  | f :: _ => L.setChild f.dir f.addr v

variable (ctx : Context)

@[simp]
theorem parent_setHole : (L.setHole ctx v).parent = L.parent := by cases ctx <;> rfl

@[simp]
theorem color_setHole : (L.setHole ctx v).color = L.color := by cases ctx <;> rfl

theorem child_setHole_of_ne {ctx : Context} {d : Dir} {i : ℕ}
    (h : ∀ f, ctx.head? = some f → ¬(d = f.dir ∧ i = f.addr)) :
    (L.setHole ctx v).child d i = L.child d i := by
  cases ctx with
  | nil => rfl
  | cons f ctx => simp [setHole, h f rfl]

theorem root_setHole {ctx : Context} (h : ctx ≠ []) : (L.setHole ctx v).root = L.root := by
  cases ctx with
  | nil => exact absurd rfl h
  | cons f ctx => rfl

end Links

section Links

variable {L L' : Links}

/-- The links below `p` hold the tree `t`. -/
def Linked (L : Links) : ℕ → Tree → Prop
  | _, nil => True
  | p, node c l i r =>
      i ≠ 0 ∧ L.color i = c ∧ L.parent i = p ∧ L.child .left i = l.addr ∧
        L.child .right i = r.addr ∧ Linked L i l ∧ Linked L i r

variable {p : ℕ}

theorem linked_branch {d : Dir} {c : Color} {t s : Tree} {i : ℕ} :
    Linked L p (branch d c t i s) ↔
      i ≠ 0 ∧ L.color i = c ∧ L.parent i = p ∧ L.child d i = t.addr ∧
        L.child d.flip i = s.addr ∧ Linked L i t ∧ Linked L i s := by
  cases d with
  | left => rfl
  | right =>
    simp only [branch, Linked, Dir.flip]
    tauto

theorem Linked.ne_zero {t : Tree} (h : Linked L p t) {i : ℕ} (hi : i ∈ t.addrs) : i ≠ 0 := by
  induction t generalizing p with
  | nil => simp [addrs] at hi
  | node c l j r ihl ihr =>
    obtain ⟨h0, -, -, -, -, hl, hr⟩ := h
    simp only [addrs, List.mem_append, List.mem_cons] at hi
    rcases hi with hi | rfl | hi
    · exact ihl hl hi
    · exact h0
    · exact ihr hr hi

theorem Linked.addr_eq_zero {t : Tree} (h : Linked L p t) : t.addr = 0 ↔ t = nil := by
  cases t with
  | nil => simp [addr]
  | node c l i r => simpa [addr] using h.1

theorem Linked.color_addr {t : Tree} (h : Linked L p t) (h0 : L.color 0 = .black) :
    L.color t.addr = t.color := by
  cases t with
  | nil => exact h0
  | node c l i r => exact h.2.1

/-- A tree is held as well by links that agree on its nodes, except for the parent of its root. -/
theorem Linked.reparent {q : ℕ} {t : Tree} (h : Linked L p t) (hn : t.addrs.Nodup)
    (hcolor : ∀ i ∈ t.addrs, L'.color i = L.color i)
    (hchild : ∀ i ∈ t.addrs, ∀ d, L'.child d i = L.child d i)
    (hparent : ∀ i ∈ t.addrs, i ≠ t.addr → L'.parent i = L.parent i)
    (hroot : t ≠ nil → L'.parent t.addr = q) : Linked L' q t := by
  induction t generalizing p q with
  | nil => trivial
  | node c l i r ihl ihr =>
    obtain ⟨h0, hc, hp, hl, hr, hll, hrr⟩ := h
    obtain ⟨hil, hir, hnl, hnr, -⟩ := nodup_branch (d := .left) (c := c) |>.1 hn
    have mem_l : ∀ j ∈ l.addrs, j ∈ (node c l i r).addrs := fun j hj => by simp [addrs, hj]
    have mem_r : ∀ j ∈ r.addrs, j ∈ (node c l i r).addrs := fun j hj => by simp [addrs, hj]
    have mem_i : i ∈ (node c l i r).addrs := by simp [addrs]
    have ne_l : ∀ j ∈ l.addrs, j ≠ i := fun j hj hji => hil (hji ▸ hj)
    have ne_r : ∀ j ∈ r.addrs, j ≠ i := fun j hj hji => hir (hji ▸ hj)
    refine ⟨h0, (hcolor i mem_i).trans hc, hroot (by simp), (hchild i mem_i _).trans hl,
      (hchild i mem_i _).trans hr, ?_, ?_⟩
    · apply ihl hll hnl (fun j hj => hcolor j (mem_l j hj)) (fun j hj => hchild j (mem_l j hj))
        (fun j hj _ => hparent j (mem_l j hj) (ne_l j hj))
      intro hne
      have hmem := addr_mem hne
      have hpar : L.parent l.addr = i := by
        cases l with
        | nil => exact absurd rfl hne
        | node c' l' i' r' => exact hll.2.2.1
      rw [hparent _ (mem_l _ hmem) (ne_l _ hmem), hpar]
    · apply ihr hrr hnr (fun j hj => hcolor j (mem_r j hj)) (fun j hj => hchild j (mem_r j hj))
        (fun j hj _ => hparent j (mem_r j hj) (ne_r j hj))
      intro hne
      have hmem := addr_mem hne
      have hpar : L.parent r.addr = i := by
        cases r with
        | nil => exact absurd rfl hne
        | node c' l' i' r' => exact hrr.2.2.1
      rw [hparent _ (mem_r _ hmem) (ne_r _ hmem), hpar]

theorem Linked.parent_addr {t : Tree} (h : Linked L p t) (hne : t ≠ nil) :
    L.parent t.addr = p := by
  cases t with
  | nil => exact absurd rfl hne
  | node c l i r => exact h.2.2.1

/-- A tree is held as well by links that agree on its nodes. -/
theorem Linked.congr {t : Tree} (h : Linked L p t)
    (hcolor : ∀ i ∈ t.addrs, L'.color i = L.color i)
    (hchild : ∀ i ∈ t.addrs, ∀ d, L'.child d i = L.child d i)
    (hparent : ∀ i ∈ t.addrs, L'.parent i = L.parent i) : Linked L' p t := by
  induction t generalizing p with
  | nil => trivial
  | node c l i r ihl ihr =>
    obtain ⟨h0, hc, hp, hl, hr, hll, hrr⟩ := h
    have mem_i : i ∈ (node c l i r).addrs := by simp [addrs]
    refine ⟨h0, (hcolor i mem_i).trans hc, (hparent i mem_i).trans hp, (hchild i mem_i _).trans hl,
      (hchild i mem_i _).trans hr, ihl hll ?_ ?_ ?_, ihr hrr ?_ ?_ ?_⟩
    all_goals
      intro j hj
      first
      | exact hcolor j (by simp [addrs, hj])
      | exact hchild j (by simp [addrs, hj])
      | exact hparent j (by simp [addrs, hj])

/-- The links around the hole hold the tree with a hole, and `h` is the address in the hole. -/
def CtxLinked (L : Links) : Context → ℕ → Prop
  | [], h => L.root = h
  | f :: ctx, h =>
      f.addr ≠ 0 ∧ L.color f.addr = f.color ∧ L.parent f.addr = Context.top ctx ∧
        L.child f.dir f.addr = h ∧ L.child f.dir.flip f.addr = f.sibling.addr ∧
        Linked L f.addr f.sibling ∧ CtxLinked L ctx f.addr

theorem CtxLinked.ne_zero {ctx : Context} {h : ℕ} (hc : CtxLinked L ctx h) {i : ℕ}
    (hi : i ∈ ctx.addrs) : i ≠ 0 := by
  induction ctx generalizing h with
  | nil => simp [Context.addrs] at hi
  | cons f ctx ih =>
    obtain ⟨h0, -, -, -, -, hs, hc⟩ := hc
    simp only [Context.addrs, List.cons_append, List.mem_cons, List.mem_append] at hi
    rcases hi with rfl | hi | hi
    · exact h0
    · exact hs.ne_zero hi
    · exact ih hc hi

theorem Context.mem_addrs_cons (f : Frame) (ctx : Context) : f.addr ∈ Context.addrs (f :: ctx) ∧
    (∀ j ∈ f.sibling.addrs, j ∈ Context.addrs (f :: ctx)) ∧ ∀ j ∈ ctx.addrs, j ∈ Context.addrs (f :: ctx) := by
  simp +contextual [Context.addrs]

/-- Links that agree outside the hole hold the same tree with a hole. -/
theorem CtxLinked.congr {ctx : Context} {h : ℕ} (hc : CtxLinked L ctx h) (hroot : L'.root = L.root)
    (hcolor : ∀ i ∈ ctx.addrs, L'.color i = L.color i)
    (hchild : ∀ i ∈ ctx.addrs, ∀ d, L'.child d i = L.child d i)
    (hparent : ∀ i ∈ ctx.addrs, L'.parent i = L.parent i) : CtxLinked L' ctx h := by
  induction ctx generalizing h with
  | nil => exact hroot.trans hc
  | cons f ctx ih =>
    obtain ⟨h0, hcol, hpar, hd, hs, hsib, hrest⟩ := hc
    obtain ⟨mem_f, mem_s, mem_c⟩ := Context.mem_addrs_cons f ctx
    exact ⟨h0, (hcolor _ mem_f).trans hcol, (hparent _ mem_f).trans hpar,
      (hchild _ mem_f _).trans hd, (hchild _ mem_f _).trans hs,
      hsib.congr (fun j hj => hcolor j (mem_s j hj)) (fun j hj => hchild j (mem_s j hj))
        (fun j hj => hparent j (mem_s j hj)),
      ih hrest (fun j hj => hcolor j (mem_c j hj)) (fun j hj => hchild j (mem_c j hj))
        fun j hj => hparent j (mem_c j hj)⟩

/-- The link into the hole of `ctx` is `h`. -/
def HoleAt (L : Links) : Context → ℕ → Prop
  | [], h => L.root = h
  | f :: _, h => L.child f.dir f.addr = h

/-- Only the link into the hole changes. -/
theorem CtxLinked.retarget {ctx : Context} {h h' : ℕ} (hc : CtxLinked L ctx h)
    (hn : ctx.addrs.Nodup) (hroot : ctx ≠ [] → L'.root = L.root)
    (hcolor : ∀ i ∈ ctx.addrs, L'.color i = L.color i)
    (hchild : ∀ i ∈ ctx.addrs, ∀ d, (∀ f, ctx.head? = some f → ¬(d = f.dir ∧ i = f.addr)) →
      L'.child d i = L.child d i)
    (hparent : ∀ i ∈ ctx.addrs, L'.parent i = L.parent i) (hhole : HoleAt L' ctx h') :
    CtxLinked L' ctx h' := by
  cases ctx with
  | nil => exact hhole
  | cons f ctx =>
    obtain ⟨h0, hcol, hpar, -, hs, hsib, hrest⟩ := hc
    obtain ⟨mem_f, mem_s, mem_c⟩ := Context.mem_addrs_cons f ctx
    simp only [Context.addrs, List.cons_append, List.nodup_cons, List.mem_append, not_or] at hn
    have keep : ∀ j ∈ Context.addrs (f :: ctx), j ≠ f.addr → ∀ d, L'.child d j = L.child d j :=
      fun j hj hne d => hchild j hj d fun g hg hgd => by
        simp only [List.head?_cons, Option.some.injEq] at hg
        exact hne (hg ▸ hgd.2)
    refine ⟨h0, (hcolor _ mem_f).trans hcol, (hparent _ mem_f).trans hpar, hhole, ?_, ?_, ?_⟩
    · refine (hchild _ mem_f _ fun g hg hgd => ?_).trans hs
      simp only [List.head?_cons, Option.some.injEq] at hg
      subst hg
      exact Dir.flip_ne _ hgd.1
    · exact hsib.congr (fun j hj => hcolor j (mem_s j hj))
        (fun j hj => keep j (mem_s j hj) fun he => hn.1.1 (he ▸ hj))
        fun j hj => hparent j (mem_s j hj)
    · exact hrest.congr (hroot (by simp)) (fun j hj => hcolor j (mem_c j hj))
        (fun j hj => keep j (mem_c j hj) fun he => hn.1.2 (he ▸ hj))
        fun j hj => hparent j (mem_c j hj)

end Links

/-! ## The tree in memory -/

section Rep

variable {L L' : Links} {ctx : Context} {t t' : Tree}

/-- The links hold the tree `plug ctx t`. The node 0 is black and has no children; its parent link
is not used by the tree. -/
structure Rep (L : Links) (ctx : Context) (t : Tree) : Prop where
  context : CtxLinked L ctx t.addr
  linked : Linked L (Context.top ctx) t
  nodup : (plug ctx t).addrs.Nodup
  nilColor : L.color 0 = .black
  nilChild : ∀ d, L.child d 0 = 0

variable {f : Frame}

theorem rep_cons : Rep L (f :: ctx) t ↔ Rep L ctx (f.fill t) := by
  constructor
  · rintro ⟨⟨h0, hc, hp, hd, hs, hsib, hctx⟩, hl, hn, hnil, hch⟩
    refine ⟨?_, ?_, hn, hnil, hch⟩
    · rw [Frame.fill, addr_branch]
      exact hctx
    · rw [Frame.fill, linked_branch]
      exact ⟨h0, hc, hp, hd, hs, hl, hsib⟩
  · rintro ⟨hctx, hl, hn, hnil, hch⟩
    rw [Frame.fill, linked_branch] at hl
    rw [Frame.fill, addr_branch] at hctx
    obtain ⟨h0, hc, hp, hd, hs, hlt, hsib⟩ := hl
    exact ⟨⟨h0, hc, hp, hd, hs, hsib, hctx⟩, hlt, hn, hnil, hch⟩

/-- The tree can be seen from its root. -/
theorem rep_plug : Rep L ctx t ↔ Rep L [] (plug ctx t) := by
  induction ctx generalizing t with
  | nil => rfl
  | cons f ctx ih => rw [rep_cons, ih, plug]

theorem Rep.ne_zero (h : Rep L ctx t) {i : ℕ} (hi : i ∈ (plug ctx t).addrs) : i ≠ 0 :=
  (rep_plug.1 h).linked.ne_zero hi

theorem Rep.holeAt (h : Rep L ctx t) : HoleAt L ctx t.addr := by
  cases ctx with
  | nil => exact h.context
  | cons f ctx => exact h.context.2.2.2.1

/-- The root of a tree that is not empty has no parent. -/
theorem Rep.parent_root (h : Rep L ctx t) (hne : plug ctx t ≠ nil) : L.parent L.root = 0 := by
  have h' := rep_plug.1 h
  have hroot : L.root = (plug ctx t).addr := h'.context
  rw [hroot]
  exact h'.linked.parent_addr hne

theorem Rep.top_mem (h : ctx ≠ []) : Context.top ctx ∈ ctx.addrs := by
  cases ctx with
  | nil => exact absurd rfl h
  | cons f ctx => simp [Context.top, Context.addrs]

theorem Rep.top_eq_zero (h : Rep L ctx t) : Context.top ctx = 0 ↔ ctx = [] := by
  constructor
  · intro h0
    by_contra hne
    exact h.context.ne_zero (Rep.top_mem hne) h0
  · rintro rfl
    rfl

/-- The hole is at the root exactly if the root is in it. -/
theorem Rep.addr_eq_root (h : Rep L ctx t) (hne : t ≠ nil) : t.addr = L.root ↔ ctx = [] := by
  constructor
  · intro he
    by_contra hctx
    have hp := h.parent_root (plug_ne_nil (.inl hctx))
    rw [← he, h.linked.parent_addr hne] at hp
    exact hctx (h.top_eq_zero.1 hp)
  · rintro rfl
    exact h.context.symm

/-- The node above the hole has what is in the hole on the side of the hole only. -/
theorem Rep.eq_child_iff (h : Rep L (f :: ctx) t) (hne : t ≠ nil ∨ f.sibling ≠ nil)
    (d : Dir) : t.addr = L.child d f.addr ↔ d = f.dir := by
  constructor
  · intro he
    by_contra hd
    obtain rfl | rfl := Dir.eq_or_eq_flip f.dir d
    · exact hd rfl
    · rw [h.context.2.2.2.2.1] at he
      have hn := nodup_of_plug (rep_cons.1 h).nodup
      rw [Frame.fill, nodup_branch] at hn
      by_cases ht : t = nil
      · subst ht
        have hs : f.sibling ≠ nil := hne.resolve_left fun h => h rfl
        exact h.context.2.2.2.2.2.1.ne_zero (addr_mem hs) he.symm
      · have hs : f.sibling ≠ nil := by
          rintro hs
          rw [hs] at he
          exact h.linked.ne_zero (addr_mem ht) he
        exact hn.2.2.2.2 (addr_mem ht) (he ▸ addr_mem hs)
  · rintro rfl
    exact h.context.2.2.2.1.symm

theorem nodup_context {ctx : Context} {t : Tree} (h : (plug ctx t).addrs.Nodup) :
    ctx.addrs.Nodup := by
  induction ctx generalizing t with
  | nil => simp [Context.addrs]
  | cons f ctx ih =>
    have hf := @nodup_of_plug ctx _ h
    rw [Frame.fill, nodup_branch] at hf
    have hout : ∀ i ∈ Context.addrs ctx, i ≠ f.addr ∧ i ∉ f.sibling.addrs := fun i hi => by
      have hni := @not_mem_of_nodup ctx _ h _ hi
      rw [Frame.fill, mem_addrs_branch] at hni
      tauto
    have hctx := ih h
    rw [Context.addrs, List.cons_append, List.nodup_cons, List.nodup_append']
    refine ⟨?_, hf.2.2.2.1, hctx, fun i hs hi => (hout i hi).2 hs⟩
    rw [List.mem_append]
    rintro (hs | hs)
    · exact hf.2.1 hs
    · exact (hout _ hs).1 rfl

/-- What is in the hole is replaced. Outside of it only the link into the hole changes. -/
theorem Rep.replace (h : Rep L ctx t) (hl : Linked L' (Context.top ctx) t')
    (hn : (plug ctx t').addrs.Nodup) (hnil : L'.color 0 = L.color 0)
    (hnilChild : ∀ d, L'.child d 0 = L.child d 0) (hroot : ctx ≠ [] → L'.root = L.root)
    (hcolor : ∀ i ∈ ctx.addrs, L'.color i = L.color i)
    (hchild : ∀ i ∈ ctx.addrs, ∀ d, (∀ f, ctx.head? = some f → ¬(d = f.dir ∧ i = f.addr)) →
      L'.child d i = L.child d i)
    (hparent : ∀ i ∈ ctx.addrs, L'.parent i = L.parent i) (hhole : HoleAt L' ctx t'.addr) :
    Rep L' ctx t' where
  context := h.context.retarget (nodup_context h.nodup) hroot hcolor hchild hparent hhole
  linked := hl
  nodup := hn
  nilColor := hnil.trans h.nilColor
  nilChild d := (hnilChild d).trans (h.nilChild d)

/-- The root of the subtree is coloured. -/
theorem Rep.setColor (h : Rep L ctx t) (c : Color) (hne : t ≠ nil) :
    Rep (L.setColor t.addr c) ctx (t.paint c) := by
  have h0 := h.linked.ne_zero (addr_mem hne)
  refine h.replace ?_ ?_ ?_ (fun _ => rfl) (fun _ => rfl) ?_
    (fun _ _ _ _ => rfl) (fun _ _ => rfl) ?_
  · have hn := nodup_of_plug h.nodup
    have hlin := h.linked
    cases t with
    | nil => exact absurd rfl hne
    | node c' l i r =>
      obtain ⟨hi, hc, hp, hl, hr, hll, hrr⟩ := hlin
      obtain ⟨hil, hir, -, -, -⟩ := nodup_branch (d := .left) (c := c') |>.1 hn
      refine ⟨hi, by simp [Links.setColor, addr], hp, hl, hr, ?_, ?_⟩
      · refine hll.congr (fun j hj => ?_) (fun _ _ _ => rfl) fun _ _ => rfl
        have : j ≠ i := fun hji => hil (hji ▸ hj)
        simp [Links.setColor, addr, this]
      · refine hrr.congr (fun j hj => ?_) (fun _ _ _ => rfl) fun _ _ => rfl
        have : j ≠ i := fun hji => hir (hji ▸ hj)
        simp [Links.setColor, addr, this]
  · rw [addrs_plug_congr (addrs_paint c t)]
    exact h.nodup
  · simp [Links.setColor, h0.symm]
  · intro i hi
    have : i ≠ t.addr := fun he => not_mem_of_nodup h.nodup hi (he ▸ addr_mem hne)
    simp [Links.setColor, this]
  · rw [addr_paint]
    have := h.holeAt
    cases ctx with
    | nil | cons f ctx => exact this

/-- The two children of a node may be looked at in either order. -/
theorem rep_swap {d : Dir} {c : Color} {i : ℕ} {s : Tree} :
    Rep L (⟨d, c, i, s⟩ :: ctx) t ↔ Rep L (⟨d.flip, c, i, t⟩ :: ctx) s := by
  rw [rep_cons, rep_cons, Frame.fill, Frame.fill, branch_flip]

/-- The tree seen from a child on the other side than `d`. -/
theorem rep_cons_flip {d : Dir} {c : Color} {i : ℕ} {s : Tree} :
    Rep L (⟨d.flip, c, i, s⟩ :: ctx) t ↔ Rep L ctx (branch d c s i t) := by
  rw [rep_cons, Frame.fill, branch_flip]

/-- The sibling of the hole is coloured. -/
theorem Rep.paintSibling {d : Dir} {c : Color} {i : ℕ} {s : Tree}
    (h : Rep L (⟨d, c, i, s⟩ :: ctx) t) (hne : s ≠ nil) (c' : Color) :
    Rep (L.setColor s.addr c') (⟨d, c, i, s.paint c'⟩ :: ctx) t :=
  rep_swap.2 ((rep_swap.1 h).setColor c' hne)

/-- The node above the hole is coloured. -/
theorem Rep.paintTop {d : Dir} {c : Color} {i : ℕ} {s : Tree}
    (h : Rep L (⟨d, c, i, s⟩ :: ctx) t) (c' : Color) :
    Rep (L.setColor i c') (⟨d, c', i, s⟩ :: ctx) t := by
  rw [rep_cons, Frame.fill] at h ⊢
  have hp := h.setColor c' (branch_ne_nil _ _ _ _ _)
  rwa [addr_branch, paint_branch] at hp

section Reads

variable {d : Dir} {c : Color} {i : ℕ} {s : Tree} (h : Rep L (⟨d, c, i, s⟩ :: ctx) t)
include h

theorem Rep.child_top : L.child d i = t.addr := h.context.2.2.2.1

theorem Rep.child_flip_top : L.child d.flip i = s.addr := h.context.2.2.2.2.1

theorem Rep.parent_top : L.parent i = Context.top ctx := h.context.2.2.1

theorem Rep.color_top : L.color i = c := h.context.2.1

theorem Rep.color_sibling : L.color s.addr = s.color :=
  h.context.2.2.2.2.2.1.color_addr h.nilColor

end Reads

theorem Rep.color_addr (h : Rep L ctx t) : L.color t.addr = t.color := h.linked.color_addr h.nilColor

end Rep

end LinkedTree
