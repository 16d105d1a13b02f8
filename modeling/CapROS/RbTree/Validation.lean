import CapROS.RbTree.Fixup

/-!
# Validation and searching

On a tree in memory whose values increase from left to right the procedures that only read the tree
come to their ends, and the validation finds nothing wrong.
-/

namespace CapROS.RbTree

open LinkedTree LinkedTree.Tree
open LogDirectory (ChildrenLinked childrenLinked_of_linked)

variable {α : Type} [LinearOrder α] {H : Heap α} {L : Links} {ctx : Context} {t : Tree} {i p z : ℕ}

/-- The values of the nodes increase along the list. -/
def Ascending (value : ℕ → α) (xs : List ℕ) : Prop := xs.Pairwise fun a b => value a < value b

/-- The values in a tree increase exactly if they do in its two subtrees and the root is between. -/
theorem ascending_node {value : ℕ → α} {c : Color} {l r : Tree} :
    Ascending value (node c l i r).addrs ↔
      Ascending value l.addrs ∧ Ascending value r.addrs ∧ (∀ a ∈ l.addrs, value a < value i) ∧
        ∀ a ∈ r.addrs, value i < value a := by
  rw [Ascending, addrs, List.pairwise_append, List.pairwise_cons]
  constructor
  · rintro ⟨hl, ⟨hir, hr⟩, hlir⟩
    exact ⟨hl, hr, fun a ha => hlir a ha i (by simp), hir⟩
  · rintro ⟨hl, hr, hli, hir⟩
    refine ⟨hl, ⟨hir, hr⟩, fun a ha b hb => ?_⟩
    rcases List.mem_cons.1 hb with rfl | hb
    · exact hli a ha
    · exact (hli a ha).trans (hir b hb)

theorem addr_ne {j : ℕ} (h0 : j ≠ 0) (hj : j ∉ t.addrs) : t.addr ≠ j := by
  by_cases hne : t = nil
  · rw [hne]
    exact h0.symm
  · exact fun he => hj (he ▸ addr_mem hne)

/-! ## The checks -/

theorem nodeValid {c : Color} {l r : Tree} (h : Rep H.links ctx (node c l i r))
    (hs : Ascending H.value (node c l i r).addrs) (hnull : nullPtr ∉ (plug ctx (node c l i r)).addrs) :
    NodeValid H i := by
  obtain ⟨-, -, hp, hl, hr, hll, hrr⟩ := h.linked
  obtain ⟨-, -, hli, hir⟩ := ascending_node.1 hs
  rw [mem_addrs_plug, not_or] at hnull
  obtain ⟨hnctx, hnt⟩ := hnull
  simp only [addrs, List.mem_append, List.mem_cons, not_or] at hnt
  have hroot : i = H.links.root ↔ ctx = [] := h.addr_eq_root (by simp)
  have htop : Context.top ctx ≠ nullPtr := by
    by_cases hctx : ctx = []
    · rw [hctx]
      decide
    · exact fun he => hnctx (he ▸ Rep.top_mem hctx)
  refine ⟨⟨hp ▸ htop, hl ▸ addr_ne (by decide) hnt.1, hr ▸ addr_ne (by decide) hnt.2.2⟩, ?_, ?_, ?_, ?_⟩
  · exact fun he => hp.trans (h.top_eq_zero.2 (hroot.1 he))
  · exact fun hne he => hne (hroot.2 (h.top_eq_zero.1 (hp ▸ he)))
  · intro hl0
    rw [hl] at hl0 ⊢
    have hne : l ≠ nil := fun he => hl0 (by rw [he]; rfl)
    exact ⟨hll.parent_addr hne, (cmp_eq_lt_iff _ _).2 (hli _ (addr_mem hne))⟩
  · intro hr0
    rw [hr] at hr0 ⊢
    have hne : r ≠ nil := fun he => hr0 (by rw [he]; rfl)
    exact ⟨hrr.parent_addr hne, (cmp_eq_gt_iff _ _).2 (hir _ (addr_mem hne))⟩

theorem treeValidate_spec (fuel : ℕ) (h : Rep H.links ctx t) (hs : Ascending H.value t.addrs)
    (hnull : nullPtr ∉ (plug ctx t).addrs) (hfuel : t.addrs.length < fuel) :
    treeValidate H fuel t.addr = .ok true := by
  induction fuel generalizing ctx t with
  | zero => omega
  | succ fuel ih =>
    cases t with
    | nil => rfl
    | node c l i r =>
      have hv := nodeValid h hs hnull
      obtain ⟨hi, -, -, hl, hr, -, -⟩ := h.linked
      obtain ⟨hsl, hsr, -, -⟩ := ascending_node.1 hs
      simp only [addrs, List.length_append, List.length_cons] at hfuel
      have hleft : treeValidate H fuel l.addr = .ok true :=
        ih (rep_cons.2 h : Rep _ (⟨.left, c, i, r⟩ :: ctx) l) hsl hnull (by omega)
      have hright : treeValidate H fuel r.addr = .ok true :=
        ih (rep_cons.2 h : Rep _ (⟨.right, c, i, l⟩ :: ctx) r) hsr hnull (by omega)
      rw [addr, treeValidate, if_neg hi, if_pos hv, hl, hleft, ok_bind, if_neg (by simp), hr, hright]

theorem assertValid_spec (fuel : ℕ) (h : Rep H.links [] t) (hs : Ascending H.value t.addrs)
    (hnull : nullPtr ∉ t.addrs) (hfuel : t.addrs.length < fuel) : assertValid fuel H = .ok () := by
  have hroot : H.links.root = t.addr := h.context
  rw [assertValid, hroot, treeValidate_spec fuel h hs hnull hfuel]
  rfl

theorem treeContains_spec (node fuel : ℕ) (h : Linked L p t) (hn : t.addrs.Nodup)
    (hfuel : t.addrs.length < fuel) : ∃ b, treeContains L node fuel t.addr = .ok b := by
  induction fuel generalizing p t with
  | zero => omega
  | succ fuel ih =>
    cases t with
    | nil => exact ⟨false, rfl⟩
    | node c l i r =>
      obtain ⟨hi, -, -, hl, hr, hll, hrr⟩ := h
      obtain ⟨hil, hir, hnl, hnr, -⟩ := nodup_branch (d := .left) (c := c) |>.1 hn
      simp only [addrs, List.length_append, List.length_cons] at hfuel
      rw [addr, treeContains, if_neg hi]
      by_cases hin : i = node
      · exact ⟨true, if_pos hin⟩
      · obtain ⟨bl, hbl⟩ := ih hll hnl (by omega)
        obtain ⟨br, hbr⟩ := ih hrr hnr (by omega)
        rw [if_neg hin, hl, hr, assert_pos (addr_ne hi hil), assert_pos (addr_ne hi hir), hbl, hbr]
        cases bl with
        | false => exact ⟨br, rfl⟩
        | true => exact ⟨true, rfl⟩

theorem treeContains_root (node fuel : ℕ) (h : Rep L [] t) (hfuel : t.addrs.length < fuel) :
    ∃ b, treeContains L node fuel L.root = .ok b := by
  have hroot : L.root = t.addr := h.context
  rw [hroot]
  exact treeContains_spec node fuel h.linked h.nodup hfuel

/-! ## Searching -/

theorem findLoop_spec (key : α) (fuel : ℕ) (h : Linked H.links p t)
    (hs : Ascending H.value t.addrs) (hfuel : t.addrs.length < fuel) :
    ∃ n, findLoop H key fuel t.addr = .ok n ∧
      (n ∈ t.addrs ∧ H.value n = key ∨ n = 0 ∧ ∀ m ∈ t.addrs, H.value m ≠ key) := by
  induction fuel generalizing p t with
  | zero => omega
  | succ fuel ih =>
    cases t with
    | nil => exact ⟨0, rfl, .inr ⟨rfl, by simp [addrs]⟩⟩
    | node c l i r =>
      obtain ⟨hi, -, -, hl, hr, hll, hrr⟩ := h
      obtain ⟨hsl, hsr, hli, hir⟩ := ascending_node.1 hs
      simp only [addrs, List.length_append, List.length_cons] at hfuel
      rw [addr, show findLoop H key (fuel + 1) i = _ from if_neg hi]
      have hmem {m : ℕ} : m ∈ (node c l i r).addrs ↔ m ∈ l.addrs ∨ m = i ∨ m ∈ r.addrs := by simp [addrs]
      cases hcmp : cmp (H.value i) key with
      | eq => exact ⟨i, rfl, .inl ⟨hmem.2 (.inr (.inl rfl)), (cmp_eq_eq_iff _ _).1 hcmp⟩⟩
      | gt =>
        -- the right subtree has larger values only
        have hlt : key < H.value i := (cmp_eq_gt_iff _ _).1 hcmp
        obtain ⟨n, hn, hres⟩ := ih hll hsl (by omega)
        refine ⟨n, by rw [hl]; exact hn, hres.imp (fun h => ⟨hmem.2 (.inl h.1), h.2⟩) fun h => ⟨h.1, ?_⟩⟩
        intro m hm
        rcases hmem.1 hm with hm | rfl | hm
        · exact h.2 m hm
        · exact hlt.ne'
        · exact (hlt.trans (hir m hm)).ne'
      | lt =>
        have hgt : H.value i < key := (cmp_eq_lt_iff _ _).1 hcmp
        obtain ⟨n, hn, hres⟩ := ih hrr hsr (by omega)
        refine ⟨n, by rw [hr]; exact hn, hres.imp (fun h => ⟨hmem.2 (.inr (.inr h.1)), h.2⟩) fun h => ⟨h.1, ?_⟩⟩
        intro m hm
        rcases hmem.1 hm with hm | rfl | hm
        · exact ((hli m hm).trans hgt).ne
        · exact hgt.ne
        · exact h.2 m hm

theorem treeFind_spec (key : α) (fuel : ℕ) (h : Rep H.links [] t) (hs : Ascending H.value t.addrs)
    (hfuel : t.addrs.length < fuel) :
    ∃ n, treeFind fuel H key = .ok n ∧
      (n ∈ t.addrs ∧ H.value n = key ∨ n = 0 ∧ ∀ m ∈ t.addrs, H.value m ≠ key) := by
  have hroot : H.links.root = t.addr := h.context
  rw [treeFind, hroot]
  exact findLoop_spec key fuel h.linked hs hfuel

/-- The place in the tree for a node with the value `v`. -/
structure Fits (value : ℕ → α) (v : α) (ctx : Context) : Prop where
  before : ∀ a ∈ ctx.sides.1, value a < v
  after : ∀ a ∈ ctx.sides.2, v < value a

section Fits

variable {value : ℕ → α} {v : α} {c : Color}

theorem Fits.empty : Fits value v [] := ⟨by simp [Context.sides], by simp [Context.sides]⟩

theorem Fits.left {r : Tree} (h : Fits value v ctx) (hi : v < value i)
    (hr : ∀ a ∈ r.addrs, value i < value a) : Fits value v (⟨.left, c, i, r⟩ :: ctx) where
  before := h.before
  after a ha := by
    simp only [Context.sides, List.cons_append, List.mem_cons, List.mem_append] at ha
    rcases ha with rfl | ha | ha
    · exact hi
    · exact hi.trans (hr a ha)
    · exact h.after a ha

theorem Fits.right {l : Tree} (h : Fits value v ctx) (hi : value i < v)
    (hl : ∀ a ∈ l.addrs, value a < value i) : Fits value v (⟨.right, c, i, l⟩ :: ctx) where
  before a ha := by
    simp only [Context.sides, List.mem_append, List.mem_singleton] at ha
    rcases ha with (ha | ha) | rfl
    · exact h.before a ha
    · exact (hl a ha).trans hi
    · exact hi
  after := h.after

theorem Fits.dir {f : Frame} (h : Fits value v (f :: ctx)) : v < value f.addr ↔ f.dir = .left := by
  obtain ⟨d, c, i, u⟩ := f
  cases d with
  | left =>
    have := h.after i (by simp [Context.sides])
    simpa using this
  | right =>
    have := h.before i (by simp [Context.sides])
    simpa using this.le

theorem Fits.ascending (h : Fits value (value z) ctx)
    (hs : Ascending value (plug ctx nil).addrs) :
    Ascending value (plug ctx (node c nil z nil)).addrs := by
  rw [Ascending, addrs_plug] at hs ⊢
  simp only [addrs, List.append_nil, List.nil_append] at hs ⊢
  rw [List.pairwise_append] at hs
  rw [List.append_assoc, List.singleton_append, List.pairwise_append, List.pairwise_cons]
  refine ⟨hs.1, ⟨h.after, hs.2.1⟩, fun a ha b hb => ?_⟩
  rcases List.mem_cons.1 hb with rfl | hb
  · exact h.before a ha
  · exact hs.2.2 a ha b hb

end Fits

theorem insertSearch_spec (fuel : ℕ) (h : Rep H.links ctx t) (hs : Ascending H.value t.addrs)
    (hnew : ∀ n ∈ t.addrs, H.value n ≠ H.value z) (hctx : Fits H.value (H.value z) ctx)
    (hfuel : t.addrs.length < fuel) :
    ∃ ctx', insertSearch H z fuel (Context.top ctx) t.addr = .ok (Context.top ctx') ∧
      plug ctx' nil = plug ctx t ∧ Fits H.value (H.value z) ctx' := by
  induction fuel generalizing t ctx with
  | zero => omega
  | succ fuel ih =>
    cases t with
    | nil => exact ⟨ctx, by simp [insertSearch, addr], rfl, hctx⟩
    | node c l i r =>
      have hch := childrenLinked_of_linked h.linked
      obtain ⟨hi, -, -, hl, hr, -, -⟩ := h.linked
      obtain ⟨hsl, hsr, hli, hir⟩ := ascending_node.1 hs
      simp only [addrs, List.length_append, List.length_cons] at hfuel
      simp only [addrs, List.mem_append, List.mem_cons] at hnew
      have hcmp : treeCompare H z i = .lt ↔ H.value z < H.value i := cmp_eq_lt_iff _ _
      rw [addr, insertSearch, if_neg hi, assert_pos hch, ok_bind]
      by_cases hlt : H.value z < H.value i
      · rw [if_pos (hcmp.2 hlt), hl]
        exact ih (rep_cons.2 h : Rep _ (⟨.left, c, i, r⟩ :: ctx) l) hsl
          (fun n hn => hnew n (.inl hn)) (hctx.left hlt hir) (by omega)
      · rw [if_neg (hcmp.not.2 hlt), hr]
        have hgt : H.value i < H.value z := lt_of_le_of_ne (not_lt.1 hlt) (hnew i (.inr (.inl rfl)))
        exact ih (rep_cons.2 h : Rep _ (⟨.right, c, i, l⟩ :: ctx) r) hsr
          (fun n hn => hnew n (.inr (.inr hn))) (hctx.right hgt hli) (by omega)

end CapROS.RbTree
