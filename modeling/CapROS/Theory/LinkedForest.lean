import CapROS.Theory.LinkedTree
import Mathlib.Data.Set.Basic

/-!
# Several trees in the same nodes

Trees whose nodes come from one memory, and that share the node 0. A change of one tree that stays
within its own nodes leaves the others as they are.

* `Keeps`: outside of a set of nodes the links are the same. `Tree.nodes`: the set of those of a tree.
-/

namespace LinkedTree

open LinkedTree.Tree

/-- The nodes of a tree. -/
abbrev Tree.nodes (t : Tree) : Set ℕ := {i | i ∈ t.addrs}

/-- The links of the nodes outside of `S` are the same. -/
structure Keeps (S : Set ℕ) (L L' : Links) : Prop where
  child : ∀ j ∉ S, ∀ d, L'.child d j = L.child d j
  parent : ∀ j ∉ S, L'.parent j = L.parent j
  color : ∀ j ∉ S, L'.color j = L.color j

variable {S T : Set ℕ} {L L₁ L₂ : Links} {ctx : Context} {t t' : Tree} {i v : ℕ}

theorem Keeps.refl (S : Set ℕ) (L : Links) : Keeps S L L := ⟨fun _ _ _ => rfl, fun _ _ => rfl, fun _ _ => rfl⟩

theorem Keeps.trans (h : Keeps S L L₁) (h' : Keeps S L₁ L₂) : Keeps S L L₂ where
  child j hj d := (h'.child j hj d).trans (h.child j hj d)
  parent j hj := (h'.parent j hj).trans (h.parent j hj)
  color j hj := (h'.color j hj).trans (h.color j hj)

theorem Keeps.mono (h : Keeps S L L₁) (hsub : S ⊆ T) : Keeps T L L₁ where
  child j hj := h.child j fun hjS => hj (hsub hjS)
  parent j hj := h.parent j fun hjS => hj (hsub hjS)
  color j hj := h.color j fun hjS => hj (hsub hjS)

/-- The trees have the same nodes. -/
theorem Keeps.of_addrs (h : Keeps t.nodes L L₁) (he : t'.addrs = t.addrs) : Keeps t'.nodes L L₁ := by
  rwa [Tree.nodes, he]

@[simp]
theorem mem_nodes : i ∈ t.nodes ↔ i ∈ t.addrs := Iff.rfl

theorem mem_nodes_top (f : Frame) (ctx : Context) (t : Tree) : f.addr ∈ (plug (f :: ctx) t).nodes :=
  mem_addrs_plug.2 (.inl (by simp [Context.addrs]))

theorem mem_nodes_second (f g : Frame) (ctx : Context) (t : Tree) : g.addr ∈ (plug (f :: g :: ctx) t).nodes :=
  mem_nodes_top g ctx (f.fill t)

/-! ## The single changes -/

theorem Keeps.setChild (h : Keeps S L L₁) (hi : i ∈ S) (d : Dir) (v : ℕ) : Keeps S L (L₁.setChild d i v) := by
  refine h.trans ⟨fun j hj e => ?_, fun _ _ => rfl, fun _ _ => rfl⟩
  have hne : j ≠ i := fun he => hj (he ▸ hi)
  simp [hne]

theorem Keeps.setParent (h : Keeps S L L₁) (hi : i ∈ S) (v : ℕ) : Keeps S L (L₁.setParent i v) := by
  refine h.trans ⟨fun _ _ _ => rfl, fun j hj => ?_, fun _ _ => rfl⟩
  have hne : j ≠ i := fun he => hj (he ▸ hi)
  simp [hne]

theorem Keeps.setColor (h : Keeps S L L₁) (hi : i ∈ S) (c : Color) : Keeps S L (L₁.setColor i c) := by
  refine h.trans ⟨fun _ _ _ => rfl, fun _ _ => rfl, fun j hj => ?_⟩
  have hne : j ≠ i := fun he => hj (he ▸ hi)
  simp [hne]

theorem Keeps.setRoot (h : Keeps S L L₁) (v : ℕ) : Keeps S L (L₁.setRoot v) :=
  h.trans ⟨fun _ _ _ => rfl, fun _ _ => rfl, fun _ _ => rfl⟩

theorem Keeps.setHole (h : Keeps S L L₁) (hctx : ∀ i ∈ ctx.addrs, i ∈ S) (v : ℕ) :
    Keeps S L (L₁.setHole ctx v) := by
  cases ctx with
  | nil => exact h.setRoot v
  | cons f ctx =>
    apply h.setChild
    exact hctx f.addr (by simp [Context.addrs])

/-! ## The other trees -/

/-- A tree of which no node has been changed. Its root is kept by the caller. -/
theorem Rep.keeps (h : Rep (L.setRoot v) [] t) (hk : Keeps S L L₁) (hS : ∀ i ∈ t.addrs, i ∉ S)
    (hcolor : L₁.color 0 = .black) (hchild : ∀ d, L₁.child d 0 = 0) : Rep (L₁.setRoot v) [] t := by
  refine ⟨h.context, ?_, h.nodup, hcolor, hchild⟩
  apply h.linked.congr
  · intro i hi
    exact hk.color i (hS i hi)
  · intro i hi d
    exact hk.child i (hS i hi) d
  · intro i hi
    exact hk.parent i (hS i hi)

end LinkedTree
