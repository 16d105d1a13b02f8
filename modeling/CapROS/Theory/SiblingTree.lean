import CapROS.Theory.LinkedRing
import Mathlib.Data.Finset.Card

/-!
# Trees of sibling links

A tree whose nodes have any number of children, as nodes with links to the parent, to the first child
and to the next sibling. The address 0 ends a list of siblings. A new node becomes the first child of
its parent; a node is taken out when it is a first child and has no children itself.
-/

namespace SiblingTree

open LinkedRing
open Function (update update_self update_of_ne)

/-- The links of the nodes. -/
structure Links where
  parent : ℕ → ℕ
  nextSibling : ℕ → ℕ
  firstChild : ℕ → ℕ

/-- The children of `p`, from the first one on. -/
def ChildList (L : Links) (p : ℕ) (cs : List ℕ) : Prop := Stack L.nextSibling 0 (L.firstChild p) cs

/-- The new node `c` becomes the first child of `p`. -/
def Links.addFirst (L : Links) (c p : ℕ) : Links where
  parent := update L.parent c p
  nextSibling := update L.nextSibling c (L.firstChild p)
  firstChild := update L.firstChild p c

/-- The link to the first child of the parent of `c` becomes one to the sibling of `c`. -/
def Links.dropFirst (L : Links) (c : ℕ) : Links :=
  { L with firstChild := update L.firstChild (L.parent c) (L.nextSibling c) }

/-- The nodes in use form a tree, with these lists of children. -/
structure Forest (L : Links) (root : ℕ) (live : Finset ℕ) (kids : ℕ → List ℕ) : Prop where
  root_mem : root ∈ live
  zero_notMem : 0 ∉ live
  list : ∀ p ∈ live, ChildList L p (kids p)
  nodup : ∀ p ∈ live, (kids p).Nodup
  mem : ∀ p ∈ live, ∀ c, c ∈ kids p ↔ c ∈ live ∧ c ≠ root ∧ L.parent c = p
  up : ∀ c ∈ live, c ≠ root → L.parent c ∈ live
  acyclic : ∃ depth : ℕ → ℕ, ∀ c ∈ live, c ≠ root → depth (L.parent c) < depth c

variable {L L' : Links} {root a b c p : ℕ} {live : Finset ℕ} {kids : ℕ → List ℕ} {cs : List ℕ}

/-- A node has one list of children. -/
theorem ChildList.unique {ds : List ℕ} (h : ChildList L p cs) (h' : ChildList L p ds) : cs = ds := by
  unfold ChildList at h h'
  generalize L.firstChild p = x at h h'
  induction cs generalizing x ds with
  | nil =>
    cases ds with
    | nil => rfl
    | cons d ds =>
      have hx : x = 0 := h
      exact absurd (h'.1 ▸ hx) h'.2.1
  | cons c cs ih =>
    cases ds with
    | nil =>
      have hx : x = 0 := h'
      exact absurd (h.1 ▸ hx) h.2.1
    | cons d ds =>
      obtain rfl : c = d := h.1.symm.trans h'.1
      rw [ih _ h.2.2 h'.2.2]

theorem ChildList.firstChild_eq_zero (h : ChildList L p cs) : L.firstChild p = 0 ↔ cs = [] := by
  have := Stack.ne_end h
  tauto

/-- After a child come the younger ones. -/
theorem ChildList.next {xs ys : List ℕ} (h : ChildList L p (xs ++ c :: ys)) :
    Stack L.nextSibling 0 (L.nextSibling c) ys := by
  unfold ChildList at h
  generalize L.firstChild p = x at h
  induction xs generalizing x with
  | nil =>
    obtain ⟨rfl, -, h⟩ := h
    exact h
  | cons y xs ih => exact ih _ h.2.2

namespace Forest

/-- Only the links of the nodes in use matter. -/
theorem congr (h : Forest L root live kids) (hp : ∀ c ∈ live, L'.parent c = L.parent c)
    (hn : ∀ c ∈ live, L'.nextSibling c = L.nextSibling c)
    (hf : ∀ c ∈ live, L'.firstChild c = L.firstChild c) : Forest L' root live kids where
  root_mem := h.root_mem
  zero_notMem := h.zero_notMem
  list := by
    intro p hmem
    unfold ChildList
    rw [hf p hmem]
    exact Stack.congr (h.list p hmem) fun c hc => hn c ((h.mem p hmem c).1 hc).1
  nodup := h.nodup
  mem := by
    intro p hmem c
    rw [h.mem p hmem c]
    constructor
    · rintro ⟨hc, hr, he⟩
      exact ⟨hc, hr, (hp c hc).trans he⟩
    · rintro ⟨hc, hr, he⟩
      exact ⟨hc, hr, (hp c hc).symm.trans he⟩
  up := by
    intro c hc hr
    rw [hp c hc]
    exact h.up c hc hr
  acyclic := by
    obtain ⟨depth, hd⟩ := h.acyclic
    refine ⟨depth, fun c hc hr => ?_⟩
    rw [hp c hc]
    exact hd c hc hr

theorem kids_subset (h : Forest L root live kids) (hp : p ∈ live) (hc : c ∈ kids p) : c ∈ live :=
  ((h.mem p hp c).1 hc).1

section Kids

variable (h : Forest L root live kids)
include h

theorem ne_parent (hc : c ∈ live) (hr : c ≠ root) :
    L.parent c ≠ c := by
  obtain ⟨depth, hd⟩ := h.acyclic
  intro he
  have := hd c hc hr
  rw [he] at this
  exact lt_irrefl _ this

/-- The first child of a node in use, if it has children. -/
theorem firstChild_mem (hp : p ∈ live) (hf : L.firstChild p ≠ 0) :
    L.firstChild p ∈ live ∧ L.firstChild p ≠ root ∧ L.parent (L.firstChild p) = p := by
  rw [← h.mem p hp]
  have hl := h.list p hp
  cases hk : kids p with
  | nil =>
    rw [hk] at hl
    exact absurd hl hf
  | cons c cs =>
    rw [hk] at hl
    rw [hl.1]
    simp

/-- The children of a node whose first child is `c`. -/
theorem kids_cons (hc : c ∈ live) (hr : c ≠ root)
    (hf : L.firstChild (L.parent c) = c) :
    ∃ cs, kids (L.parent c) = c :: cs ∧ Stack L.nextSibling 0 (L.nextSibling c) cs := by
  have hp := h.up c hc hr
  have hl := h.list _ hp
  unfold ChildList at hl
  rw [hf] at hl
  cases hk : kids (L.parent c) with
  | nil =>
    rw [hk] at hl
    have : c = 0 := hl
    exact absurd (this ▸ hc) h.zero_notMem
  | cons d cs =>
    rw [hk] at hl
    obtain ⟨rfl, -, hrest⟩ := hl
    exact ⟨cs, rfl, hrest⟩

/-- The sibling after a first child. -/
theorem nextSibling_mem (hc : c ∈ live) (hr : c ≠ root)
    (hf : L.firstChild (L.parent c) = c) (hn : L.nextSibling c ≠ 0) :
    L.nextSibling c ∈ live ∧ L.nextSibling c ≠ root ∧ L.parent (L.nextSibling c) = L.parent c ∧
      L.nextSibling c ≠ c := by
  obtain ⟨cs, hk, hstack⟩ := h.kids_cons hc hr hf
  have hp := h.up c hc hr
  have hnodup := h.nodup _ hp
  rw [hk] at hnodup
  cases cs with
  | nil => exact absurd hstack hn
  | cons d cs =>
    rw [hstack.1]
    obtain ⟨hd, hdr, hdp⟩ := (h.mem _ hp d).1 (by simp [hk])
    refine ⟨hd, hdr, hdp, ?_⟩
    rintro rfl
    simp at hnodup

/-- A node that is not in use becomes the first child of one that is. -/
theorem addFirst (hp : p ∈ live) (hc : c ∉ live) (h0 : c ≠ 0)
    (hno : L.firstChild c = 0) :
    Forest (L.addFirst c p) root (insert c live)
      (update (update kids p (c :: kids p)) c []) := by
  have hpc : p ≠ c := fun he => hc (he ▸ hp)
  have hrc : root ≠ c := fun he => hc (he ▸ h.root_mem)
  have hne : ∀ x ∈ live, x ≠ c := fun x hx he => hc (he ▸ hx)
  have hnext : ∀ q ∈ live, ∀ x ∈ kids q, (L.addFirst c p).nextSibling x = L.nextSibling x :=
    fun q hq x hx => update_of_ne (hne x (h.kids_subset hq hx)) _ _
  have hkp : c ∉ kids p := fun hm => hc (h.kids_subset hp hm)
  refine ⟨Finset.mem_insert_of_mem h.root_mem, ?_, ?_, ?_, ?_, ?_, ?_⟩
  · rw [Finset.mem_insert, not_or]
    exact ⟨h0.symm, h.zero_notMem⟩
  · intro q hq
    rcases Finset.mem_insert.1 hq with rfl | hq
    · rw [update_self]
      change update L.firstChild p q q = 0
      rw [update_of_ne hpc.symm, hno]
    · rw [update_of_ne (hne q hq)]
      by_cases hqp : q = p
      · subst hqp
        rw [update_self]
        refine ⟨update_self .., h0, ?_⟩
        change Stack _ 0 (update L.nextSibling c (L.firstChild q) c) _
        rw [update_self]
        exact Stack.congr (h.list q hq) (hnext q hq)
      · rw [update_of_ne hqp]
        change Stack _ 0 (update L.firstChild p c q) _
        rw [update_of_ne hqp]
        exact Stack.congr (h.list q hq) (hnext q hq)
  · intro q hq
    rcases Finset.mem_insert.1 hq with rfl | hq
    · rw [update_self]
      exact List.nodup_nil
    · rw [update_of_ne (hne q hq)]
      by_cases hqp : q = p
      · subst hqp
        rw [update_self]
        exact List.nodup_cons.2 ⟨hkp, h.nodup q hq⟩
      · rw [update_of_ne hqp]
        exact h.nodup q hq
  · intro q hq x
    change _ ↔ x ∈ insert c live ∧ x ≠ root ∧ update L.parent c p x = q
    rcases Finset.mem_insert.1 hq with rfl | hq
    · rw [update_self]
      constructor
      · intro hx
        cases hx
      · rintro ⟨hx, hxr, hpar⟩
        rcases Finset.mem_insert.1 hx with rfl | hx
        · rw [update_self] at hpar
          exact absurd hpar hpc
        · rw [update_of_ne (hne x hx)] at hpar
          exact absurd (hpar ▸ h.up x hx hxr) hc
    · rw [update_of_ne (hne q hq)]
      by_cases hxc : x = c
      · have hkq : x ∉ kids q := fun hx => hc (hxc ▸ h.kids_subset hq hx)
        subst hxc
        rw [update_self]
        by_cases hqp : q = p
        · subst hqp
          simp [hrc.symm]
        · rw [update_of_ne hqp]
          constructor
          · intro hx
            exact absurd hx hkq
          · rintro ⟨-, -, he⟩
            exact absurd he.symm hqp
      · rw [update_of_ne hxc, Finset.mem_insert]
        by_cases hqp : q = p
        · subst hqp
          rw [update_self, List.mem_cons, h.mem q hq x]
          simp [hxc]
        · rw [update_of_ne hqp, h.mem q hq x]
          simp [hxc]
  · intro x hx hxr
    change update L.parent c p x ∈ _
    rcases Finset.mem_insert.1 hx with rfl | hx
    · rw [update_self]
      exact Finset.mem_insert_of_mem hp
    · rw [update_of_ne (hne x hx)]
      exact Finset.mem_insert_of_mem (h.up x hx hxr)
  · obtain ⟨depth, hd⟩ := h.acyclic
    refine ⟨update depth c (depth p + 1), fun x hx hxr => ?_⟩
    change update depth c _ (update L.parent c p x) < _
    rcases Finset.mem_insert.1 hx with rfl | hx
    · rw [update_self, update_self, update_of_ne hpc]
      exact Nat.lt_succ_self _
    · rw [update_of_ne (hne x hx), update_of_ne (hne x hx),
        update_of_ne (hne _ (h.up x hx hxr))]
      exact hd x hx hxr

/-- A first child without children is taken out. -/
theorem dropFirst (hc : c ∈ live) (hr : c ≠ root)
    (hf : L.firstChild (L.parent c) = c) (hno : L.firstChild c = 0) :
    Forest (L.dropFirst c) root (live.erase c) fun p => (kids p).erase c := by
  obtain ⟨cs, hk, hstack⟩ := h.kids_cons hc hr hf
  have hkc : kids c = [] := (h.list c hc).firstChild_eq_zero.1 hno
  have hother : ∀ q ∈ live, q ≠ L.parent c → c ∉ kids q := by
    intro q hq hne hm
    exact hne ((h.mem q hq c).1 hm).2.2.symm
  refine ⟨Finset.mem_erase.2 ⟨hr.symm, h.root_mem⟩, ?_, ?_, ?_, ?_, ?_, ?_⟩
  · exact fun hm => h.zero_notMem (Finset.mem_of_mem_erase hm)
  · intro q hq
    have hq := Finset.mem_of_mem_erase hq
    change Stack L.nextSibling 0 (update L.firstChild (L.parent c) (L.nextSibling c) q) _
    by_cases hqp : q = L.parent c
    · subst hqp
      rw [update_self, hk, List.erase_cons_head]
      exact hstack
    · rw [update_of_ne hqp, List.erase_of_not_mem (hother q hq hqp)]
      exact h.list q hq
  · intro q hq
    exact (h.nodup q (Finset.mem_of_mem_erase hq)).erase c
  · intro q hq x
    have hq := Finset.mem_of_mem_erase hq
    rw [(h.nodup q hq).mem_erase_iff, h.mem q hq, Finset.mem_erase]
    exact and_assoc.symm
  · intro x hx hxr
    obtain ⟨hxc, hx⟩ := Finset.mem_erase.1 hx
    refine Finset.mem_erase.2 ⟨fun he => ?_, h.up x hx hxr⟩
    -- `c` has no children
    have : x ∈ kids c := (h.mem c hc x).2 ⟨hx, hxr, he⟩
    rw [hkc] at this
    cases this
  · obtain ⟨depth, hd⟩ := h.acyclic
    exact ⟨depth, fun x hx hxr => hd x (Finset.mem_of_mem_erase hx) hxr⟩

end Kids

end Forest

/-! ## The nodes below a node -/

/-- The node `b` is `a`, or a child of a node below `a`. -/
inductive Below (L : Links) (root : ℕ) (live : Finset ℕ) (a : ℕ) : ℕ → Prop
  | refl : Below L root live a a
  | child {b : ℕ} (hb : b ∈ live) (hr : b ≠ root) (h : Below L root live a (L.parent b)) :
    Below L root live a b

namespace Forest

theorem below_mem (h : Below L root live a b) (ha : a ∈ live) : b ∈ live := by
  cases h with
  | refl => exact ha
  | child hb _ _ => exact hb

/-- The root is below no other node. -/
theorem below_ne_root (h : Below L root live a b) (ha : a ≠ root) : b ≠ root := by
  cases h with
  | refl => exact ha
  | child _ hr _ => exact hr

/-- Only the parents of the nodes in use matter. -/
theorem below_congr (hp : ∀ x ∈ live, L'.parent x = L.parent x) :
    Below L' root live a b ↔ Below L root live a b := by
  constructor
  · intro h
    induction h with
    | refl => exact .refl
    | child hb hr _ ih => exact .child hb hr (hp _ hb ▸ ih)
  · intro h
    induction h with
    | refl => exact .refl
    | child hb hr _ ih => exact .child hb hr ((hp _ hb).symm ▸ ih)

/-- A node below `a` that is not `a` has a parent below `a`. -/
theorem parent_below (h : Below L root live a b) (hne : b ≠ a) :
    b ∈ live ∧ b ≠ root ∧ Below L root live a (L.parent b) := by
  cases h with
  | refl => exact absurd rfl hne
  | child hb hr h => exact ⟨hb, hr, h⟩

/-- Nodes are deeper than the one they are below. -/
theorem not_below_parent (h : Forest L root live kids) (ha : a ∈ live) (hr : a ≠ root) :
    ¬ Below L root live a (L.parent a) := by
  obtain ⟨depth, hd⟩ := h.acyclic
  have hle : ∀ b, Below L root live a b → depth a ≤ depth b := by
    intro b hb
    induction hb with
    | refl => exact le_rfl
    | child hb hbr _ ih => exact ih.trans (hd _ hb hbr).le
  intro hb
  exact absurd (hle _ hb) (not_le.2 (hd a ha hr))

/-- A node with a node below it other than itself has children. -/
theorem eq_of_below (h : Forest L root live kids) (ha : a ∈ live) (hno : L.firstChild a = 0)
    (hb : Below L root live a b) : b = a := by
  induction hb with
  | refl => rfl
  | child hb hbr _ ih =>
    have hk : kids a = [] := (h.list a ha).firstChild_eq_zero.1 hno
    have := (h.mem a ha _).2 ⟨hb, hbr, ih⟩
    rw [hk] at this
    cases this

theorem below_trans (h : Below L root live b c) (h' : Below L root live a b) :
    Below L root live a c := by
  induction h with
  | refl => exact h'
  | child hb hr _ ih => exact .child hb hr ih

/-- The nodes below `a` after a leaf has been taken out. -/
theorem below_erase (h : Forest L root live kids) (hc : c ∈ live) (hno : L.firstChild c = 0)
    (hne : a ≠ c) : Below (L.dropFirst c) root (live.erase c) a b ↔ Below L root live a b ∧ b ≠ c := by
  constructor
  · intro hb
    induction hb with
    | refl => exact ⟨.refl, hne⟩
    | child hb hr _ ih =>
      obtain ⟨hbc, hb⟩ := Finset.mem_erase.1 hb
      exact ⟨.child hb hr ih.1, hbc⟩
  · rintro ⟨hb, hbc⟩
    induction hb with
    | refl => exact .refl
    | @child b hb hr hup ih =>
      refine .child (Finset.mem_erase.2 ⟨hbc, hb⟩) hr (ih ?_)
      intro he
      have hk : kids c = [] := (h.list c hc).firstChild_eq_zero.1 hno
      have := (h.mem c hc b).2 ⟨hb, hr, he⟩
      rw [hk] at this
      cases this

open Classical in
/-- How many nodes are below a node. -/
noncomputable def below (_ : Forest L root live kids) (a : ℕ) : Finset ℕ :=
  live.filter (Below L root live a)

theorem mem_below (h : Forest L root live kids) (ha : a ∈ live) :
    b ∈ h.below a ↔ Below L root live a b := by
  classical
  unfold below
  rw [Finset.mem_filter]
  exact ⟨And.right, fun hb => ⟨below_mem hb ha, hb⟩⟩

/-- A child has fewer nodes below it than its parent. -/
theorem card_below_lt (h : Forest L root live kids) (hc : c ∈ live) (hr : c ≠ root) :
    (h.below c).card < (h.below (L.parent c)).card := by
  have hp := h.up c hc hr
  refine Finset.card_lt_card (Finset.ssubset_iff_subset_ne.2 ⟨fun x hx => ?_, fun he => ?_⟩)
  · exact (h.mem_below hp).2 (below_trans ((h.mem_below hc).1 hx) (.child hc hr .refl))
  · have : L.parent c ∈ h.below c := he ▸ (h.mem_below hp).2 .refl
    exact h.not_below_parent hc hr ((h.mem_below hc).1 this)

theorem card_below_le (h : Forest L root live kids) (a : ℕ) : (h.below a).card ≤ live.card := by
  classical
  exact Finset.card_filter_le _ _

end Forest

end SiblingTree
