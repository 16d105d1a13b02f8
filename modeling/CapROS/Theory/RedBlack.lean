import CapROS.Theory.LinkedTree
import Mathlib.Algebra.Group.Nat.Defs
import Mathlib.Data.Nat.Log

/-!
# Red-black balance

The balance of red-black trees: no red node has a red child, and every way from the root down to
an empty tree has the same number of black nodes. For a tree with a hole, the balance says which
trees may be put into the hole.
-/

namespace LinkedTree

open LinkedTree.Tree

/-- The tree is balanced and has the black height `n`. -/
def Balanced : Tree → ℕ → Prop
  | nil, n => n = 0
  | node .red l _ r, n => l.color = .black ∧ r.color = .black ∧ Balanced l n ∧ Balanced r n
  | node .black l _ r, n => ∃ m, n = m + 1 ∧ Balanced l m ∧ Balanced r m

/-- A red-black tree: it is balanced, and its root is black. -/
def RedBlack (t : Tree) : Prop := t.color = .black ∧ ∃ n, Balanced t n

variable {d : Dir} {c : Color} {t s : Tree} {i n : ℕ} {ctx : Context}

theorem balanced_red :
    Balanced (branch d .red t i s) n ↔
      t.color = .black ∧ s.color = .black ∧ Balanced t n ∧ Balanced s n := by
  cases d
  · rfl
  · simp only [branch, Balanced]
    tauto

theorem balanced_black :
    Balanced (branch d .black t i s) n ↔ ∃ m, n = m + 1 ∧ Balanced t m ∧ Balanced s m := by
  cases d with
  | left => rfl
  | right =>
    constructor <;> rintro ⟨m, rfl, h₁, h₂⟩ <;> exact ⟨m, rfl, h₂, h₁⟩

/-- A balanced tree with black nodes is not empty. -/
theorem Balanced.ne_nil (h : Balanced t (n + 1)) : t ≠ nil := by
  rintro rfl
  cases h

/-- A balanced tree with a black root stays balanced when the root becomes black anew. -/
theorem Balanced.paint_black (h : Balanced t n) : ∃ m, Balanced (t.paint .black) m := by
  cases t with
  | nil => exact ⟨n, h⟩
  | node c l i r =>
    cases c with
    | red => exact ⟨n + 1, n, rfl, h.2.2.1, h.2.2.2⟩
    | black => exact ⟨n, h⟩

theorem Balanced.paint_red (h : Balanced t n) (hc : t.color = .red) :
    Balanced (t.paint .black) (n + 1) := by
  cases t with
  | nil => cases hc
  | node c l i r =>
    obtain rfl : c = .red := hc
    exact ⟨n, rfl, h.2.2.1, h.2.2.2⟩

theorem paint_of_color (h : t.color = c) (hne : t ≠ nil) : t.paint c = t := by
  cases t with
  | nil => exact absurd rfl hne
  | node c' l i r =>
    obtain rfl : c' = c := h
    rfl

@[simp]
theorem color_paint (hne : t ≠ nil) : (t.paint c).color = c := by
  cases t with
  | nil => exact absurd rfl hne
  | node c' l i r => rfl

/-- The tree with a hole becomes a red-black tree when a balanced tree of black height `n` with a
black root is put into the hole; the root may be red as well if the node above the hole is black. -/
def CtxBalanced : Context → ℕ → Prop
  | [], _ => True
  | f :: ctx, n =>
      match f.color with
      | .red =>
          f.sibling.color = .black ∧ Balanced f.sibling n ∧ ctx ≠ [] ∧
            Context.topColor ctx = .black ∧ CtxBalanced ctx n
      | .black => Balanced f.sibling n ∧ CtxBalanced ctx (n + 1)

theorem ctxBalanced_red {ctx : Context} :
    CtxBalanced (⟨d, .red, i, s⟩ :: ctx) n ↔
      s.color = .black ∧ Balanced s n ∧ ctx ≠ [] ∧ Context.topColor ctx = .black ∧
        CtxBalanced ctx n := Iff.rfl

theorem ctxBalanced_black {ctx : Context} :
    CtxBalanced (⟨d, .black, i, s⟩ :: ctx) n ↔ Balanced s n ∧ CtxBalanced ctx (n + 1) := Iff.rfl

/-- The hole may be filled. -/
theorem redBlack_plug (ht : Balanced t n) (hctx : CtxBalanced ctx n)
    (hc : t.color = .black ∨ ctx ≠ [] ∧ Context.topColor ctx = .black) : RedBlack (plug ctx t) := by
  induction ctx generalizing t n with
  | nil => exact ⟨hc.resolve_right fun h => h.1 rfl, n, ht⟩
  | cons f ctx ih =>
    obtain ⟨d, c, i, s⟩ := f
    cases c with
    | red =>
      obtain ⟨hs, hbs, hne, htop, hrest⟩ := hctx
      have htc : t.color = .black := hc.resolve_right fun h => by cases h.2
      exact ih (balanced_red.2 ⟨htc, hs, ht, hbs⟩) hrest (.inr ⟨hne, htop⟩)
    | black =>
      obtain ⟨hbs, hrest⟩ := hctx
      exact ih (balanced_black.2 ⟨n, rfl, ht, hbs⟩) hrest (.inl (color_branch _ _ _ _ _))

/-- Around any subtree of a red-black tree there is a balanced tree with a hole. -/
theorem RedBlack.split (h : RedBlack (plug ctx t)) :
    ∃ n, Balanced t n ∧ CtxBalanced ctx n ∧
      (t.color = .black ∨ ctx ≠ [] ∧ Context.topColor ctx = .black) := by
  induction ctx generalizing t with
  | nil =>
    obtain ⟨hc, n, ht⟩ := h
    exact ⟨n, ht, trivial, .inl hc⟩
  | cons f ctx ih =>
    obtain ⟨d, c, i, s⟩ := f
    obtain ⟨n, ht, hctx, hc⟩ := ih h
    cases c with
    | red =>
      obtain ⟨htc, hsc, hbt, hbs⟩ := balanced_red.1 ht
      have hc' := hc.resolve_left (by simp [Frame.fill])
      exact ⟨n, hbt, ⟨hsc, hbs, hc'.1, hc'.2, hctx⟩, .inl htc⟩
    | black =>
      obtain ⟨m, rfl, hbt, hbs⟩ := balanced_black.1 ht
      exact ⟨m, hbt, ⟨hbs, hctx⟩, .inr ⟨by simp, rfl⟩⟩

/-! ## The height -/

/-- The number of nodes on the longest way down. -/
def Tree.height : Tree → ℕ
  | nil => 0
  | node _ l _ r => max l.height r.height + 1

theorem Balanced.height_le (h : Balanced t n) :
    2 ^ n ≤ t.addrs.length + 1 ∧ t.height ≤ 2 * n + if t.color = .red then 1 else 0 := by
  induction t generalizing n with
  | nil =>
    obtain rfl : n = 0 := h
    exact ⟨le_rfl, Nat.zero_le _⟩
  | node c l i r ihl ihr =>
    simp only [addrs, List.length_append, List.length_cons, Tree.height]
    cases c with
    | red =>
      obtain ⟨hcl, hcr, hl, hr⟩ := h
      obtain ⟨hpow, hhl⟩ := ihl hl
      have hhr := (ihr hr).2
      simp only [hcl, hcr] at hhl hhr
      exact ⟨by omega, by simp only [color]; grind⟩
    | black =>
      obtain ⟨m, rfl, hl, hr⟩ := h
      obtain ⟨hpl, hhl⟩ := ihl hl
      obtain ⟨hpr, hhr⟩ := ihr hr
      rw [Nat.pow_succ]
      exact ⟨by omega, by split_ifs at hhl hhr <;> simp only [color] <;> grind⟩

theorem RedBlack.height_le (h : RedBlack t) : t.height ≤ 2 * Nat.log 2 (t.addrs.length + 1) := by
  obtain ⟨hc, n, hn⟩ := h
  obtain ⟨hpow, hheight⟩ := hn.height_le
  have hlog := Nat.le_log_of_pow_le Nat.one_lt_two hpow
  rw [hc, if_neg (by simp)] at hheight
  omega

end LinkedTree
