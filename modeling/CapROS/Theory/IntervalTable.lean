import Mathlib.Order.Lattice
import Mathlib.Data.List.InsertIdx
import Mathlib.Data.List.Pairwise

/-!
# Tables of intervals

A table is a list of intervals `[lo a, hi a)` over a linear order. It is in ascending order when every
interval ends before the next one starts. Empty intervals may stand anywhere between the others.
-/

namespace IntervalTable

/-! ### Binary search -/

/-- Search for the first place in `[l, u)` at which `p` holds; `u` if there is none. A round halves the
interval, so that `u - l` rounds are enough. -/
def bisect (p : ℕ → Prop) [DecidablePred p] : ℕ → ℕ → ℕ → ℕ
  | 0, _, u => u
  | fuel + 1, l, u =>
      if u ≤ l then u
      else if p ((l + (u - 1)) / 2) then bisect p fuel l ((l + (u - 1)) / 2)
      else bisect p fuel ((l + (u - 1)) / 2 + 1) u

/-- The search stops at the boundary between the places where `p` fails and those where it holds. -/
theorem bisect_spec {p : ℕ → Prop} [DecidablePred p] {fuel l u : ℕ} (hfuel : u ≤ l + fuel)
    (hlu : l ≤ u) (hp : ∀ i j, l ≤ i → i ≤ j → j < u → p i → p j) :
    l ≤ bisect p fuel l u ∧ bisect p fuel l u ≤ u ∧
      (∀ i, l ≤ i → i < bisect p fuel l u → ¬p i) ∧
      (∀ i, bisect p fuel l u ≤ i → i < u → p i) := by
  fun_induction bisect p fuel l u with
  | case1 l u | case2 fuel l u hle =>
      have heq : u = l := by omega
      subst heq
      exact ⟨le_rfl, le_rfl, fun i h₁ h₂ => absurd h₂ (by omega), fun i h₁ h₂ => absurd h₂ (by omega)⟩
  | case3 fuel l u hlt hmid ih =>
      -- the boundary is at or before the middle
      obtain ⟨h₁, h₂, h₃, h₄⟩ := ih (by omega) (by omega)
        fun i j hi hij hj => hp i j hi hij (by omega)
      refine ⟨h₁, by omega, h₃, fun i hi hiu => ?_⟩
      rcases Nat.lt_or_ge i ((l + (u - 1)) / 2) with hbefore | hafter
      · exact h₄ i hi hbefore
      · exact hp _ i (by omega) hafter hiu hmid
  | case4 fuel l u hlt hmid ih =>
      obtain ⟨h₁, h₂, h₃, h₄⟩ := ih (by omega) (by omega)
        fun i j hi hij hj => hp i j (by omega) hij hj
      refine ⟨by omega, h₂, fun i hi hib hpi => ?_, h₄⟩
      rcases Nat.lt_or_ge i ((l + (u - 1)) / 2 + 1) with hbefore | hafter
      · exact hmid (hp i _ hi (by omega) (by omega) hpi)
      · exact h₃ i hafter hib hpi

/-! ### Intervals in ascending order -/

variable {α β : Type*} [LinearOrder α] {lo hi : β → α} {front back l : List β} {a new : β} {x y : α}

/-- Every interval ends before any later one starts. -/
def Ascending (lo hi : β → α) (l : List β) : Prop := l.Pairwise fun a b => lo a ≤ lo b ∧ hi a ≤ lo b

/-- The interval covers the point. -/
def Covers (lo hi : β → α) (a : β) (x : α) : Prop := lo a ≤ x ∧ x < hi a

@[simp]
theorem ascending_nil : Ascending lo hi ([] : List β) := List.Pairwise.nil

theorem ascending_append : Ascending lo hi (front ++ back) ↔
    Ascending lo hi front ∧ Ascending lo hi back ∧ ∀ a ∈ front, ∀ b ∈ back, lo a ≤ lo b ∧ hi a ≤ lo b :=
  List.pairwise_append

theorem ascending_cons : Ascending lo hi (a :: l) ↔
    (∀ b ∈ l, lo a ≤ lo b ∧ hi a ≤ lo b) ∧ Ascending lo hi l :=
  List.pairwise_cons

/-- The starts are sorted. -/
theorem Ascending.getElem_le (h : Ascending lo hi l) {i j : ℕ} (hij : i ≤ j) (hj : j < l.length) :
    lo (l.get ⟨i, hij.trans_lt hj⟩) ≤ lo (l.get ⟨j, hj⟩) := by
  rcases Nat.lt_or_eq_of_le hij with hlt | rfl
  · exact (List.pairwise_iff_getElem.1 h i j (hij.trans_lt hj) hj hlt).1
  · exact le_rfl

/-- The last interval of a table has none that starts later, and the others end before it starts. -/
theorem Ascending.le_getLast (h : Ascending lo hi l) (hlast : l.getLast? = some new) (ha : a ∈ l) :
    a = new ∨ lo a ≤ lo new ∧ hi a ≤ lo new := by
  obtain ⟨init, rfl⟩ := List.getLast?_eq_some_iff.1 hlast
  rcases List.mem_append.1 ha with hinit | hnew
  · exact .inr ((ascending_append.1 h).2.2 a hinit new (by simp))
  · exact .inl (by simpa using hnew)

/-- The first interval of a table has none that starts earlier. -/
theorem Ascending.head_le (h : Ascending lo hi l) (hhead : l.head? = some new) (ha : a ∈ l) :
    lo new ≤ lo a := by
  cases l with
  | nil => cases hhead
  | cons b tl =>
      obtain rfl : b = new := by simpa using hhead
      rcases List.mem_cons.1 ha with rfl | htl
      · exact le_rfl
      · exact ((ascending_cons.1 h).1 a htl).1

/-- An interval that starts after the last interval before it ends, and ends before the first one after
it starts, can be inserted. -/
theorem Ascending.insert (h : Ascending lo hi (front ++ back)) (hfront : ∀ a ∈ front, lo a ≤ lo new)
    (hback : ∀ b ∈ back, lo new ≤ lo b) (hprev : ∀ a ∈ front.getLast?, hi a ≤ lo new)
    (hnext : ∀ b ∈ back.head?, hi new ≤ lo b) : Ascending lo hi (front ++ new :: back) := by
  obtain ⟨hf, hb, hfb⟩ := ascending_append.1 h
  refine ascending_append.2 ⟨hf, ascending_cons.2 ⟨fun b hmem => ⟨hback b hmem, ?_⟩, hb⟩, ?_⟩
  · -- no interval of the back starts before its first one
    cases hhead : back.head? with
    | none => simp [List.head?_eq_none_iff.1 hhead] at hmem
    | some c => exact (hnext c hhead).trans (hb.head_le hhead hmem)
  · intro a ha b hmem
    rcases List.mem_cons.1 hmem with rfl | hmem
    · refine ⟨hfront a ha, ?_⟩
      cases hlast : front.getLast? with
      | none => simp [List.getLast?_eq_none_iff.1 hlast] at ha
      | some c =>
          rcases hf.le_getLast hlast ha with rfl | hac
          · exact hprev a hlast
          · exact hac.2.trans (hfront c (List.mem_of_getLast? hlast))
    · exact hfb a ha b hmem

/-- Among the intervals that start at or before a point, only the last can cover it. -/
theorem Ascending.getLast?_of_covers (h : Ascending lo hi (front ++ back))
    (hback : ∀ b ∈ back, x < lo b) (hfront : ∀ b ∈ front, lo b ≤ x) (ha : a ∈ front ++ back)
    (hx : Covers lo hi a x) : front.getLast? = some a := by
  have hmem : a ∈ front := by
    rcases List.mem_append.1 ha with hf | hb
    · exact hf
    · exact absurd hx.1 (not_le_of_gt (hback a hb))
  cases hlast : front.getLast? with
  | none => simp [List.getLast?_eq_none_iff.1 hlast] at hmem
  | some c =>
      rcases (ascending_append.1 h).1.le_getLast hlast hmem with rfl | hac
      · rfl
      · have hc := hfront c (List.mem_of_getLast? hlast)
        exact absurd (hx.2.trans_le hac.2) (not_lt_of_ge hc)

end IntervalTable
