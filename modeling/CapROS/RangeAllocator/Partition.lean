import CapROS.RangeAllocator.Basic
import Mathlib.Data.List.Chain

/-!
# The table of the range allocator

The table tiles the address space, and no two adjacent ranges are free, as long as the range that is put
into another one lies in it.
-/

namespace CapROS.RangeAllocator

open Tiling

variable {l r stack : List Range} {e x p n : Range} {a b k : ℕ}

/-- The ranges of a list lie one after the other from `a` to `b`. -/
abbrev TilesRanges (a : ℕ) (l : List Range) (b : ℕ) : Prop := Tiles Range.start Range.size a l b

/-- Not both ranges are free. -/
def NotBothFree (e x : Range) : Prop := ¬(e.free = .free ∧ x.free = .free)

/-- The ranges of the table are a partition of the address space, in order, with no two adjacent free
ranges. -/
structure Partition (stack : List Range) : Prop where
  tiles : TilesRanges 0 stack (2 ^ 32 - 1)
  noAdjacentFree : stack.IsChain NotBothFree

theorem getD_mid (l : List Range) (e : Range) (r : List Range) : (l ++ e :: r).getD l.length default = e := by
  rw [List.getD_eq_getElem?_getD, List.getElem?_append_right le_rfl, Nat.sub_self]
  rfl

theorem getD_of_split (hstack : stack = l ++ e :: r) (hk : k = l.length) : stack.getD k default = e := by
  rw [hstack, hk, getD_mid]

theorem modify_mid (l : List Range) (e : Range) (r : List Range) (f : Range → Range) :
    (l ++ e :: r).modify l.length f = l ++ f e :: r := by
  induction l with
  | nil => rfl
  | cons d l ih => exact congrArg (d :: ·) ih

theorem ulong_of_lt (h : a < 2 ^ 32) : ulong a = a := Nat.mod_eq_of_lt h

theorem ulongSub_of_le (hb : b ≤ a) (ha : a < 2 ^ 32) : ulongSub a b = a - b := by
  unfold ulongSub
  rw [show a + 2 ^ 32 - b = (a - b) + 2 ^ 32 by omega, Nat.add_mod_right]
  exact Nat.mod_eq_of_lt (by omega)

theorem exists_split_of_findIdx? {q : Range → Bool} (h : stack.findIdx? q = some k) :
    ∃ l e r, stack = l ++ e :: r ∧ l.length = k ∧ q e = true ∧ ∀ d ∈ l, q d = false := by
  obtain ⟨hk, hq, hbefore⟩ := List.findIdx?_eq_some_iff_getElem.1 h
  refine ⟨stack.take k, stack[k], stack.drop (k + 1), ?_, List.length_take_of_le hk.le, hq, ?_⟩
  · rw [List.getElem_cons_drop, List.take_append_drop]
  · intro d hd
    obtain ⟨j, hj, rfl⟩ := List.getElem_of_mem hd
    have hjk : j < k := (List.length_take_of_le hk.le) ▸ hj
    rw [List.getElem_take]
    simpa using hbefore j hjk

/-- What is left of a range on one side. -/
def pieces (a b : ℕ) (e : Range) : List Range := if a = b then [] else [⟨a, b - a, e.free⟩]

theorem tiles_pieces (h : a ≤ b) (e : Range) : TilesRanges a (pieces a b e) b := by
  unfold pieces
  by_cases hab : a = b
  · rw [if_pos hab]
    exact hab
  · rw [if_neg hab]
    exact ⟨rfl, by show 0 < b - a; omega, by show a + (b - a) = b; omega⟩

theorem free_of_mem_pieces (h : x ∈ pieces a b e) : x.free = e.free := by
  unfold pieces at h
  by_cases hab : a = b
  · rw [if_pos hab] at h
    exact absurd h List.not_mem_nil
  · rw [if_neg hab] at h
    rw [List.mem_singleton.1 h]

/-- A range that lies in one of the table's ranges is put in its place, and what is left of that one
comes before and after it. -/
theorem breakAndFix_spec (ha : e.start ≤ x.start) (hx : 0 < x.size)
    (hb : x.start + x.size ≤ e.start + e.size) (he : e.start + e.size < 2 ^ 32) :
    breakAndFix l.length x (l ++ e :: r) = none ∨
      breakAndFix l.length x (l ++ e :: r) =
        some ((l ++ pieces e.start x.start e) ++
            x :: (pieces (x.start + x.size) (e.start + e.size) e ++ r),
          (l ++ pieces e.start x.start e).length) := by
  have hleft : (if x.start ≠ e.start then [(⟨e.start, ulongSub x.start e.start, e.free⟩ : Range)] else []) =
      pieces e.start x.start e := by
    unfold pieces
    rw [ulongSub_of_le ha (by omega)]
    by_cases h : x.start = e.start
    · rw [if_neg (not_not.2 h), if_pos h.symm]
    · rw [if_pos h, if_neg (Ne.symm h)]
  have hlow : (if x.start ≠ e.start then ulongSub x.start e.start else 0) = x.start - e.start := by
    rw [ulongSub_of_le ha (by omega)]
    by_cases h : x.start = e.start
    · rw [if_neg (not_not.2 h), h, Nat.sub_self]
    · rw [if_pos h]
  have hright : (if x.limit < e.limit then
      [(⟨x.limit, ulongSub (ulongSub e.size (x.start - e.start)) x.size, e.free⟩ : Range)] else []) =
      pieces (x.start + x.size) (e.start + e.size) e := by
    unfold pieces Range.limit
    rw [ulong_of_lt (by omega), ulong_of_lt he,
      ulongSub_of_le (show x.start - e.start ≤ e.size by omega) (by omega),
      ulongSub_of_le (show x.size ≤ e.size - (x.start - e.start) by omega) (by omega)]
    by_cases h : x.start + x.size = e.start + e.size
    · rw [if_neg (by omega), if_pos h]
    · rw [if_pos (by omega), if_neg h,
        show e.size - (x.start - e.start) - x.size = e.start + e.size - (x.start + x.size) by omega]
  unfold breakAndFix
  simp only [getD_mid, hleft, hlow, hright]
  by_cases hfull : stackSize ≤ (l ++ e :: r).length +
      ((pieces e.start x.start e).length + (pieces (x.start + x.size) (e.start + e.size) e).length)
  · exact .inl (if_pos hfull)
  · refine .inr ((if_neg hfull).trans ?_)
    simp

/-! ## Combining free ranges -/

theorem take_drop_mid (l : List Range) (m : Range) (gone r : List Range) :
    (l ++ m :: (gone ++ r)).take (l.length + 1) ++
      (l ++ m :: (gone ++ r)).drop (l.length + 1 + gone.length) = l ++ m :: r := by
  have hsplit : l ++ m :: (gone ++ r) = (l ++ [m]) ++ (gone ++ r) := by simp
  have hlen : l.length + 1 = (l ++ [m]).length := by simp
  rw [hsplit, hlen, List.take_left, ← List.length_append, ← List.append_assoc, List.drop_left]
  simp

theorem combineFree_of_not_previous (hl : ∀ p ∈ l.getLast?, p.free ≠ .free) :
    combineFree l.length (l ++ e :: r) =
      match r with
      | [] => l ++ [e]
      | n :: r' =>
        if n.free = .free then l ++ { e with size := ulong (e.size + n.size) } :: r' else l ++ e :: n :: r' := by
  have hprevious : (decide (l.length ≠ 0) &&
      decide (((l ++ e :: r).getD (l.length - 1) default).free = .free)) = false := by
    obtain rfl | ⟨l', p, rfl⟩ := List.eq_nil_or_concat l
    · rfl
    · have hp : p.free ≠ .free := hl p (by simp)
      rw [List.concat_eq_append, List.append_assoc, List.length_append,
        show l'.length + [p].length - 1 = l'.length by simp, List.singleton_append, getD_mid]
      simp [hp]
  unfold combineFree
  simp only [hprevious, Bool.false_eq_true, if_false, Bool.toNat_false, Nat.zero_add]
  cases r with
  | nil =>
    rw [show decide (l.length ≠ (l ++ [e]).length - 1) = false by simp]
    exact take_drop_mid l e [] []
  | cons n r' =>
    have hn : (l ++ e :: n :: r').getD (l.length + 1) default = n :=
      getD_of_split (l := l ++ [e]) (r := r') (by simp) (by simp)
    rw [hn, show decide (l.length ≠ (l ++ e :: n :: r').length - 1) = true by simp]
    by_cases hfree : n.free = .free
    · simp only [hfree, decide_true, Bool.and_self, if_true, Bool.toNat_true]
      unfold grow
      rw [modify_mid]
      exact take_drop_mid l _ [n] r'
    · simp only [hfree, decide_false, Bool.and_false, Bool.false_eq_true, if_false, Bool.toNat_false]
      exact take_drop_mid l e [] (n :: r')

theorem combineFree_of_previous (hp : p.free = .free) :
    combineFree (l ++ [p]).length ((l ++ [p]) ++ e :: r) =
      match r with
      | [] => l ++ [{ p with size := ulong (p.size + e.size) }]
      | n :: r' =>
        if n.free = .free then l ++ { p with size := ulong (ulong (p.size + e.size) + n.size) } :: r'
        else l ++ { p with size := ulong (p.size + e.size) } :: n :: r' := by
  have hlen : (l ++ [p]).length - 1 = l.length := by simp
  have hprevious : (decide ((l ++ [p]).length ≠ 0) &&
      decide ((((l ++ [p]) ++ e :: r).getD l.length default).free = .free)) = true := by
    rw [List.append_assoc, List.singleton_append, getD_mid]
    simp [hp]
  have hgrow : grow l.length e.size ((l ++ [p]) ++ e :: r) =
      l ++ { p with size := ulong (p.size + e.size) } :: ([e] ++ r) := by
    unfold grow
    rw [List.append_assoc, List.singleton_append, modify_mid]
    rfl
  unfold combineFree
  simp only [hlen, hprevious, if_true, Bool.toNat_true, getD_mid, hgrow]
  cases r with
  | nil =>
    rw [show decide ((l ++ [p]).length ≠ ((l ++ [p]) ++ [e]).length - 1) = false by simp]
    exact take_drop_mid l _ [e] []
  | cons n r' =>
    have hn : ((l ++ [p]) ++ e :: n :: r').getD ((l ++ [p]).length + 1) default = n :=
      getD_of_split (l := l ++ [p] ++ [e]) (r := r') (by simp) (by simp)
    have hn' : (l ++ { p with size := ulong (p.size + e.size) } :: ([e] ++ n :: r')).getD
        ((l ++ [p]).length + 1) default = n :=
      getD_of_split (l := l ++ [{ p with size := ulong (p.size + e.size) }] ++ [e]) (r := r') (by simp)
        (by simp)
    rw [hn, show decide ((l ++ [p]).length ≠ ((l ++ [p]) ++ e :: n :: r').length - 1) = true by simp]
    by_cases hfree : n.free = .free
    · simp only [hfree, decide_true, Bool.and_self, if_true, Bool.toNat_true, hn']
      unfold grow
      rw [modify_mid]
      exact take_drop_mid l _ [e, n] r'
    · simp only [hfree, decide_false, Bool.and_false, Bool.false_eq_true, if_false, Bool.toNat_false]
      exact take_drop_mid l _ [e] (n :: r')

theorem absorbNext_spec (he : e.free = .free) (htiles : TilesRanges a (e :: r) b) (hb : b < 2 ^ 32)
    (hr : r.IsChain NotBothFree) :
    ∃ m r', (match r with
        | [] => [e]
        | n :: r' =>
          if n.free = .free then { e with size := ulong (e.size + n.size) } :: r' else e :: n :: r') = m :: r' ∧
      m.free = .free ∧ TilesRanges a (m :: r') b ∧ (m :: r').IsChain NotBothFree ∧
      ∀ x, x.free ≠ .free → (x ∈ r' ↔ x ∈ r) := by
  cases r with
  | nil => exact ⟨e, [], rfl, he, htiles, List.isChain_singleton e, fun x _ => Iff.rfl⟩
  | cons n r' =>
    obtain ⟨rfl, hpos, hn, hnpos, hrest⟩ := htiles
    by_cases hfree : n.free = .free
    · have hle : e.start + e.size + n.size ≤ b := hrest.le
      refine ⟨{ e with size := ulong (e.size + n.size) }, r', if_pos hfree, he, ⟨rfl, ?_, ?_⟩, ?_, ?_⟩
      · show 0 < ulong (e.size + n.size)
        rw [ulong_of_lt (by omega)]
        omega
      · show TilesRanges (e.start + ulong (e.size + n.size)) r' b
        rw [ulong_of_lt (by omega), ← Nat.add_assoc]
        exact hrest
      · cases r' with
        | nil => exact List.isChain_singleton _
        | cons c r'' =>
          obtain ⟨hnc, hc⟩ := List.isChain_cons_cons.1 hr
          exact List.isChain_cons_cons.2 ⟨fun h => hnc ⟨hfree, h.2⟩, hc⟩
      · intro x hx
        have hne : x ≠ n := fun h => hx (h ▸ hfree)
        simp [hne]
    · exact ⟨e, n :: r', if_neg hfree, he, ⟨rfl, hpos, hn, hnpos, hrest⟩,
        List.isChain_cons_cons.2 ⟨fun h => hfree h.2, hr⟩, fun x _ => Iff.rfl⟩

theorem combineFree_spec (he : e.free = .free) (htiles : TilesRanges a (l ++ e :: r) b) (hb : b < 2 ^ 32)
    (hl : l.IsChain NotBothFree) (hr : r.IsChain NotBothFree) :
    TilesRanges a (combineFree l.length (l ++ e :: r)) b ∧
      (combineFree l.length (l ++ e :: r)).IsChain NotBothFree ∧
      ∀ x, x.free ≠ .free → (x ∈ combineFree l.length (l ++ e :: r) ↔ x ∈ l ∨ x ∈ r) := by
  have hsplit := tiles_split.1 htiles
  by_cases hlast : ∀ p ∈ l.getLast?, p.free ≠ .free
  · obtain ⟨m, r', heq, hm, hmtiles, hmchain, hmem⟩ :=
      absorbNext_spec he ⟨rfl, hsplit.2⟩ hb hr
    have hcombine : combineFree l.length (l ++ e :: r) = l ++ m :: r' := by
      rw [combineFree_of_not_previous hlast, ← heq]
      cases r with
      | nil => rfl
      | cons n r' => exact (apply_ite (l ++ ·) _ _ _).symm
    rw [hcombine]
    refine ⟨tiles_append.2 ⟨_, hsplit.1, hmtiles⟩, ?_, ?_⟩
    · refine List.isChain_append.2 ⟨hl, hmchain, ?_⟩
      intro p hp q hq h
      exact hlast p hp h.1
    · intro x hx
      have hne : x ≠ m := fun h => hx (h ▸ hm)
      simp [hne, hmem x hx]
  · push Not at hlast
    obtain ⟨p, hp, hfree⟩ := hlast
    obtain ⟨l', rfl⟩ := List.getLast?_eq_some_iff.1 hp
    have hp' := tiles_split.1 (show TilesRanges a (l' ++ p :: e :: r) b by simpa using htiles)
    obtain ⟨hl', hppos, hestart, hepos, hrest⟩ := hp'
    have hle : p.start + p.size + e.size ≤ b := hrest.le
    set e' : Range := { p with size := ulong (p.size + e.size) } with he'
    have hsize : e'.size = p.size + e.size := ulong_of_lt (by omega)
    have htiles' : TilesRanges e'.start (e' :: r) b := by
      refine ⟨rfl, by omega, ?_⟩
      rw [hsize, ← Nat.add_assoc]
      exact hrest
    obtain ⟨m, r', heq, hm, hmtiles, hmchain, hmem⟩ := absorbNext_spec (e := e') hfree htiles' hb hr
    have hcombine : combineFree (l' ++ [p]).length (l' ++ [p] ++ e :: r) = l' ++ m :: r' := by
      rw [combineFree_of_previous hfree, ← heq]
      cases r with
      | nil => rfl
      | cons n r' => exact (apply_ite (l' ++ ·) _ _ _).symm
    obtain ⟨hchain, -, hlastfree⟩ := List.isChain_append.1 hl
    rw [hcombine]
    refine ⟨tiles_append.2 ⟨_, hl', hmtiles⟩, ?_, ?_⟩
    · refine List.isChain_append.2 ⟨hchain, hmchain, ?_⟩
      intro q hq c _ h
      exact hlastfree q hq p rfl ⟨h.1, hfree⟩
    · intro x hx
      have hne : x ≠ m := fun h => hx (h ▸ hm)
      have hnp : x ≠ p := fun h => hx (h ▸ hfree)
      simp [hne, hnp, hmem x hx]

/-! ## The operations -/

theorem isChain_pieces_right (h : (l ++ [e]).IsChain NotBothFree) (a b : ℕ) :
    (l ++ pieces a b e).IsChain NotBothFree := by
  obtain ⟨hl, -, hlast⟩ := List.isChain_append.1 h
  unfold pieces
  by_cases hab : a = b
  · rw [if_pos hab, List.append_nil]
    exact hl
  · rw [if_neg hab]
    refine List.isChain_append.2 ⟨hl, List.isChain_singleton _, ?_⟩
    rintro p hp q hq ⟨hpf, hqf⟩
    obtain rfl := Option.some.inj hq
    exact hlast p hp e rfl ⟨hpf, hqf⟩

theorem isChain_pieces_left (h : (e :: r).IsChain NotBothFree) (a b : ℕ) :
    (pieces a b e ++ r).IsChain NotBothFree := by
  unfold pieces
  by_cases hab : a = b
  · rw [if_pos hab]
    exact h.tail
  · rw [if_neg hab]
    cases r with
    | nil => exact List.isChain_singleton _
    | cons n r' =>
      obtain ⟨hen, hn⟩ := List.isChain_cons_cons.1 h
      exact List.isChain_cons_cons.2 ⟨hen, hn⟩

theorem Partition.chains (h : Partition (l ++ e :: r)) :
    (l ++ [e]).IsChain NotBothFree ∧ (e :: r).IsChain NotBothFree := by
  have hchain := h.noAdjacentFree
  refine ⟨?_, (List.isChain_append.1 hchain).2.1⟩
  rw [← List.singleton_append, ← List.append_assoc] at hchain
  exact (List.isChain_append.1 hchain).1

theorem Partition.tiles_insert (h : Partition (l ++ e :: r)) (ha : e.start ≤ x.start) (hx : 0 < x.size)
    (hb : x.start + x.size ≤ e.start + e.size) :
    TilesRanges 0 ((l ++ pieces e.start x.start e) ++
      x :: (pieces (x.start + x.size) (e.start + e.size) e ++ r)) (2 ^ 32 - 1) := by
  obtain ⟨hl, -, hr⟩ := tiles_split.1 h.tiles
  exact tiles_split.2 ⟨tiles_append.2 ⟨_, hl, tiles_pieces ha e⟩, hx,
    tiles_append.2 ⟨_, tiles_pieces hb e, hr⟩⟩

theorem Partition.limit_lt (h : Partition stack) (he : e ∈ stack) : e.start + e.size < 2 ^ 32 := by
  have := (h.tiles.bounds he).2.2
  omega

theorem Partition.define (h : Partition (l ++ e :: r)) (ha : e.start ≤ x.start) (hx : 0 < x.size)
    (hb : x.start + x.size ≤ e.start + e.size) (he : e.free ≠ .alloc) (hfree : x.free = .free) :
    let left := l ++ pieces e.start x.start e
    let stack' := combineFree left.length (left ++ x :: (pieces (x.start + x.size) (e.start + e.size) e ++ r))
    Partition stack' ∧ ∀ y, y.free = .alloc → (y ∈ stack' ↔ y ∈ l ++ e :: r) := by
  obtain ⟨hleft, hright⟩ := h.chains
  obtain ⟨htiles, hchain, hmem⟩ := combineFree_spec hfree (h.tiles_insert ha hx hb) (by omega)
    (isChain_pieces_right hleft _ _) (isChain_pieces_left hright _ _)
  refine ⟨⟨htiles, hchain⟩, ?_⟩
  intro y hy
  have hnot : ∀ a b, y ∉ pieces a b e := fun a b hmem => he ((free_of_mem_pieces hmem).symm.trans hy)
  have hne : y ≠ e := fun heq => he (heq ▸ hy)
  rw [hmem y (by simp [hy])]
  simp [hnot, hne]

theorem Partition.allocate (h : Partition (l ++ e :: r)) (ha : e.start ≤ x.start) (hx : 0 < x.size)
    (hb : x.start + x.size ≤ e.start + e.size) (he : e.free = .free) (halloc : x.free = .alloc) :
    let stack' := (l ++ pieces e.start x.start e) ++ x :: (pieces (x.start + x.size) (e.start + e.size) e ++ r)
    Partition stack' ∧ ∀ y, y.free = .alloc → (y ∈ stack' ↔ y = x ∨ y ∈ l ++ e :: r) := by
  obtain ⟨hleft, hright⟩ := h.chains
  have hxf : x.free ≠ .free := by simp [halloc]
  refine ⟨⟨h.tiles_insert ha hx hb, ?_⟩, ?_⟩
  · refine List.isChain_append.2 ⟨isChain_pieces_right hleft _ _, ?_, ?_⟩
    · refine List.isChain_cons.2 ⟨fun q _ hq => hxf hq.1, isChain_pieces_left hright _ _⟩
    · intro p _ q hq hpq
      obtain rfl := Option.some.inj hq
      exact hxf hpq.2
  · intro y hy
    have hnot : ∀ a b, y ∉ pieces a b e := by
      intro a b hmem
      have := (free_of_mem_pieces hmem).symm.trans hy
      simp [he] at this
    have hne : y ≠ e := fun heq => by simp [heq, he] at hy
    simp only [List.mem_append, List.mem_cons, hnot, hne]
    tauto

theorem Partition.release (h : Partition (l ++ e :: r)) :
    let stack' := combineFree l.length (l ++ { e with free := .free } :: r)
    Partition stack' ∧ ∀ y, y.free = .alloc → (y ∈ stack' ↔ y ∈ l ++ e :: r ∧ y ≠ e) := by
  obtain ⟨hleft, hright⟩ := h.chains
  have htiles := tiles_split.1 h.tiles
  obtain ⟨htiles', hchain, hmem⟩ := combineFree_spec (e := { e with free := .free }) rfl
    (tiles_split.2 ⟨htiles.1, htiles.2⟩) (by omega) (List.isChain_append.1 hleft).1 hright.tail
  refine ⟨⟨htiles', hchain⟩, ?_⟩
  intro y hy
  rw [hmem y (by simp [hy])]
  have hnodup : ∀ y ∈ l ++ r, y ≠ e := by
    intro y hyl heq
    have hpair := h.tiles.pairwise
    obtain ⟨hll, -, hle⟩ := List.pairwise_append.1 hpair
    obtain hyl | hyr := List.mem_append.1 hyl
    · have := hle y hyl e List.mem_cons_self
      rw [heq] at this
      omega
    · have := (List.pairwise_cons.1 (List.pairwise_append.1 hpair).2.1).1 y hyr
      rw [heq] at this
      omega
  constructor
  · intro hmem
    refine ⟨?_, hnodup y (List.mem_append.2 hmem)⟩
    rw [List.mem_append, List.mem_cons]
    tauto
  · rintro ⟨hmem, hne⟩
    rw [List.mem_append, List.mem_cons] at hmem
    tauto

end CapROS.RangeAllocator
