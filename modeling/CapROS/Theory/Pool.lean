import Mathlib.Data.List.Basic
import Mathlib.Data.Set.Lattice
import Mathlib.Order.CompletePartialOrder

/-!
# Pools of pieces

A pool is a list of entries, each with an area, of which no two meet. A block is cut from the area of one
entry: the entry keeps a part of what is left, and entries for other parts are put at the end of the list.
-/

namespace Pool

variable {α β : Type*} {area : α → Set β} {l l' extra : List α} {i : ℕ} {r r' : α} {block : Set β}

/-- The points of all entries. -/
def all (area : α → Set β) (l : List α) : Set β := fun x => ∃ r ∈ l, x ∈ area r

/-- No two entries have a point in common. -/
def Apart (area : α → Set β) (l : List α) : Prop := l.Pairwise fun r r' => Disjoint (area r) (area r')

/-- A block is cut from entry `i`, which is `r`. -/
structure Cut (area : α → Set β) (l l' : List α) (i : ℕ) (r r' : α) (extra : List α) (block : Set β) : Prop where
  entry : l[i]? = some r
  result : l' = l.set i r' ++ extra
  block_subset : block ⊆ area r
  kept_subset : area r' ⊆ area r
  extra_subset : all area extra ⊆ area r
  kept_block : Disjoint (area r') block
  extra_block : Disjoint (all area extra) block
  kept_extra : Disjoint (area r') (all area extra)
  extra_apart : Apart area extra

@[simp]
theorem all_nil : all area [] = ∅ := by
  ext x
  constructor
  · rintro ⟨r, hr, -⟩
    exact absurd hr List.not_mem_nil
  · exact False.elim

@[simp]
theorem all_singleton : all area [r] = area r := by
  ext x
  constructor
  · rintro ⟨e, he, hx⟩
    rwa [List.mem_singleton.1 he] at hx
  · exact fun hx => ⟨r, List.mem_singleton_self r, hx⟩

theorem mem_all_append {x : β} : x ∈ all area (l ++ l') ↔ x ∈ all area l ∨ x ∈ all area l' := by
  constructor
  · rintro ⟨r, hr, hx⟩
    obtain hr | hr := List.mem_append.1 hr
    · exact .inl ⟨r, hr, hx⟩
    · exact .inr ⟨r, hr, hx⟩
  · rintro (⟨r, hr, hx⟩ | ⟨r, hr, hx⟩)
    · exact ⟨r, List.mem_append.2 (.inl hr), hx⟩
    · exact ⟨r, List.mem_append.2 (.inr hr), hx⟩

theorem mem_all_cons {x : β} : x ∈ all area (r :: l) ↔ x ∈ area r ∨ x ∈ all area l := by
  constructor
  · rintro ⟨e, he, hx⟩
    obtain rfl | he := List.mem_cons.1 he
    · exact .inl hx
    · exact .inr ⟨e, he, hx⟩
  · rintro (hx | ⟨e, he, hx⟩)
    · exact ⟨r, List.mem_cons_self, hx⟩
    · exact ⟨e, List.mem_cons_of_mem _ he, hx⟩

theorem area_subset_all (h : r ∈ l) : area r ⊆ all area l := fun _ hx => ⟨r, h, hx⟩

theorem disjoint_all {s : Set β} : Disjoint s (all area l) ↔ ∀ r ∈ l, Disjoint s (area r) := by
  constructor
  · intro h r hr
    exact h.mono_right (area_subset_all hr)
  · intro h
    refine Set.disjoint_left.2 fun x hx ⟨r, hr, hxr⟩ => ?_
    exact Set.disjoint_left.1 (h r hr) hx hxr

theorem apart_append :
    Apart area (l ++ l') ↔ Apart area l ∧ Apart area l' ∧ Disjoint (all area l) (all area l') := by
  unfold Apart
  rw [List.pairwise_append]
  refine and_congr_right fun _ => and_congr_right fun _ => ?_
  constructor
  · intro h
    refine Set.disjoint_left.2 fun x ⟨r, hr, hx⟩ ⟨r', hr', hx'⟩ => ?_
    exact Set.disjoint_left.1 (h r hr r' hr') hx hx'
  · intro h r hr r' hr'
    exact h.mono (area_subset_all hr) (area_subset_all hr')

theorem apart_cons : Apart area (r :: l) ↔ Disjoint (area r) (all area l) ∧ Apart area l := by
  unfold Apart
  rw [List.pairwise_cons, disjoint_all]

/-- A new entry may be put at the end if it meets none of the others. -/
theorem Apart.append_singleton (h : Apart area l) (hr : Disjoint (area r) (all area l)) : Apart area (l ++ [r]) := by
  refine apart_append.2 ⟨h, List.pairwise_singleton _ r, ?_⟩
  rw [all_singleton]
  exact hr.symm

/-- The entries before and after the one that is cut. -/
theorem Cut.split (h : Cut area l l' i r r' extra block) :
    ∃ pre post, l = pre ++ r :: post ∧ l' = pre ++ r' :: post ++ extra := by
  obtain ⟨hi, hr⟩ := List.getElem?_eq_some_iff.1 h.entry
  obtain ⟨pre, post, hl, -, hset⟩ : ∃ l₁ l₂, l = l₁ ++ l[i] :: l₂ ∧ l₁.length = i ∧ l.set i r' = l₁ ++ r' :: l₂ :=
    List.exists_of_set hi
  refine ⟨pre, post, ?_, ?_⟩
  · rw [← hr]
    exact hl
  · rw [h.result, hset]

/-- What is left is a pool again. -/
theorem Cut.apart (h : Cut area l l' i r r' extra block) (hl : Apart area l) : Apart area l' := by
  obtain ⟨pre, post, rfl, rfl⟩ := h.split
  rw [apart_append, apart_cons] at hl
  obtain ⟨hpre, ⟨hrpost, hpost⟩, hcross⟩ := hl
  have hpre_r : Disjoint (all area pre) (area r) :=
    hcross.mono_right fun x hx => mem_all_cons.2 (.inl hx)
  have hpre_post : Disjoint (all area pre) (all area post) :=
    hcross.mono_right fun x hx => mem_all_cons.2 (.inr hx)
  have hkept : Apart area (r' :: post) := apart_cons.2 ⟨hrpost.mono_left h.kept_subset, hpost⟩
  have hfront : Apart area (pre ++ r' :: post) := by
    refine apart_append.2 ⟨hpre, hkept, Set.disjoint_left.2 fun x hx hx' => ?_⟩
    obtain hx' | hx' := mem_all_cons.1 hx'
    · exact Set.disjoint_left.1 hpre_r hx (h.kept_subset hx')
    · exact Set.disjoint_left.1 hpre_post hx hx'
  refine apart_append.2 ⟨hfront, h.extra_apart, Set.disjoint_left.2 fun x hx hx' => ?_⟩
  obtain hx | hx := mem_all_append.1 hx
  · exact Set.disjoint_left.1 hpre_r hx (h.extra_subset hx')
  obtain hx | hx := mem_all_cons.1 hx
  · exact Set.disjoint_left.1 h.kept_extra hx hx'
  · exact Set.disjoint_left.1 hrpost (h.extra_subset hx') hx

/-- The points of the entry that are neither kept nor put into another entry. -/
def lost (area : α → Set β) (r r' : α) (extra : List α) : Set β := area r \ (area r' ∪ all area extra)

/-- The pool has lost these points and no others, and the block is among them. -/
theorem Cut.shrinks (h : Cut area l l' i r r' extra block) (hl : Apart area l) :
    block ⊆ lost area r r' extra ∧ lost area r r' extra ⊆ all area l ∧
      all area l' = all area l \ lost area r r' extra := by
  refine ⟨fun x hx => ⟨h.block_subset hx, ?_⟩, fun x hx => ⟨r, List.mem_of_getElem? h.entry, hx.1⟩, ?_⟩
  · rintro (hx' | hx')
    · exact Set.disjoint_left.1 h.kept_block hx' hx
    · exact Set.disjoint_left.1 h.extra_block hx' hx
  obtain ⟨pre, post, rfl, rfl⟩ := h.split
  rw [apart_append, apart_cons] at hl
  obtain ⟨-, ⟨hrpost, -⟩, hcross⟩ := hl
  ext x
  rw [mem_all_append, mem_all_append, mem_all_cons, Set.mem_sdiff, mem_all_append, mem_all_cons]
  constructor
  · rintro ((hx | hx | hx) | hx)
    · refine ⟨.inl hx, fun hlost => ?_⟩
      exact Set.disjoint_left.1 hcross hx (mem_all_cons.2 (.inl hlost.1))
    · exact ⟨.inr (.inl (h.kept_subset hx)), fun hlost => hlost.2 (.inl hx)⟩
    · exact ⟨.inr (.inr hx), fun hlost => Set.disjoint_left.1 hrpost hlost.1 hx⟩
    · exact ⟨.inr (.inl (h.extra_subset hx)), fun hlost => hlost.2 (.inr hx)⟩
  · rintro ⟨hx | hx | hx, hlost⟩
    · exact .inl (.inl hx)
    · by_contra hnot
      refine hlost ⟨hx, fun hx' => hnot ?_⟩
      obtain hx' | hx' := hx'
      · exact .inl (.inr (.inl hx'))
      · exact .inr hx'
    · exact .inl (.inr (.inr hx))

end Pool
