import CapROS.LogDirectory.TreeRemoval
import CapROS.Theory.LinkedRing

/-!
# The chains of the generations

A chain as a list: the nodes of a generation in the order of the links, from the head on, and the
cursor of the scan. The operations on chains are those of the source, on lists. When a node is
taken out, the cursor moves on from it, and it is set to null if it is then at the head.

* `unchainNode_spec`, `chainNode_spec`, `swapEntry_spec`: the operations on the links.
-/

namespace CapROS.LogDirectory

open LinkedRing
open Function (update update_self update_of_ne)

/-- The chain of a generation. -/
@[ext]
structure Chain where
  nodes : List ℕ := []
  cursor : ℕ := 0
  deriving DecidableEq, Repr

/-- The node after `n`; the head comes after the last node. -/
def after (n : ℕ) : List ℕ → ℕ
  | [] => n
  | h :: xs => ((h :: xs ++ [h]).dropWhile (· ≠ n)).tail.headD n

namespace Chain

variable (C : Chain)

def head : ℕ := C.nodes.headD 0

/-- The new node comes after the head. -/
def link (n : ℕ) : Chain := { C with nodes := LinkedRing.link n C.nodes }

/-- The node is taken out. -/
def unlink (n : ℕ) : Chain where
  nodes := LinkedRing.unlink n C.nodes
  cursor :=
    let cursor := if C.cursor = n then after n C.nodes else C.cursor
    if cursor = (LinkedRing.unlink n C.nodes).headD 0 then 0 else cursor

/-- The entry of the generation table. -/
def entry : GT := ⟨C.head, C.cursor, C.nodes.length⟩

end Chain

/-- The node `n` is taken out of chain `i`. -/
def takeOut (chain : ℕ → Chain) (i n : ℕ) : ℕ → Chain :=
  update chain i ((chain i).unlink n)

/-- The node `n` is put into chain `i`. -/
def putIn (chain : ℕ → Chain) (i n : ℕ) : ℕ → Chain := update chain i ((chain i).link n)

/-- The links and the generation table hold these chains. -/
structure Chains (D : Directory) (chain : ℕ → Chain) : Prop where
  ring : ∀ i < ldMaxGenerations, Ring D.next D.prev (chain i).nodes
  entry : ∀ i < ldMaxGenerations, D.table i = (chain i).entry
  gen : ∀ i < ldMaxGenerations, ∀ n ∈ (chain i).nodes, D.generation n + i = D.highestGeneration
  ne_zero : ∀ i < ldMaxGenerations, ∀ n ∈ (chain i).nodes, n ≠ 0

/-- The node `n` is in none of the chains. -/
def Unchained (chain : ℕ → Chain) (n : ℕ) : Prop := ∀ i < ldMaxGenerations, n ∉ (chain i).nodes

/-- Only the chains have changed, and only links of nodes that are in one. -/
structure OnlyChains (D D' : Directory) (chain : ℕ → Chain) : Prop where
  eq : D' = { D with table := D'.table, next := D'.next, prev := D'.prev }
  next : ∀ n, Unchained chain n → D'.next n = D.next n

variable {D D' : Directory} {chain : ℕ → Chain} {i j n : ℕ}

/-! ## Reading the links -/

theorem after_split {l r : List ℕ} (hn : n ∉ l) : after n (l ++ n :: r) = (r ++ l).headD n := by
  have hdrop : ∀ h, (l ++ n :: r ++ [h]).dropWhile (· ≠ n) = n :: (r ++ [h]) := by
    intro h
    rw [List.append_assoc, List.dropWhile_append_of_pos]
    · simp
    · intro a ha
      have : a ≠ n := fun he => hn (he ▸ ha)
      simpa using this
  cases l with
  | nil =>
    have := hdrop n
    simp only [List.nil_append, List.append_nil] at this ⊢
    rw [after, this, List.tail_cons]
    cases r <;> rfl
  | cons a l =>
    have := hdrop a
    rw [List.cons_append] at this ⊢
    rw [after, this, List.tail_cons]
    cases r <;> rfl

variable {next prev : ℕ → ℕ}

theorem after_eq {xs : List ℕ} (hr : Ring next prev xs) (hn : n ∈ xs) :
    after n xs = next n := by
  obtain ⟨l, r, rfl⟩ := List.append_of_mem hn
  have hnl : n ∉ l := by
    have := hr.nodup
    rw [List.nodup_middle, List.nodup_cons, List.mem_append, not_or] at this
    exact this.1.1
  rw [after_split hnl]
  have hrot : Ring next prev (n :: (r ++ l)) := by simpa using hr.rotate
  exact hrot.next_head.1.symm

theorem Chains.index_eq (h : Chains D chain) (hi : i < ldMaxGenerations) (hj : j < ldMaxGenerations)
    (hni : n ∈ (chain i).nodes) (hnj : n ∈ (chain j).nodes) : i = j := by
  have h₁ := h.gen i hi n hni
  have h₂ := h.gen j hj n hnj
  omega

variable {g a : ℕ}

theorem getGenerationIndex_eq (hi : i < ldMaxGenerations)
    (hg : g + i = D.highestGeneration) : getGenerationIndex D g = .ok i := by
  have h₁ : g ≤ D.highestGeneration ∧ D.highestGeneration - g < ldMaxGenerations := by omega
  have h₂ : D.highestGeneration - g = i := by omega
  rw [getGenerationIndex, ensure_pos h₁, h₂]
  rfl

variable {chain : ℕ → Chain}

theorem mem_takeOut (hn : (chain i).nodes.Nodup) :
    a ∈ (takeOut chain i n j).nodes ↔ a ∈ (chain j).nodes ∧ ¬(a = n ∧ j = i) := by
  unfold takeOut
  by_cases hji : j = i
  · subst hji
    rw [update_self, Chain.unlink, mem_unlink hn]
    tauto
  · simp [hji]

theorem mem_putIn :
    a ∈ (putIn chain i n j).nodes ↔ a ∈ (chain j).nodes ∨ (a = n ∧ j = i) := by
  unfold putIn
  by_cases hji : j = i
  · subst hji
    rw [update_self, Chain.link, mem_link]
    tauto
  · simp [hji]

/-! ## Changing the links -/

theorem head_unlink {C : Chain} {g : GT} (hr : Ring next prev C.nodes)
    (hn : n ∈ C.nodes) (hg : g = C.entry) : g.headWithout prev n = (unlink n C.nodes).headD 0 := by
  have hhead : g.head = C.nodes.headD 0 := by rw [hg]; rfl
  rw [GT.headWithout, hhead]
  generalize C.nodes = nodes at *
  match nodes with
  | h :: xs =>
    rw [List.headD_cons]
    by_cases he : h = n
    · subst he
      have hp := hr.next_head.2
      rw [if_pos rfl, unlink, if_pos rfl, hp]
      rcases List.eq_nil_or_concat xs with rfl | ⟨ys, b, rfl⟩
      · simp [lastFirst]
      · have hb : b ≠ h := by
          have := hr.nodup
          rintro rfl
          simp at this
        rw [List.concat_eq_append, lastFirst_concat]
        simp [List.getLastD_eq_getLast?, hb]
    · rw [if_neg he, if_neg he, unlink, if_neg he]
      rfl

theorem unchainAt_spec (h : Chains D chain) (hi : i < ldMaxGenerations) (hn : n ∈ (chain i).nodes) :
    ∃ D', unchainAt D i n = .ok D' ∧ Chains D' (takeOut chain i n) ∧ OnlyChains D D' chain := by
  have hr := h.ring i hi
  have he := h.entry i hi
  have hpos : 0 < (D.table i).count := by
    rw [he]
    exact List.length_pos_of_mem hn
  have hlinks : D.prev n ≠ 0 ∧ D.next n ≠ 0 :=
    ⟨h.ne_zero i hi _ (hr.prev_mem hn), h.ne_zero i hi _ (hr.next_mem hn)⟩
  have hout : ∀ j < ldMaxGenerations, j ≠ i → ∀ a ∈ (chain j).nodes,
      a ≠ n ∧ a ≠ D.prev n ∧ a ≠ D.next n := by
    intro j hj hji a ha
    refine ⟨?_, ?_, ?_⟩ <;> rintro rfl
    · exact hji (h.index_eq hj hi ha hn)
    · exact hji (h.index_eq hj hi ha (hr.prev_mem hn))
    · exact hji (h.index_eq hj hi ha (hr.next_mem hn))
  refine ⟨_, by rw [unchainAt, ensure_pos hpos, ok_bind, ensure_pos hlinks, ok_bind], ?_, ?_⟩
  · refine ⟨?_, ?_, ?_, ?_⟩
    · intro j hj
      by_cases hji : j = i
      · subst hji
        rw [takeOut, update_self]
        exact hr.unlink hn
      · rw [takeOut, update_of_ne hji]
        refine (h.ring j hj).congr ?_ ?_
        · intro a ha
          obtain ⟨h₁, h₂, -⟩ := hout j hj hji a ha
          simp [h₁, h₂]
        · intro a ha
          obtain ⟨h₁, -, h₃⟩ := hout j hj hji a ha
          simp [h₁, h₃]
    · intro j hj
      by_cases hji : j = i
      · subst hji
        simp only [takeOut, update_self, Chain.entry, Chain.unlink, Chain.head,
          GT.cursorWithout, head_unlink hr hn he, length_unlink hn, after_eq hr hn]
        simp only [he, Chain.entry]
      · simp only [takeOut, update_of_ne hji]
        exact h.entry j hj
    · intro j hj a ha
      rw [mem_takeOut hr.nodup] at ha
      exact h.gen j hj a ha.1
    · intro j hj a ha
      rw [mem_takeOut hr.nodup] at ha
      exact h.ne_zero j hj a ha.1
  · refine ⟨rfl, fun a ha => ?_⟩
    have h₁ : a ≠ n := fun he => ha i hi (he ▸ hn)
    have h₂ : a ≠ D.prev n := fun he => ha i hi (he ▸ hr.prev_mem hn)
    simp [h₁, h₂]

theorem unchainNode_spec (h : Chains D chain) (hi : i < ldMaxGenerations) (hn : n ∈ (chain i).nodes) :
    ∃ D', unchainNode D n = .ok D' ∧ Chains D' (takeOut chain i n) ∧ OnlyChains D D' chain := by
  obtain ⟨D', hD', h'⟩ := unchainAt_spec h hi hn
  refine ⟨D', ?_, h'⟩
  rw [unchainNode, getGenerationIndex_eq hi (h.gen i hi n hn), ok_bind, hD']

theorem chainAt_cons {hd : ℕ} (hhead : (D.table i).head = hd) (hd0 : hd ≠ 0)
    (hnull : update D.next n (D.next hd) hd ≠ 0) :
    chainAt D i n = .ok { D with
      table := update D.table i { D.table i with count := (D.table i).count + 1 }
      next := update (update D.next n (D.next hd)) hd n
      prev := update
        (update D.prev (update D.next n (D.next hd) hd) n) n hd } := by
  subst hhead
  rw [chainAt, if_neg hd0]
  simp only [ensure_pos hnull, ok_bind]

/-- `chain_node` puts a node into the chain of its generation. -/
theorem chainNode_spec (h : Chains D chain) (hi : i < ldMaxGenerations) (hn : Unchained chain n)
    (hn0 : n ≠ 0) (hg : D.generation n + i = D.highestGeneration) :
    ∃ D', chainNode D n = .ok D' ∧ Chains D' (putIn chain i n) ∧
      D' = { D with table := D'.table, next := D'.next, prev := D'.prev } ∧
      ∀ a, Unchained chain a → a ≠ n → D'.next a = D.next a := by
  have hr := h.ring i hi
  have he := h.entry i hi
  rw [chainNode, getGenerationIndex_eq hi hg, ok_bind]
  have hgen : ∀ j < ldMaxGenerations, ∀ a ∈ (putIn chain i n j).nodes,
      D.generation a + j = D.highestGeneration := by
    intro j hj a ha
    rw [mem_putIn] at ha
    rcases ha with ha | ⟨rfl, rfl⟩
    · exact h.gen j hj a ha
    · exact hg
  have hzero : ∀ j < ldMaxGenerations, ∀ a ∈ (putIn chain i n j).nodes, a ≠ 0 := by
    intro j hj a ha
    rw [mem_putIn] at ha
    rcases ha with ha | ⟨rfl, rfl⟩
    · exact h.ne_zero j hj a ha
    · exact hn0
  cases hc : (chain i).nodes with
  | nil =>
    have hhead : (D.table i).head = 0 := by
      rw [he, Chain.entry, Chain.head, hc]
      rfl
    refine ⟨_, if_pos hhead, ⟨?_, ?_, hgen, hzero⟩, rfl, ?_⟩
    · intro j hj
      by_cases hji : j = i
      · subst hji
        simp only [putIn, update_self, Chain.link, hc]
        exact ring_self _ _ _
      · rw [putIn, update_of_ne hji]
        refine (h.ring j hj).congr ?_ ?_
        all_goals
          intro a ha
          have : a ≠ n := fun he => hn j hj (he ▸ ha)
          simp [this]
    · intro j hj
      by_cases hji : j = i
      · subst hji
        simp [putIn, he, Chain.entry, Chain.link, hc, LinkedRing.link, Chain.head]
      · simp only [putIn, update_of_ne hji]
        exact h.entry j hj
    · intro a _ ha
      simp [ha]
  | cons hd tl =>
    have hhead : (D.table i).head = hd := by
      rw [he, Chain.entry, Chain.head, hc]
      rfl
    have hd_mem : hd ∈ (chain i).nodes := by simp [hc]
    have hd0 : hd ≠ 0 := h.ne_zero i hi hd hd_mem
    have hnd : hd ≠ n := fun he => hn i hi (he ▸ hd_mem)
    have hnx : D.next hd ∈ (chain i).nodes := hr.next_mem hd_mem
    have hnull : update D.next n (D.next hd) hd ≠ 0 := by
      rw [update_of_ne hnd]
      exact h.ne_zero i hi _ hnx
    rw [hc] at hr
    have hring := hr.link (n := n) (by rw [← hc]; exact hn i hi)
    have heq := chainAt_cons (D := D) (n := n) hhead hd0 hnull
    refine ⟨_, heq, ⟨?_, ?_, hgen, hzero⟩, rfl, ?_⟩
    · intro j hj
      by_cases hji : j = i
      · subst hji
        simp only [putIn, update_self, Chain.link, hc]
        rw [update_of_ne hnd]
        exact hring
      · rw [putIn, update_of_ne hji]
        refine (h.ring j hj).congr ?_ ?_
        · intro a ha
          have h₁ : a ≠ n := fun he => hn j hj (he ▸ ha)
          have h₂ : a ≠ hd := fun he => hji (h.index_eq hj hi (he ▸ ha) hd_mem)
          simp [h₁, h₂]
        · intro a ha
          have h₁ : a ≠ n := fun he => hn j hj (he ▸ ha)
          have h₂ : a ≠ D.next hd := fun he => hji (h.index_eq hj hi (he ▸ ha) hnx)
          simp [h₁, h₂, hnd]
    · intro j hj
      by_cases hji : j = i
      · subst hji
        simp [putIn, he, Chain.entry, Chain.link, hc, LinkedRing.link, Chain.head]
      · simp only [putIn, update_of_ne hji]
        exact h.entry j hj
    · intro a ha han
      have : a ≠ hd := fun he => ha i hi (he ▸ hd_mem)
      simp [han, this]

/-! ## Moving a node to another chain -/

theorem Chains.congr (h : Chains D chain) (ht : D'.table = D.table)
    (hh : D'.highestGeneration = D.highestGeneration)
    (hnext : ∀ a, ¬Unchained chain a → D'.next a = D.next a)
    (hprev : ∀ a, ¬Unchained chain a → D'.prev a = D.prev a)
    (hgen : ∀ a, ¬Unchained chain a → D'.generation a = D.generation a) : Chains D' chain := by
  have hin : ∀ i < ldMaxGenerations, ∀ a ∈ (chain i).nodes, ¬Unchained chain a :=
    fun i hi a ha hun => hun i hi ha
  refine ⟨?_, ?_, ?_, h.ne_zero⟩
  · intro i hi
    exact (h.ring i hi).congr (fun a ha => hnext a (hin i hi a ha)) fun a ha => hprev a (hin i hi a ha)
  · intro i hi
    rw [ht]
    exact h.entry i hi
  · intro i hi a ha
    rw [hh, hgen a (hin i hi a ha)]
    exact h.gen i hi a ha

theorem Chains.setEntry (h : Chains D chain) (hn : Unchained chain n) (od : ObjectDescriptor) (g : ℕ) :
    Chains (setEntry D n od g) chain := by
  refine h.congr rfl rfl (fun _ _ => rfl) (fun _ _ => rfl) ?_
  intro a ha
  have : a ≠ n := by
    rintro rfl
    exact ha hn
  simp [LogDirectory.setEntry, this]

theorem unchained_takeOut (h : Chains D chain) (hi : i < ldMaxGenerations) (hn : n ∈ (chain i).nodes) :
    Unchained (takeOut chain i n) n := by
  intro j hj hm
  rw [mem_takeOut (h.ring i hi).nodup] at hm
  exact hm.2 ⟨rfl, h.index_eq hj hi hm.1 hn⟩

theorem Unchained.out (h : Unchained chain a) (hn : (chain i).nodes.Nodup) :
    Unchained (takeOut chain i n) a := by
  intro j hj hm
  rw [mem_takeOut hn] at hm
  exact h j hj hm.1

/-- A node gets another entry and goes into the chain of its generation. -/
theorem swapEntry_spec (h : Chains D chain) (hi : i < ldMaxGenerations) (hn : n ∈ (chain i).nodes)
    (hj : j < ldMaxGenerations) (od : ObjectDescriptor) (hg : g + j = D.highestGeneration) :
    ∃ D', swapEntry D n od g = .ok D' ∧ Chains D' (putIn (takeOut chain i n) j n) ∧
      D' = { setEntry D n od g with table := D'.table, next := D'.next, prev := D'.prev } ∧
      ∀ a, Unchained chain a → D'.next a = D.next a := by
  obtain ⟨D₁, hun, h₁, honly⟩ := unchainNode_spec h hi hn
  have hfree := unchained_takeOut h hi hn
  have h₂ := h₁.setEntry hfree od g
  have hg' : (setEntry D₁ n od g).generation n + j = (setEntry D₁ n od g).highestGeneration := by
    have hh : D₁.highestGeneration = D.highestGeneration := by rw [honly.eq]
    simp only [setEntry, update_self, hh, hg]
  obtain ⟨D', hch, h', heq, hnext⟩ := chainNode_spec h₂ hj hfree (h.ne_zero i hi n hn) hg'
  refine ⟨D', ?_, h', ?_, ?_⟩
  · rw [swapEntry, hun, ok_bind, hch]
  · rw [heq]
    simp only [setEntry]
    rw [honly.eq]
  · intro a ha
    have han : a ≠ n := by
      rintro rfl
      exact ha i hi hn
    rw [hnext a (ha.out (h.ring i hi).nodup) han]
    exact honly.next a ha

end CapROS.LogDirectory
