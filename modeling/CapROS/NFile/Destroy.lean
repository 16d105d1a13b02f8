import CapROS.NFile.Inodes
import Mathlib.Data.List.Nodup

/-!
# Destroying a file

* `reclaim_spec`: `reclaim_ino_pages` frees these blocks.
* `destroy_spec`: `destroy_file`.
-/

namespace CapROS.NFile

open Cells Bytes

variable {ss ss' ss'' : Server} {g g' g'' : Ghost} {b i j k m n p id ino lvl : ℕ} {mem mem' : ℕ → UInt8}
  {f : Option ℕ} {l l' : List ℕ}

/-- The blocks that `reclaim_ino_pages` frees. -/
def blocksOf (mem : ℕ → UInt8) : ℕ → ℕ → List ℕ
  | 0, p => if p = 0 then [] else [p]
  | lvl + 1, p =>
    if p = 0 then []
    else ((List.range PtrsPerBlock).flatMap fun i => blocksOf mem lvl (ptr mem p i)) ++ [p]

/-- The blocks of the file with the inode at `ino`. -/
def fileBlocks (mem : ℕ → UInt8) (ino : ℕ) : List ℕ :=
  (List.range INO_NINDIR).flatMap fun i => blocksOf mem (nLayer mem ino) (ptr mem (indir ino) i)

theorem blocksOf_zero : blocksOf mem lvl 0 = [] := by cases lvl <;> rfl

theorem mem_blocksOf_self (hp : p ≠ 0) : p ∈ blocksOf mem lvl p := by
  cases lvl with
  | zero =>
    rw [blocksOf, if_neg hp]
    exact List.mem_singleton_self p
  | succ lvl =>
    rw [blocksOf, if_neg hp]
    exact List.mem_append_right _ (List.mem_singleton_self p)

theorem blocksOf_congr (h : ∀ b ∈ blocksOf mem lvl p, Same mem mem' b (b + BLOCK_SIZE)) :
    blocksOf mem' lvl p = blocksOf mem lvl p := by
  induction lvl generalizing p with
  | zero => rfl
  | succ lvl ih =>
    by_cases hp : p = 0
    · rw [hp, blocksOf_zero, blocksOf_zero]
    · have hself := h p (mem_blocksOf_self hp)
      rw [blocksOf, if_neg hp] at h
      rw [blocksOf, blocksOf, if_neg hp, if_neg hp]
      refine congrArg (· ++ [p]) (List.flatMap_congr fun i hi => ?_)
      have hi' := List.mem_range.1 hi
      simp only [PtrsPerBlock] at hi'
      rw [hself.ptr (by omega) (by simp only [BLOCK_SIZE]; omega)]
      exact ih fun b hb => h b (List.mem_append_left _ (List.mem_flatMap.2 ⟨i, hi, hb⟩))

/-! ## Freeing blocks -/

/-- Blocks have been freed, the last one first. -/
def Ghost.releaseAll (g : Ghost) (l : List ℕ) : Ghost :=
  { g with own := fun b => if b ∈ l then some .free else g.own b, free := l.reverse ++ g.free }

theorem Ghost.own_releaseAll (hb : b ∉ l) : (g.releaseAll l).own b = g.own b := if_neg hb

theorem Ghost.releaseAll_nil : g.releaseAll [] = g := by simp [releaseAll]

theorem Ghost.releaseAll_append : (g.releaseAll l).releaseAll l' = g.releaseAll (l ++ l') := by
  simp only [releaseAll, List.reverse_append, List.append_assoc, List.mem_append, Ghost.mk.injEq, and_true, true_and]
  funext b
  by_cases hb : b ∈ l
  · simp [hb]
  · simp [hb]

theorem Ghost.releaseAll_singleton : g.releaseAll [b] = g.release b := by
  simp only [releaseAll, release, List.mem_singleton, List.reverse_singleton, List.singleton_append, Ghost.mk.injEq,
    and_true, true_and]
  funext b'
  exact (Function.update_apply _ _ _ _).symm

/-- The blocks of the list have been freed. -/
structure Freed (ss : Server) (g : Ghost) (l : List ℕ) (ss' : Server) : Prop where
  shape : Shape ss' (g.releaseAll l)
  arch : ss'.arch = ss.arch
  first_free_inode : ss'.first_free_inode = ss.first_free_inode
  same : ∀ i, (∀ b ∈ l, i < b ∨ b + BLOCK_SIZE ≤ i) → ss'.mem i = ss.mem i

theorem Freed.nil (h : Shape ss g) : Freed ss g [] ss :=
  ⟨Ghost.releaseAll_nil.symm ▸ h, rfl, rfl, fun _ _ => rfl⟩

theorem Freed.append (h : Freed ss g l ss') (h' : Freed ss' (g.releaseAll l) l' ss'') : Freed ss g (l ++ l') ss'' where
  shape := Ghost.releaseAll_append ▸ h'.shape
  arch := h'.arch.trans h.arch
  first_free_inode := h'.first_free_inode.trans h.first_free_inode
  same i hi := (h'.same i fun b hb => hi b (List.mem_append_right l hb)).trans
    (h.same i fun b hb => hi b (List.mem_append_left l' hb))

theorem Freed.block (hs : Shape ss g) (h : Freed ss g l ss') (hlost : ∀ b ∈ l, g.own b = some .lost) {place : Place}
    (hp : g.own p = some place) (hnot : p ∉ l) : Same ss.mem ss'.mem p (p + BLOCK_SIZE) := by
  intro i hl hr
  refine h.same i fun b hb => ?_
  have hne : b ≠ p := fun heq => hnot (heq ▸ hb)
  have := hs.apart (hlost b hb) hp hne
  omega

theorem Freed.freeBlock (h : Shape ss g) (hb : g.own b = some .lost) :
    ∃ ss', NFile.freeBlock b ss = .ok () ss' ∧ Freed ss g [b] ss' := by
  obtain ⟨ss', hrun, hshape, harch, -, hfirst, -, hsame⟩ := h.freeBlock hb
  exact ⟨ss', hrun, Ghost.releaseAll_singleton ▸ hshape, harch, hfirst, fun i hi => hsame i (hi b List.mem_cons_self)⟩

theorem forRange_reclaim (hreclaim : ∀ {ss g p}, Shape ss g → (∀ b ∈ blocksOf ss.mem lvl p, g.own b = some .lost) →
      (blocksOf ss.mem lvl p).Nodup →
      ∃ ss', reclaim_ino_pages lvl p ss = .ok () ss' ∧ Freed ss g (blocksOf ss.mem lvl p) ss')
    (h : Shape ss g) (hp : g.own p = some .lost) (hin : i + n ≤ PtrsPerBlock)
    (hl : l = (List.range' i n).flatMap fun i => blocksOf ss.mem lvl (ptr ss.mem p i))
    (hlost : ∀ b ∈ l, g.own b = some .lost) (hnodup : l.Nodup) (hnot : p ∉ l) :
    ∃ ss', forRange (fun i => do
        let ss ← get
        reclaim_ino_pages lvl (ptr ss.mem p i)) n i ss = .ok () ss' ∧ Freed ss g l ss' := by
  induction n generalizing ss g i l with
  | zero =>
    subst hl
    exact ⟨ss, rfl, Freed.nil h⟩
  | succ n ih =>
    subst hl
    obtain ⟨hnodup₁, hnodup₂, hdisj⟩ := List.nodup_append.1 hnodup
    obtain ⟨hnot₁, hnot₂⟩ := not_or.1 (mt List.mem_append.2 hnot)
    have hlost₁ := fun b hb => hlost b (List.mem_append_left _ hb)
    obtain ⟨ss₁, hrun₁, hfreed₁⟩ := hreclaim h hlost₁ hnodup₁
    -- The other blocks have not changed.
    have hptr : ∀ i' ∈ List.range' (i + 1) n, blocksOf ss₁.mem lvl (ptr ss₁.mem p i') =
        blocksOf ss.mem lvl (ptr ss.mem p i') := by
      intro i' hi'
      have hi'' := (List.mem_range'_1.1 hi').2
      simp only [PtrsPerBlock] at hin
      rw [(hfreed₁.block h hlost₁ hp hnot₁).ptr (by omega) (by simp only [BLOCK_SIZE]; omega)]
      refine blocksOf_congr fun b hb => ?_
      have hmem : b ∈ (List.range' (i + 1) n).flatMap fun i => blocksOf ss.mem lvl (ptr ss.mem p i) :=
        List.mem_flatMap.2 ⟨i', hi', hb⟩
      exact hfreed₁.block h hlost₁ (hlost b (List.mem_append_right _ hmem)) fun hb' => hdisj b hb' b hmem rfl
    have hrest := List.flatMap_congr hptr
    have hown : ∀ b, b ∉ blocksOf ss.mem lvl (ptr ss.mem p i) →
        (g.releaseAll (blocksOf ss.mem lvl (ptr ss.mem p i))).own b = g.own b := fun b hb => Ghost.own_releaseAll hb
    obtain ⟨ss₂, hrun₂, hfreed₂⟩ := ih hfreed₁.shape ((hown p hnot₁).trans hp) (by omega) hrest.symm
      (fun b hb => (hown b fun hb' => hdisj b hb' b hb rfl).trans (hlost b (List.mem_append_right _ hb))) hnodup₂ hnot₂
    refine ⟨ss₂, ?_, hfreed₁.append hfreed₂⟩
    rw [forRange]
    exact (bind_ok hrun₁).trans hrun₂

/-- `reclaim_ino_pages` frees the blocks of a tree. -/
theorem reclaim_spec (h : Shape ss g) (hlost : ∀ b ∈ blocksOf ss.mem lvl p, g.own b = some .lost)
    (hnodup : (blocksOf ss.mem lvl p).Nodup) :
    ∃ ss', reclaim_ino_pages lvl p ss = .ok () ss' ∧ Freed ss g (blocksOf ss.mem lvl p) ss' := by
  induction lvl generalizing ss g p with
  | zero =>
    rw [reclaim_ino_pages, blocksOf]
    split_ifs with hp
    · exact ⟨ss, rfl, Freed.nil h⟩
    · exact Freed.freeBlock h (hlost p (mem_blocksOf_self hp))
  | succ lvl ih =>
    rw [reclaim_ino_pages]
    by_cases hp : p = 0
    · rw [if_pos hp, hp, blocksOf_zero]
      exact ⟨ss, rfl, Freed.nil h⟩
    · rw [if_neg hp]
      rw [blocksOf, if_neg hp] at hlost hnodup ⊢
      obtain ⟨hnodup₁, -, hdisj⟩ := List.nodup_append.1 hnodup
      have hp' := hlost p (List.mem_append_right _ (List.mem_singleton_self p))
      have hnot : p ∉ (List.range PtrsPerBlock).flatMap fun i => blocksOf ss.mem lvl (ptr ss.mem p i) :=
        fun hmem => hdisj p hmem p (List.mem_singleton_self p) rfl
      have hrange : (List.range PtrsPerBlock).flatMap (fun i => blocksOf ss.mem lvl (ptr ss.mem p i)) =
          (List.range' 0 PtrsPerBlock).flatMap fun i => blocksOf ss.mem lvl (ptr ss.mem p i) := by
        rw [List.range_eq_range']
      obtain ⟨ss₁, hrun₁, hfreed₁⟩ := forRange_reclaim (i := 0) (n := PtrsPerBlock) ih h hp' (Nat.zero_add PtrsPerBlock).le hrange
        (fun b hb => hlost b (List.mem_append_left _ hb)) hnodup₁ hnot
      obtain ⟨ss₂, hrun₂, hfreed₂⟩ := Freed.freeBlock hfreed₁.shape ((Ghost.own_releaseAll hnot).trans hp')
      exact ⟨ss₂, (bind_ok hrun₁).trans hrun₂, hfreed₁.append hfreed₂⟩

/-! ## The blocks of a file -/

/-- The blocks of data. -/
def Tree.leaves (t : Tree) (n : ℕ) : List ℕ := (List.range n).flatMap fun k => if t.leaf k = 0 then [] else [t.leaf k]

theorem Tree.mem_leaves {t : Tree} : b ∈ t.leaves n ↔ b ≠ 0 ∧ ∃ k < n, t.leaf k = b := by
  simp only [leaves, List.mem_flatMap, List.mem_range]
  constructor
  · rintro ⟨k, hk, hb⟩
    split_ifs at hb with hzero
    · exact absurd hb List.not_mem_nil
    · obtain rfl := List.mem_singleton.1 hb
      exact ⟨hzero, k, hk, rfl⟩
  · rintro ⟨hb, k, hk, rfl⟩
    exact ⟨k, hk, by rw [if_neg hb]; exact List.mem_singleton_self _⟩

theorem Shape.nodup_leaves (h : Shape ss g) : ((g.tree f).leaves n).Nodup := by
  refine List.nodup_flatMap.2 ⟨fun k _ => ?_, ?_⟩
  · split_ifs
    · exact List.nodup_nil
    · exact List.nodup_singleton _
  · refine List.nodup_range.imp fun {k k'} hne => ?_
    -- A block is in one place only.
    have hown : ∀ b k, b ∈ (if (g.tree f).leaf k = 0 then [] else [(g.tree f).leaf k]) →
        g.own b = some (.leaf f k) := by
      intro b k hb
      split_ifs at hb with hzero
      · exact absurd hb List.not_mem_nil
      · obtain rfl := List.mem_singleton.1 hb
        exact (h.own_leaf _ f k).2 ⟨hzero, rfl⟩
    intro b hb hb'
    have hk := hown b k hb
    rw [hown b k' hb'] at hk
    exact hne (Place.leaf.inj (Option.some.inj hk)).2.symm

theorem TreeAt.fileBlocks_eq {t : Tree} (h : TreeAt mem ino t) :
    fileBlocks mem ino = if t.layers = 0 then t.leaves INO_NINDIR else t.leaves PtrsPerBlock ++ [t.node 0] := by
  rw [fileBlocks, h.layers]
  split_ifs with hl
  · rw [hl]
    refine List.flatMap_congr fun k hk => ?_
    rw [h.top k (List.mem_range.1 hk), hl]
    rfl
  · have hl1 : t.layers = 1 := by
      have := h.layers_le
      omega
    have hnode : t.node 0 ≠ 0 := (h.node_ne 0).2 (by omega)
    rw [hl1, show INO_NINDIR = 10 + 1 from rfl, List.range_succ_eq_map, List.flatMap_cons]
    have hfirst : blocksOf mem 1 (ptr mem (indir ino) 0) = t.leaves PtrsPerBlock ++ [t.node 0] := by
      rw [h.top 0 (by decide), hl1]
      change blocksOf mem (0 + 1) (t.node 0) = _
      rw [blocksOf, if_neg hnode]
      refine congrArg (· ++ [t.node 0]) (List.flatMap_congr fun k hk => ?_)
      rw [h.table 0 (by omega) k (List.mem_range.1 hk)]
      rfl
    rw [hfirst, List.flatMap_eq_nil_iff.2, List.append_nil]
    intro k hk
    obtain ⟨k', hk', rfl⟩ := List.mem_map.1 hk
    have hk' := List.mem_range.1 hk'
    rw [h.top _ (by simp only [INO_NINDIR]; omega), hl1]
    change blocksOf mem 1 (if k'.succ = 0 then t.node 0 else 0) = []
    rw [if_neg (Nat.succ_ne_zero k'), blocksOf_zero]

namespace Shape

theorem mem_fileBlocks (h : Shape ss g) (hf : g.Live f) :
    b ∈ fileBlocks ss.mem (g.inode f) ↔ (∃ j, g.own b = some (.node f j)) ∨ ∃ k, g.own b = some (.leaf f k) := by
  have ht := h.trees f hf
  simp only [h.own_node, h.own_leaf]
  rw [ht.fileBlocks_eq]
  split_ifs with hl
  · rw [Tree.mem_leaves]
    constructor
    · rintro ⟨hb, k, -, hk⟩
      exact .inr ⟨k, hb, hk⟩
    · rintro (⟨j, hb, hj⟩ | ⟨k, hb, hk⟩)
      · have := (ht.node_ne j).1 (by rwa [hj])
        omega
      · exact ⟨hb, k, (lt_of_width (ht.leaf_lt k (by rwa [hk]))).2 hl, hk⟩
  · rw [List.mem_append, Tree.mem_leaves, List.mem_singleton]
    constructor
    · rintro (⟨hb, k, -, hk⟩ | rfl)
      · exact .inr ⟨k, hb, hk⟩
      · exact .inl ⟨0, (ht.node_ne 0).2 (by omega), rfl⟩
    · rintro (⟨j, hb, hj⟩ | ⟨k, hb, hk⟩)
      · have hlt := (ht.node_ne j).1 (by rwa [hj])
        have hle := ht.layers_le
        obtain rfl : j = 0 := by omega
        exact .inr hj.symm
      · exact .inl ⟨hb, k, (lt_of_width (ht.leaf_lt k (by rwa [hk]))).1, hk⟩

theorem nodup_fileBlocks (h : Shape ss g) (hf : g.Live f) : (fileBlocks ss.mem (g.inode f)).Nodup := by
  have ht := h.trees f hf
  rw [ht.fileBlocks_eq]
  split_ifs with hl
  · exact h.nodup_leaves
  · refine List.nodup_append.2 ⟨h.nodup_leaves, List.nodup_singleton _, ?_⟩
    rintro b hb p hp rfl
    obtain ⟨hne, k, -, hk⟩ := Tree.mem_leaves.1 hb
    -- A block of pointers is no block of data.
    have hnode := (h.own_node b f 0).2 ⟨hne, (List.mem_singleton.1 hp).symm⟩
    rw [(h.own_leaf b f k).2 ⟨hne, hk⟩] at hnode
    cases hnode

end Shape

/-! ## `destroy_file` -/

/-- A part of the loop of `destroy_file`, for the pointers from the index `i` on. -/
structure Reclaimed (ss : Server) (g : Ghost) (id i n : ℕ) (l : List ℕ) (ss' : Server) : Prop where
  shape : Shape ss' (g.releaseAll l)
  arch : ss'.arch = ss.arch
  first_free_inode : ss'.first_free_inode = ss.first_free_inode
  same : ∀ a, (∀ b ∈ l, a < b ∨ b + BLOCK_SIZE ≤ a) → a < g.inode (some id) + 20 ∨ g.inode (some id) + 64 ≤ a →
    ss'.mem a = ss.mem a
  zero : ∀ k, i ≤ k → k < i + n → ptr ss'.mem (indir (g.inode (some id))) k = 0
  old : ∀ k < INO_NINDIR, k < i ∨ i + n ≤ k →
    ptr ss'.mem (indir (g.inode (some id))) k = ptr ss.mem (indir (g.inode (some id))) k

theorem Reclaimed.nil (h : Shape ss g) : Reclaimed ss g id i 0 [] ss :=
  ⟨Ghost.releaseAll_nil.symm ▸ h, rfl, rfl, fun _ _ _ => rfl, fun k hl hr => by omega, fun _ _ _ => rfl⟩

theorem Reclaimed.append (h : Reclaimed ss g id i 1 l ss') (h' : Reclaimed ss' (g.releaseAll l) id (i + 1) n l' ss'')
    (hin : i < INO_NINDIR) : Reclaimed ss g id i (n + 1) (l ++ l') ss'' where
  shape := Ghost.releaseAll_append ▸ h'.shape
  arch := h'.arch.trans h.arch
  first_free_inode := h'.first_free_inode.trans h.first_free_inode
  same a ha ha' := (h'.same a (fun b hb => ha b (List.mem_append_right l hb)) ha').trans
    (h.same a (fun b hb => ha b (List.mem_append_left l' hb)) ha')
  zero k hl hr := by
    obtain rfl | hne := eq_or_ne k i
    · exact (h'.old k hin (.inl (Nat.lt_succ_self k))).trans (h.zero k le_rfl (Nat.lt_succ_self k))
    · exact h'.zero k (by omega) (by omega)
  old k hk hout := (h'.old k hk (by omega)).trans (h.old k hk (by omega))

theorem destroyStep_spec (h : Shape ss g) (hid : g.Exists id) (hfree : id ∉ g.freeIno) (hlive : ¬g.live id)
    (hin : i < INO_NINDIR)
    (hl : l = blocksOf ss.mem (nLayer ss.mem (g.inode (some id))) (ptr ss.mem (indir (g.inode (some id))) i))
    (hlost : ∀ b ∈ l, g.own b = some .lost) (hnodup : l.Nodup) :
    ∃ ss', (do
        let ss ← get
        reclaim_ino_pages (nLayer ss.mem (g.inode (some id))) (ptr ss.mem (indir (g.inode (some id))) i)
        modifyMem fun mem => setPtr mem (indir (g.inode (some id))) i 0 : Op Unit) ss = .ok () ss' ∧
      Reclaimed ss g id i 1 l ss' := by
  subst hl
  obtain ⟨ss₁, hrun, hfreed⟩ := reclaim_spec h hlost hnodup
  generalize blocksOf ss.mem _ _ = l at *
  -- The inode is not in these blocks.
  have hino : Same ss.mem ss₁.mem (g.inode (some id)) (g.inode (some id) + 64) := fun a hl hr =>
    hfreed.same a fun b hb => by
      have := h.ino_block_apart hid (hlost b hb) (by simp)
      omega
  have hinode : (g.releaseAll l).inode (some id) = g.inode (some id) := rfl
  simp only [INO_NINDIR] at hin
  refine ⟨_, (bind_ok hrun).trans rfl, ?_, hfreed.arch, hfreed.first_free_inode, fun a ha ha' => ?_, fun k hl hr => ?_,
    fun k hk hout => ?_⟩
  · refine hfreed.shape.frame_inode hid hfree (fun a ha => ?_) ?_ fun hlive' => absurd hlive' hlive
    · rw [hinode] at ha
      exact setField_of_ne (by simp only [indir]; omega)
    · rw [hinode]
      exact same_setField (by simp only [indir]; omega)
  · refine (setField_of_ne ?_).trans (hfreed.same a ha)
    simp only [indir]
    omega
  · obtain rfl : k = i := by omega
    exact ptr_setPtr (by decide)
  · simp only [INO_NINDIR] at hk
    exact (ptr_setPtr_of_ne (by omega)).trans (hino.ptr (by simp only [indir]; omega) (by simp only [indir]; omega))

theorem destroyLoop_spec (h : Shape ss g) (hid : g.Exists id) (hfree : id ∉ g.freeIno) (hlive : ¬g.live id)
    (hin : i + n ≤ INO_NINDIR) (hl : l = (List.range' i n).flatMap fun i =>
      blocksOf ss.mem (nLayer ss.mem (g.inode (some id))) (ptr ss.mem (indir (g.inode (some id))) i))
    (hlost : ∀ b ∈ l, g.own b = some .lost) (hnodup : l.Nodup) :
    ∃ ss', forRange (fun i => do
        let ss ← get
        reclaim_ino_pages (nLayer ss.mem (g.inode (some id))) (ptr ss.mem (indir (g.inode (some id))) i)
        modifyMem fun mem => setPtr mem (indir (g.inode (some id))) i 0) n i ss = .ok () ss' ∧
      Reclaimed ss g id i n l ss' := by
  induction n generalizing ss g i l with
  | zero =>
    exact ⟨ss, rfl, hl ▸ Reclaimed.nil h⟩
  | succ n ih =>
    rw [List.range'_succ, List.flatMap_cons] at hl
    subst hl
    obtain ⟨hnodup₁, hnodup₂, hdisj⟩ := List.nodup_append.1 hnodup
    have hlost₁ := fun b hb => hlost b (List.mem_append_left _ hb)
    have hlost₂ := fun b hb => hlost b (List.mem_append_right _ hb)
    obtain ⟨ss₁, hrun₁, hrec₁⟩ := destroyStep_spec h hid hfree hlive (by omega) rfl hlost₁ hnodup₁
    generalize hl₁ : blocksOf ss.mem (nLayer ss.mem (g.inode (some id))) (ptr ss.mem (indir (g.inode (some id))) i) = l₁
      at *
    -- The blocks below the other pointers have not changed.
    have hrest : ∀ i' ∈ List.range' (i + 1) n,
        blocksOf ss₁.mem (nLayer ss₁.mem (g.inode (some id))) (ptr ss₁.mem (indir (g.inode (some id))) i') =
        blocksOf ss.mem (nLayer ss.mem (g.inode (some id))) (ptr ss.mem (indir (g.inode (some id))) i') := by
      intro i' hi'
      obtain ⟨hl, hr⟩ := List.mem_range'_1.1 hi'
      have hlayer : nLayer ss₁.mem (g.inode (some id)) = nLayer ss.mem (g.inode (some id)) := by
        refine getField_congr fun a hl hr => hrec₁.same a (fun b hb => ?_) (by omega)
        have := h.ino_block_apart hid (hlost₁ b hb) (by simp)
        omega
      rw [hrec₁.old i' (by omega) (by omega), hlayer]
      refine blocksOf_congr fun b hb a hl hr => hrec₁.same a (fun b' hb' => ?_) ?_
      · have hmem : b ∈ (List.range' (i + 1) n).flatMap fun i =>
            blocksOf ss.mem (nLayer ss.mem (g.inode (some id))) (ptr ss.mem (indir (g.inode (some id))) i) :=
          List.mem_flatMap.2 ⟨i', hi', hb⟩
        have := h.apart (hlost₁ b' hb') (hlost₂ b hmem) (hdisj b' hb' b hmem)
        omega
      · have hmem : b ∈ (List.range' (i + 1) n).flatMap fun i =>
            blocksOf ss.mem (nLayer ss.mem (g.inode (some id))) (ptr ss.mem (indir (g.inode (some id))) i) :=
          List.mem_flatMap.2 ⟨i', hi', hb⟩
        have := h.ino_block_apart hid (hlost₂ b hmem) (by simp)
        omega
    obtain ⟨ss₂, hrun₂, hrec₂⟩ := @ih ss₁ (g.releaseAll l₁) (i + 1) _ hrec₁.shape hid hfree hlive (by omega)
      (List.flatMap_congr hrest).symm
      (fun b hb => (Ghost.own_releaseAll fun hb' => hdisj b hb' b hb rfl).trans (hlost₂ b hb)) hnodup₂
    refine ⟨ss₂, ?_, hrec₁.append hrec₂ (by omega)⟩
    rw [forRange]
    exact (bind_ok hrun₁).trans hrun₂

/-- An inode goes on the free list. -/
def Ghost.push (g : Ghost) (id : ℕ) : Ghost := { g with freeIno := id :: g.freeIno }

namespace Shape

theorem first_inode_lt (h : Shape ss g) : ss.first_free_inode < 2 ^ 32 := by
  have hlinked := h.linkedIno
  cases hl : g.freeIno with
  | nil =>
    rw [hl] at hlinked
    exact hlinked ▸ Nat.two_pow_pos 32
  | cons n l =>
    rw [hl] at hlinked
    have := (h.inode_lt (h.freeIno_exists n (by rw [hl]; exact List.mem_cons_self))).2
    have hlt : g.inode (some n) < 2 ^ 32 := by omega
    exact hlinked.1 ▸ hlt

theorem push (h : Shape ss g) (hid : g.Exists id) (hfree : id ∉ g.freeIno) (hlive : ¬g.live id)
    (hzero : ∀ k < INO_NINDIR, ptr ss.mem (indir (g.inode (some id))) k = 0) :
    Shape { ss with
      mem := setNxtFree ss.mem (g.inode (some id)) ss.first_free_inode
      first_free_inode := g.inode (some id) } (g.push id) := by
  have hout : ∀ a, a < g.inode (some id) ∨ g.inode (some id) + 4 ≤ a →
      setNxtFree ss.mem (g.inode (some id)) ss.first_free_inode a = ss.mem a := fun a ha => setField_of_ne ha
  have hframe := h.frame_inode hid hfree (fun a ha => hout a (by omega))
    (fun a hl hr => hout a (by omega)) fun hlive' => absurd hlive' hlive
  refine { hframe with
    live_exists := fun n hn => ⟨(h.live_exists n hn).1, fun hmem => ?_⟩
    linkedIno := ⟨rfl, ?_⟩
    nodupIno := List.nodup_cons.2 ⟨hfree, h.nodupIno⟩
    freeIno_exists := fun n hn => ?_
    freeIno_zero := fun n hn k hk => ?_ }
  · obtain rfl | hmem := List.mem_cons.1 hmem
    · exact hlive hn
    · exact (h.live_exists n hn).2 hmem
  · have hnxt : nxt_free (setNxtFree ss.mem (g.inode (some id)) ss.first_free_inode) (g.inode (some id)) =
        ss.first_free_inode := getField_setField h.first_inode_lt
    have hinode : (g.push id).inode (some id) = g.inode (some id) := rfl
    dsimp only
    rw [hinode, hnxt]
    exact hframe.linkedIno
  · obtain rfl | hn := List.mem_cons.1 hn
    · exact hid
    · exact h.freeIno_exists n hn
  · obtain rfl | hn := List.mem_cons.1 hn
    · rw [← hzero k hk]
      exact getField_congr fun a hl hr => hout a (by
        change g.inode (some n) + 20 + 4 * k ≤ a at hl
        omega)
    · exact hframe.freeIno_zero n hn k hk

end Shape

/-- A file has been destroyed: its blocks are on the free list, and the other files are as before. -/
structure Destroyed (ss : Server) (g : Ghost) (id : ℕ) (ss' : Server) (g' : Ghost) : Prop where
  valid : Valid ss' g'
  live : ∀ n, g'.live n ↔ g.live n ∧ n ≠ id
  arch : ss'.arch = ss.arch
  free : g'.free = (fileBlocks ss.mem (g.inode (some id))).reverse ++ g.free
  keeps : ∀ n, g.live n → n ≠ id → KeepsFile ss g n ss' g'

theorem destroy_spec (h : Valid ss g) (hlive : g.live id) :
    ∃ ss' g', destroy_file (g.inode (some id)) ss = .ok () ss' ∧ Destroyed ss g id ss' g' := by
  have hs := h.shape
  have hmem := @Shape.mem_fileBlocks ss g
  have hnodup := hs.nodup_fileBlocks (f := some id) hlive
  obtain ⟨hid, hfree⟩ := hs.live_exists id hlive
  have hkill := hs.kill id
  have hnot : ¬(g.kill id).live id := fun hlive => hlive.2 rfl
  have hlost : ∀ b ∈ fileBlocks ss.mem (g.inode (some id)), (g.kill id).own b = some .lost := by
    intro b hb
    obtain ⟨j, hj⟩ | ⟨k, hk⟩ := (hmem hs (f := some id) hlive).1 hb
    · simp [Ghost.kill, hj, Place.kill]
    · simp [Ghost.kill, hk, Place.kill]
  have hinode : ∀ n, (g.kill id).inode (some n) = g.inode (some n) := fun n => by
    simp [Ghost.inode, Ghost.kill]
  obtain ⟨ss₁, hrun, hrec⟩ := destroyLoop_spec (i := 0) (n := INO_NINDIR) hkill hid hfree hnot (Nat.zero_add _).le
    (by rw [hinode, ← List.range_eq_range']; rfl) hlost hnodup
  have hpush := hrec.shape.push hid hfree hnot fun k hk => hrec.zero k (Nat.zero_le k) (by omega)
  have hzeroInode : ((g.kill id).releaseAll (fileBlocks ss.mem (g.inode (some id)))).inode (some id) =
      g.inode (some id) := hinode id
  -- What the file did not have is as before.
  have hsame : ∀ a, (∀ b ∈ fileBlocks ss.mem (g.inode (some id)), a < b ∨ b + BLOCK_SIZE ≤ a) →
      a < g.inode (some id) ∨ g.inode (some id) + 64 ≤ a →
      setNxtFree ss₁.mem (g.inode (some id)) ss₁.first_free_inode a = ss.mem a := by
    intro a ha ha'
    refine (setField_of_ne (by omega)).trans (hrec.same a ha ?_)
    rw [hinode]
    omega
  refine ⟨_, _, (bind_ok hrun).trans rfl, ⟨hpush, fun b hb => ?_, fun k hk => ?_, fun n hn => ?_⟩, fun n => Iff.rfl,
    hrec.arch, rfl, fun n hn hne => ?_⟩
  · by_cases hin : b ∈ fileBlocks ss.mem (g.inode (some id))
    · have hown : ((g.kill id).releaseAll (fileBlocks ss.mem (g.inode (some id)))).own b = some .free := if_pos hin
      exact absurd (hown.symm.trans hb) (by simp)
    · have hown : (g.kill id).own b = some .lost := (Ghost.own_releaseAll hin).symm.trans hb
      obtain ⟨place, hplace, hk⟩ := Option.map_eq_some_iff.1 hown
      -- Only the blocks of the file have become blocks in no place.
      obtain rfl | ⟨j, rfl⟩ | ⟨k, rfl⟩ := Place.kill_eq_lost.1 hk
      · exact h.lost b hplace
      · exact hin ((hmem hs (f := some id) hlive).2 (.inl ⟨j, hplace⟩))
      · exact hin ((hmem hs (f := some id) hlive).2 (.inr ⟨k, hplace⟩))
  · have htree : (g.kill id).tree none = g.tree none := Ghost.tree_kill (by simp)
    exact (congrArg (Tree.leaf · k) htree).trans (h.root k hk)
  · by_cases hne : n = id
    · exact .inr (hne ▸ List.mem_cons_self)
    · exact (h.full n hn).imp (fun hlive => ⟨hlive, hne⟩) fun hmem => List.mem_cons_of_mem id hmem
  · have htree : (g.kill id).tree (some n) = g.tree (some n) :=
      Ghost.tree_kill fun heq => hne (Option.some.inj heq)
    refine ⟨⟨hn, hne⟩, htree, hinode n, fun a hl hr => hsame a (fun b hb => ?_) ?_, fun k hk a hl hr =>
      hsame a (fun b hb => ?_) ?_⟩
    · have := hkill.ino_block_apart (hs.live_exists n hn).1 (hlost b hb) (by simp)
      rw [hinode] at this
      omega
    · have := hs.ino_apart (hs.live_exists n hn).1 hid hne
      omega
    · have hdata : (g.kill id).own ((g.tree (some n)).leaf k) = some (.leaf (some n) k) :=
        (hkill.own_leaf _ (some n) k).2 ⟨hk, by rw [htree]⟩
      have := hkill.apart (hlost b hb) hdata fun heq => by
        rw [← heq, hlost b hb] at hdata
        cases hdata
      omega
    · have := hs.ino_block_apart hid ((hs.own_leaf _ (some n) k).2 ⟨hk, rfl⟩) (by simp)
      omega

end CapROS.NFile
