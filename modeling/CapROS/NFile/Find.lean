import CapROS.NFile.Blocks

/-!
# Finding a block of a file

* `growLoop_spec`, `walk_spec`, `find_spec`: `find_file_page`, for the blocks that one table can hold.
-/

namespace CapROS.NFile

open Cells Bytes
open Function (update update_self update_of_ne)

variable {ss ss' ss'' : Server} {g g' g'' : Ghost} {b pg i j k n ino newIndir : ℕ} {mem mem' : ℕ → UInt8}
  {f : Option ℕ} {wantZero : Bool} {keep : ℕ → Prop}

/-! ## A layer more -/

theorem moveIndir_spec (mem : ℕ → UInt8) (hapart : ino + 64 ≤ newIndir ∨ newIndir + BLOCK_SIZE ≤ ino)
    (h : i + n ≤ INO_NINDIR) :
    (∀ a, a < newIndir ∨ newIndir + BLOCK_SIZE ≤ a → a < ino + 20 ∨ ino + 64 ≤ a →
        moveIndir ino newIndir n i mem a = mem a) ∧
      (∀ k < PtrsPerBlock, ptr (moveIndir ino newIndir n i mem) newIndir k =
        if i ≤ k ∧ k < i + n then ptr mem (indir ino) k else ptr mem newIndir k) ∧
      ∀ k < INO_NINDIR, ptr (moveIndir ino newIndir n i mem) (indir ino) k =
        if i ≤ k ∧ k < i + n then 0 else ptr mem (indir ino) k := by
  induction n generalizing i mem with
  | zero => exact ⟨fun _ _ _ => rfl, fun k _ => (if_neg (by omega)).symm, fun k _ => (if_neg (by omega)).symm⟩
  | succ n ih =>
    simp only [INO_NINDIR, BLOCK_SIZE, PtrsPerBlock] at h hapart ih ⊢
    obtain ⟨hsame, hnew, hold⟩ := ih (i := i + 1)
      (setPtr (setPtr mem newIndir i (ptr mem (indir ino) i)) (indir ino) i 0) (by omega)
    have hlt : ptr mem (indir ino) i < 2 ^ 32 := getField_lt mem _ 4
    refine ⟨fun a ha ha' => ?_, fun k hk => ?_, fun k hk => ?_⟩
    · refine (hsame a ha ha').trans ?_
      rw [setPtr, setField_of_ne (by simp only [indir]; omega), setPtr, setField_of_ne (by omega)]
    · refine (hnew k hk).trans ?_
      -- Writing the pointer in the inode does not change the table.
      have hrest : ∀ v mem, ptr (setPtr mem (indir ino) i v) newIndir k = ptr mem newIndir k :=
        fun v mem => getField_setField_of_disjoint (by simp only [indir]; omega)
      have hrest' : ∀ v mem, k < INO_NINDIR → ptr (setPtr mem newIndir i v) (indir ino) k = ptr mem (indir ino) k :=
        fun v mem hk => getField_setField_of_disjoint (by simp only [indir, INO_NINDIR] at hk ⊢; omega)
      by_cases hki : k = i
      · subst hki
        rw [if_neg (by omega), if_pos (by omega), hrest, ptr_setPtr hlt]
      · rw [hrest, ptr_setPtr_of_ne hki, ptr_setPtr_of_ne hki]
        by_cases hin : i + 1 ≤ k ∧ k < i + 1 + n
        · rw [if_pos hin, if_pos (by omega), hrest' _ _ (by simp only [INO_NINDIR]; omega)]
        · rw [if_neg hin, if_neg (by omega)]
    · refine (hold k hk).trans ?_
      have hrest : ∀ v mem, ptr (setPtr mem newIndir i v) (indir ino) k = ptr mem (indir ino) k :=
        fun v mem => getField_setField_of_disjoint (by simp only [indir]; omega)
      by_cases hki : k = i
      · subst hki
        rw [if_neg (by omega), if_pos (by omega), ptr_setPtr (by decide)]
      · rw [ptr_setPtr_of_ne hki, hrest]
        by_cases hin : i + 1 ≤ k ∧ k < i + 1 + n
        · rw [if_pos hin, if_pos (by omega)]
        · rw [if_neg hin, if_neg (by omega)]

/-- What `find_file_page` writes when the file gets a layer. -/
def growMem (ino newIndir : ℕ) (mem : ℕ → UInt8) : ℕ → UInt8 :=
  let mem := moveIndir ino newIndir INO_NINDIR 0 mem
  let mem := setPtr mem (indir ino) 0 newIndir
  setNLayer mem ino (nLayer mem ino + 1)

theorem growMem_spec (mem : ℕ → UInt8) (hapart : ino + 64 ≤ newIndir ∨ newIndir + BLOCK_SIZE ≤ ino)
    (hlt : newIndir < 2 ^ 32) (hlayers : nLayer mem ino < 255) :
    (∀ a, a < newIndir ∨ newIndir + BLOCK_SIZE ≤ a → a < ino + 16 ∨ ino + 17 ≤ a ∧ a < ino + 20 ∨ ino + 64 ≤ a →
        growMem ino newIndir mem a = mem a) ∧
      nLayer (growMem ino newIndir mem) ino = nLayer mem ino + 1 ∧
      (∀ k < PtrsPerBlock, ptr (growMem ino newIndir mem) newIndir k =
        if k < INO_NINDIR then ptr mem (indir ino) k else ptr mem newIndir k) ∧
      ∀ k < INO_NINDIR, ptr (growMem ino newIndir mem) (indir ino) k = if k = 0 then newIndir else 0 := by
  obtain ⟨hsame, hnew, hold⟩ := moveIndir_spec mem hapart (le_refl (0 + INO_NINDIR))
  simp only [Nat.zero_le, true_and, Nat.zero_add] at hnew hold
  simp only [INO_NINDIR, BLOCK_SIZE, PtrsPerBlock] at hapart hsame hnew hold ⊢
  -- The number of layers has not been written yet.
  have hn : nLayer (setPtr (moveIndir ino newIndir 11 0 mem) (indir ino) 0 newIndir) ino = nLayer mem ino := by
    rw [nLayer, setPtr, getField_setField_of_disjoint (.inl (by simp only [indir]; omega))]
    exact getField_congr fun a hl hr => hsame a (by omega) (by omega)
  unfold growMem
  simp only [INO_NINDIR]
  rw [hn]
  refine ⟨fun a ha ha' => ?_, getField_setField (by omega), fun k hk => ?_, fun k hk => ?_⟩
  · rw [setNLayer, setField_of_ne (by omega), setPtr, setField_of_ne (by simp only [indir]; omega)]
    exact hsame a ha (by omega)
  · rw [ptr, setNLayer, getField_setField_of_disjoint (by omega), setPtr,
      getField_setField_of_disjoint (by simp only [indir]; omega)]
    exact hnew k hk
  · rw [ptr, setNLayer, getField_setField_of_disjoint (by simp only [indir]; omega)]
    by_cases hk0 : k = 0
    · subst hk0
      rw [if_pos rfl]
      exact ptr_setPtr hlt
    · rw [if_neg hk0]
      refine (ptr_setPtr_of_ne hk0).trans ((hold k hk).trans (if_pos hk))

/-- The tree with a layer more. -/
def Tree.addLayer (t : Tree) (pg : ℕ) : Tree := ⟨t.layers + 1, update t.node t.layers pg, t.leaf⟩

theorem Tree.entry_addLayer {t : Tree} (hj : j ≤ t.layers) : (t.addLayer pg).entry j k = t.entry j k := by
  cases j with
  | zero => rfl
  | succ j => simp only [entry, addLayer, update_of_ne (show j ≠ t.layers by omega)]

namespace Shape

theorem grow_writes (h : Shape ss g) (hf : g.Live f) (hpg : g.own pg = some .lost)
    (hlayers : (g.tree f).layers < 1) : WritesTree ss.mem g f (growMem (g.inode f) pg ss.mem) := by
  have hapart := h.inode_apart hf hpg (by simp)
  have hnLayer := (h.trees f hf).layers
  obtain ⟨hsame, -⟩ := growMem_spec ss.mem hapart (h.block_pos hpg).2 (by omega)
  refine ⟨fun i hi hino => ?_, fun i hl hr => ?_⟩
  · have := hi pg (.inl hpg)
    exact hsame i this (by omega)
  · simp only [BLOCK_SIZE] at hapart
    exact hsame i (by simp only [BLOCK_SIZE]; omega) (by omega)

theorem grow (h : Shape ss g) (hf : g.Live f) (hpg : g.own pg = some .lost)
    (hzero : ∀ i, pg ≤ i → i < pg + BLOCK_SIZE → ss.mem i = 0) (hlayers : (g.tree f).layers < 1) :
    Shape { ss with mem := growMem (g.inode f) pg ss.mem } (g.grow f pg) := by
  obtain ⟨hpos, hpglt⟩ := h.block_pos hpg
  obtain ⟨hnLayer, -, htop, htable, hnode_ne, hleaf_lt⟩ := h.trees f hf
  have hapart := h.inode_apart hf hpg (by simp)
  obtain ⟨hsame, hn, hnew, hold⟩ := growMem_spec ss.mem hapart hpglt (by omega)
  have hnotnode : ∀ f' j, (g.tree f').node j ≠ pg := fun f' j heq => by
    have hnode := (h.own_node pg f' j).2 ⟨by omega, heq⟩
    rw [hpg] at hnode
    cases hnode
  refine h.retree (t := (g.tree f).addLayer pg) hf (h.grow_writes hf hpg hlayers) (fun b => ?_)
    (fun b => own_update_iff (by simp) (by simp [hpg])) (fun b => own_update_iff (by simp) (by simp [hpg]))
    (fun b f' j => ?_) (fun b f' k => ?_) (fun k hk => ?_) ?_
  · by_cases hb : b = pg
    · subst hb
      simp [hpg]
    · rw [update_of_ne hb]
  · -- The new table is the only node that is new.
    have hnode : (update g.tree f ((g.tree f).addLayer pg) f').node j =
        if f' = f ∧ j = (g.tree f).layers then pg else (g.tree f').node j := by
      by_cases hf' : f' = f
      · subst hf'
        rw [update_self]
        by_cases hj : j = (g.tree f').layers
        · rw [if_pos ⟨rfl, hj⟩, hj]
          exact update_self _ _ _
        · rw [if_neg fun heq => hj heq.2]
          exact update_of_ne hj _ _
      · rw [update_of_ne hf', if_neg fun heq => hf' heq.1]
    rw [hnode]
    by_cases hb : b = pg
    · subst hb
      rw [update_self]
      split_ifs with heq
      · obtain ⟨rfl, rfl⟩ := heq
        exact iff_of_true rfl ⟨by omega, rfl⟩
      · refine iff_of_false (fun hplace => heq ?_) fun hboth => hnotnode _ _ hboth.2
        obtain ⟨rfl, rfl⟩ := Place.node.inj (Option.some.inj hplace)
        exact ⟨rfl, rfl⟩
    · rw [update_of_ne hb, h.own_node]
      split_ifs with heq
      · obtain ⟨rfl, rfl⟩ := heq
        have hnone : (g.tree f').node (g.tree f').layers = 0 := by
          by_contra hne
          exact lt_irrefl _ ((hnode_ne _).1 hne)
        rw [hnone]
        exact iff_of_false (fun hboth => hboth.1 hboth.2.symm) fun hboth => hb hboth.2.symm
      · rfl
  · rw [own_update_iff (by simp) (by simp [hpg]), h.own_leaf]
    by_cases hf' : f' = f
    · subst hf'
      rw [update_self]
      rfl
    · rw [update_of_ne hf']
  · by_cases hnone : none = f
    · subst hnone
      rw [update_self]
      rfl
    · rw [update_of_ne hnone]
  · refine ⟨by rw [hn, hnLayer]; rfl, hlayers, fun k hk => ?_, fun j hj k hk => ?_, fun j => ?_, fun k hk => ?_⟩
    · rw [hold k hk]
      simp only [Tree.addLayer, Tree.entry, update_self]
    · obtain rfl | hj := Nat.eq_or_lt_of_le (Nat.le_of_lt_succ hj)
      · rw [Tree.entry_addLayer le_rfl]
        simp only [Tree.addLayer, update_self]
        rw [hnew k hk]
        split_ifs with hk11
        · exact htop k hk11
        · -- Beyond the pointers of the inode the new table is empty.
          simp only [PtrsPerBlock] at hk
          rw [ptr, getField_eq_zero fun i hl hr => hzero i (by omega) (by simp only [BLOCK_SIZE]; omega)]
          cases hL : (g.tree f).layers with
          | zero =>
            by_contra hne
            have := hleaf_lt k (Ne.symm hne)
            rw [Tree.width, if_pos hL] at this
            exact hk11 this
          | succ L =>
            simp only [Tree.entry]
            rw [if_neg (by omega)]
      · rw [Tree.entry_addLayer hj.le]
        simp only [Tree.addLayer]
        rw [update_of_ne hj.ne, ← htable j hj k hk]
        have hown := (h.own_node _ f j).2 ⟨(hnode_ne j).2 hj, rfl⟩
        have hne : (g.tree f).node j ≠ pg := hnotnode f j
        have hblocks := h.apart hown hpg hne
        have hinode := h.inode_apart hf hown (by simp)
        exact getField_congr fun i hl hr => hsame i (by simp only [BLOCK_SIZE]; omega) (by omega)
    · simp only [Tree.addLayer]
      by_cases hj : j = (g.tree f).layers
      · subst hj
        rw [update_self]
        exact iff_of_true (by omega) (Nat.lt_succ_self _)
      · rw [update_of_ne hj, hnode_ne]
        omega
    · have hlt := hleaf_lt k hk
      rw [Tree.width, if_neg (show ((g.tree f).addLayer pg).layers ≠ 0 from Nat.succ_ne_zero _)]
      simp only [Tree.width, INO_NINDIR, PtrsPerBlock] at hlt ⊢
      split_ifs at hlt with hL
      · omega
      · exact hlt

end Shape

/-! ## More blocks for a file -/

/-- The file `f` may have more blocks or layers. The data of the files in `keep`, and what is not in the file `f`, have
not changed. -/
structure Extends (keep : ℕ → Prop) (ss : Server) (g : Ghost) (f : Option ℕ) (ss' : Server) (g' : Ghost) : Prop where
  shape : Shape ss' g'
  arch : ss'.arch = ss.arch
  first_free_inode : ss'.first_free_inode = ss.first_free_inode
  nxt_uuid : ss'.nxt_uuid = ss.nxt_uuid
  live : g'.live = g.live
  freeIno : g'.freeIno = g.freeIno
  tables : g'.tables = g.tables
  other : ∀ f', f' ≠ f → g'.tree f' = g.tree f'
  leaf : ∀ k, (g.tree f).leaf k ≠ 0 → (g'.tree f).leaf k = (g.tree f).leaf k
  lost : ∀ b, g'.own b = some .lost → g.own b = some .lost
  data : ∀ b n k, keep n → g.own b = some (.leaf (some n) k) → Same ss.mem ss'.mem b (b + BLOCK_SIZE)
  buffer : Same ss.mem ss'.mem ss.arch.storage (ss.arch.storage + BUF_SZ)
  inode : ∀ n, g.Exists n → some n ≠ f → Same ss.mem ss'.mem (g.inode (some n)) (g.inode (some n) + 64)
  self : Same ss.mem ss'.mem (g.inode f) (g.inode f + 16)

namespace Extends

theorem refl (h : Shape ss g) (f : Option ℕ) : Extends keep ss g f ss g :=
  ⟨h, rfl, rfl, rfl, rfl, rfl, rfl, fun _ _ => rfl, fun _ _ => rfl, fun _ hb => hb, fun _ _ _ _ _ => Same.refl _ _ _,
    Same.refl _ _ _, fun _ _ _ => Same.refl _ _ _, Same.refl _ _ _⟩

theorem mono {keep' : ℕ → Prop} (h : Extends keep ss g f ss' g') (hkeep : ∀ n, keep' n → keep n) :
    Extends keep' ss g f ss' g' :=
  { h with data := fun b n k hn hb => h.data b n k (hkeep n hn) hb }

theorem exists_iff (h : Extends keep ss g f ss' g') : g'.Exists n ↔ g.Exists n := by rw [Ghost.Exists, h.tables, Ghost.Exists]

theorem live_iff (h : Extends keep ss g f ss' g') {f' : Option ℕ} : g'.Live f' ↔ g.Live f' := by
  cases f' with
  | none => exact Iff.rfl
  | some n => rw [Ghost.Live, h.live, Ghost.Live]

theorem leaf_eq (h : Extends keep ss g f ss' g') {f' : Option ℕ} (hk : (g.tree f').leaf k ≠ 0) :
    (g'.tree f').leaf k = (g.tree f').leaf k := by
  by_cases hf : f' = f
  · subst hf
    exact h.leaf k hk
  · rw [h.other f' hf]

theorem inode_eq (hs : Shape ss g) (h : Extends keep ss g f ss' g') (hn : g.Exists n) :
    g'.inode (some n) = g.inode (some n) :=
  Shape.inode_eq (fun k hk => h.leaf_eq (hs.table k hk)) hn

theorem inode_live (hs : Shape ss g) (h : Extends keep ss g f ss' g') {f' : Option ℕ} (hf : g.Live f') :
    g'.inode f' = g.inode f' := by
  cases f' with
  | none => rfl
  | some n => exact h.inode_eq hs (hs.live_exists n hf).1

theorem trans (hs : Shape ss g) (hf : g.Live f) (h : Extends keep ss g f ss' g') (h' : Extends keep ss' g' f ss'' g'') :
    Extends keep ss g f ss'' g'' where
  shape := h'.shape
  arch := h'.arch.trans h.arch
  first_free_inode := h'.first_free_inode.trans h.first_free_inode
  nxt_uuid := h'.nxt_uuid.trans h.nxt_uuid
  live := h'.live.trans h.live
  freeIno := h'.freeIno.trans h.freeIno
  tables := h'.tables.trans h.tables
  other f' hf' := (h'.other f' hf').trans (h.other f' hf')
  leaf k hk := by
    rw [h'.leaf k (by rwa [h.leaf k hk]), h.leaf k hk]
  lost b hb := h.lost b (h'.lost b hb)
  data b n k hn hb := by
    obtain ⟨hne, hleaf⟩ := (hs.own_leaf _ _ _).1 hb
    have hb' := (h.shape.own_leaf b (some n) k).2 ⟨hne, (h.leaf_eq (by rwa [hleaf])).trans hleaf⟩
    exact (h.data b n k hn hb).trans (h'.data b n k hn hb')
  buffer := h.buffer.trans (h.arch ▸ h'.buffer)
  inode n hn hne := by
    have hsame := h'.inode n (h.exists_iff.2 hn) hne
    rw [h.inode_eq hs hn] at hsame
    exact (h.inode n hn hne).trans hsame
  self := by
    have hsame := h'.self
    rw [h.inode_live hs hf] at hsame
    exact h.self.trans hsame

end Extends

namespace Shape

theorem extends_of_writes (h : Shape ss g) (hf : g.Live f) (halloc : Allocated ss g wantZero pg ss')
    {place : Place} {t : Tree} (hplace : place ≠ .lost) (hwrites : WritesTree ss'.mem (g.lose pg) f mem')
    (hleaf : ∀ k, (g.tree f).leaf k ≠ 0 → t.leaf k = (g.tree f).leaf k) (hg' : g' = { g.lose pg with
      tree := update g.tree f t, own := update (g.lose pg).own pg (some place) })
    (hshape : Shape { ss' with mem := mem' } g') : Extends keep ss g f { ss' with mem := mem' } g' := by
  subst hg'
  have hlost : (g.lose pg).own pg = some .lost := update_self _ _ _
  have hinode := halloc.shape.inode_apart hf hlost (by simp)
  -- From before the block was allocated.
  have hwrites : WritesTree ss.mem (g.lose pg) f mem' := by
    refine ⟨fun i hi hino => (hwrites.same i hi hino).trans (halloc.same i (hi pg (.inl hlost))), ?_⟩
    exact Same.trans (fun i hl hr => halloc.same i (by
      have hl : g.inode f + 18 ≤ i := hl
      have hr : i < g.inode f + 20 := hr
      omega)) hwrites.number
  have hown : ∀ b place', g.own b = some place' → place' ≠ .free → (g.lose pg).own b = some place' := by
    intro b place' hb hfree
    have hne : b ≠ pg := by
      rintro rfl
      obtain hwas | hwas := halloc.was
      · rw [hwas] at hb
        cases hb
      · rw [hwas] at hb
        exact hfree (Option.some.inj hb).symm
    exact (update_of_ne hne _ _).trans hb
  refine {
    shape := hshape
    arch := halloc.arch
    first_free_inode := halloc.first_free_inode
    nxt_uuid := halloc.nxt_uuid
    live := rfl
    freeIno := rfl
    tables := rfl
    other := fun f' hf' => update_of_ne hf' _ _
    leaf := fun k hk => by
      simp only [update_self]
      exact hleaf k hk
    lost := fun b hb => ?_
    data := fun b n k _ hb => hwrites.block halloc.shape hf (hown b _ hb (by simp)) (by simp) (by simp) (by simp)
    buffer := fun i hl hr => ?_
    inode := fun n hn hne => hwrites.inode halloc.shape hf hn (Ne.symm hne)
    self := WritesTree.self (g := g.lose pg) halloc.shape hf hwrites }
  · by_cases hbpg : b = pg
    · subst hbpg
      simp only [update_self] at hb
      exact absurd (Option.some.inj hb) hplace
    · simp only [update_of_ne hbpg, Ghost.lose] at hb
      exact hb
  · -- The address is in a block of the buffer.
    obtain ⟨m, hm⟩ := storage_dvd ss.arch
    have hle := h.le_top
    have hbuffer : g.own (i / BLOCK_SIZE * BLOCK_SIZE) = some .buffer := by
      refine (h.own_buffer _).2 ⟨⟨?_, ?_, Nat.dvd_mul_left _ _⟩, ?_⟩
      · simp only [BLOCK_SIZE] at hm ⊢
        omega
      · simp only [BLOCK_SIZE] at hm ⊢
        omega
      · simp only [BLOCK_SIZE] at hm ⊢
        omega
    refine hwrites.block halloc.shape hf (hown _ _ hbuffer (by simp)) (by simp) (by simp) (by simp) i ?_ ?_
    · simp only [BLOCK_SIZE]
      omega
    · simp only [BLOCK_SIZE]
      omega

theorem addLeaf (h : Shape ss g) (hf : g.Live f) (hk : (g.tree f).leaf k = 0) (hlt : k < (g.tree f).width)
    (wantZero : Bool) :
    (∃ pg ss', AllocBlock wantZero ss = .ok pg ss' ∧
        Extends (fun _ => True) ss g f { ss' with mem := setPtr ss'.mem (g.leafTable f) k pg } ((g.lose pg).link f k pg) ∧ pg ≠ 0 ∧
        ((g.lose pg).link f k pg).room ss' + 1 = g.room ss ∧
        (wantZero = true → ∀ i, pg ≤ i → i < pg + BLOCK_SIZE → setPtr ss'.mem (g.leafTable f) k pg i = 0)) ∨
      (∃ ss', AllocBlock wantZero ss = .ok (2 * ss.arch.storage) ss' ∧ ss'.arch = ss.arch) ∧ g.room ss = 0 := by
  obtain ⟨pg, ss', heq, halloc⟩ | hnone := h.alloc wantZero
  · refine .inl ⟨pg, ss', heq, ?_⟩
    have hlost : (g.lose pg).own pg = some .lost := update_self _ _ _
    have hwrites : WritesTree ss'.mem (g.lose pg) f (setPtr ss'.mem (g.leafTable f) k pg) :=
      halloc.shape.link_writes hf hlt
    refine ⟨h.extends_of_writes hf halloc (by simp) hwrites (fun k' hk' => ?_) rfl
      (halloc.shape.link hf hlost hk hlt), ?_, halloc.room, fun hzero i hl hr => ?_⟩
    · exact update_of_ne (fun heq : k' = k => hk' (heq ▸ hk)) _ _
    · have := (halloc.shape.block_pos hlost).1
      omega
    · rw [← halloc.zero hzero i hl hr]
      -- The pointer is not in the block.
      obtain ⟨hk1024, hk11⟩ := lt_of_width hlt
      refine setField_of_ne ?_
      unfold Ghost.leafTable
      split_ifs with hl0
      · have hinode : g.inode f + 64 ≤ pg ∨ pg + BLOCK_SIZE ≤ g.inode f := halloc.shape.inode_apart hf hlost (by simp)
        have := hk11 hl0
        simp only [indir, INO_NINDIR] at this ⊢
        omega
      · have hnode : (g.lose pg).own ((g.tree f).node 0) = some (.node f 0) := halloc.shape.own_node_zero hf hl0
        have hne : (g.tree f).node 0 ≠ pg := by
          rintro rfl
          rw [hlost] at hnode
          cases hnode
        have := halloc.shape.apart hnode hlost hne
        simp only [PtrsPerBlock, BLOCK_SIZE] at hk1024 this hr
        omega
  · exact .inr hnone

theorem addLayer (h : Shape ss g) (hf : g.Live f) (hlayers : (g.tree f).layers < 1) :
    (∃ pg ss', AllocBlock true ss = .ok pg ss' ∧ useBlock pg ss' = .ok () ss' ∧
        Extends (fun _ => True) ss g f { ss' with mem := growMem (g.inode f) pg ss'.mem } ((g.lose pg).grow f pg) ∧
        ((g.lose pg).grow f pg).room ss' + 1 = g.room ss) ∨
      (∃ ss', AllocBlock true ss = .ok (2 * ss.arch.storage) ss' ∧ ss'.arch = ss.arch) ∧ g.room ss = 0 := by
  obtain ⟨pg, ss', heq, halloc⟩ | hnone := h.alloc true
  · have hlost : (g.lose pg).own pg = some .lost := update_self _ _ _
    have hplace : Place.node f (g.tree f).layers ≠ .lost := by simp
    have hshape := halloc.shape.grow hf hlost (halloc.zero rfl) hlayers
    exact .inl ⟨pg, ss', heq, halloc.shape.useBlock_own hlost, h.extends_of_writes (t := (g.tree f).addLayer pg) hf halloc hplace
      (halloc.shape.grow_writes hf hlost hlayers) (fun _ _ => rfl) rfl hshape, halloc.room⟩
  · exact .inr hnone

end Shape

/-! ## The loops of `find_file_page` -/

/-- The table on the layer `j`, with the inode above all. -/
def Tree.table (t : Tree) (ino j : ℕ) : ℕ := if j = t.layers then indir ino else t.node j

theorem TreeAt.ptr_table {t : Tree} (ht : TreeAt mem ino t) (hj : j ≤ t.layers)
    (hk : if j = t.layers then k < INO_NINDIR else k < PtrsPerBlock) : ptr mem (t.table ino j) k = t.entry j k := by
  unfold Tree.table
  split_ifs with heq
  · rw [if_pos heq] at hk
    rw [heq]
    exact ht.top k hk
  · rw [if_neg heq] at hk
    exact ht.table j (by omega) k hk

theorem walk_eq {t : Tree} (ht : TreeAt ss.mem ino t) (hk : k < PtrsPerBlock) (wantGrow : Grow) (hj : j ≤ t.layers) :
    walk k wantGrow j (t.table ino j) ss = walk k wantGrow 0 (t.table ino 0) ss := by
  induction j with
  | zero => rfl
  | succ j ih =>
    have hpow : PtrsPerBlock ≤ 2 ^ ((j + 1) * logPtrsPerBlock) :=
      Nat.pow_le_pow_right (show 0 < 2 by decide) (show 10 ≤ (j + 1) * 10 by omega)
    have hndx : k / 2 ^ ((j + 1) * logPtrsPerBlock) % PtrsPerBlock = 0 := by
      rw [Nat.div_eq_of_lt (hk.trans_le hpow), Nat.zero_mod]
    have hnode : ptr ss.mem (t.table ino (j + 1)) 0 = t.node j := by
      refine (ht.ptr_table hj ?_).trans (show t.entry (j + 1) 0 = t.node j from rfl)
      split_ifs
      · decide
      · decide
    have hne : t.node j ≠ 0 := (ht.node_ne j).2 hj
    rw [← ih (by omega), walk, get_bind, hndx, hnode, if_neg hne, Tree.table, if_neg (by omega)]

theorem leafTable_eq : g.leafTable f = (g.tree f).table (g.inode f) 0 := by
  unfold Ghost.leafTable Tree.table
  split_ifs with h h' h'
  · rfl
  · exact absurd h.symm h'
  · exact absurd h'.symm h
  · rfl

section Finding

variable (h : Shape ss g) (hf : g.Live f)
include h hf

theorem Shape.ptr_leafTable (hlt : k < (g.tree f).width) :
    ptr ss.mem (g.leafTable f) k = (g.tree f).leaf k := by
  obtain ⟨hk1024, hk11⟩ := Shape.lt_of_width hlt
  rw [leafTable_eq]
  refine (h.trees f hf).ptr_table (Nat.zero_le _) ?_
  split_ifs with hl
  · exact hk11 hl.symm
  · exact hk1024

/-- The blocks that have to be allocated for `n` pages from the page `p` on. -/
def Ghost.need (g : Ghost) (f : Option ℕ) (p n : ℕ) : ℕ :=
  (if (g.tree f).layers = 0 ∧ 0 < n ∧ INO_NINDIR < p + n then 1 else 0) +
    ((List.range' p n).filter fun k => (g.tree f).leaf k = 0).length

theorem growLoop_of_lt (hlt : k < (g.tree f).width) (fuel : ℕ) :
    growLoop (g.inode f) ((k + 1) * BLOCK_SIZE) (fuel + 1) ss = .ok () ss := by
  obtain ⟨hnLayer, hle, -⟩ := h.trees f hf
  obtain ⟨hk1024, hk11⟩ := Shape.lt_of_width hlt
  simp only [PtrsPerBlock, INO_NINDIR] at hk1024 hk11
  have hsize : ¬(k + 1) * BLOCK_SIZE > sizes_by_layers (g.tree f).layers := by
    obtain hl | hl : (g.tree f).layers = 0 ∨ (g.tree f).layers = 1 := by omega
    · have := hk11 hl
      simp only [hl, sizes_by_layers, INO_NINDIR, BLOCK_SIZE, PtrsPerBlock]
      omega
    · simp only [hl, sizes_by_layers, INO_NINDIR, BLOCK_SIZE, PtrsPerBlock]
      omega
  rw [growLoop, get_bind]
  simp only [hnLayer]
  rw [if_neg (by omega), if_neg hsize]
  rfl

theorem growLoop_of_le (hl : (g.tree f).layers = 0) (hk : INO_NINDIR ≤ k) (fuel : ℕ) :
    growLoop (g.inode f) ((k + 1) * BLOCK_SIZE) (fuel + 1) ss =
      (AllocBlock true >>= fun newIndir => useBlock newIndir >>= fun _ =>
        modifyMem (growMem (g.inode f) newIndir) >>= fun _ =>
        growLoop (g.inode f) ((k + 1) * BLOCK_SIZE) fuel) ss := by
  obtain ⟨hnLayer, -⟩ := h.trees f hf
  rw [growLoop, get_bind]
  simp only [hnLayer, hl]
  rw [if_neg (by decide), if_pos]
  · rfl
  · simp only [sizes_by_layers, INO_NINDIR, BLOCK_SIZE, PtrsPerBlock] at hk ⊢
    omega

theorem find_of_lt {at' : ℕ} (hlt : at' / BLOCK_SIZE < (g.tree f).width)
    (wantGrow : Grow) :
    find_file_page (g.inode f) at' wantGrow ss = walk (at' / BLOCK_SIZE) wantGrow 0 (g.leafTable f) ss := by
  obtain ⟨hk1024, -⟩ := Shape.lt_of_width hlt
  have hmod : (at' / BLOCK_SIZE + 1) * BLOCK_SIZE % 2 ^ 64 = (at' / BLOCK_SIZE + 1) * BLOCK_SIZE := by
    simp only [PtrsPerBlock, BLOCK_SIZE] at hk1024 ⊢
    omega
  have htree := h.trees f hf
  rw [find_file_page]
  simp only [hmod]
  rw [bind_ok (growLoop_of_lt h hf hlt 5), get_bind, htree.layers, leafTable_eq]
  have htable : indir (g.inode f) = (g.tree f).table (g.inode f) (g.tree f).layers := (if_pos rfl).symm
  rw [htable]
  exact walk_eq htree hk1024 wantGrow le_rfl

theorem find_noGrow {at' : ℕ} (hlt : at' / BLOCK_SIZE < (g.tree f).width) :
    find_file_page (g.inode f) at' .NO_GROW ss = .ok (some (g.leafTable f + 4 * (at' / BLOCK_SIZE))) ss := by
  obtain ⟨hk1024, -⟩ := Shape.lt_of_width hlt
  rw [find_of_lt h hf hlt, walk, get_bind, if_neg fun hboth => hboth.2 rfl, Nat.mod_eq_of_lt hk1024]
  rfl

end Finding

/-- What `find_file_page` does for the page `k`, when it grows the file. -/
structure Found (ss : Server) (g : Ghost) (f : Option ℕ) (k : ℕ) (wantGrow : Grow) (p : ℕ) (ss' : Server) (g' : Ghost) :
    Prop where
  ext : Extends (fun _ => True) ss g f ss' g'
  ptr : getField ss'.mem p 4 = (g'.tree f).leaf k
  ne : (g'.tree f).leaf k ≠ 0
  others : ∀ k', k' ≠ k → (g'.tree f).leaf k' = (g.tree f).leaf k'
  zero : wantGrow = .GROW → (g.tree f).leaf k = 0 → ∀ i, (g'.tree f).leaf k ≤ i →
    i < (g'.tree f).leaf k + BLOCK_SIZE → ss'.mem i = 0
  room : g'.room ss' + g.need f k 1 = g.room ss
  layers : (g'.tree f).layers = if (g.tree f).layers = 0 ∧ INO_NINDIR ≤ k then 1 else (g.tree f).layers

theorem need_one (hlt : k < (g.tree f).width) : g.need f k 1 = if (g.tree f).leaf k = 0 then 1 else 0 := by
  obtain ⟨-, hk11⟩ := Shape.lt_of_width hlt
  have hlayer : ¬((g.tree f).layers = 0 ∧ 0 < 1 ∧ INO_NINDIR < k + 1) := fun hboth => by
    omega
  rw [Ghost.need, if_neg hlayer, Nat.zero_add, List.range'_one, List.filter_singleton]
  by_cases hleaf : (g.tree f).leaf k = 0
  · simp [hleaf]
  · simp [hleaf]

/-- There is no room: `find_file_page` fails, or the pointer is to an address beyond the storage. -/
def NoRoom (result : EStateM.Result Fault Server (Option ℕ)) : Prop :=
  match result with
  | .ok (some p) ss' => 2 ^ 24 ≤ getField ss'.mem p 4 ∧ 2 * ss'.arch.storage ≤ getField ss'.mem p 4
  | .ok none _ => False
  | .error e _ => e = .outOfSpace

/-- What uses the block fails. -/
theorem NoRoom.bind {x : Op (Option ℕ)} {next : Option ℕ → Op α} (h : NoRoom (x ss))
    (hnext : ∀ p, ∃ rest : Server → Op α, next (some p) = do
      let ss ← get
      useBlock (getField ss.mem p 4)
      rest ss) : ∃ ss', (x >>= next) ss = .error .outOfSpace ss' := by
  cases hx : x ss with
  | ok found ss' =>
    rw [hx] at h
    cases found with
    | none => exact h.elim
    | some p =>
      obtain ⟨hpos, hle⟩ := h
      obtain ⟨rest, hrest⟩ := hnext p
      refine ⟨ss', ?_⟩
      rw [bind_ok hx, hrest, get_bind, bind_error (useBlock_of_le (by omega) hle)]
  | error e ss' =>
    rw [hx] at h
    obtain rfl : e = .outOfSpace := h
    exact ⟨ss', bind_error hx⟩

theorem find_grow_of_lt (h : Shape ss g) (hf : g.Live f) {at' : ℕ} (hat : at' / BLOCK_SIZE = k)
    (hlt : k < (g.tree f).width) {wantGrow : Grow} (hgrow : wantGrow ≠ .NO_GROW) :
    (∃ p ss' g', find_file_page (g.inode f) at' wantGrow ss = .ok (some p) ss' ∧ Found ss g f k wantGrow p ss' g') ∨
      NoRoom (find_file_page (g.inode f) at' wantGrow ss) ∧ g.room ss < g.need f k 1 := by
  subst hat
  obtain ⟨hk1024, hk11⟩ := Shape.lt_of_width hlt
  have hlayers : (g.tree f).layers =
      if (g.tree f).layers = 0 ∧ INO_NINDIR ≤ at' / BLOCK_SIZE then 1 else (g.tree f).layers := by
    refine (if_neg fun hboth => ?_).symm
    exact absurd (hk11 hboth.1) (not_lt.2 hboth.2)
  have hptr := h.ptr_leafTable hf hlt
  rw [need_one hlt, find_of_lt h hf hlt, walk, get_bind, Nat.mod_eq_of_lt hk1024, hptr]
  generalize at' / BLOCK_SIZE = k at *
  by_cases hleaf : (g.tree f).leaf k = 0
  · rw [if_pos ⟨hleaf, hgrow⟩, if_pos hleaf]
    obtain ⟨pg, ss', heq, hext, hpg, hroom, hzero⟩ | ⟨⟨ss', heq, harch⟩, hroom⟩ :=
      h.addLeaf hf hleaf hlt (wantGrow = .GROW)
    · have hnew : (((g.lose pg).link f k pg).tree f).leaf = update (g.tree f).leaf k pg := by
        simp only [Ghost.link, Ghost.lose, update_self]
      have hself : (((g.lose pg).link f k pg).tree f).leaf k = pg := by rw [hnew, update_self]
      have hshape := hext.shape
      have hlt' : pg < 2 ^ 32 := (hshape.block_pos ((hshape.own_leaf _ f k).2 ⟨hpg, hself⟩)).2
      refine .inl ⟨_, _, _, (bind_ok heq).trans rfl, hext, ?_, ?_, fun k' hk' => ?_, fun hG _ i hl hr => ?_, ?_, ?_⟩
      · rw [hself]
        exact ptr_setPtr hlt'
      · rwa [hself]
      · rw [hnew, update_of_ne hk']
      · rw [hself] at hl hr
        exact hzero (by simpa using hG) i hl hr
      · rw [need_one hlt, if_pos hleaf]
        exact hroom
      · rw [← hlayers]
        simp only [Ghost.link, Ghost.lose, update_self]
    · refine .inr ⟨?_, by omega⟩
      obtain ⟨hstorage, hstorage'⟩ := storage_bounds ss.arch
      rw [bind_ok heq, modifyMem_bind]
      refine (?_ : 2 ^ 24 ≤ ptr _ (g.leafTable f) k ∧ 2 * ss'.arch.storage ≤ ptr _ (g.leafTable f) k)
      rw [ptr_setPtr (by omega), harch]
      exact ⟨by omega, le_rfl⟩
  · rw [if_neg fun hboth => hleaf hboth.1, if_neg hleaf]
    refine .inl ⟨_, ss, g, rfl, Extends.refl h f, hptr, hleaf, fun _ _ => rfl, fun _ hno => absurd hno hleaf, ?_, hlayers⟩
    rw [need_one hlt, if_neg hleaf]
    rfl

theorem find_grow (h : Shape ss g) (hf : g.Live f) {at' : ℕ} (hat : at' / BLOCK_SIZE = k) (hk : k < PtrsPerBlock)
    {wantGrow : Grow} (hgrow : wantGrow ≠ .NO_GROW) :
    (∃ p ss' g', find_file_page (g.inode f) at' wantGrow ss = .ok (some p) ss' ∧ Found ss g f k wantGrow p ss' g') ∨
      NoRoom (find_file_page (g.inode f) at' wantGrow ss) ∧ g.room ss < g.need f k 1 := by
  by_cases hlt : k < (g.tree f).width
  · exact find_grow_of_lt h hf hat hlt hgrow
  · -- First the file gets its layer.
    have hwidth : (g.tree f).layers = 0 ∧ INO_NINDIR ≤ k := by
      unfold Tree.width at hlt
      split_ifs at hlt with hl
      · exact ⟨hl, not_lt.1 hlt⟩
      · exact absurd hk hlt
    obtain ⟨hl, hk11⟩ := hwidth
    have hleaf : (g.tree f).leaf k = 0 := by
      by_contra hne
      exact hlt ((h.trees f hf).leaf_lt k hne)
    have hneed : g.need f k 1 = 2 := by
      rw [Ghost.need, if_pos ⟨hl, Nat.one_pos, Nat.lt_succ_of_le hk11⟩, List.range'_one, List.filter_singleton]
      simp [hleaf]
    have hmod : (k + 1) * BLOCK_SIZE % 2 ^ 64 = (k + 1) * BLOCK_SIZE := by
      simp only [PtrsPerBlock, BLOCK_SIZE] at hk ⊢
      omega
    obtain ⟨pg, ss', heq, huse, hext, hroom⟩ | ⟨⟨ss', heq, harch⟩, hroom⟩ := h.addLayer hf (by omega)
    · -- Then it is as if it had had the layer.
      generalize hss₁ : ({ ss' with mem := growMem (g.inode f) pg ss'.mem } : Server) = ss₁ at *
      have hroom' : ((g.lose pg).grow f pg).room ss₁ + 1 = g.room ss := by rw [← hroom, ← hss₁]; rfl
      have htree : ((g.lose pg).grow f pg).tree f = (g.tree f).addLayer pg := update_self _ _ _
      generalize (g.lose pg).grow f pg = g₁ at *
      have hf₁ : g₁.Live f := hext.live_iff.2 hf
      have hlt₁ : k < (g₁.tree f).width := by
        rw [htree, Tree.width, if_neg (show ((g.tree f).addLayer pg).layers ≠ 0 from Nat.succ_ne_zero _)]
        exact hk
      have hinode : g₁.inode f = g.inode f := hext.inode_live h hf
      have hrun₁ := growLoop_of_lt hext.shape hf₁ hlt₁
      rw [hinode] at hrun₁
      have hrun : growLoop (g.inode f) ((k + 1) * BLOCK_SIZE) 6 ss = .ok () ss₁ := by
        rw [growLoop_of_le h hf hl hk11, bind_ok heq, bind_ok huse, modifyMem_bind, hss₁]
        exact hrun₁ 4
      have hfind : find_file_page (g.inode f) at' wantGrow ss = find_file_page (g₁.inode f) at' wantGrow ss₁ := by
        rw [hinode, find_file_page]
        simp only [hat, hmod]
        rw [bind_ok hrun, bind_ok (hrun₁ 5)]
      have hneed₁ : g₁.need f k 1 = 1 := by
        rw [need_one hlt₁, htree, if_pos]
        exact hleaf
      rw [hfind, hneed]
      obtain ⟨p, ss₂, g₂, hok, hfound⟩ | ⟨hno, hroom₁⟩ := find_grow_of_lt hext.shape hf₁ hat hlt₁ hgrow
      · have hfroom := hfound.room
        refine .inl ⟨p, ss₂, g₂, hok, hext.trans h hf hfound.ext, hfound.ptr, hfound.ne, fun k' hk' => ?_,
          fun hG _ => hfound.zero hG ?_, by omega, ?_⟩
        · rw [hfound.others k' hk', htree]
          rfl
        · rw [htree]
          exact hleaf
        · have hlayers₁ : (g₁.tree f).layers = 1 := by
            rw [htree]
            exact congrArg (· + 1) hl
          rw [hfound.layers, hlayers₁, if_neg fun hboth => Nat.one_ne_zero hboth.1, if_pos ⟨hl, hk11⟩]
      · exact .inr ⟨hno, by omega⟩
    · refine .inr ⟨?_, by omega⟩
      have hpos := (storage_bounds ss.arch).1
      have huse : useBlock (2 * ss.arch.storage) ss' = .error .outOfSpace ss' :=
        useBlock_of_le (by omega) (by rw [harch])
      have hloop : growLoop (g.inode f) ((k + 1) * BLOCK_SIZE) 6 ss = .error .outOfSpace ss' := by
        rw [growLoop_of_le h hf hl hk11, bind_ok heq, bind_error huse]
      rw [find_file_page]
      simp only [hat, hmod]
      rw [bind_error hloop]
      rfl

end CapROS.NFile
