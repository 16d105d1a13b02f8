import CapROS.NFile.Memory
import Mathlib.Data.Option.Basic

/-!
# The shape of the memory

Which block is where: in the buffer, on the free list, in the tree of a file or in no place. The root file has the
inodes of the others in its blocks.

* `Shape`: the memory has the pointers.
-/

namespace CapROS.NFile

open Cells Bytes

/-! ## Trees -/

/-- The pointers of a file. The file has few blocks, and one layer at most: only the first pointer in a table above the
node 0, which has the pointers to data, is not null. -/
structure Tree where
  layers : ℕ
  node : ℕ → ℕ
  leaf : ℕ → ℕ

namespace Tree

def empty : Tree := ⟨0, fun _ => 0, fun _ => 0⟩

/-- The pointer with the index `k` in a table on the layer `j`. -/
def entry (t : Tree) : ℕ → ℕ → ℕ
  | 0, k => t.leaf k
  | j + 1, k => if k = 0 then t.node j else 0

/-- The pointers to data for which there is room. -/
def width (t : Tree) : ℕ := if t.layers = 0 then INO_NINDIR else PtrsPerBlock

end Tree

variable {mem mem' : ℕ → UInt8} {ino p b i j k id lo hi : ℕ} {t : Tree} {l : List ℕ}

/-- The inode at `ino` has the pointers of the tree. -/
structure TreeAt (mem : ℕ → UInt8) (ino : ℕ) (t : Tree) : Prop where
  layers : nLayer mem ino = t.layers
  layers_le : t.layers ≤ 1
  top : ∀ k < INO_NINDIR, ptr mem (indir ino) k = t.entry t.layers k
  table : ∀ j < t.layers, ∀ k < PtrsPerBlock, ptr mem (t.node j) k = t.entry j k
  node_ne : ∀ j, t.node j ≠ 0 ↔ j < t.layers
  leaf_lt : ∀ k, t.leaf k ≠ 0 → k < t.width

theorem TreeAt.congr (h : TreeAt mem ino t) (hino : Same mem mem' (ino + 16) (ino + 64))
    (hnode : ∀ j, t.node j ≠ 0 → Same mem mem' (t.node j) (t.node j + BLOCK_SIZE)) : TreeAt mem' ino t := by
  refine ⟨?_, h.layers_le, fun k hk => ?_, fun j hj k hk => ?_, h.node_ne, h.leaf_lt⟩
  · rw [← h.layers]
    exact hino.getField le_rfl (by omega)
  · rw [← h.top k hk]
    simp only [INO_NINDIR] at hk
    exact hino.ptr (by simp only [indir]; omega) (by simp only [indir]; omega)
  · rw [← h.table j hj k hk]
    simp only [PtrsPerBlock] at hk
    exact (hnode j ((h.node_ne j).2 hj)).ptr (by omega) (by simp only [BLOCK_SIZE]; omega)

/-- The blocks are on a list, each with a pointer to the next one. -/
def Linked (mem : ℕ → UInt8) : ℕ → List ℕ → Prop
  | p, [] => p = 0
  | p, b :: l => p = b ∧ b ≠ 0 ∧ Linked mem (ptr mem b 0) l

theorem Linked.congr (h : Linked mem p l) (hsame : ∀ b ∈ l, Same mem mem' b (b + 4)) : Linked mem' p l := by
  induction l generalizing p with
  | nil => exact h
  | cons b l ih =>
    obtain ⟨rfl, hne, hl⟩ := h
    have hptr : ptr mem' p 0 = ptr mem p 0 := (hsame p List.mem_cons_self).ptr (Nat.le_add_right _ _) le_rfl
    exact ⟨rfl, hne, hptr ▸ ih hl fun b hb => hsame b (List.mem_cons_of_mem p hb)⟩

theorem Linked.unique {l' : List ℕ} (h : Linked mem p l) (h' : Linked mem p l') : l = l' := by
  induction l generalizing p l' with
  | nil =>
    cases l' with
    | nil => rfl
    | cons b' l' =>
      obtain rfl : p = 0 := h
      exact absurd h'.1.symm h'.2.1
  | cons b l ih =>
    cases l' with
    | nil =>
      obtain rfl : p = 0 := h'
      exact absurd h.1.symm h.2.1
    | cons b' l' =>
      obtain ⟨rfl, -, hl⟩ := h
      obtain ⟨rfl, -, hl'⟩ := h'
      rw [ih hl hl']

/-! ## The shape -/

/-- Where a block is. A file has the number of its inode; the root file has none. -/
inductive Place where
  | buffer
  | free
  /-- It has been allocated, and there is no pointer to it. -/
  | lost
  | node (f : Option ℕ) (j : ℕ)
  | leaf (f : Option ℕ) (k : ℕ)
  deriving DecidableEq

/-- What the pointers in memory stand for. -/
structure Ghost where
  tree : Option ℕ → Tree
  own : ℕ → Option Place
  free : List ℕ
  /-- The files, by the numbers of their inodes. -/
  live : ℕ → Prop
  freeIno : List ℕ
  /-- The number of blocks with inodes. -/
  tables : ℕ

namespace Ghost

variable (g : Ghost)

/-- The address of the inode of a file. -/
def inode : Option ℕ → ℕ
  | none => root
  | some id => (g.tree none).leaf (id / inodesPerBlock) + 64 * (id % inodesPerBlock)

/-- The inode with the number `id` exists. -/
def Exists (id : ℕ) : Prop := id < g.tables * inodesPerBlock

/-- The file is there. The root file is always there. -/
def Live : Option ℕ → Prop
  | none => True
  | some id => g.live id

end Ghost

/-- The inodes are on a list, each with a pointer to the next one. -/
def LinkedIno (mem : ℕ → UInt8) (inode : ℕ → ℕ) : ℕ → List ℕ → Prop
  | p, [] => p = 0
  | p, id :: l => p = inode id ∧ LinkedIno mem inode (nxt_free mem (inode id)) l

/-- A block of the storage, below the highest allocated address. -/
def IsBlock (ss : Server) (b : ℕ) : Prop := ss.arch.storage ≤ b ∧ b < ss.top_addr ∧ BLOCK_SIZE ∣ b

structure Shape (ss : Server) (g : Ghost) : Prop where
  buf : ss.buf = ss.arch.storage
  top_dvd : BLOCK_SIZE ∣ ss.top_addr
  top_le : ss.top_addr ≤ 2 * ss.arch.storage
  le_top : ss.arch.storage + BUF_SZ ≤ ss.top_addr
  /-- The pages that have not been allocated are zero. -/
  fresh : ∀ i, ss.top_addr ≤ i → ss.mem i = 0
  own_ne : ∀ b, g.own b ≠ none ↔ IsBlock ss b
  own_buffer : ∀ b, g.own b = some .buffer ↔ IsBlock ss b ∧ b < ss.arch.storage + BUF_SZ
  own_free : ∀ b, g.own b = some .free ↔ b ∈ g.free
  own_node : ∀ b f j, g.own b = some (.node f j) ↔ b ≠ 0 ∧ (g.tree f).node j = b
  own_leaf : ∀ b f k, g.own b = some (.leaf f k) ↔ b ≠ 0 ∧ (g.tree f).leaf k = b
  linked : Linked ss.mem ss.first_free_block g.free
  nodup : g.free.Nodup
  trees : ∀ f, g.Live f → TreeAt ss.mem (g.inode f) (g.tree f)
  dead : ∀ f, ¬g.Live f → g.tree f = Tree.empty
  /-- There are the blocks with the inodes. -/
  table : ∀ k < g.tables, (g.tree none).leaf k ≠ 0
  tables_lt : g.tables < 512
  root_sz : sz ss.mem root = g.tables * BLOCK_SIZE
  ids : ∀ n, g.Exists n → NFile.id ss.mem (g.inode (some n)) = n
  live_exists : ∀ n, g.live n → g.Exists n ∧ n ∉ g.freeIno
  linkedIno : LinkedIno ss.mem (fun n => g.inode (some n)) ss.first_free_inode g.freeIno
  nodupIno : g.freeIno.Nodup
  freeIno_exists : ∀ n ∈ g.freeIno, g.Exists n
  freeIno_zero : ∀ n ∈ g.freeIno, ∀ k < INO_NINDIR, ptr ss.mem (indir (g.inode (some n))) k = 0

variable {ss ss' : Server} {g g' : Ghost}

theorem storage_dvd (arch : Arch) : BLOCK_SIZE ∣ arch.storage := by
  cases arch
  · exact ⟨2 ^ 18, rfl⟩
  · exact ⟨2 ^ 12, rfl⟩

theorem storage_bounds (arch : Arch) : 2 ^ 24 ≤ arch.storage ∧ arch.storage ≤ 2 ^ 30 := by
  cases arch
  · exact ⟨by decide, le_rfl⟩
  · exact ⟨le_rfl, by decide⟩

theorem block_apart (hb : BLOCK_SIZE ∣ b) (hp : BLOCK_SIZE ∣ p) (hne : b ≠ p) :
    b + BLOCK_SIZE ≤ p ∨ p + BLOCK_SIZE ≤ b := by
  obtain ⟨m, rfl⟩ := hb
  obtain ⟨n, rfl⟩ := hp
  simp only [BLOCK_SIZE] at hne ⊢
  omega

theorem IsBlock.lt (h : IsBlock ss b) (hdvd : BLOCK_SIZE ∣ ss.top_addr) : b + BLOCK_SIZE ≤ ss.top_addr := by
  obtain ⟨-, hlt, hb⟩ := h
  obtain h | h := block_apart hb hdvd (by omega)
  · exact h
  · simp only [BLOCK_SIZE] at h
    omega

namespace Shape

theorem isBlock (h : Shape ss g) {place : Place} (hb : g.own b = some place) : IsBlock ss b :=
  (h.own_ne b).1 (by rw [hb]; exact Option.some_ne_none _)

theorem block_pos (h : Shape ss g) {place : Place} (hb : g.own b = some place) : 2 ^ 24 ≤ b ∧ b < 2 ^ 32 := by
  have hblock := h.isBlock hb
  have hbounds := storage_bounds ss.arch
  have htop := h.top_le
  obtain ⟨hl, hr, -⟩ := hblock
  omega

theorem useBlock_own (h : Shape ss g) {place : Place} (hb : g.own b = some place) : useBlock b ss = .ok () ss := by
  have hpos := (h.block_pos hb).1
  exact useBlock_of_lt (by omega) ((h.isBlock hb).2.1.trans_le h.top_le)

theorem useBlock_leaf (h : Shape ss g) {f : Option ℕ} (hk : (g.tree f).leaf k ≠ 0) :
    useBlock ((g.tree f).leaf k) ss = .ok () ss := h.useBlock_own ((h.own_leaf _ f k).2 ⟨hk, rfl⟩)

theorem apart (h : Shape ss g) {place place' : Place} (hb : g.own b = some place) (hp : g.own p = some place')
    (hne : b ≠ p) : b + BLOCK_SIZE ≤ p ∨ p + BLOCK_SIZE ≤ b :=
  block_apart (h.isBlock hb).2.2 (h.isBlock hp).2.2 hne

theorem own_table (h : Shape ss g) (hid : g.Exists id) :
    g.own ((g.tree none).leaf (id / inodesPerBlock)) = some (.leaf none (id / inodesPerBlock)) := by
  have hlt : id / inodesPerBlock < g.tables := Nat.div_lt_of_lt_mul (by rw [Nat.mul_comm]; exact hid)
  exact (h.own_leaf _ _ _).2 ⟨h.table _ hlt, rfl⟩

theorem ino_bounds (h : Shape ss g) (hid : g.Exists id) :
    ∃ b, g.own b = some (.leaf none (id / inodesPerBlock)) ∧ b ≤ g.inode (some id) ∧
      g.inode (some id) + 64 ≤ b + BLOCK_SIZE := by
  refine ⟨_, h.own_table hid, Nat.le_add_right _ _, ?_⟩
  have hmod : id % inodesPerBlock < inodesPerBlock := Nat.mod_lt _ (by decide)
  simp only [Ghost.inode, inodesPerBlock, BLOCK_SIZE] at hmod ⊢
  omega

theorem root_lt (arch : Arch) : root + 64 ≤ arch.storage := by
  have h := (storage_bounds arch).1
  simp only [root]
  omega

theorem ino_apart (h : Shape ss g) (hid : g.Exists id) {n : ℕ} (hn : g.Exists n) (hne : id ≠ n) :
    g.inode (some id) + 64 ≤ g.inode (some n) ∨ g.inode (some n) + 64 ≤ g.inode (some id) := by
  by_cases hdiv : id / inodesPerBlock = n / inodesPerBlock
  · have hmod : id % inodesPerBlock ≠ n % inodesPerBlock := fun hmod => hne (by
      rw [← Nat.div_add_mod id inodesPerBlock, hdiv, hmod, Nat.div_add_mod])
    simp only [Ghost.inode, hdiv]
    omega
  · obtain ⟨b, hb, hbl, hbr⟩ := h.ino_bounds hid
    obtain ⟨p, hp, hpl, hpr⟩ := h.ino_bounds hn
    have hbp : b ≠ p := by
      rintro rfl
      rw [hb] at hp
      exact hdiv (by simpa using hp)
    have := h.apart hb hp hbp
    omega

/-! ## Frames -/

theorem linkedIno_congr {inode : ℕ → ℕ} (h : LinkedIno mem inode p l)
    (hsame : ∀ n ∈ l, Same mem mem' (inode n) (inode n + 64)) : LinkedIno mem' inode p l := by
  induction l generalizing p with
  | nil => exact h
  | cons n l ih =>
    obtain ⟨rfl, hl⟩ := h
    have hnxt : nxt_free mem' (inode n) = nxt_free mem (inode n) :=
      (hsame n List.mem_cons_self).getField le_rfl (by omega)
    exact ⟨rfl, hnxt ▸ ih hl fun m hm => hsame m (List.mem_cons_of_mem n hm)⟩

theorem frame (h : Shape ss g) (hroot : Same ss.mem mem' root (root + 64))
    (hid : ∀ n, g.Exists n → Same ss.mem mem' (g.inode (some n) + 18) (g.inode (some n) + 20))
    (hlive : ∀ n, g.live n → Same ss.mem mem' (g.inode (some n) + 16) (g.inode (some n) + 64))
    (hfree : ∀ n ∈ g.freeIno, Same ss.mem mem' (g.inode (some n)) (g.inode (some n) + 64))
    (hnode : ∀ b f j, g.own b = some (.node f j) → Same ss.mem mem' b (b + BLOCK_SIZE))
    (hlink : ∀ b ∈ g.free, Same ss.mem mem' b (b + 4)) (hfresh : ∀ i, ss.top_addr ≤ i → mem' i = ss.mem i) :
    Shape { ss with mem := mem' } g := by
  refine { h with
    fresh := fun i hi => (hfresh i hi).trans (h.fresh i hi)
    linked := h.linked.congr hlink
    trees := fun f hf => ?_
    root_sz := ?_
    ids := fun n hn => ?_
    linkedIno := linkedIno_congr h.linkedIno hfree
    freeIno_zero := fun n hn k hk => ?_ }
  · refine (h.trees f hf).congr ?_ fun j hj => hnode _ f j ((h.own_node _ _ _).2 ⟨hj, rfl⟩)
    cases f with
    | none => exact hroot.mono (Nat.le_add_right _ _) le_rfl
    | some n => exact hlive n hf
  · rw [← h.root_sz]
    exact hroot.getField le_rfl (by omega)
  · exact ((hid n hn).getField le_rfl le_rfl).trans (h.ids n hn)
  · rw [← h.freeIno_zero n hn k hk]
    simp only [INO_NINDIR] at hk
    exact (hfree n hn).ptr (by simp only [indir]; omega) (by simp only [indir]; omega)

theorem frame_place (h : Shape ss g) {place : Place} (hplace : place ≠ .free) (hplace' : ∀ f j, place ≠ .node f j)
    (hplace'' : ∀ k, place ≠ .leaf none k) (hroot : Same ss.mem mem' root (root + 64))
    (hother : ∀ p place', g.own p = some place' → place' ≠ place → Same ss.mem mem' p (p + BLOCK_SIZE))
    (hfresh : ∀ i, ss.top_addr ≤ i → mem' i = ss.mem i) : Shape { ss with mem := mem' } g := by
  have hino : ∀ n, g.Exists n → Same ss.mem mem' (g.inode (some n)) (g.inode (some n) + 64) := by
    intro n hn
    obtain ⟨p, hp, hpl, hpr⟩ := h.ino_bounds hn
    exact (hother p _ hp (hplace'' _).symm).mono hpl hpr
  refine h.frame hroot (fun n hn => (hino n hn).mono (by omega) (by omega))
    (fun n hn => (hino n (h.live_exists n hn).1).mono (by omega) (by omega))
    (fun n hn => hino n (h.freeIno_exists n hn)) (fun p f j hp => hother p _ hp (hplace' f j).symm) (fun p hp => ?_)
    hfresh
  exact (hother p _ ((h.own_free p).2 hp) hplace.symm).mono le_rfl (by simp only [BLOCK_SIZE]; omega)

theorem frame_block (h : Shape ss g) {place : Place} (hb : g.own b = some place) (hplace : place ≠ .free)
    (hplace' : ∀ f j, place ≠ .node f j) (hplace'' : ∀ k, place ≠ .leaf none k)
    (hsame : ∀ i, i < b ∨ b + BLOCK_SIZE ≤ i → mem' i = ss.mem i) : Shape { ss with mem := mem' } g := by
  have hbl := (h.isBlock hb).1
  have hbr := (h.isBlock hb).lt h.top_dvd
  have hroot := root_lt ss.arch
  refine h.frame_place hplace hplace' hplace'' (fun i _ hr => hsame i (by omega)) ?_ fun i hi => hsame i (by omega)
  -- Other blocks are not written.
  intro p place' hp hne i hl hr
  have hbp : b ≠ p := by
    rintro rfl
    rw [hb] at hp
    exact hne (Option.some.inj hp).symm
  have := h.apart hb hp hbp
  exact hsame i (by omega)

theorem frame_buffer (h : Shape ss g)
    (hsame : ∀ i, i < ss.arch.storage ∨ ss.arch.storage + BUF_SZ ≤ i → mem' i = ss.mem i) :
    Shape { ss with mem := mem' } g := by
  have hroot := root_lt ss.arch
  have htop := h.le_top
  refine @frame_place _ _ _ h .buffer (by simp) (by simp) (by simp) (fun i _ hr => hsame i (by omega)) ?_
    fun i hi => hsame i (by omega)
  intro p place hp hne i hl hr
  have hge : ¬p < ss.arch.storage + BUF_SZ := fun hlt => by
    have hbuf := (h.own_buffer p).2 ⟨h.isBlock hp, hlt⟩
    rw [hp] at hbuf
    exact hne (Option.some.inj hbuf)
  exact hsame i (by omega)

/-- Writing in an inode that is not on the free list keeps the shape, if the number and, of a file that is there,
the pointers are not written. -/
theorem frame_inode (h : Shape ss g) {id : ℕ} (hid : g.Exists id) (hfree : id ∉ g.freeIno)
    (hsame : ∀ i, i < g.inode (some id) ∨ g.inode (some id) + 64 ≤ i → mem' i = ss.mem i)
    (hnumber : Same ss.mem mem' (g.inode (some id) + 18) (g.inode (some id) + 20))
    (hlive : g.live id → Same ss.mem mem' (g.inode (some id) + 16) (g.inode (some id) + 64)) :
    Shape { ss with mem := mem' } g := by
  obtain ⟨b, hb, hbl, hbr⟩ := h.ino_bounds hid
  have hroot := root_lt ss.arch
  have hblock := (h.isBlock hb).1
  have htop := (h.isBlock hb).lt h.top_dvd
  have hother : ∀ p place, g.own p = some place → place ≠ .leaf none (id / inodesPerBlock) →
      Same ss.mem mem' p (p + BLOCK_SIZE) := by
    intro p place hp hne i hl hr
    have hbp : b ≠ p := by
      rintro rfl
      rw [hb] at hp
      exact hne (Option.some.inj hp).symm
    have := h.apart hb hp hbp
    exact hsame i (by omega)
  have hino : ∀ n, g.Exists n → n ≠ id → Same ss.mem mem' (g.inode (some n)) (g.inode (some n) + 64) := by
    intro n hn hne i hl hr
    have := h.ino_apart hn hid hne
    exact hsame i (by omega)
  refine h.frame (fun i _ hr => hsame i (by omega)) (fun n hn => ?_) (fun n hn => ?_) (fun n hn => ?_)
    (fun p f j hp => hother p _ hp (by simp)) (fun p hp => ?_) fun i hi => hsame i (by omega)
  · obtain rfl | hne := eq_or_ne n id
    · exact hnumber
    · exact (hino n hn hne).mono (by omega) (by omega)
  · obtain rfl | hne := eq_or_ne n id
    · exact hlive hn
    · exact (hino n (h.live_exists n hn).1 hne).mono (by omega) (by omega)
  · exact hino n (h.freeIno_exists n hn) fun heq => hfree (heq ▸ hn)
  · exact (hother p _ ((h.own_free p).2 hp) (by simp)).mono le_rfl (by simp only [BLOCK_SIZE]; omega)

end Shape

end CapROS.NFile
