import CapROS.NFile.Files

/-!
# Inodes
-/

namespace CapROS.NFile

open Cells Bytes

variable {ss ss' ss'' : Server} {g g' g'' : Ghost} {b i j k m n p id ino pIno idBase : ℕ} {mem mem' : ℕ → UInt8}
  {f : Option ℕ} {l : List ℕ}

theorem Ghost.Exists.lt (h : g.Exists id) : id / inodesPerBlock < g.tables :=
  Nat.div_lt_of_lt_mul (by rw [Nat.mul_comm]; exact h)

theorem inodeIDToPtr_spec (h : Shape ss g) (hid : g.Exists id) : inodeIDToPtr id ss = .ok (g.inode (some id)) ss := by
  have hne := h.table _ hid.lt
  have hlt := (h.trees none trivial).leaf_lt _ hne
  have hdiv : id / inodesPerBlock * BLOCK_SIZE / BLOCK_SIZE = id / inodesPerBlock := Nat.mul_div_left _ (by decide)
  have hfind := @find_noGrow _ _ none h trivial (id / inodesPerBlock * BLOCK_SIZE) (by rwa [hdiv])
  have hptr : getField ss.mem (g.leafTable none + 4 * (id / inodesPerBlock)) 4 =
      (g.tree none).leaf (id / inodesPerBlock) := h.ptr_leafTable (f := none) trivial hlt
  have hmod : id - id / inodesPerBlock * inodesPerBlock = id % inodesPerBlock := by
    rw [Nat.mul_comm, ← Nat.mod_eq_sub_mul_div]
  rw [hdiv] at hfind
  rw [inodeIDToPtr]
  rw [show root = g.inode none from rfl, bind_ok hfind]
  dsimp only
  rw [get_bind, hptr, bind_ok (h.useBlock_leaf hne), hmod]
  rfl

/-! ## An inode is taken -/

/-- An inode is not on the free list any more. -/
def Ghost.pop (g : Ghost) (l : List ℕ) : Ghost := { g with freeIno := l }

/-- A file is there, without blocks. -/
def Ghost.create (g : Ghost) (id : ℕ) : Ghost := { g with live := fun n => n = id ∨ g.live n }

namespace Shape

theorem inode_lt (h : Shape ss g) (hid : g.Exists id) : 2 ^ 24 ≤ g.inode (some id) ∧ g.inode (some id) + 64 < 2 ^ 32 := by
  obtain ⟨b, hb, hbl, hbr⟩ := h.ino_bounds hid
  have hpos := (h.block_pos hb).1
  have htop := (h.isBlock hb).lt h.top_dvd
  have hle := h.top_le
  have hbounds := storage_bounds ss.arch
  omega

theorem setUuid (h : Shape ss g) (v : ℕ) : Shape { ss with nxt_uuid := v } g := { h with }

theorem pop (h : Shape ss g) (hfree : g.freeIno = id :: l) :
    Shape { ss with first_free_inode := nxt_free ss.mem (g.inode (some id)) } (g.pop l) := by
  have hlinked := h.linkedIno
  have hnodup := h.nodupIno
  rw [hfree] at hlinked hnodup
  have hmem : ∀ n ∈ l, n ∈ g.freeIno := fun n hn => hfree ▸ List.mem_cons_of_mem id hn
  exact { h with
    live_exists := fun n hn => ⟨(h.live_exists n hn).1, fun hmem' => (h.live_exists n hn).2 (hmem n hmem')⟩
    linkedIno := hlinked.2
    nodupIno := (List.nodup_cons.1 hnodup).2
    freeIno_exists := fun n hn => h.freeIno_exists n (hmem n hn)
    freeIno_zero := fun n hn => h.freeIno_zero n (hmem n hn) }

theorem create (h : Shape ss g) (hid : g.Exists id) (hfree : id ∉ g.freeIno) (hlive : ¬g.live id)
    (hlayers : nLayer ss.mem (g.inode (some id)) = 0)
    (hptr : ∀ k < INO_NINDIR, ptr ss.mem (indir (g.inode (some id))) k = 0) : Shape ss (g.create id) := by
  refine { h with
    trees := fun f hf => ?_
    dead := fun f hf => h.dead f fun hlive => hf ?_
    live_exists := fun n hn => ?_ }
  · by_cases heq : f = some id
    · subst heq
      -- It has no blocks yet.
      have hdead : (g.create id).tree (some id) = Tree.empty := h.dead (some id) hlive
      rw [hdead]
      exact ⟨hlayers, Nat.zero_le _, hptr, fun j hj => absurd hj (Nat.not_lt_zero j),
        fun j => iff_of_false (fun hne => hne rfl) (Nat.not_lt_zero j), fun k hne => absurd rfl hne⟩
    · refine h.trees f ?_
      cases f with
      | none => trivial
      | some n => exact hf.resolve_left fun hn => heq (hn ▸ rfl)
  · cases f with
    | none => trivial
    | some n => exact .inr hlive
  · obtain rfl | hn := hn
    · exact ⟨hid, hfree⟩
    · exact h.live_exists n hn

end Shape

/-- What `create_new_file` writes in the inode. -/
def createMem (ino uuid : ℕ) (mem : ℕ → UInt8) : ℕ → UInt8 := setUuid (setNLayer (setSz mem ino 0) ino 0) ino uuid

theorem createMem_of_ne {a v : ℕ} (ha : a < ino ∨ ino + 17 ≤ a) : createMem ino v mem a = mem a := by
  rw [createMem, setUuid, setField_of_ne (by omega), setNLayer, setField_of_ne (by omega), setSz,
    setField_of_ne (by omega)]

theorem sz_createMem {v : ℕ} : sz (createMem ino v mem) ino = 0 := by
  rw [createMem, setUuid, sz, getField_setField_of_disjoint (by omega), setNLayer,
    getField_setField_of_disjoint (by omega), setSz]
  exact getField_setField (by decide)

theorem nLayer_createMem {v : ℕ} : nLayer (createMem ino v mem) ino = 0 := by
  rw [createMem, setUuid, nLayer, getField_setField_of_disjoint (by omega), setNLayer]
  exact getField_setField (by decide)

theorem create_of_cons (h : Shape ss g) (hfree : g.freeIno = id :: l) :
    ∃ ss', create_new_file ss = .ok (.ok (g.inode (some id))) ss' ∧ Shape ss' ((g.pop l).create id) ∧
      ss'.arch = ss.arch ∧ sz ss'.mem (g.inode (some id)) = 0 ∧
      ∀ a, a < g.inode (some id) ∨ g.inode (some id) + 17 ≤ a → ss'.mem a = ss.mem a := by
  have hmem : id ∈ g.freeIno := by
    rw [hfree]
    exact List.mem_cons_self
  have hid := h.freeIno_exists id hmem
  have hlinked := h.linkedIno
  have hnodup := h.nodupIno
  rw [hfree] at hlinked hnodup
  have hfirst : ss.first_free_inode = g.inode (some id) := hlinked.1
  have hpos := (h.inode_lt hid).1
  have hzero := h.freeIno_zero id hmem
  have hpop := h.pop hfree
  have hout := @createMem_of_ne (g.inode (some id)) ss.mem
  have hsame : Same ss.mem (createMem (g.inode (some id)) ss.nxt_uuid ss.mem) (g.inode (some id) + 17)
      (g.inode (some id) + 64) := fun a hl _ => hout (.inr hl)
  have hinode : (g.pop l).inode (some id) = g.inode (some id) := rfl
  have hnot : ¬(g.pop l).live id := fun hlive => (h.live_exists id hlive).2 hmem
  have hframe : Shape { ss with
      first_free_inode := nxt_free ss.mem (g.inode (some id))
      mem := createMem (g.inode (some id)) ss.nxt_uuid ss.mem } (g.pop l) := by
    refine hpop.frame_inode hid (List.nodup_cons.1 hnodup).1 (fun a ha => hout ?_) ?_ fun hlive => absurd hlive hnot
    · rw [hinode] at ha
      omega
    · rw [hinode]
      exact hsame.mono (by omega) (by omega)
  have hcreate := hframe.create hid (List.nodup_cons.1 hnodup).1 hnot nLayer_createMem fun k hk => by
    rw [hinode, ← hzero k hk]
    simp only [INO_NINDIR] at hk
    exact hsame.ptr (by simp only [indir]; omega) (by simp only [indir]; omega)
  refine ⟨_, ?_, hcreate.setUuid ((ss.nxt_uuid + 1) % 2 ^ 64), rfl, sz_createMem, fun a ha => hout ha⟩
  have hne : g.inode (some id) ≠ 0 := by omega
  rw [create_new_file, get_bind, hfirst, if_neg hne]
  rw [bind_ok (pure_apply (a := Code.ok))]
  dsimp only
  rw [if_neg (not_not.2 rfl), get_bind, hfirst, if_pos hzero]
  rfl

/-! ## A block with inodes -/

theorem initInodes_spec (hlt : idBase + i + n ≤ 2 ^ 16) (hlt' : pIno + 64 * (i + n) < 2 ^ 32) :
    (∀ a, (∀ j, i ≤ j → j < i + n → (a < pIno + 64 * j ∨ pIno + 64 * j + 4 ≤ a) ∧
        (a < pIno + 64 * j + 18 ∨ pIno + 64 * j + 20 ≤ a)) → initInodes pIno idBase n i mem a = mem a) ∧
      (∀ j, i ≤ j → j < i + n → NFile.id (initInodes pIno idBase n i mem) (pIno + 64 * j) = idBase + j) ∧
      ∀ j, i ≤ j → j < i + n → nxt_free (initInodes pIno idBase n i mem) (pIno + 64 * j) = pIno + 64 * (j + 1) := by
  induction n generalizing i mem with
  | zero => exact ⟨fun _ _ => rfl, fun j hl hr => by omega, fun j hl hr => by omega⟩
  | succ n ih =>
    obtain ⟨hsame, hid, hnxt⟩ := @ih (i + 1)
      (setNxtFree (setId mem (pIno + 64 * i) (idBase + i)) (pIno + 64 * i) (pIno + 64 * (i + 1))) (by omega) (by omega)
    rw [initInodes]
    refine ⟨fun a ha => ?_, fun j hl hr => ?_, fun j hl hr => ?_⟩
    · refine (hsame a fun j hl hr => ha j (by omega) (by omega)).trans ?_
      have hi := ha i le_rfl (by omega)
      rw [setNxtFree, setField_of_ne hi.1, setId, setField_of_ne (by omega)]
    · obtain rfl | hne := eq_or_ne j i
      · -- The others do not write this inode.
        have hfield : NFile.id (initInodes pIno idBase n (j + 1) _) (pIno + 64 * j) = NFile.id _ (pIno + 64 * j) :=
          getField_congr fun a hl hr => hsame a fun j' hl' _ => by omega
        refine hfield.trans ?_
        rw [NFile.id, setNxtFree, getField_setField_of_disjoint (by omega), setId]
        exact getField_setField (by omega)
      · exact hid j (by omega) (by omega)
    · obtain rfl | hne := eq_or_ne j i
      · have hfield : nxt_free (initInodes pIno idBase n (j + 1) _) (pIno + 64 * j) = nxt_free _ (pIno + 64 * j) :=
          getField_congr fun a hl hr => hsame a fun j' hl' _ => by omega
        refine hfield.trans ?_
        rw [nxt_free, setNxtFree]
        exact getField_setField (by omega)
      · exact hnxt j (by omega) (by omega)

/-- There is a block of free inodes more. -/
def Ghost.addTable (g : Ghost) : Ghost :=
  { g with freeIno := List.range' (g.tables * inodesPerBlock) inodesPerBlock, tables := g.tables + 1 }

/-- What `grow_inode_table` writes. -/
def tableMem (pIno idBase : ℕ) (mem : ℕ → UInt8) : ℕ → UInt8 :=
  let mem := initInodes pIno idBase inodesPerBlock 0 mem
  let mem := setNxtFree mem (pIno + 64 * (inodesPerBlock - 1)) 0
  setSz mem root (sz mem root + BLOCK_SIZE)

theorem tableMem_spec (hbase : idBase + 64 ≤ 2 ^ 16) (hlt : pIno + BLOCK_SIZE < 2 ^ 32) (hroot : root + 64 ≤ pIno)
    (hsz : sz mem root + BLOCK_SIZE < 2 ^ 64) :
    (∀ a, (a < pIno ∨ pIno + BLOCK_SIZE ≤ a) → (a < root ∨ root + 8 ≤ a) → tableMem pIno idBase mem a = mem a) ∧
      sz (tableMem pIno idBase mem) root = sz mem root + BLOCK_SIZE ∧
      (∀ j < inodesPerBlock, NFile.id (tableMem pIno idBase mem) (pIno + 64 * j) = idBase + j) ∧
      (∀ j, j + 1 < inodesPerBlock → nxt_free (tableMem pIno idBase mem) (pIno + 64 * j) = pIno + 64 * (j + 1)) ∧
      nxt_free (tableMem pIno idBase mem) (pIno + 64 * (inodesPerBlock - 1)) = 0 ∧
      ∀ j < inodesPerBlock, Same mem (tableMem pIno idBase mem) (pIno + 64 * j + 20) (pIno + 64 * j + 64) := by
  simp only [BLOCK_SIZE, inodesPerBlock] at hlt hsz ⊢
  obtain ⟨hsame, hid, hnxt⟩ := @initInodes_spec 0 64 pIno idBase mem (by omega) (by omega)
  have hszEq : sz (setNxtFree (initInodes pIno idBase 64 0 mem) (pIno + 64 * (64 - 1)) 0) root = sz mem root := by
    rw [sz, setNxtFree, getField_setField_of_disjoint (by omega)]
    exact getField_congr fun a hl hr => hsame a fun j _ _ => by omega
  have htable : tableMem pIno idBase mem = setSz (setNxtFree (initInodes pIno idBase 64 0 mem) (pIno + 64 * (64 - 1)) 0)
      root (sz mem root + 4096) := by
    rw [← hszEq]
    rfl
  rw [htable]
  refine ⟨fun a ha ha' => ?_, getField_setField (by omega), fun j hj => ?_, fun j hj => ?_, ?_, fun j hj a hl hr => ?_⟩
  · rw [setSz, setField_of_ne ha', setNxtFree, setField_of_ne (by omega)]
    exact hsame a fun j _ _ => by omega
  · rw [NFile.id, setSz, getField_setField_of_disjoint (by omega), setNxtFree,
      getField_setField_of_disjoint (by omega)]
    exact hid j (Nat.zero_le _) (by omega)
  · rw [nxt_free, setSz, getField_setField_of_disjoint (by omega), setNxtFree,
      getField_setField_of_disjoint (by omega)]
    exact hnxt j (Nat.zero_le _) (by omega)
  · rw [nxt_free, setSz, getField_setField_of_disjoint (by omega), setNxtFree]
    exact getField_setField (by decide)
  · rw [setSz, setField_of_ne (by omega), setNxtFree, setField_of_ne (by omega)]
    exact hsame a fun j' _ _ => by omega

theorem linkedIno_range' {inode : ℕ → ℕ} {base : ℕ} (hinode : ∀ j < inodesPerBlock, inode (base + j) = pIno + 64 * j)
    (hnxt : ∀ j, j + 1 < inodesPerBlock → nxt_free mem (pIno + 64 * j) = pIno + 64 * (j + 1))
    (hlast : nxt_free mem (pIno + 64 * (inodesPerBlock - 1)) = 0) (hi : i + n + 1 = inodesPerBlock) :
    LinkedIno mem inode (pIno + 64 * i) (List.range' (base + i) (n + 1)) := by
  induction n generalizing i with
  | zero =>
    refine ⟨(hinode i (by omega)).symm, ?_⟩
    rw [hinode i (by omega), show i = inodesPerBlock - 1 by omega, hlast]
    rfl
  | succ n ih =>
    refine ⟨(hinode i (by omega)).symm, ?_⟩
    rw [hinode i (by omega), hnxt i (by omega)]
    exact ih (i := i + 1) (by omega)

namespace Shape

theorem table_bounds (h : Shape ss g) (hne : (g.tree none).leaf g.tables ≠ 0) (hlt : g.tables + 1 < 512) :
    g.tables * inodesPerBlock + 64 ≤ 2 ^ 16 ∧ (g.tree none).leaf g.tables + BLOCK_SIZE < 2 ^ 32 ∧
      NFile.root + 64 ≤ (g.tree none).leaf g.tables ∧ sz ss.mem NFile.root + BLOCK_SIZE < 2 ^ 64 := by
  have hown := (h.own_leaf _ none g.tables).2 ⟨hne, rfl⟩
  have hstorage := (h.isBlock hown).1
  have hend := (h.isBlock hown).lt h.top_dvd
  have hroot := root_lt ss.arch
  have hbounds := storage_bounds ss.arch
  have htop := h.top_le
  refine ⟨?_, by omega, by omega, ?_⟩
  · simp only [inodesPerBlock]
    omega
  · rw [h.root_sz]
    simp only [BLOCK_SIZE]
    omega

theorem tableMem_same (h : Shape ss g) (hne : (g.tree none).leaf g.tables ≠ 0) (hlt : g.tables + 1 < 512) :
    (∀ b place, g.own b = some place → b ≠ (g.tree none).leaf g.tables →
        Same ss.mem (tableMem ((g.tree none).leaf g.tables) (g.tables * inodesPerBlock) ss.mem) b (b + BLOCK_SIZE)) ∧
      ∀ n, g.Exists n → Same ss.mem (tableMem ((g.tree none).leaf g.tables) (g.tables * inodesPerBlock) ss.mem)
        (g.inode (some n)) (g.inode (some n) + 64) := by
  have hown := (h.own_leaf _ none g.tables).2 ⟨hne, rfl⟩
  have hroot := root_lt ss.arch
  obtain ⟨hbase, hlt', hpos, hsz⟩ := h.table_bounds hne hlt
  obtain ⟨hsame, -⟩ := tableMem_spec hbase hlt' hpos hsz
  have hother : ∀ b place, g.own b = some place → b ≠ (g.tree none).leaf g.tables →
      Same ss.mem (tableMem ((g.tree none).leaf g.tables) (g.tables * inodesPerBlock) ss.mem) b (b + BLOCK_SIZE) := by
    intro b place hb hbpg i hl hr
    have hapart := h.apart hb hown hbpg
    have hstorage := (h.isBlock hb).1
    exact hsame i (by omega) (by omega)
  refine ⟨hother, fun n hn => ?_⟩
  obtain ⟨b, hb, hbl, hbr⟩ := h.ino_bounds hn
  refine (hother b _ hb ?_).mono hbl hbr
  rintro rfl
  rw [hown] at hb
  have hk := (Place.leaf.inj (Option.some.inj hb)).2
  have hk' := hn.lt
  omega

theorem addTable (h : Shape ss g) (hne : (g.tree none).leaf g.tables ≠ 0)
    (hzero : ∀ i, (g.tree none).leaf g.tables ≤ i → i < (g.tree none).leaf g.tables + BLOCK_SIZE → ss.mem i = 0)
    (hlt : g.tables + 1 < 512) :
    Shape { ss with
      mem := tableMem ((g.tree none).leaf g.tables) (g.tables * inodesPerBlock) ss.mem
      first_free_inode := (g.tree none).leaf g.tables } g.addTable := by
  have hown := (h.own_leaf _ none g.tables).2 ⟨hne, rfl⟩
  obtain ⟨hother, hold⟩ := h.tableMem_same hne hlt
  obtain ⟨hbase, hlt', hpos, hsz'⟩ := h.table_bounds hne hlt
  have hinodeEq : ∀ j < inodesPerBlock, g.addTable.inode (some (g.tables * inodesPerBlock + j)) =
      (g.tree none).leaf g.tables + 64 * j := by
    intro j hj
    have hdiv : (g.tables * inodesPerBlock + j) / inodesPerBlock = g.tables ∧
        (g.tables * inodesPerBlock + j) % inodesPerBlock = j := by
      simp only [inodesPerBlock] at hj ⊢
      omega
    rw [Ghost.inode, hdiv.1, hdiv.2]
    rfl
  generalize hpg : (g.tree none).leaf g.tables = pg at *
  have hblock := h.isBlock hown
  have hend := hblock.lt h.top_dvd
  obtain ⟨hsame, hsz, hid, hnxt, hlast, hptr⟩ := tableMem_spec hbase hlt' hpos hsz'
  have hcases : ∀ n, g.addTable.Exists n → g.Exists n ∨ ∃ j < inodesPerBlock, n = g.tables * inodesPerBlock + j := by
    intro n hn
    by_cases hexists : g.Exists n
    · exact .inl hexists
    · refine .inr ⟨n - g.tables * inodesPerBlock, ?_, ?_⟩
      · simp only [Ghost.Exists, Ghost.addTable, inodesPerBlock] at hn hexists ⊢
        omega
      · simp only [Ghost.Exists, inodesPerBlock] at hexists ⊢
        omega
  have hexists : ∀ n, g.Exists n → g.addTable.Exists n := by
    intro n hn
    simp only [Ghost.Exists, Ghost.addTable, inodesPerBlock] at hn ⊢
    omega
  refine { h with
    fresh := fun i hi => ?_
    linked := h.linked.congr fun b hb => ?_
    trees := fun f hf => ?_
    table := fun k hk => ?_
    tables_lt := hlt
    root_sz := ?_
    ids := fun n hn => ?_
    live_exists := fun n hn => ⟨hexists n (h.live_exists n hn).1, fun hmem => ?_⟩
    linkedIno := ?_
    nodupIno := List.nodup_range'
    freeIno_exists := fun n hn => ?_
    freeIno_zero := fun n hn k hk => ?_ }
  · rw [← h.fresh i hi]
    have hi : ss.top_addr ≤ i := hi
    exact hsame i (.inr (hend.trans hi)) (by omega)
  · have hfree := (h.own_free b).2 hb
    have hbpg : b ≠ pg := by
      rintro rfl
      rw [hown] at hfree
      cases hfree
    exact (hother b _ hfree hbpg).mono le_rfl (by simp only [BLOCK_SIZE]; omega)
  · refine (h.trees f hf).congr ?_ fun j hj => ?_
    · cases f with
      | none =>
        intro i hl hr
        have hino : g.inode none = root := rfl
        exact hsame i (by omega) (by omega)
      | some n => exact (hold n (h.live_exists n hf).1).mono (by omega) le_rfl
    · have hnode := (h.own_node _ f j).2 ⟨hj, rfl⟩
      refine hother _ _ hnode fun heq => ?_
      rw [heq, hown] at hnode
      cases hnode
  · obtain hk | rfl := Nat.lt_succ_iff_lt_or_eq.1 hk
    · exact h.table k hk
    · exact hpg ▸ hne
  · rw [hsz, h.root_sz]
    exact (Nat.succ_mul _ _).symm
  · obtain hn | ⟨j, hj, rfl⟩ := hcases n hn
    · exact (((hold n hn).mono (Nat.le_add_right _ 18) (by omega)).getField le_rfl le_rfl).trans (h.ids n hn)
    · rw [hinodeEq j hj]
      exact hid j hj
  · have hn := (h.live_exists n hn).1
    have := (List.mem_range'_1.1 hmem).1
    simp only [Ghost.Exists] at hn
    omega
  · exact linkedIno_range' (i := 0) (n := 63) hinodeEq hnxt hlast rfl
  · have := (List.mem_range'_1.1 hn).2
    simp only [Ghost.Exists, Ghost.addTable, inodesPerBlock] at this ⊢
    omega
  · obtain ⟨hl, hr⟩ := List.mem_range'_1.1 hn
    obtain ⟨j, rfl⟩ := Nat.exists_eq_add_of_le hl
    have hj : j < inodesPerBlock := by omega
    rw [hinodeEq j hj]
    have hk' := hk
    simp only [INO_NINDIR] at hk'
    simp only [inodesPerBlock] at hj
    rw [(hptr j hj).ptr (by simp only [indir]; omega) (by simp only [indir]; omega)]
    exact getField_eq_zero fun i hl hr => hzero i (by simp only [indir] at hl; omega)
      (by simp only [indir] at hr; simp only [BLOCK_SIZE]; omega)

end Shape

/-! ## States between requests -/

/-- The state between requests: no block is lost, and every inode is that of a file or free. -/
structure Valid (ss : Server) (g : Ghost) : Prop where
  shape : Shape ss g
  lost : ∀ b, g.own b ≠ some .lost
  root : ∀ k, g.tables ≤ k → (g.tree none).leaf k = 0
  full : ∀ n, g.Exists n → g.live n ∨ n ∈ g.freeIno

theorem Valid.extends {keep : ℕ → Prop} (h : Valid ss g) (hext : Extends keep ss g (some n) ss' g') : Valid ss' g' where
  shape := hext.shape
  lost b hb := h.lost b (hext.lost b hb)
  root k hk := by
    rw [hext.tables] at hk
    rw [hext.other none (by simp), h.root k hk]
  full m hm := by
    rw [hext.live, hext.freeIno]
    exact h.full m (hext.exists_iff.1 hm)

theorem grow_spec (h : Valid ss g) (hnil : g.freeIno = []) :
    (g.tables = 511 ∧ grow_inode_table ss = .ok .tooManyFiles ss) ∨
      (∃ ss' g', grow_inode_table ss = .ok .ok ss' ∧ Valid ss' g' ∧ g'.freeIno ≠ [] ∧ g'.live = g.live ∧
        ss'.arch = ss.arch ∧ ∀ n, g.live n → KeepsFile ss g n ss' g') ∨
      (∃ ss', grow_inode_table ss = .error .outOfSpace ss') ∧ g.tables + 1 < 512 ∧ g.room ss < g.need none g.tables 1 := by
  have hs := h.shape
  have hsz := hs.root_sz
  have hdiv : g.tables * BLOCK_SIZE / BLOCK_SIZE = g.tables := Nat.mul_div_left _ (by decide)
  rw [grow_inode_table, get_bind]
  rw [hsz, hdiv]
  by_cases hfull : (g.tables + 1) * inodesPerBlock ≥ keyInfo_server
  · rw [if_pos hfull]
    refine .inl ⟨?_, rfl⟩
    have hlt := hs.tables_lt
    simp only [inodesPerBlock, keyInfo_server] at hfull
    omega
  · rw [if_neg hfull]
    have hlt : g.tables + 1 < 512 := by
      simp only [inodesPerBlock, keyInfo_server] at hfull
      omega
    obtain ⟨p, ss₁, g₁, hfind, hfound⟩ | ⟨hno, hroom⟩ :=
      @find_grow ss g g.tables none hs trivial (g.tables * BLOCK_SIZE) hdiv (by simp only [PtrsPerBlock]; omega) .GROW
        (by simp)
    · have hext := hfound.ext
      have hzero := hfound.zero rfl (h.root _ le_rfl)
      have hne := hfound.ne
      rw [← hext.tables] at hne hzero hlt
      have hadd := hext.shape.addTable hne hzero hlt
      refine .inr (.inl ⟨_, g₁.addTable, (bind_ok hfind).trans ?_, ⟨hadd, fun b hb => h.lost b (hext.lost b hb),
        fun k hk => ?_, fun n hn => ?_⟩, by simp [Ghost.addTable, inodesPerBlock], hext.live, hext.arch, fun n hn => ?_⟩)
      · dsimp only
        rw [get_bind, hfound.ptr, bind_ok (hext.shape.useBlock_leaf hfound.ne), hext.tables, Nat.succ_mul,
          Nat.add_sub_cancel]
        rfl
      · have hk : g.tables + 1 ≤ k := hext.tables ▸ hk
        exact (hfound.others k (by omega)).trans (h.root k (by omega))
      · by_cases hold : g.Exists n
        · refine .inl (hext.live ▸ (h.full n hold).resolve_right ?_)
          rw [hnil]
          exact List.not_mem_nil
        · -- It is one of the new inodes.
          rw [← hext.exists_iff] at hold
          refine .inr (List.mem_range'_1.2 ?_)
          simp only [Ghost.Exists, Ghost.addTable, inodesPerBlock] at hn hold ⊢
          omega
      · refine (hext.keepsFile hs hn trivial (by simp)).trans ?_
        obtain ⟨hother, hold⟩ := hext.shape.tableMem_same hne hlt
        have hn₁ : g₁.live n := hext.live ▸ hn
        refine ⟨hn₁, rfl, rfl, hold n (hext.shape.live_exists n hn₁).1, fun k hk => ?_⟩
        have hdata := (hext.shape.own_leaf _ (some n) k).2 ⟨hk, rfl⟩
        refine hother _ _ hdata fun heq => ?_
        have htable := (hext.shape.own_leaf _ none g₁.tables).2 ⟨hne, rfl⟩
        rw [heq, htable] at hdata
        cases hdata
    · exact .inr (.inr ⟨hno.bind fun p => ⟨_, rfl⟩, hlt, hroom⟩)

/-- A file has been created, and the other files are as before. -/
structure Created (ss : Server) (g : Ghost) (id : ℕ) (ss' : Server) (g' : Ghost) : Prop where
  valid : Valid ss' g'
  new : ¬g.live id
  live : ∀ n, g'.live n ↔ n = id ∨ g.live n
  arch : ss'.arch = ss.arch
  tree : g'.tree (some id) = Tree.empty
  sz : sz ss'.mem (g'.inode (some id)) = 0
  keeps : ∀ n, g.live n → KeepsFile ss g n ss' g'

theorem create_cons_spec (h : Valid ss g) (hfree : g.freeIno = id :: l) :
    ∃ ss' g', create_new_file ss = .ok (.ok (g'.inode (some id))) ss' ∧ Created ss g id ss' g' := by
  have hs := h.shape
  obtain ⟨ss', hrun, hshape, harch, hsz, hout⟩ := create_of_cons hs hfree
  have hmem : id ∈ g.freeIno := by
    rw [hfree]
    exact List.mem_cons_self
  have hid := hs.freeIno_exists id hmem
  have hnew : ¬g.live id := fun hlive => (hs.live_exists id hlive).2 hmem
  refine ⟨ss', (g.pop l).create id, hrun, ⟨hshape, h.lost, h.root, fun n hn => ?_⟩, hnew, fun n => Iff.rfl, harch,
    hs.dead (some id) hnew, hsz, fun n hn => ?_⟩
  · obtain hlive | hfree' := h.full n hn
    · exact .inl (.inr hlive)
    · rw [hfree] at hfree'
      exact (List.mem_cons.1 hfree').imp_left .inl
  · have hne : n ≠ id := fun heq => hnew (heq ▸ hn)
    refine ⟨.inr hn, rfl, rfl, fun i hl hr => ?_, fun k hk i hl hr => ?_⟩
    · have := hs.ino_apart (hs.live_exists n hn).1 hid hne
      exact hout i (by omega)
    · have := hs.ino_block_apart hid ((hs.own_leaf _ (some n) k).2 ⟨hk, rfl⟩) (by simp)
      exact hout i (by omega)

theorem create_spec (h : Valid ss g) :
    (∃ id ss' g', create_new_file ss = .ok (.ok (g'.inode (some id))) ss' ∧ Created ss g id ss' g') ∨
      (create_new_file ss = .ok (.error .tooManyFiles) ss ∧ g.freeIno = [] ∧ g.tables = 511) ∨
      (∃ ss', create_new_file ss = .error .outOfSpace ss') ∧ g.freeIno = [] ∧ g.tables + 1 < 512 ∧ g.room ss < g.need none g.tables 1 := by
  cases hfree : g.freeIno with
  | cons id l =>
    obtain ⟨ss', g', hrun, hcreated⟩ := create_cons_spec h hfree
    exact .inl ⟨id, ss', g', hrun, hcreated⟩
  | nil =>
    have hfirst : ss.first_free_inode = 0 := by
      have hlinked := h.shape.linkedIno
      rw [hfree] at hlinked
      exact hlinked
    have hrun : ∀ {result ss₁}, grow_inode_table ss = .ok result ss₁ → create_new_file ss =
        (if result ≠ .ok then (pure (.error result) : Op (Except Code ℕ)) else do
          let ss ← get
          let ino := ss.first_free_inode
          if ∀ i < INO_NINDIR, ptr ss.mem (indir ino) i = 0 then
            set { ss with
              first_free_inode := nxt_free ss.mem ino
              mem := setUuid (setNLayer (setSz ss.mem ino 0) ino 0) ino ss.nxt_uuid
              nxt_uuid := (ss.nxt_uuid + 1) % 2 ^ 64 }
            return .ok ino
          else throw .assertion) ss₁ := by
      intro result ss₁ hgrow
      rw [create_new_file, get_bind, if_pos hfirst, bind_ok hgrow]
    obtain ⟨htables, hgrow⟩ | ⟨ss₁, g₁, hgrow, hvalid, hne, hlive, harch, hkeeps⟩ | ⟨⟨ss₁, hgrow⟩, hlt, hroom⟩ :=
      grow_spec h hfree
    · refine .inr (.inl ⟨?_, rfl, htables⟩)
      rw [hrun hgrow, if_pos (by simp)]
      rfl
    · -- It is as if the new inodes had been there.
      obtain ⟨id, l, hcons⟩ := List.exists_cons_of_ne_nil hne
      obtain ⟨ss', g', hcreate, hcreated⟩ := create_cons_spec hvalid hcons
      have hfirst₁ : ss₁.first_free_inode ≠ 0 := by
        have hlinked := hvalid.shape.linkedIno
        rw [hcons] at hlinked
        have hpos := (hvalid.shape.inode_lt (hvalid.shape.freeIno_exists id (by rw [hcons]; exact List.mem_cons_self))).1
        have hzero : g₁.inode (some id) ≠ 0 := by omega
        exact hlinked.1 ▸ hzero
      refine .inl ⟨id, ss', g', ?_, hcreated.valid, hlive ▸ hcreated.new, fun n => hlive ▸ hcreated.live n,
        hcreated.arch.trans harch, hcreated.tree, hcreated.sz, fun n hn => ?_⟩
      · rw [← hcreate, hrun hgrow, create_new_file, get_bind, if_neg hfirst₁, bind_ok (pure_apply (a := Code.ok))]
      · exact (hkeeps n hn).trans (hcreated.keeps n (hlive ▸ hn))
    · refine .inr (.inr ⟨⟨ss₁, ?_⟩, rfl, hlt, hroom⟩)
      rw [create_new_file, get_bind, if_pos hfirst]
      exact bind_error hgrow

end CapROS.NFile
