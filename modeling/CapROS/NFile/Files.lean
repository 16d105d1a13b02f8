import CapROS.NFile.Find

/-!
# Writing and reading a file

* `writeLoop_spec`: `write_to_file` writes the bytes of the buffer, and only this file changes.
* `readLoop_spec`: `read_from_file` puts the bytes of the file in the buffer, if there are no holes.
-/

namespace CapROS.NFile

open Cells Bytes

variable {ss ss' ss'' : Server} {g g' g'' : Ghost} {b i j k m n p at' len buf fuel : ℕ} {mem mem' : ℕ → UInt8}
  {f : Option ℕ} {wantGrow : Grow} {keep : ℕ → Prop}

theorem write_read {a : ℕ} (hj : j < n) : write mem a (read mem' b n) (a + j) = mem' (b + j) := by
  rw [write_add (by rwa [length_read])]
  simp only [read_eq_map, List.get_eq_getElem, List.getElem_map, List.getElem_range]

/-! ## The bytes of a file -/

/-- The byte at the place `i` of a file. -/
def Ghost.byte (g : Ghost) (mem : ℕ → UInt8) (f : Option ℕ) (i : ℕ) : UInt8 :=
  if (g.tree f).leaf (i / BLOCK_SIZE) = 0 then 0 else mem ((g.tree f).leaf (i / BLOCK_SIZE) + i % BLOCK_SIZE)

theorem Ghost.byte_congr (hleaf : (g'.tree f).leaf (i / BLOCK_SIZE) = (g.tree f).leaf (i / BLOCK_SIZE))
    (hsame : (g.tree f).leaf (i / BLOCK_SIZE) ≠ 0 →
      Same mem mem' ((g.tree f).leaf (i / BLOCK_SIZE)) ((g.tree f).leaf (i / BLOCK_SIZE) + BLOCK_SIZE)) :
    g'.byte mem' f i = g.byte mem f i := by
  unfold Ghost.byte
  rw [hleaf]
  split_ifs with hzero
  · rfl
  · exact hsame hzero _ (Nat.le_add_right _ _) (Nat.add_lt_add_left (Nat.mod_lt _ (by decide)) _)

theorem Found.byte (hs : Shape ss g) (h : Found ss g (some n) k wantGrow p ss' g')
    (hi : wantGrow = .GROW ∨ i / BLOCK_SIZE ≠ k) :
    g'.byte ss'.mem (some n) i = g.byte ss.mem (some n) i := by
  by_cases hne : (g.tree (some n)).leaf (i / BLOCK_SIZE) = 0
  · by_cases hk : i / BLOCK_SIZE = k
    · subst hk
      obtain hG | hk := hi
      · unfold Ghost.byte
        rw [if_neg h.ne, if_pos hne]
        exact h.zero hG hne _ (Nat.le_add_right _ _) (Nat.add_lt_add_left (Nat.mod_lt _ (by decide)) _)
      · exact absurd rfl hk
    · exact Ghost.byte_congr (h.others _ hk) fun hne' => absurd hne hne'
  · exact Ghost.byte_congr (h.ext.leaf _ hne) fun _ => h.ext.data _ n _ trivial ((hs.own_leaf _ _ _).2 ⟨hne, rfl⟩)

theorem Extends.of_data (h : Shape ss g) (hb : g.own b = some (.leaf (some n) k))
    (hsame : ∀ i, i < b ∨ b + BLOCK_SIZE ≤ i → mem' i = ss.mem i) :
    Extends (fun m => m ≠ n) ss g (some n) { ss with mem := mem' } g := by
  have hino : ∀ m, g.Exists m → Same ss.mem mem' (g.inode (some m)) (g.inode (some m) + 64) := by
    intro m hm i hl hr
    have := h.ino_block_apart hm hb (by simp)
    exact hsame i (by omega)
  refine {
    shape := h.frame_block hb (by simp) (by simp) (by simp) hsame
    arch := rfl
    first_free_inode := rfl
    nxt_uuid := rfl
    live := rfl
    freeIno := rfl
    tables := rfl
    other := fun _ _ => rfl
    leaf := fun _ _ => rfl
    lost := fun _ hb => hb
    data := fun p m k' hm hp i hl hr => ?_
    buffer := fun i hl hr => ?_
    inode := fun m hm _ => hino m hm
    self := (hino n ?_).mono le_rfl (by omega) }
  · have hbp : p ≠ b := by
      rintro rfl
      rw [hb] at hp
      obtain ⟨heq, -⟩ := Place.leaf.inj (Option.some.inj hp)
      exact hm (Option.some.inj heq).symm
    have := h.apart hp hb hbp
    exact hsame i (by omega)
  · -- The block is not in the buffer.
    have hout : ¬b < ss.arch.storage + BUF_SZ := fun hlt => by
      have hbuffer := (h.own_buffer b).2 ⟨h.isBlock hb, hlt⟩
      rw [hb] at hbuffer
      cases hbuffer
    exact hsame i (by omega)
  · -- A file with data is there.
    by_contra hdead
    have hlive : ¬g.Live (some n) := fun hlive => hdead (h.live_exists n hlive).1
    obtain ⟨hne, hleaf⟩ := (h.own_leaf _ _ _).1 hb
    rw [h.dead _ hlive] at hleaf
    exact hne hleaf.symm

/-! ## Pages -/

/-- How many pages have some of `len` bytes from the place `at'` on. -/
def pages (at' len : ℕ) : ℕ := if len = 0 then 0 else (at' + len - 1) / BLOCK_SIZE - at' / BLOCK_SIZE + 1

theorem pages_succ (hlen : len ≠ 0) : pages at' len =
    pages (at' + min (BLOCK_SIZE - at' % BLOCK_SIZE) len) (len - min (BLOCK_SIZE - at' % BLOCK_SIZE) len) + 1 := by
  unfold pages
  rw [if_neg hlen]
  obtain hle | hlt := le_or_gt len (BLOCK_SIZE - at' % BLOCK_SIZE)
  · rw [Nat.min_eq_right hle, Nat.sub_self, if_pos rfl]
    simp only [BLOCK_SIZE] at hle ⊢
    omega
  · rw [Nat.min_eq_left hlt.le, if_neg (by omega)]
    simp only [BLOCK_SIZE] at hlt ⊢
    omega

theorem pages_next :
    (at' + min (BLOCK_SIZE - at' % BLOCK_SIZE) len) / BLOCK_SIZE = at' / BLOCK_SIZE + 1 ∨
      len - min (BLOCK_SIZE - at' % BLOCK_SIZE) len = 0 := by
  simp only [BLOCK_SIZE]
  omega

@[simp] theorem room_mem : g.room { ss with mem := mem' } = g.room ss := rfl

@[simp] theorem pages_zero : pages at' 0 = 0 := rfl

@[simp] theorem need_zero : g.need f k 0 = 0 := by simp [Ghost.need]

theorem need_one_le : g.need f k 1 ≤ g.need f k (j + 1) := by
  refine Nat.add_le_add ?_ ?_
  · by_cases hl : (g.tree f).layers = 0 ∧ 0 < 1 ∧ INO_NINDIR < k + 1
    · rw [if_pos hl, if_pos ⟨hl.1, by omega, by omega⟩]
    · rw [if_neg hl]
      exact Nat.zero_le _
  · exact (List.Sublist.filter _ (List.range'_sublist_right.2 (by omega))).length_le

theorem Found.need (h : Found ss g f k wantGrow p ss' g') : g'.need f (k + 1) j + g.need f k 1 = g.need f k (j + 1) := by
  have hcount : ((List.range' (k + 1) j).filter fun k => (g'.tree f).leaf k = 0) =
      (List.range' (k + 1) j).filter fun k => (g.tree f).leaf k = 0 := by
    refine List.filter_congr fun k' hk' => ?_
    rw [h.others k' (by have := (List.mem_range'_1.1 hk').1; omega)]
  have hsucc : ((List.range' k (j + 1)).filter fun k => (g.tree f).leaf k = 0).length =
      ((List.range' k 1).filter fun k => (g.tree f).leaf k = 0).length +
        ((List.range' (k + 1) j).filter fun k => (g.tree f).leaf k = 0).length := by
    rw [← List.length_append, ← List.filter_append, List.range'_append_1, Nat.add_comm 1 j]
  have hlayers := h.layers
  unfold Ghost.need
  rw [hcount, hsucc]
  by_cases hl : (g.tree f).layers = 0
  · by_cases hk : INO_NINDIR ≤ k
    · -- The layer has been made.
      rw [if_pos ⟨hl, hk⟩] at hlayers
      rw [if_neg fun hboth => Nat.one_ne_zero (hlayers.symm.trans hboth.1), if_pos ⟨hl, by omega, by omega⟩,
        if_pos ⟨hl, by omega, by omega⟩]
      omega
    · rw [if_neg fun hboth => hk hboth.2] at hlayers
      rw [hlayers]
      split_ifs
      all_goals omega
  · rw [if_neg fun hboth => hl hboth.1] at hlayers
    rw [hlayers, if_neg fun hboth => hl hboth.1, if_neg fun hboth => hl hboth.1, if_neg fun hboth => hl hboth.1]
    omega

/-! ## Writing -/

/-- The blocks and the data after a part of a write: from the state `ss`, `len` bytes have been written at `at'`. -/
structure Wrote (ss : Server) (g : Ghost) (n at' len buf : ℕ) (ss' : Server) (g' : Ghost) : Prop where
  ext : Extends (fun m => m ≠ n) ss g (some n) ss' g'
  byte : ss.arch.storage ≤ buf → buf + len ≤ ss.arch.storage + BUF_SZ → ∀ i, g'.byte ss'.mem (some n) i =
    if at' ≤ i ∧ i < at' + len then ss.mem (buf + (i - at')) else g.byte ss.mem (some n) i

theorem Wrote.nil (h : Shape ss g) : Wrote ss g n at' 0 buf ss g :=
  ⟨Extends.refl h _, fun _ _ i => (if_neg (by omega)).symm⟩

theorem Wrote.append {len' : ℕ} (h : Shape ss g) (hn : g.live n) (hw : Wrote ss g n at' len buf ss' g')
    (hw' : Wrote ss' g' n (at' + len) len' (buf + len) ss'' g'') : Wrote ss g n at' (len + len') buf ss'' g'' := by
  refine ⟨hw.ext.trans h hn hw'.ext, fun hl hr i => ?_⟩
  rw [hw'.byte (by rw [hw.ext.arch]; omega) (by rw [hw.ext.arch]; omega), hw.byte hl (by omega)]
  by_cases hi : at' + len ≤ i ∧ i < at' + len + len'
  · rw [if_pos hi, if_pos (by omega), hw.ext.buffer _ (by omega) (by omega)]
    congr 1
    omega
  · rw [if_neg hi]
    by_cases hi' : at' ≤ i ∧ i < at' + len
    · rw [if_pos hi', if_pos (by omega)]
    · rw [if_neg hi', if_neg (by omega)]

theorem Found.wrote (h : Shape ss g) (hn : g.live n) (hfound : Found ss g (some n) (at' / BLOCK_SIZE) wantGrow p ss' g')
    (hpage : at' % BLOCK_SIZE + len ≤ BLOCK_SIZE) (hgrow : wantGrow = .GROW ∨ len = BLOCK_SIZE)
    (hmem : mem' =
      write ss'.mem ((g'.tree (some n)).leaf (at' / BLOCK_SIZE) + at' % BLOCK_SIZE) (read ss'.mem buf len)) :
    Wrote ss g n at' len buf { ss' with mem := mem' } g' := by
  have hext := hfound.ext
  have hdata : Extends (fun m => m ≠ n) ss' g' (some n) { ss' with mem := mem' } g' := by
    refine Extends.of_data hext.shape ((hext.shape.own_leaf _ _ _).2 ⟨hfound.ne, rfl⟩) fun i hi => ?_
    rw [hmem]
    obtain hi | hi := hi
    · exact write_of_lt (by omega)
    · exact write_of_le (by rw [length_read]; omega)
  refine ⟨(hext.mono fun _ _ => trivial).trans h hn hdata, fun hl hr i => ?_⟩
  dsimp only
  rw [hmem]
  by_cases hi : at' ≤ i ∧ i < at' + len
  · -- The byte has been written.
    have hk : i / BLOCK_SIZE = at' / BLOCK_SIZE := by
      simp only [BLOCK_SIZE] at hpage ⊢
      omega
    have hplace : (g'.tree (some n)).leaf (at' / BLOCK_SIZE) + i % BLOCK_SIZE =
        (g'.tree (some n)).leaf (at' / BLOCK_SIZE) + at' % BLOCK_SIZE + (i - at') := by
      simp only [BLOCK_SIZE] at hpage ⊢
      omega
    rw [if_pos hi, Ghost.byte, hk, if_neg hfound.ne, hplace, write_read (by omega)]
    exact hext.buffer _ (by omega) (by omega)
  · rw [if_neg hi, ← hfound.byte h (i := i)]
    · -- It has not.
      unfold Ghost.byte
      split_ifs with hzero
      · rfl
      · by_cases hk : i / BLOCK_SIZE = at' / BLOCK_SIZE
        · rw [hk]
          have hplace : at' % BLOCK_SIZE + len ≤ i % BLOCK_SIZE ∨ i % BLOCK_SIZE < at' % BLOCK_SIZE := by
            simp only [BLOCK_SIZE] at hk hi ⊢
            omega
          obtain hle | hlt := hplace
          · exact write_of_le (by rw [length_read]; omega)
          · exact write_of_lt (by omega)
        · -- It is in another block.
          have hown := (hext.shape.own_leaf _ (some n) (i / BLOCK_SIZE)).2 ⟨hzero, rfl⟩
          have hown' := (hext.shape.own_leaf _ (some n) (at' / BLOCK_SIZE)).2 ⟨hfound.ne, rfl⟩
          have hne : (g'.tree (some n)).leaf (i / BLOCK_SIZE) ≠ (g'.tree (some n)).leaf (at' / BLOCK_SIZE) := by
            intro heq
            rw [heq, hown'] at hown
            exact hk (Place.leaf.inj (Option.some.inj hown)).2.symm
          have hapart := hext.shape.apart hown hown' hne
          have hmod : i % BLOCK_SIZE < BLOCK_SIZE := Nat.mod_lt _ (by decide)
          obtain hle | hle := hapart
          · exact write_of_lt (by omega)
          · exact write_of_le (by rw [length_read]; omega)
    · obtain hG | hlen := hgrow
      · exact .inl hG
      · refine .inr fun hk => hi ?_
        simp only [BLOCK_SIZE] at hlen hpage hk
        omega

/-- `write_to_file` writes the bytes of the buffer. It fails if there is no room. -/
theorem writeLoop_spec (h : Shape ss g) (hn : g.live n) (hfuel : len ≤ fuel)
    (hpages : len ≠ 0 → at' + len ≤ PtrsPerBlock * BLOCK_SIZE) :
    (∃ ss' g', writeLoop (g.inode (some n)) fuel at' len buf ss = .ok (at' + len) ss' ∧
        Wrote ss g n at' len buf ss' g' ∧ g.need (some n) (at' / BLOCK_SIZE) (pages at' len) ≤ g.room ss) ∨
      (∃ ss', writeLoop (g.inode (some n)) fuel at' len buf ss = .error .outOfSpace ss') ∧
        g.room ss < g.need (some n) (at' / BLOCK_SIZE) (pages at' len) := by
  induction fuel generalizing ss g at' len buf with
  | zero =>
    obtain rfl : len = 0 := Nat.le_zero.1 hfuel
    exact .inl ⟨ss, g, rfl, Wrote.nil h, by simp⟩
  | succ fuel ih =>
    by_cases hlen : len = 0
    · subst hlen
      exact .inl ⟨ss, g, rfl, Wrote.nil h, by simp⟩
    · have hle := hpages hlen
      have hk : at' / BLOCK_SIZE < PtrsPerBlock := by
        simp only [PtrsPerBlock, BLOCK_SIZE] at hle ⊢
        omega
      have hgrow : (if at' % BLOCK_SIZE = 0 ∧ min (BLOCK_SIZE - at' % BLOCK_SIZE) len = BLOCK_SIZE then
          Grow.GROW_NOZERO else .GROW) ≠ .NO_GROW := by
        split_ifs
        · simp
        · simp
      have hpos : 0 < min (BLOCK_SIZE - at' % BLOCK_SIZE) len :=
        Nat.lt_min.2 ⟨Nat.sub_pos_of_lt (Nat.mod_lt _ (by decide)), Nat.pos_of_ne_zero hlen⟩
      have hsucc := @pages_succ at' len hlen
      have hnext := @pages_next at' len
      generalize hnBytes : min (BLOCK_SIZE - at' % BLOCK_SIZE) len = nBytes at *
      have hbytes : at' % BLOCK_SIZE + nBytes ≤ BLOCK_SIZE ∧ nBytes ≤ len := by
        have hmod : at' % BLOCK_SIZE < BLOCK_SIZE := Nat.mod_lt _ (by decide)
        omega
      have hmod : (at' + nBytes) % 2 ^ 64 = at' + nBytes := by
        simp only [PtrsPerBlock, BLOCK_SIZE] at hle
        omega
      have hrest : nBytes + (len - nBytes) = len := by omega
      rw [writeLoop, if_neg hlen]
      simp only [hnBytes, hmod]
      obtain ⟨p, ss₁, g₁, hfind, hfound⟩ | ⟨hno, hroom⟩ := @find_grow ss g _ (some n) h hn at' rfl hk _ hgrow
      · have hw : Wrote ss g n at' nBytes buf _ g₁ := hfound.wrote h hn hbytes.1 ?_ rfl
        · have hneed : g₁.need (some n) ((at' + nBytes) / BLOCK_SIZE) (pages (at' + nBytes) (len - nBytes)) +
              g.need (some n) (at' / BLOCK_SIZE) 1 =
              g.need (some n) (at' / BLOCK_SIZE) (pages (at' + nBytes) (len - nBytes) + 1) := by
            obtain hnext | hnext := hnext
            · rw [hnext]
              exact hfound.need
            · rw [hnext, pages_zero, need_zero, Nat.zero_add]
          have hroom := hfound.room
          rw [hsucc]
          have hinode : g₁.inode (some n) = g.inode (some n) := hw.ext.inode_live h hn
          rw [bind_ok hfind]
          dsimp only
          rw [get_bind, hfound.ptr, bind_ok (hfound.ext.shape.useBlock_leaf hfound.ne), modifyMem_bind]
          -- The rest of the bytes.
          obtain ⟨ss₂, g₂, hrun, hw', hle'⟩ | ⟨⟨ss₂, hrun⟩, hlt'⟩ :=
            @ih _ g₁ (at' + nBytes) (len - nBytes) (buf + nBytes) hw.ext.shape (hw.ext.live_iff.2 hn : g₁.Live (some n))
              (by omega) (fun _ => by omega)
          · rw [hinode] at hrun
            have hboth := hw.append h hn hw'
            rw [hrest] at hboth
            rw [show at' + nBytes + (len - nBytes) = at' + len by omega] at hrun
            rw [room_mem] at hle'
            exact .inl ⟨ss₂, g₂, hrun, hboth, by omega⟩
          · rw [hinode] at hrun
            rw [room_mem] at hlt'
            exact .inr ⟨⟨ss₂, hrun⟩, by omega⟩
        · split_ifs with hwhole
          · exact .inr hwhole.2
          · exact .inl rfl
      · refine .inr ⟨hno.bind fun p => ⟨_, rfl⟩, hroom.trans_le ?_⟩
        rw [hsucc]
        exact need_one_le

/-! ## Reading -/

theorem Ghost.byte_of_buffer (h : Shape ss g)
    (hsame : ∀ i, i < ss.arch.storage ∨ ss.arch.storage + BUF_SZ ≤ i → mem' i = ss.mem i) :
    g.byte mem' (some n) i = g.byte ss.mem (some n) i := by
  refine Ghost.byte_congr rfl fun hne j hl hr => hsame j ?_
  have hown := (h.own_leaf _ (some n) (i / BLOCK_SIZE)).2 ⟨hne, rfl⟩
  have hout : ¬(g.tree (some n)).leaf (i / BLOCK_SIZE) < ss.arch.storage + BUF_SZ := fun hlt => by
    have hbuffer := (h.own_buffer _).2 ⟨h.isBlock hown, hlt⟩
    rw [hown] at hbuffer
    cases hbuffer
  omega

/-- `read_from_file` puts the bytes of the file in the buffer. -/
theorem readLoop_spec (h : Shape ss g) (hn : g.live n) (hfuel : len ≤ fuel) (hbuf : ss.arch.storage ≤ buf)
    (hbuf' : buf + len ≤ ss.arch.storage + BUF_SZ)
    (hleaf : ∀ i, at' ≤ i → i < at' + len → (g.tree (some n)).leaf (i / BLOCK_SIZE) ≠ 0) :
    ∃ mem', readLoop (g.inode (some n)) fuel at' len buf ss = .ok () { ss with mem := mem' } ∧
      (∀ i, i < buf ∨ buf + len ≤ i → mem' i = ss.mem i) ∧
      ∀ i < len, mem' (buf + i) = g.byte ss.mem (some n) (at' + i) := by
  induction fuel generalizing ss at' len buf with
  | zero => exact ⟨ss.mem, rfl, fun _ _ => rfl, fun i hi => by omega⟩
  | succ fuel ih =>
    by_cases hlen : len = 0
    · subst hlen
      exact ⟨ss.mem, rfl, fun _ _ => rfl, fun i hi => by omega⟩
    · have hne := hleaf at' le_rfl (by omega)
      have hlt := (h.trees (some n) hn).leaf_lt _ hne
      have hfind := find_noGrow h (f := some n) hn hlt
      have hptr : getField ss.mem (g.leafTable (some n) + 4 * (at' / BLOCK_SIZE)) 4 =
          (g.tree (some n)).leaf (at' / BLOCK_SIZE) := h.ptr_leafTable (f := some n) hn hlt
      have hmod : at' % BLOCK_SIZE < BLOCK_SIZE := Nat.mod_lt _ (by decide)
      -- The places are below the last page of the file.
      have hlast : (at' + len - 1) / BLOCK_SIZE < PtrsPerBlock :=
        (Shape.lt_of_width ((h.trees (some n) hn).leaf_lt _ (hleaf (at' + len - 1) (by omega) (by omega)))).1
      have hle : at' + len ≤ 2 ^ 22 := by
        simp only [BLOCK_SIZE, PtrsPerBlock] at hlast
        omega
      rw [readLoop, if_neg hlen]
      rw [bind_ok hfind]
      dsimp only
      rw [get_bind, hptr, bind_ok (h.useBlock_leaf hne)]
      generalize hnBytes : min (BLOCK_SIZE - at' % BLOCK_SIZE) len = nBytes
      rw [modifyMem_bind, Nat.mod_eq_of_lt (show at' + nBytes < 2 ^ 64 by omega)]
      generalize hmem : write ss.mem buf
        (read ss.mem ((g.tree (some n)).leaf (at' / BLOCK_SIZE) + at' % BLOCK_SIZE) nBytes) = mem₁
      have hout : ∀ i, i < buf ∨ buf + nBytes ≤ i → mem₁ i = ss.mem i := by
        intro i hi
        rw [← hmem]
        obtain hi | hi := hi
        · exact write_of_lt hi
        · exact write_of_le (by rwa [length_read])
      have hbuffer : ∀ i, i < ss.arch.storage ∨ ss.arch.storage + BUF_SZ ≤ i → mem₁ i = ss.mem i :=
        fun i hi => hout i (by omega)
      obtain ⟨mem₂, hrun, hsame, hread⟩ := @ih { ss with mem := mem₁ } (at' + nBytes) (len - nBytes) (buf + nBytes)
        (h.frame_buffer hbuffer) (by omega) (by dsimp only; omega) (by dsimp only; omega)
        (fun i hl hr => hleaf i (by omega) (by omega))
      refine ⟨mem₂, hrun, fun i hi => ?_, fun i hi => ?_⟩
      · exact (hsame i (by omega)).trans (hout i (by omega))
      · by_cases hin : i < nBytes
        · rw [hsame _ (by omega), ← hmem]
          dsimp only
          rw [write_read hin, Ghost.byte]
          have hk : (at' + i) / BLOCK_SIZE = at' / BLOCK_SIZE ∧
              (at' + i) % BLOCK_SIZE = at' % BLOCK_SIZE + i := by
            simp only [BLOCK_SIZE] at hnBytes ⊢
            omega
          rw [hk.1, hk.2, if_neg hne, Nat.add_assoc]
        · have hread := hread (i - nBytes) (by omega)
          rw [show buf + nBytes + (i - nBytes) = buf + i by omega,
            show at' + nBytes + (i - nBytes) = at' + i by omega] at hread
          exact hread.trans (Ghost.byte_of_buffer h hbuffer)

/-! ## Files that do not change -/

/-- The inode and the data of the file `n` have not changed. -/
structure KeepsFile (ss : Server) (g : Ghost) (n : ℕ) (ss' : Server) (g' : Ghost) : Prop where
  live : g'.live n
  tree : g'.tree (some n) = g.tree (some n)
  inode : g'.inode (some n) = g.inode (some n)
  same : Same ss.mem ss'.mem (g.inode (some n)) (g.inode (some n) + 64)
  data : ∀ k, (g.tree (some n)).leaf k ≠ 0 →
    Same ss.mem ss'.mem ((g.tree (some n)).leaf k) ((g.tree (some n)).leaf k + BLOCK_SIZE)

namespace KeepsFile

theorem trans (h : KeepsFile ss g n ss' g') (h' : KeepsFile ss' g' n ss'' g'') : KeepsFile ss g n ss'' g'' where
  live := h'.live
  tree := h'.tree.trans h.tree
  inode := h'.inode.trans h.inode
  same := h.same.trans (h.inode ▸ h'.same)
  data k hk := by
    have hdata := h'.data k
    rw [h.tree] at hdata
    exact (h.data k hk).trans (hdata hk)

theorem byte (h : KeepsFile ss g n ss' g') : g'.byte ss'.mem (some n) i = g.byte ss.mem (some n) i :=
  Ghost.byte_congr (by rw [h.tree]) (h.data _)

theorem sz (h : KeepsFile ss g n ss' g') : NFile.sz ss'.mem (g'.inode (some n)) = NFile.sz ss.mem (g.inode (some n)) := by
  rw [h.inode]
  exact h.same.getField le_rfl (by omega)

end KeepsFile

theorem Extends.keepsFile (hs : Shape ss g) (h : Extends keep ss g f ss' g') (hn : g.live n) (hkeep : keep n)
    (hne : some n ≠ f) : KeepsFile ss g n ss' g' where
  live := h.live ▸ hn
  tree := h.other _ hne
  inode := h.inode_eq hs (hs.live_exists n hn).1
  same := h.inode n (hs.live_exists n hn).1 hne
  data k hk := h.data _ n k hkeep ((hs.own_leaf _ _ _).2 ⟨hk, rfl⟩)

end CapROS.NFile
