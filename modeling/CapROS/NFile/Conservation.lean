import CapROS.NFile.Contents

/-!
# Where the blocks are

* `stores_step`, `blocks_conserved`: in the runs of requests below the limit of one table no block is lost.
* `blocks_lost`: a write beyond the limit.
-/

namespace CapROS.NFile

open Cells Bytes

/-- Where a block can be. -/
inductive Spot where
  | buffer
  | free
  /-- In the table of inodes. -/
  | table
  | file (id : ℕ)

/-- The block is there. -/
def At (ss : Server) (m : Files) (b : ℕ) : Spot → Prop
  | .buffer => ss.buf ≤ b ∧ b < ss.buf + BUF_SZ
  | .free => ∃ l, Linked ss.mem ss.first_free_block l ∧ b ∈ l
  | .table => b ∈ fileBlocks ss.mem root
  | .file n => m n ≠ none ∧ b ∈ fileBlocks ss.mem (inodeOf ss.mem n)

/-- Every block below the highest allocated address is in one place, and once there. -/
structure Conserved (ss : Server) (m : Files) : Prop where
  place : ∀ b, IsBlock ss b → ∃! spot, At ss m b spot
  free : ∃ l, Linked ss.mem ss.first_free_block l ∧ l.Nodup
  tree : ∀ n, m n ≠ none → (fileBlocks ss.mem (inodeOf ss.mem n)).Nodup

/-- A request for a new file, to destroy a file, or to write in one. -/
def Msg.Stores (msg : Msg) : Prop :=
  match msg.keyInfo, msg.request with
  | .server, .destroy => False
  | _, .createFile _ | _, .destroy | _, .write _ _ => True
  | _, _ => False

/-- Such a request, which writes nothing beyond the pages that one table can hold and finds room for its blocks. -/
def StoresLow (ss : Server) (msg : Msg) : Prop :=
  msg.Stores ∧ match msg.keyInfo, msg.request with
  | .server, .createFile _ => Proper ss msg
  | .file n false, .write at' len => FitWrite ss n at' len
  | _, _ => True

structure Conserving (admitted : Server → Msg → Prop) (ss : Server) (m : Files) : Prop where
  conserved : Conserved ss m
  /-- Also when the server stops. -/
  stopped : ∀ {msg : Msg} {e ss'}, msg.Valid m → admitted ss msg → serve msg ss = .error e ss' → Conserved ss' m
  /-- Each block of a file that is destroyed goes once on the free list. -/
  destroyed : ∀ n data, m n ≠ none → ∃ ss', serve ⟨.file n false, data, .destroy⟩ ss = .ok { code := .ok } ss' ∧
    (fileBlocks ss.mem (inodeOf ss.mem n)).Nodup ∧ ∀ l, Linked ss.mem ss.first_free_block l →
      Linked ss'.mem ss'.first_free_block ((fileBlocks ss.mem (inodeOf ss.mem n)).reverse ++ l)

variable {ss ss' : Server} {g g' : Ghost} {m : Files} {n b : ℕ} {msg : Msg}

/-- The spot for a place. -/
def Place.spot : Place → Option Spot
  | .buffer => some .buffer
  | .free => some .free
  | .lost => none
  | .node none _ => some .table
  | .leaf none _ => some .table
  | .node (some n) _ => some (.file n)
  | .leaf (some n) _ => some (.file n)

theorem Shape.live_of_own (h : Shape ss g) (hb : (∃ j, g.own b = some (.node (some n) j)) ∨
    ∃ k, g.own b = some (.leaf (some n) k)) : g.live n := by
  by_contra hdead
  have hempty := h.dead (some n) hdead
  obtain ⟨j, hj⟩ | ⟨k, hk⟩ := hb
  · obtain ⟨hne, hnode⟩ := (h.own_node _ _ _).1 hj
    rw [hempty] at hnode
    exact hne hnode.symm
  · obtain ⟨hne, hleaf⟩ := (h.own_leaf _ _ _).1 hk
    rw [hempty] at hleaf
    exact hne hleaf.symm

theorem at_iff (h : Shape ss g) (hlive : ∀ n, g.live n ↔ m n ≠ none) (hb : IsBlock ss b) (spot : Spot) :
    At ss m b spot ↔ ∃ place, g.own b = some place ∧ place.spot = some spot := by
  cases spot with
  | buffer =>
    rw [At, h.buf]
    constructor
    · exact fun hin => ⟨.buffer, (h.own_buffer b).2 ⟨hb, hin.2⟩, rfl⟩
    · rintro ⟨place, hplace, hspot⟩
      cases place with
      | buffer => exact ⟨hb.1, ((h.own_buffer b).1 hplace).2⟩
      | node f j | leaf f k => cases f <;> cases hspot
      | _ => cases hspot
  | free =>
    constructor
    · rintro ⟨l, hl, hmem⟩
      rw [hl.unique h.linked] at hmem
      exact ⟨.free, (h.own_free b).2 hmem, rfl⟩
    · rintro ⟨place, hplace, hspot⟩
      cases place with
      | free => exact ⟨g.free, h.linked, (h.own_free b).1 hplace⟩
      | node f j | leaf f k => cases f <;> cases hspot
      | _ => cases hspot
  | table =>
    rw [At, show root = g.inode none from rfl, h.mem_fileBlocks (f := none) trivial]
    constructor
    · rintro (⟨j, hj⟩ | ⟨k, hk⟩)
      · exact ⟨_, hj, rfl⟩
      · exact ⟨_, hk, rfl⟩
    · rintro ⟨place, hplace, hspot⟩
      cases place with
      | node f j =>
        cases f with
        | none => exact .inl ⟨j, hplace⟩
        | some n => cases hspot
      | leaf f k =>
        cases f with
        | none => exact .inr ⟨k, hplace⟩
        | some n => cases hspot
      | _ => cases hspot
  | file n =>
    rw [At, h.inodeOf_eq]
    constructor
    · rintro ⟨hn, hmem⟩
      obtain ⟨j, hj⟩ | ⟨k, hk⟩ := (h.mem_fileBlocks (f := some n) ((hlive n).2 hn)).1 hmem
      · exact ⟨_, hj, rfl⟩
      · exact ⟨_, hk, rfl⟩
    · rintro ⟨place, hplace, hspot⟩
      have hown : (∃ j, g.own b = some (.node (some n) j)) ∨ ∃ k, g.own b = some (.leaf (some n) k) := by
        cases place with
        | node f j =>
          cases f with
          | none => cases hspot
          | some n' =>
            obtain rfl := Spot.file.inj (Option.some.inj hspot)
            exact .inl ⟨j, hplace⟩
        | leaf f k =>
          cases f with
          | none => cases hspot
          | some n' =>
            obtain rfl := Spot.file.inj (Option.some.inj hspot)
            exact .inr ⟨k, hplace⟩
        | _ => cases hspot
      have hn := h.live_of_own hown
      exact ⟨(hlive n).1 hn, (h.mem_fileBlocks (f := some n) hn).2 hown⟩

theorem conserved_of_shape (h : Shape ss g) (hlost : ∀ b, g.own b ≠ some .lost) (hlive : ∀ n, g.live n ↔ m n ≠ none) :
    Conserved ss m where
  place b hb := by
    obtain ⟨place, hplace⟩ := Option.ne_none_iff_exists'.1 ((h.own_ne b).2 hb)
    obtain ⟨spot, hspot⟩ : ∃ spot, place.spot = some spot := by
      cases place with
      | lost => exact absurd hplace (hlost b)
      | node f j | leaf f k => cases f <;> exact ⟨_, rfl⟩
      | _ => exact ⟨_, rfl⟩
    refine ⟨spot, (at_iff h hlive hb spot).2 ⟨place, hplace, hspot⟩, fun spot' hspot' => ?_⟩
    obtain ⟨place', hplace', heq⟩ := (at_iff h hlive hb spot').1 hspot'
    obtain rfl := Option.some.inj (hplace.symm.trans hplace')
    exact Option.some.inj (heq.symm.trans hspot)
  free := ⟨g.free, h.linked, h.nodup⟩
  tree n hn := by
    rw [h.inodeOf_eq]
    exact h.nodup_fileBlocks (f := some n) ((hlive n).2 hn)

/-! ## Requests -/

/-- Such a request is answered. -/
theorem stores_step (h : Sim ss g m) (hvalid : msg.Valid m) (hlow : StoresLow ss msg) :
    ∃ reply ss' g', serve msg ss = .ok reply ss' ∧ Sim ss' g' (m.after msg reply) := by
  obtain ⟨keyInfo, data, request⟩ := msg
  cases keyInfo with
  | server =>
    cases request with
    | createFile alloc2 =>
      obtain ⟨reply, ss', g', hserve, hsim, -⟩ | ⟨-, hnil, hlt, hneed⟩ := create_sim h data alloc2
      · exact ⟨reply, ss', g', hserve, hsim⟩
      · exact absurd hneed (not_lt.2 (h.valid.shape.need_le_room hlow.2 hnil hlt))
    | write at' len => exact ⟨{ code := .unknownRequest }, _, g, rfl, (receive_sim h data).1⟩
    | _ => exact hlow.1.elim
  | file n readOnly =>
    have hn := hvalid.key n readOnly rfl
    cases request with
    | createFile alloc2 =>
      obtain ⟨ss', hserve, hsim, -⟩ := refused_sim h hn readOnly data (.createFile alloc2)
        { code := .unknownRequest } fun _ _ hino => (bind_ok hino).trans rfl
      exact ⟨_, ss', g, hserve, hsim⟩
    | destroy =>
      cases readOnly with
      | true =>
        obtain ⟨ss', hserve, hsim, -⟩ := refused_sim h hn true data .destroy
          { code := .noAccess } fun _ _ hino => (bind_ok hino).trans rfl
        exact ⟨_, ss', g, hserve, hsim⟩
      | false =>
        obtain ⟨ss', g', hserve, hsim, -⟩ := destroy_sim h hn data
        exact ⟨_, ss', g', hserve, hsim⟩
    | read at' len => exact hlow.1.elim
    | write at' len =>
      cases readOnly with
      | true =>
        obtain ⟨ss', hserve, hsim, -⟩ := refused_sim h hn true data (.write at' len)
          { code := .noAccess } fun _ _ hino => (bind_ok hino).trans rfl
        exact ⟨_, ss', g, hserve, hsim⟩
      | false =>
        have hfit : FitWrite ss n at' len := hlow.2
        obtain ⟨ss', g', hserve, hvalid', hlive, -⟩ | ⟨-, hneed⟩ :=
          write_sim h hn data (hvalid.write at' len rfl).1 hfit.1
        · refine ⟨_, ss', g', hserve, hvalid', fun n' => ?_⟩
          change g'.live n' ↔
            Function.update m n ((m n).map fun file => file.write at' (data.take len)) n' ≠ none
          rw [hlive, h.live]
          by_cases heq : n' = n
          · subst heq
            simp
          · rw [Function.update_of_ne heq]
        · exact absurd hneed (not_lt.2 (h.valid.shape.need_le_of_fitWrite ((h.live n).2 hn) hfit))
    | getSize => exact hlow.1.elim

theorem Run.stores (h : Run StoresLow ss m) : ∃ g, Sim ss g m := by
  induction h with
  | init arch => exact ⟨.init arch, init_sim arch⟩
  | step msg _ hvalid hlow hserve ih =>
    obtain ⟨g, hsim⟩ := ih
    obtain ⟨reply, ss', g', hserve', hsim'⟩ := stores_step hsim hvalid hlow
    obtain ⟨rfl, rfl⟩ := EStateM.Result.ok.inj (hserve.symm.trans hserve')
    exact ⟨g', hsim'⟩

/-- In the runs of requests to create and destroy files, and to write in the pages that one table can hold, for which
there is room, every block is in one place. -/
theorem blocks_conserved (h : Run StoresLow ss m) : Conserving StoresLow ss m := by
  obtain ⟨g, hsim⟩ := h.stores
  have hs := hsim.valid.shape
  refine ⟨conserved_of_shape hs hsim.valid.lost hsim.live, fun {msg e ss'} hvalid hlow hserve => ?_,
    fun n data hn => ?_⟩
  · -- The server does not stop.
    obtain ⟨reply, ss'', g', hserve', -⟩ := stores_step hsim hvalid hlow
    rw [hserve] at hserve'
    cases hserve'
  · obtain ⟨ss', g', hserve, hsim', -, hfree⟩ := destroy_sim hsim hn data
    rw [hs.inodeOf_eq]
    refine ⟨ss', hserve, hs.nodup_fileBlocks (f := some n) ((hsim.live n).2 hn), fun l hl => ?_⟩
    rw [hl.unique hs.linked, ← hfree]
    exact hsim'.valid.shape.linked

theorem Msg.storesLow_of_fits (h : msg.fits ss = true) : StoresLow ss msg := by
  have hproper := proper_of_fits h
  obtain ⟨keyInfo, data, request⟩ := msg
  cases keyInfo with
  | server =>
    cases request with
    | createFile alloc2 => exact ⟨trivial, hproper⟩
    | _ => cases h
  | file n readOnly =>
    cases request with
    | destroy => cases readOnly <;> exact ⟨trivial, trivial⟩
    | write at' len =>
      cases readOnly with
      | true => cases h
      | false => exact ⟨trivial, hproper.table, hproper.room⟩
    | _ => cases readOnly <;> cases h

/-- Two files are created and written, and one of them is destroyed. -/
theorem blocks_conserved_created : ∃ ss m, m 0 = none ∧ (m 1).map File.size = some 4096 ∧ ss.first_free_block ≠ 0 ∧
    Conserving StoresLow ss m := by
  have hcomputed : (execAll (fun ss msg => msg.fits ss) (twoFiles ++ [⟨.file 0 false, [], .destroy⟩]) (.init .arm)
      fun _ => none).map (fun out => ((out.2 0).isSome, (out.2 1).map File.size,
        decide (out.1.first_free_block = 0))) = some (false, some 4096, false) := by
    decide +kernel
  obtain ⟨⟨ss, m⟩, hexec, hout⟩ := Option.map_eq_some_iff.1 hcomputed
  simp only [Prod.mk.injEq, decide_eq_false_iff_not] at hout
  exact ⟨ss, m, by simpa using hout.1, hout.2.1, hout.2.2,
    blocks_conserved (Run.execAll (.init .arm) (fun _ _ => Msg.storesLow_of_fits) hexec)⟩

/-! ## A block is lost -/

theorem not_conserved (h : Shape ss g) (hlive : ∀ n, g.live n ↔ m n ≠ none) (hb : g.own b = some .lost) :
    ¬Conserved ss m := by
  intro hconserved
  have hblock := h.isBlock hb
  obtain ⟨spot, hspot, -⟩ := hconserved.place b hblock
  obtain ⟨place, hplace, heq⟩ := (at_iff h hlive hblock spot).1 hspot
  obtain rfl := Option.some.inj (hb.symm.trans hplace)
  cases heq

theorem find_far {f : Option ℕ} {at' k : ℕ} (h : Shape ss g) (hf : g.Live f) (hl : (g.tree f).layers = 0)
    (hat : at' / BLOCK_SIZE = k) (hk : PtrsPerBlock ≤ k) (hk' : k < INO_NINDIR * PtrsPerBlock)
    (hroom : 2 ≤ g.room ss) {wantGrow : Grow} (hgrow : wantGrow ≠ .NO_GROW) :
    ∃ ss' g' b, find_file_page (g.inode f) at' wantGrow ss = .error .missingBlock ss' ∧ Shape ss' g' ∧
      g'.live = g.live ∧ g'.own b = some .lost := by
  have hmod : (k + 1) * BLOCK_SIZE % 2 ^ 64 = (k + 1) * BLOCK_SIZE := by
    simp only [INO_NINDIR, PtrsPerBlock, BLOCK_SIZE] at hk' ⊢
    omega
  have hk11 : INO_NINDIR ≤ k := by
    simp only [INO_NINDIR, PtrsPerBlock] at hk ⊢
    omega
  obtain ⟨pg, ss', heq, huse, hext, hroom'⟩ | ⟨-, hnone⟩ := h.addLayer hf (by omega)
  · generalize hss₁ : ({ ss' with mem := growMem (g.inode f) pg ss'.mem } : Server) = ss₁ at *
    have hroom₁ : ((g.lose pg).grow f pg).room ss₁ + 1 = g.room ss := by
      rw [← hroom', ← hss₁]
      rfl
    have htree : ((g.lose pg).grow f pg).tree f = (g.tree f).addLayer pg := Function.update_self _ _ _
    generalize (g.lose pg).grow f pg = g₁ at *
    have hf₁ : g₁.Live f := hext.live_iff.2 hf
    have hinode : g₁.inode f = g.inode f := hext.inode_live h hf
    have ht := hext.shape.trees f hf₁
    rw [hinode] at ht
    have hl₁ : (g₁.tree f).layers = 1 := by
      rw [htree]
      exact congrArg (· + 1) hl
    have hlayers : nLayer ss₁.mem (g.inode f) = 1 := ht.layers.trans hl₁
    -- One layer is enough for this page.
    have hloop : growLoop (g.inode f) ((k + 1) * BLOCK_SIZE) 6 ss = .ok () ss₁ := by
      rw [growLoop_of_le h hf hl hk11, bind_ok heq, bind_ok huse, modifyMem_bind, hss₁, growLoop,
        get_bind]
      simp only [hlayers]
      rw [if_neg (by decide), if_neg]
      · rfl
      · simp only [sizes_by_layers, INO_NINDIR, PtrsPerBlock, BLOCK_SIZE] at hk' ⊢
        omega
    have hndx : k / 2 ^ ((0 + 1) * logPtrsPerBlock) % PtrsPerBlock = k / 1024 := by
      simp only [INO_NINDIR, PtrsPerBlock] at hk'
      exact Nat.mod_eq_of_lt (show k / 1024 < 1024 by omega)
    have hptr : ptr ss₁.mem (indir (g.inode f)) (k / 1024) = 0 := by
      simp only [INO_NINDIR, PtrsPerBlock] at hk hk'
      rw [ht.top _ (by simp only [INO_NINDIR]; omega), hl₁]
      exact if_neg (show k / 1024 ≠ 0 by omega)
    obtain ⟨b, ss₂, halloc, hallocated⟩ | ⟨-, hnone⟩ := hext.shape.alloc true
    · refine ⟨ss₂, g₁.lose b, b, ?_, hallocated.shape, hext.live, Function.update_self _ _ _⟩
      rw [find_file_page]
      simp only [hat, hmod]
      rw [bind_ok hloop, get_bind, hlayers, walk, get_bind, hndx, hptr, if_pos rfl, if_neg hgrow, bind_ok halloc]
      rfl
    · omega
  · omega

theorem far_write_loses (data : List UInt8) (at' len : ℕ) (h : Sim ss g m) (hn : m n ≠ none)
    (hl : (g.tree (some n)).layers = 0) (hroom : 2 ≤ g.room ss) (hlen : len ≠ 0)
    (hat : PtrsPerBlock ≤ at' / BLOCK_SIZE) (hat' : at' / BLOCK_SIZE < INO_NINDIR * PtrsPerBlock) :
    ∃ ss', serve ⟨.file n false, data, .write at' len⟩ ss = .error .missingBlock ss' ∧ ¬Conserved ss' m := by
  obtain ⟨ss₁, hss₁, hsim, -, hino, hserve⟩ := serve_file h hn false data (.write at' len)
  have hlive := (h.live n).2 hn
  have hgrow : (if at' % BLOCK_SIZE = 0 ∧ min (BLOCK_SIZE - at' % BLOCK_SIZE) len = BLOCK_SIZE then
      Grow.GROW_NOZERO else .GROW) ≠ .NO_GROW := by
    split_ifs
    · simp
    · simp
  obtain ⟨ss', g', b, hfind, hshape, hlive', hlost⟩ := find_far (f := some n) hsim.valid.shape hlive hl rfl hat hat'
    (by rw [hss₁, room_mem]; exact hroom) hgrow
  refine ⟨ss', ?_, not_conserved hshape (hlive' ▸ h.live) hlost⟩
  obtain ⟨fuel, rfl⟩ := Nat.exists_eq_succ_of_ne_zero hlen
  have hloop : writeLoop (g.inode (some n)) (fuel + 1) at' (fuel + 1) ss₁.buf ss₁ = .error .missingBlock ss' := by
    rw [writeLoop, if_neg hlen]
    exact bind_error hfind
  have hrun : processRequest (.file n false) (.write at' (fuel + 1)) ss₁ =
      (write_to_file (g.inode (some n)) at' (fuel + 1) ss₁.buf >>= fun result =>
        (return { code := result, w1 := fuel + 1 } : Op Reply)) ss₁ := (bind_ok hino).trans rfl
  rw [hserve, hrun]
  exact bind_error (bind_error hloop)

/-- A byte is written at the place 4194304 in a new file. The server allocates a block for the second table, stores its
address with a null pointer and stops. The block is lost. -/
theorem blocks_lost : ¬∀ ss m, Run (fun _ => Msg.Stores) ss m → Conserving (fun _ => Msg.Stores) ss m := by
  intro h
  have hcomputed : (execAll (fun ss msg => msg.fits ss) [createMsg] (.init .arm) fun _ => none).map (fun out =>
      ((out.2 0).isSome, nLayer out.1.mem (inodeOf out.1.mem 0), out.1.first_free_block,
        (2 * out.1.arch.storage - out.1.top_addr) / BLOCK_SIZE)) = some (true, 0, 0, 4079) := by
    decide +kernel
  obtain ⟨⟨ss, m⟩, hexec, hout⟩ := Option.map_eq_some_iff.1 hcomputed
  simp only [Prod.mk.injEq] at hout
  obtain ⟨hfile, hlayers, hfirst, htop⟩ := hout
  obtain ⟨g, hsim⟩ := (Run.execAll (.init .arm) (fun _ _ => Msg.storesLow_of_fits) hexec).stores
  have hs := hsim.valid.shape
  have hn : m 0 ≠ none := Option.isSome_iff_ne_none.1 hfile
  have hl : (g.tree (some 0)).layers = 0 := by
    rw [← (hs.trees (some 0) ((hsim.live 0).2 hn)).layers, ← hs.inodeOf_eq, hlayers]
  have hroom : 2 ≤ g.room ss := hs.room_iff.1 ⟨[], hfirst, by
    rw [htop]
    exact Nat.le_of_ble_eq_true rfl⟩
  obtain ⟨ss', hserve, hlost⟩ := far_write_loses [7] 4194304 1 hsim hn hl hroom
    Nat.one_ne_zero (by decide) (by decide)
  have hvalid : Msg.Valid m ⟨.file 0 false, [7], .write 4194304 1⟩ := by
    refine Msg.valid_of_check ?_
    simp [Msg.check, hfile]
  exact hlost ((h ss m (Run.execAll (.init .arm) (fun _ _ hfits => (Msg.storesLow_of_fits hfits).1) hexec)).stopped hvalid trivial
    hserve)

end CapROS.NFile
