import CapROS.NFile.Destroy

/-!
# Requests

Files are maps from numbers to files, that each have a size and bytes. This says what a file server is for.

* `pageOf`, `fileSize`, `fileByte`: the files in the memory of the server.
-/

namespace CapROS.NFile

open Cells Bytes

/-! ## Files -/

/-- A file. Bytes that have not been written are zero. -/
structure File where
  size : ℕ
  byte : ℕ → UInt8

def File.empty : File := ⟨0, fun _ => 0⟩

/-- Bytes are written. The file is extended as necessary. -/
def File.write (file : File) (at' : ℕ) (data : List UInt8) : File :=
  if data = [] then file else ⟨max file.size (at' + data.length), Cells.write file.byte at' data⟩

/-- The bytes before the end of the file. -/
def File.read (file : File) (at' len : ℕ) : List UInt8 := Cells.read file.byte at' (min len (file.size - at'))

abbrev Files := ℕ → Option File

/-- No more files can be made. -/
def Files.Full (m : Files) : Prop := ∀ n < 511 * inodesPerBlock, m n ≠ none

/-- The reply is right. -/
def Files.Answers (m : Files) (msg : Msg) (reply : Reply) : Prop :=
  match msg.keyInfo, msg.request with
  | .server, .createFile true =>
    (∃ n, m n = none ∧ reply = { code := .ok, key0 := some n }) ∨ reply = { code := .tooManyFiles } ∧ m.Full
  | .server, .createFile false => reply = { code := .limitReached } ∨ reply = { code := .tooManyFiles } ∧ m.Full
  | .server, _ => reply = { code := .unknownRequest }
  | .file _ _, .createFile _ => reply = { code := .unknownRequest }
  | .file _ true, .destroy => reply = { code := .noAccess }
  | .file _ false, .destroy => reply = { code := .ok }
  | .file n _, .read at' len => ∀ file, m n = some file →
    if at' ≤ file.size then reply = { code := .ok, data := file.read at' len } else reply.code = .requestError
  | .file _ true, .write _ _ => reply = { code := .noAccess }
  | .file _ false, .write _ len => reply = { code := .ok, w1 := len }
  | .file n _, .getSize => ∀ file, m n = some file →
    reply = { code := .ok, w1 := file.size % 2 ^ 32, w2 := file.size / 2 ^ 32 }

/-- The files after a request with this reply. -/
def Files.after (m : Files) (msg : Msg) (reply : Reply) : Files :=
  match msg.keyInfo, msg.request, reply.code, reply.key0 with
  | .server, .createFile _, .ok, some n => Function.update m n (some .empty)
  | .file n _, .destroy, .ok, _ => Function.update m n none
  | .file n _, .write at' len, .ok, _ => Function.update m n ((m n).map fun file => file.write at' (msg.data.take len))
  | _, _, _, _ => m

/-- A message that a client can send: keys to files that have been destroyed are void, and numbers have 64 or 32
bits. -/
structure Msg.Valid (m : Files) (msg : Msg) : Prop where
  key : ∀ n readOnly, msg.keyInfo = .file n readOnly → m n ≠ none
  read : ∀ at' len, msg.request = .read at' len → at' < 2 ^ 64 ∧ len < 2 ^ 32
  write : ∀ at' len, msg.request = .write at' len → at' < 2 ^ 64 ∧ len < 2 ^ 32

/-- The server and the files after messages that are admitted. -/
inductive Run (admitted : Server → Msg → Prop) : Server → Files → Prop where
  | init (arch : Arch) : Run admitted (.init arch) fun _ => none
  | step {ss ss' : Server} {m : Files} {reply : Reply} (msg : Msg) :
      Run admitted ss m → msg.Valid m → admitted ss msg → serve msg ss = .ok reply ss' →
      Run admitted ss' (m.after msg reply)

/-! ## Files in memory -/

/-- The pointer to the block for the page `atPg` of a file, in a table on the layer. -/
def leafPtr (mem : ℕ → UInt8) (atPg : ℕ) : ℕ → ℕ → ℕ
  | 0, blockTable => ptr mem blockTable (atPg % PtrsPerBlock)
  | layer + 1, blockTable =>
    let blockTable := ptr mem blockTable (atPg / 2 ^ ((layer + 1) * logPtrsPerBlock) % PtrsPerBlock)
    if blockTable = 0 then 0 else leafPtr mem atPg layer blockTable

/-- The block for a page of the file with the inode at `ino`, or 0. -/
def pageOf (mem : ℕ → UInt8) (ino k : ℕ) : ℕ :=
  if (k + 1) * BLOCK_SIZE ≤ sizes_by_layers (nLayer mem ino) then leafPtr mem k (nLayer mem ino) (indir ino) else 0

/-- The address of the inode with a number. -/
def inodeOf (mem : ℕ → UInt8) (id : ℕ) : ℕ := pageOf mem root (id / inodesPerBlock) + 64 * (id % inodesPerBlock)

def fileSize (mem : ℕ → UInt8) (id : ℕ) : ℕ := sz mem (inodeOf mem id)

def fileByte (mem : ℕ → UInt8) (id i : ℕ) : UInt8 :=
  if pageOf mem (inodeOf mem id) (i / BLOCK_SIZE) = 0 then 0
  else mem (pageOf mem (inodeOf mem id) (i / BLOCK_SIZE) + i % BLOCK_SIZE)

variable {ss ss' : Server} {g g' : Ghost} {f : Option ℕ} {b i k n id at' len : ℕ} {mem : ℕ → UInt8} {m : Files}

namespace Shape

theorem pageOf_eq (h : Shape ss g) (hf : g.Live f) : pageOf ss.mem (g.inode f) k = (g.tree f).leaf k := by
  have ht := h.trees f hf
  have hle := ht.layers_le
  have hzero : ¬k < (g.tree f).width → (g.tree f).leaf k = 0 := fun hlt => by
    by_contra hne
    exact hlt (ht.leaf_lt k hne)
  rw [pageOf, ht.layers]
  obtain hl | hl : (g.tree f).layers = 0 ∨ (g.tree f).layers = 1 := by omega
  · rw [Tree.width, if_pos hl] at hzero
    rw [hl]
    split_ifs with hsize
    · have hk : k < INO_NINDIR := by
        simp only [sizes_by_layers, INO_NINDIR, BLOCK_SIZE, Nat.pow_zero] at hsize ⊢
        omega
      rw [leafPtr, Nat.mod_eq_of_lt (by simp only [INO_NINDIR, PtrsPerBlock] at hk ⊢; omega), ht.top k hk, hl]
      rfl
    · refine (hzero ?_).symm
      simp only [sizes_by_layers, INO_NINDIR, BLOCK_SIZE, Nat.pow_zero] at hsize ⊢
      omega
  · rw [Tree.width, if_neg (by omega)] at hzero
    rw [hl]
    split_ifs with hsize
    · have hk : k / 1024 < INO_NINDIR := by
        simp only [sizes_by_layers, INO_NINDIR, BLOCK_SIZE, PtrsPerBlock] at hsize ⊢
        omega
      have hndx : k / 2 ^ ((0 + 1) * logPtrsPerBlock) % PtrsPerBlock = k / 1024 := by
        simp only [INO_NINDIR] at hk
        exact Nat.mod_eq_of_lt (show k / 1024 < 1024 by omega)
      rw [leafPtr, hndx, ht.top _ hk, hl]
      change (if (if k / 1024 = 0 then (g.tree f).node 0 else 0) = 0 then 0
        else leafPtr ss.mem k 0 (if k / 1024 = 0 then (g.tree f).node 0 else 0)) = _
      by_cases hlt : k < PtrsPerBlock
      · rw [if_pos (show k / 1024 = 0 from Nat.div_eq_of_lt hlt), if_neg ((ht.node_ne 0).2 (by omega)), leafPtr, Nat.mod_eq_of_lt hlt,
          ht.table 0 (by omega) k hlt]
        rfl
      · have hdiv : k / 1024 ≠ 0 := by
          simp only [PtrsPerBlock] at hlt
          omega
        rw [if_neg hdiv, if_pos rfl, hzero hlt]
    · refine (hzero ?_).symm
      simp only [sizes_by_layers, INO_NINDIR, BLOCK_SIZE, PtrsPerBlock] at hsize ⊢
      omega

theorem inodeOf_eq (h : Shape ss g) : inodeOf ss.mem n = g.inode (some n) := by
  rw [inodeOf, show root = g.inode none from rfl, h.pageOf_eq (f := none) trivial]
  rfl

theorem fileByte_eq (h : Shape ss g) (hn : g.live n) : fileByte ss.mem n i = g.byte ss.mem (some n) i := by
  rw [fileByte, h.inodeOf_eq, h.pageOf_eq (f := some n) hn]
  rfl

theorem fileSize_eq (h : Shape ss g) : fileSize ss.mem n = sz ss.mem (g.inode (some n)) := by
  rw [fileSize, h.inodeOf_eq]

end Shape

/-! ## The server and its files -/

/-- The server has these files. -/
structure Sim (ss : Server) (g : Ghost) (m : Files) : Prop where
  valid : Valid ss g
  live : ∀ n, g.live n ↔ m n ≠ none

/-- A file in memory is this one. -/
structure HasFile (ss : Server) (g : Ghost) (n : ℕ) (file : File) : Prop where
  size : sz ss.mem (g.inode (some n)) = file.size
  byte : ∀ i, g.byte ss.mem (some n) i = file.byte i

theorem HasFile.keeps {file : File} (h : HasFile ss g n file) (hkeeps : KeepsFile ss g n ss' g') :
    HasFile ss' g' n file :=
  ⟨hkeeps.sz.trans h.size, fun i => hkeeps.byte.trans (h.byte i)⟩

/-- The ghost of the initial state: there is only the buffer. -/
def Ghost.init (arch : Arch) : Ghost where
  tree _ := Tree.empty
  own b := if arch.storage ≤ b ∧ b < arch.storage + BUF_SZ ∧ BLOCK_SIZE ∣ b then some .buffer else none
  free := []
  live _ := False
  freeIno := []
  tables := 0

theorem init_sim (arch : Arch) : Sim (.init arch) (.init arch) fun _ => none := by
  have hbounds := storage_bounds arch
  have hown : ∀ b, (Ghost.init arch).own b ≠ none ↔ IsBlock (.init arch) b := fun b => by
    simp only [Ghost.init, IsBlock, Server.init]
    split_ifs with hb
    · exact iff_of_true (by simp) hb
    · exact iff_of_false (by simp) hb
  have hbuffer : ∀ {b place}, (Ghost.init arch).own b = some place → place = .buffer := by
    intro b place hb
    simp only [Ghost.init] at hb
    split_ifs at hb
    exact (Option.some.inj hb).symm
  have hnone : ∀ {place}, place ≠ .buffer → ∀ b, (Ghost.init arch).own b ≠ some place :=
    fun hplace b hb => hplace (hbuffer hb)
  have hzero : ∀ ino n, getField (fun _ => 0) ino n = 0 := fun ino n => getField_eq_zero fun _ _ _ => rfl
  refine ⟨⟨?_, fun b => hnone (by simp) b, fun _ _ => rfl, fun n hn => ?_⟩, fun n => ?_⟩
  · exact {
      buf := rfl
      top_dvd := (Nat.dvd_add_right (storage_dvd arch)).2 ⟨16, rfl⟩
      top_le := show arch.storage + 65536 ≤ 2 * arch.storage by omega
      le_top := le_rfl
      fresh := fun _ _ => rfl
      own_ne := hown
      own_buffer := fun b => by
        simp only [Ghost.init, IsBlock, Server.init]
        split_ifs with hb
        · exact iff_of_true rfl ⟨hb, hb.2.1⟩
        · exact iff_of_false (by simp) fun hboth => hb hboth.1
      own_free := fun b => iff_of_false (hnone (by simp) b) List.not_mem_nil
      own_node := fun b f j => iff_of_false (hnone (by simp) b) fun hboth => hboth.1 hboth.2.symm
      own_leaf := fun b f k => iff_of_false (hnone (by simp) b) fun hboth => hboth.1 hboth.2.symm
      linked := rfl
      nodup := List.nodup_nil
      trees := fun f _ => ⟨hzero _ _, Nat.zero_le _, fun _ _ => hzero _ _, fun j hj => absurd hj (Nat.not_lt_zero j),
        fun j => iff_of_false (fun hne => hne rfl) (Nat.not_lt_zero j), fun k hne => absurd rfl hne⟩
      dead := fun _ _ => rfl
      table := fun k hk => absurd hk (Nat.not_lt_zero k)
      tables_lt := by simp [Ghost.init]
      root_sz := (hzero _ _).trans (Nat.zero_mul _).symm
      ids := fun n hn => absurd hn (by simp [Ghost.Exists, Ghost.init])
      live_exists := fun n hn => hn.elim
      linkedIno := rfl
      nodupIno := List.nodup_nil
      freeIno_exists := fun n hn => absurd hn List.not_mem_nil
      freeIno_zero := fun n hn => absurd hn List.not_mem_nil }
  · exact absurd hn (by simp [Ghost.Exists, Ghost.init])
  · simp [Ghost.init]

theorem buffer_sim (h : Sim ss g m)
    (hsame : ∀ i, i < ss.arch.storage ∨ ss.arch.storage + BUF_SZ ≤ i → mem i = ss.mem i) :
    Sim { ss with mem := mem } g m ∧ ∀ n, g.live n → KeepsFile ss g n { ss with mem := mem } g := by
  have hs := h.valid.shape
  have hout : ∀ {b place}, g.own b = some place → place ≠ .buffer → Same ss.mem mem b (b + BLOCK_SIZE) := by
    intro b place hb hplace i hl hr
    refine hsame i (.inr ?_)
    by_contra hlt
    have hbuffer := (hs.own_buffer b).2 ⟨hs.isBlock hb, by omega⟩
    rw [hb] at hbuffer
    exact hplace (Option.some.inj hbuffer)
  refine ⟨⟨⟨hs.frame_buffer hsame, h.valid.lost, h.valid.root, h.valid.full⟩, h.live⟩, fun n hn => ?_⟩
  refine ⟨hn, rfl, rfl, ?_, fun k hk => hout ((hs.own_leaf _ (some n) k).2 ⟨hk, rfl⟩) (by simp)⟩
  obtain ⟨b, hb, hbl, hbr⟩ := hs.ino_bounds (hs.live_exists n hn).1
  exact (hout hb (by simp)).mono hbl hbr

theorem receive_sim (h : Sim ss g m) (data : List UInt8) :
    Sim { ss with mem := write ss.mem ss.buf (data.take BUF_SZ) } g m ∧
      ∀ n, g.live n → KeepsFile ss g n { ss with mem := write ss.mem ss.buf (data.take BUF_SZ) } g := by
  have hlen : (data.take BUF_SZ).length ≤ BUF_SZ := by
    rw [List.length_take]
    exact Nat.min_le_left _ _
  refine buffer_sim h fun i hi => ?_
  rw [h.valid.shape.buf]
  obtain hi | hi := hi
  · exact write_of_lt hi
  · exact write_of_le (by omega)

theorem Valid.full_files (h : Sim ss g m) (hnil : g.freeIno = []) (htables : g.tables = 511) : m.Full := by
  intro n hn
  refine (h.live n).1 ((h.valid.full n ?_).resolve_right ?_)
  · rwa [Ghost.Exists, htables]
  · rw [hnil]
    exact List.not_mem_nil

theorem create_sim (h : Sim ss g m) (data : List UInt8) (alloc2 : Bool) :
    (∃ reply ss' g', serve ⟨.server, data, .createFile alloc2⟩ ss = .ok reply ss' ∧
        Sim ss' g' (m.after ⟨.server, data, .createFile alloc2⟩ reply) ∧
        m.Answers ⟨.server, data, .createFile alloc2⟩ reply ∧ (∀ n, g.live n → KeepsFile ss g n ss' g') ∧
        ∀ n, g'.live n → ¬g.live n → HasFile ss' g' n .empty) ∨
      (∃ ss', serve ⟨.server, data, .createFile alloc2⟩ ss = .error .outOfSpace ss') ∧ g.freeIno = [] ∧ g.tables + 1 < 512 ∧ g.room ss < g.need none g.tables 1 := by
  obtain ⟨hsim, hkeeps⟩ := receive_sim h data
  obtain ⟨reply, hrun, hfailed, hgranted, hrefused⟩ :
      ∃ reply : Except Code ℕ → Op Reply,
        serve ⟨.server, data, .createFile alloc2⟩ ss =
          (create_new_file >>= reply) { ss with mem := write ss.mem ss.buf (data.take BUF_SZ) } ∧
        (∀ result, reply (.error result) = (return { code := result })) ∧
        (∀ ino, alloc2 = true → reply (.ok ino) = do
          let ss ← get
          return { code := .ok, key0 := some (id ss.mem ino) }) ∧
        ∀ ino, alloc2 = false → reply (.ok ino) = do
          destroy_file ino
          return { code := .limitReached } :=
    ⟨_, rfl, fun _ => rfl, fun _ halloc => if_pos halloc, fun _ halloc => if_neg (Bool.eq_false_iff.1 halloc)⟩
  rw [hrun]
  generalize hss₁ : ({ ss with mem := write ss.mem ss.buf (data.take BUF_SZ) } : Server) = ss₁ at *
  have hroom : g.room ss₁ = g.room ss := by rw [← hss₁, room_mem]
  obtain ⟨n, ss₂, g₂, hcreate, hcreated⟩ | ⟨hcreate, hnil, htables⟩ | ⟨⟨ss₂, hcreate⟩, hnil, hlt, hneed⟩ :=
    create_spec hsim.valid
  · rw [bind_ok hcreate]
    have hlive₂ : g₂.live n := (hcreated.live n).2 (.inl rfl)
    have hnew : m n = none := by
      by_contra hne
      exact hcreated.new ((h.live n).2 hne)
    cases alloc2 with
    | true =>
      have hid := hcreated.valid.shape.ids n (hcreated.valid.shape.live_exists n hlive₂).1
      refine .inl ⟨{ code := .ok, key0 := some n }, ss₂, g₂, ?_, ⟨hcreated.valid, fun n' => ?_⟩, .inl ⟨n, hnew, rfl⟩,
        fun n' hn' => (hkeeps n' hn').trans (hcreated.keeps n' hn'), fun n' hn' hold => ?_⟩
      · rw [hgranted _ rfl]
        change EStateM.Result.ok ({ code := .ok, key0 := some (NFile.id ss₂.mem (g₂.inode (some n))) } : Reply) ss₂ = _
        rw [hid]
      · change g₂.live n' ↔ Function.update m n (some .empty) n' ≠ none
        rw [hcreated.live, h.live]
        by_cases heq : n' = n
        · subst heq
          simp
        · rw [Function.update_of_ne heq, or_iff_right heq]
      · obtain rfl := ((hcreated.live n').1 hn').resolve_right hold
        refine ⟨hcreated.sz, fun i => ?_⟩
        rw [Ghost.byte, hcreated.tree]
        rfl
    | false =>
      -- The file is destroyed again.
      obtain ⟨ss₃, g₃, hdestroy, hdestroyed⟩ := destroy_spec hcreated.valid hlive₂
      have hback : ∀ n', g₃.live n' ↔ g.live n' := by
        intro n'
        rw [hdestroyed.live, hcreated.live]
        constructor
        · rintro ⟨rfl | hold, hne⟩
          · exact absurd rfl hne
          · exact hold
        · exact fun hold => ⟨.inr hold, fun heq => hcreated.new (heq ▸ hold)⟩
      rw [hrefused _ rfl]
      refine .inl ⟨{ code := .limitReached }, ss₃, g₃, (bind_ok hdestroy).trans rfl, ⟨hdestroyed.valid, fun n' => ?_⟩,
        .inl rfl, fun n' hn' => ((hkeeps n' hn').trans (hcreated.keeps n' hn')).trans (hdestroyed.keeps n' ?_ ?_),
        fun n' hn' hold => absurd ((hback n').1 hn') hold⟩
      · exact (hback n').trans (h.live n')
      · exact (hcreated.live n').2 (.inr hn')
      · exact fun heq => hcreated.new (heq ▸ hn')
  · rw [bind_ok hcreate, hfailed]
    refine .inl ⟨_, ss₁, g, rfl, hsim, ?_, hkeeps, fun n hn hold => absurd hn hold⟩
    have hfull := Valid.full_files hsim hnil htables
    cases alloc2 with
    | true | false => exact .inr ⟨rfl, hfull⟩
  · exact .inr ⟨⟨ss₂, bind_error hcreate⟩, hnil, hlt, hroom ▸ hneed⟩

theorem serve_file (h : Sim ss g m) (hn : m n ≠ none) (readOnly : Bool) (data : List UInt8) (request : Request) :
    ∃ ss₁, ss₁ = { ss with mem := write ss.mem ss.buf (data.take BUF_SZ) } ∧ Sim ss₁ g m ∧
      (∀ n, g.live n → KeepsFile ss g n ss₁ g) ∧ inodeIDToPtr n ss₁ = .ok (g.inode (some n)) ss₁ ∧
      serve ⟨.file n readOnly, data, request⟩ ss = processRequest (.file n readOnly) request ss₁ := by
  obtain ⟨hsim, hkeeps⟩ := receive_sim h data
  have hid := (h.valid.shape.live_exists n ((h.live n).2 hn)).1
  exact ⟨_, rfl, hsim, hkeeps, inodeIDToPtr_spec hsim.valid.shape hid, rfl⟩

theorem destroy_sim (h : Sim ss g m) (hn : m n ≠ none) (data : List UInt8) :
    ∃ ss' g', serve ⟨.file n false, data, .destroy⟩ ss = .ok { code := .ok } ss' ∧
      Sim ss' g' (Function.update m n none) ∧ (∀ n', g.live n' → n' ≠ n → KeepsFile ss g n' ss' g') ∧
      g'.free = (fileBlocks ss.mem (g.inode (some n))).reverse ++ g.free := by
  obtain ⟨ss₁, -, hsim, hkeeps, hino, hserve⟩ := serve_file h hn false data .destroy
  have hlive := (h.live n).2 hn
  obtain ⟨ss', g', hdestroy, hdestroyed⟩ := destroy_spec hsim.valid hlive
  refine ⟨ss', g', ?_, ⟨hdestroyed.valid, fun n' => ?_⟩, fun n' hn' hne =>
    (hkeeps n' hn').trans (hdestroyed.keeps n' hn' hne), ?_⟩
  · rw [hserve]
    exact (bind_ok hino).trans ((bind_ok hdestroy).trans rfl)
  · rw [hdestroyed.live, h.live]
    by_cases heq : n' = n
    · subst heq
      simp
    · rw [Function.update_of_ne heq]
      exact and_iff_left heq
  · -- Receiving the message has not changed the blocks of the file.
    rw [hdestroyed.free, (hsim.valid.shape.trees (some n) hlive).fileBlocks_eq,
      (h.valid.shape.trees (some n) hlive).fileBlocks_eq]

theorem setSz_sim (h : Valid ss g) (hn : g.live n) (v : ℕ) :
    Valid { ss with mem := setSz ss.mem (g.inode (some n)) v } g ∧
      (∀ n', g.live n' → n' ≠ n → KeepsFile ss g n' { ss with mem := setSz ss.mem (g.inode (some n)) v } g) ∧
      ∀ i, g.byte (setSz ss.mem (g.inode (some n)) v) (some n) i = g.byte ss.mem (some n) i := by
  have hs := h.shape
  obtain ⟨hid, hfree⟩ := hs.live_exists n hn
  have hout : ∀ a, a < g.inode (some n) ∨ g.inode (some n) + 8 ≤ a →
      setSz ss.mem (g.inode (some n)) v a = ss.mem a := fun a ha => setField_of_ne ha
  have hblock : ∀ n' k, (g.tree (some n')).leaf k ≠ 0 → Same ss.mem (setSz ss.mem (g.inode (some n)) v)
      ((g.tree (some n')).leaf k) ((g.tree (some n')).leaf k + BLOCK_SIZE) := by
    intro n' k hk a hl hr
    have := hs.ino_block_apart hid ((hs.own_leaf _ (some n') k).2 ⟨hk, rfl⟩) (by simp)
    exact hout a (by omega)
  refine ⟨⟨?_, h.lost, h.root, h.full⟩, fun n' hn' hne => ⟨hn', rfl, rfl, fun a hl hr => ?_, hblock n'⟩, fun i =>
    Ghost.byte_congr rfl (hblock n _)⟩
  · exact hs.frame_inode hid hfree (fun a ha => hout a (by omega)) (fun a hl hr => hout a (by omega))
      fun _ a hl hr => hout a (by omega)
  · have := hs.ino_apart (hs.live_exists n' hn').1 hid hne
    exact hout a (by omega)

theorem received_byte {byte : ℕ → UInt8} {data : List UInt8} {buf : ℕ} (hlen : len ≤ data.length) (hlen' : len ≤ BUF_SZ) :
    (if at' ≤ i ∧ i < at' + len then write mem buf (data.take BUF_SZ) (buf + (i - at')) else byte i) =
      write byte at' (data.take len) i := by
  have htake : (data.take len).length = len := by
    rw [List.length_take]
    exact Nat.min_eq_left hlen
  split_ifs with hi
  · obtain ⟨j, rfl⟩ := Nat.exists_eq_add_of_le hi.1
    have hj : j < len := by omega
    rw [Nat.add_sub_cancel_left, write, if_pos (Nat.le_add_right _ _), write, if_pos (Nat.le_add_right _ _),
      Nat.add_sub_cancel_left, Nat.add_sub_cancel_left, List.getElem?_take_of_lt hj,
      List.getElem?_take_of_lt (hj.trans_le hlen'), List.getElem?_eq_getElem (hj.trans_le hlen), Option.getD_some,
      Option.getD_some]
  · by_cases hlt : i < at'
    · exact (write_of_lt hlt).symm
    · exact (write_of_le (by omega)).symm

theorem write_sim (h : Sim ss g m) (hn : m n ≠ none) (data : List UInt8) (hat : at' < 2 ^ 64)
    (hpages : len ≠ 0 → at' + len ≤ PtrsPerBlock * BLOCK_SIZE) :
    (∃ ss' g', serve ⟨.file n false, data, .write at' len⟩ ss = .ok { code := .ok, w1 := len } ss' ∧
        Valid ss' g' ∧ g'.live = g.live ∧ (∀ n', g.live n' → n' ≠ n → KeepsFile ss g n' ss' g') ∧
        sz ss'.mem (g'.inode (some n)) = max (sz ss.mem (g.inode (some n))) (at' + len) ∧
        (len ≤ data.length → len ≤ BUF_SZ → ∀ i, g'.byte ss'.mem (some n) i =
          Cells.write (g.byte ss.mem (some n)) at' (data.take len) i)) ∨
      (∃ ss', serve ⟨.file n false, data, .write at' len⟩ ss = .error .outOfSpace ss') ∧
        g.room ss < g.need (some n) (at' / BLOCK_SIZE) (pages at' len) := by
  obtain ⟨ss₁, hss₁, hsim, hkeeps, hino, hserve⟩ := serve_file h hn false data (.write at' len)
  have hlive := (h.live n).2 hn
  have hs := hsim.valid.shape
  have hrun : processRequest (.file n false) (.write at' len) ss₁ =
      (write_to_file (g.inode (some n)) at' len ss₁.buf >>= fun result =>
        (return { code := result, w1 := len } : Op Reply)) ss₁ := (bind_ok hino).trans rfl
  have hroom : g.room ss₁ = g.room ss := by rw [hss₁, room_mem]
  rw [hserve, hrun]
  obtain ⟨ss₂, g₂, hloop, hwrote, -⟩ | ⟨⟨ss₂, hloop⟩, hneed⟩ :=
    @writeLoop_spec ss₁ g n at' len ss₁.buf len hs hlive le_rfl hpages
  · have hvalid₂ : Valid ss₂ g₂ := hsim.valid.extends hwrote.ext
    have hlive₂ : g₂.live n := hwrote.ext.live ▸ hlive
    have hinode : g₂.inode (some n) = g.inode (some n) := hwrote.ext.inode_eq hs (hs.live_exists n hlive).1
    have hsz₂ : sz ss₂.mem (g.inode (some n)) = sz ss.mem (g.inode (some n)) :=
      (hwrote.ext.self.getField le_rfl (by omega)).trans (hkeeps n hlive).sz
    have hkeeps₂ : ∀ n', g.live n' → n' ≠ n → KeepsFile ss g n' ss₂ g₂ := fun n' hn' hne =>
      (hkeeps n' hn').trans (hwrote.ext.keepsFile hs hn' hne fun heq => hne (Option.some.inj heq))
    have hbyte₂ : len ≤ data.length → len ≤ BUF_SZ → ∀ i, g₂.byte ss₂.mem (some n) i =
        Cells.write (g.byte ss.mem (some n)) at' (data.take len) i := by
      intro hlen hlen' i
      have hold : ∀ i, g.byte ss₁.mem (some n) i = g.byte ss.mem (some n) i := fun i => (hkeeps n hlive).byte
      have hbuf := hs.buf
      rw [hwrote.byte (by omega) (by omega), hold, ← received_byte hlen hlen', hss₁]
    have hlt : at' + len < 256 ^ 8 := by
      by_cases hzero : len = 0
      · rw [hzero]
        exact hat
      · refine (hpages hzero).trans_lt (by decide)
    by_cases hgt : at' + len > sz ss₂.mem (g.inode (some n))
    · obtain ⟨hvalid₃, hkeeps₃, hbyte₃⟩ := setSz_sim hvalid₂ hlive₂ (at' + len)
      have hwrite : write_to_file (g.inode (some n)) at' len ss₁.buf ss₁ =
          .ok .ok { ss₂ with mem := setSz ss₂.mem (g.inode (some n)) (at' + len) } := by
        rw [write_to_file, bind_ok hloop, get_bind, if_pos hgt]
        rfl
      rw [hinode] at hvalid₃ hkeeps₃ hbyte₃
      refine .inl ⟨_, g₂, (bind_ok hwrite).trans rfl, hvalid₃, hwrote.ext.live, fun n' hn' hne =>
        (hkeeps₂ n' hn' hne).trans (hkeeps₃ n' (hwrote.ext.live ▸ hn') hne), ?_, fun hlen hlen' i =>
        (hbyte₃ i).trans (hbyte₂ hlen hlen' i)⟩
      rw [hinode, Nat.max_eq_right (by omega)]
      exact getField_setField hlt
    · have hwrite : write_to_file (g.inode (some n)) at' len ss₁.buf ss₁ = .ok .ok ss₂ := by
        rw [write_to_file, bind_ok hloop, get_bind, if_neg hgt]
        rfl
      refine .inl ⟨ss₂, g₂, (bind_ok hwrite).trans rfl, hvalid₂, hwrote.ext.live, hkeeps₂, ?_, hbyte₂⟩
      rw [hinode, hsz₂, Nat.max_eq_left (by omega)]
  · exact .inr ⟨⟨ss₂, bind_error (bind_error hloop)⟩, hroom ▸ hneed⟩

section File

variable (h : Sim ss g m) (hn : m n ≠ none) (readOnly : Bool) (data : List UInt8)

include h hn

theorem read_beyond (at' len : ℕ)
    (hat : sz ss.mem (g.inode (some n)) < at') :
    ∃ ss', serve ⟨.file n readOnly, data, .read at' len⟩ ss = .ok
        { code := .requestError
          data := Cells.read (write ss.mem ss.buf (data.take BUF_SZ)) ss.buf len } ss' ∧
      Sim ss' g m ∧ ∀ n, g.live n → KeepsFile ss g n ss' g := by
  obtain ⟨ss₁, hss₁, hsim, hkeeps, hino, hserve⟩ := serve_file h hn readOnly data (.read at' len)
  have hat₁ : sz ss₁.mem (g.inode (some n)) < at' := (hkeeps n ((h.live n).2 hn)).sz.trans_lt hat
  refine ⟨ss₁, ?_, hsim, hkeeps⟩
  have hread : read_from_file (g.inode (some n)) at' len ss₁.buf ss₁ = .ok (.requestError, len) ss₁ := by
    rw [read_from_file, get_bind, if_pos hat₁]
    rfl
  rw [hserve]
  refine (bind_ok hino).trans ((bind_ok hread).trans ?_)
  rw [hss₁]
  rfl

theorem read_sim (hlen : len < 2 ^ 32) (hsize : sz ss.mem (g.inode (some n)) + 2 ^ 32 ≤ 2 ^ 64) (hat : at' ≤ sz ss.mem (g.inode (some n)))
    (hfit : min len (sz ss.mem (g.inode (some n)) - at') ≤ BUF_SZ)
    (hleaf : ∀ i, at' ≤ i → i < at' + min len (sz ss.mem (g.inode (some n)) - at') →
      (g.tree (some n)).leaf (i / BLOCK_SIZE) ≠ 0) :
    ∃ ss', serve ⟨.file n readOnly, data, .read at' len⟩ ss = .ok
        { code := .ok
          data := Cells.read (g.byte ss.mem (some n)) at' (min len (sz ss.mem (g.inode (some n)) - at')) } ss' ∧
      Sim ss' g m ∧ ∀ n, g.live n → KeepsFile ss g n ss' g := by
  obtain ⟨ss₁, hss₁, hsim, hkeeps, hino, hserve⟩ := serve_file h hn readOnly data (.read at' len)
  have hlive := (h.live n).2 hn
  have hs := hsim.valid.shape
  have hbuf := hs.buf
  have hsz : sz ss₁.mem (g.inode (some n)) = sz ss.mem (g.inode (some n)) := (hkeeps n hlive).sz
  generalize hsize' : sz ss.mem (g.inode (some n)) = size at *
  obtain ⟨mem', hloop, hout, hbytes⟩ := @readLoop_spec ss₁ g n at' (min len (size - at')) ss₁.buf
    (min len (size - at')) hs hlive le_rfl hbuf.ge (by omega) hleaf
  have hread : read_from_file (g.inode (some n)) at' len ss₁.buf ss₁ =
      .ok (.ok, min len (size - at')) { ss₁ with mem := mem' } := by
    have hlen' : (if (at' + len) % 2 ^ 64 > size then (size - at') % 2 ^ 32 else len) = min len (size - at') := by
      split_ifs with hgt
      · omega
      · omega
    rw [read_from_file, get_bind, hsz, if_neg (by omega)]
    rw [hlen', bind_ok hloop]
    rfl
  obtain ⟨hsim', hkeeps'⟩ := buffer_sim hsim fun i hi => hout i (by omega)
  refine ⟨_, ?_, hsim', fun n' hn' => (hkeeps n' hn').trans (hkeeps' n' hn')⟩
  rw [hserve]
  refine (bind_ok hino).trans ((bind_ok hread).trans ?_)
  have hdata : Cells.read mem' ss₁.buf (min len (size - at')) =
      Cells.read (g.byte ss.mem (some n)) at' (min len (size - at')) := by
    rw [read_eq_map, read_eq_map]
    refine List.map_congr_left fun i hi => ?_
    rw [hbytes i (List.mem_range.1 hi)]
    exact (hkeeps n hlive).byte
  rw [← hdata]
  rfl

theorem look_sim (request : Request) (reply : ℕ → Reply) (hrequest : ∀ ss ino, inodeIDToPtr n ss = .ok ino ss →
      processRequest (.file n readOnly) request ss = .ok (reply (sz ss.mem ino)) ss) :
    ∃ ss', serve ⟨.file n readOnly, data, request⟩ ss = .ok (reply (sz ss.mem (g.inode (some n)))) ss' ∧
      Sim ss' g m ∧ ∀ n, g.live n → KeepsFile ss g n ss' g := by
  obtain ⟨ss₁, hss₁, hsim, hkeeps, hino, hserve⟩ := serve_file h hn readOnly data request
  refine ⟨ss₁, ?_, hsim, hkeeps⟩
  rw [hserve, ← (hkeeps n ((h.live n).2 hn)).sz]
  exact hrequest ss₁ _ hino

theorem getSize_sim :
    ∃ ss', serve ⟨.file n readOnly, data, .getSize⟩ ss = .ok
        { code := .ok
          w1 := sz ss.mem (g.inode (some n)) % 2 ^ 32
          w2 := sz ss.mem (g.inode (some n)) / 2 ^ 32 } ss' ∧
      Sim ss' g m ∧ ∀ n, g.live n → KeepsFile ss g n ss' g :=
  look_sim h hn readOnly data .getSize (fun size => { code := .ok, w1 := size % 2 ^ 32, w2 := size / 2 ^ 32 })
    fun _ _ hino => (bind_ok hino).trans rfl

/-- A request about a file that needs more authority than the key has, or that is not one about a file. -/
theorem refused_sim (request : Request) (reply : Reply) (hrequest : ∀ ss ino, inodeIDToPtr n ss = .ok ino ss →
      processRequest (.file n readOnly) request ss = .ok reply ss) :
    ∃ ss', serve ⟨.file n readOnly, data, request⟩ ss = .ok reply ss' ∧ Sim ss' g m ∧
      ∀ n, g.live n → KeepsFile ss g n ss' g :=
  look_sim h hn readOnly data request (fun _ => reply) hrequest

end File

end CapROS.NFile
