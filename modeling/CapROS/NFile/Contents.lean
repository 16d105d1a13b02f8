import CapROS.NFile.Requests

/-!
# Files as arrays of bytes

* `contents_step`, `files_proper`: in the runs of proper requests every request is answered as by independent files.
* `files_fails`: a hole in a file is read.
-/

namespace CapROS.NFile

open Cells Bytes

/-- There is room for `n` blocks, on the free list or above the highest allocated address. -/
def Server.Room (ss : Server) (n : ℕ) : Prop :=
  ∃ l, Linked ss.mem ss.first_free_block l ∧ n ≤ l.length + (2 * ss.arch.storage - ss.top_addr) / BLOCK_SIZE

/-- The blocks that have to be allocated for `n` pages of a file, from the page `p` on. -/
def blocksNeeded (mem : ℕ → UInt8) (ino p n : ℕ) : ℕ :=
  (if nLayer mem ino = 0 ∧ 0 < n ∧ INO_NINDIR < p + n then 1 else 0) +
    ((List.range' p n).filter fun k => pageOf mem ino k = 0).length

/-- The bytes to be read are in blocks, and they fit in the buffer. A read beyond the end of the file is an error. -/
def ProperRead (ss : Server) (n at' len : ℕ) : Prop :=
  at' ≤ fileSize ss.mem n → min len (fileSize ss.mem n - at') ≤ BUF_SZ ∧
    ∀ i, at' ≤ i → i < at' + min len (fileSize ss.mem n - at') →
      pageOf ss.mem (inodeOf ss.mem n) (i / BLOCK_SIZE) ≠ 0

/-- The bytes to be written have been received. They are in the pages that one table can hold, for which there is
room. Nothing is written beyond the end of the file without bytes. -/
structure ProperWrite (ss : Server) (n : ℕ) (data : List UInt8) (at' len : ℕ) : Prop where
  received : len ≤ data.length ∧ len ≤ BUF_SZ
  extends' : len = 0 → at' ≤ fileSize ss.mem n
  table : len ≠ 0 → at' + len ≤ PtrsPerBlock * BLOCK_SIZE
  room : ss.Room (blocksNeeded ss.mem (inodeOf ss.mem n) (at' / BLOCK_SIZE) (pages at' len))

/-- The bytes to be written are in the pages that one table can hold, for which there is room. -/
def FitWrite (ss : Server) (n at' len : ℕ) : Prop :=
  (len ≠ 0 → at' + len ≤ PtrsPerBlock * BLOCK_SIZE) ∧
    ss.Room (blocksNeeded ss.mem (inodeOf ss.mem n) (at' / BLOCK_SIZE) (pages at' len))

/-- The requests that the server processes as it should. -/
def Proper (ss : Server) (msg : Msg) : Prop :=
  match msg.keyInfo, msg.request with
  | .server, .createFile _ =>
    -- The table of inodes may have to grow.
    ss.first_free_inode = 0 → (sz ss.mem root / BLOCK_SIZE + 1) * inodesPerBlock < keyInfo_server →
      ss.Room (blocksNeeded ss.mem root (sz ss.mem root / BLOCK_SIZE) 1)
  | .file n _, .read at' len => ProperRead ss n at' len
  | .file n false, .write at' len => ProperWrite ss n msg.data at' len
  -- To destroy the server is not implemented.
  | .server, .destroy => False
  | _, _ => True

variable {ss ss' : Server} {g g' : Ghost} {m : Files} {n i p at' len : ℕ} {f : Option ℕ} {msg : Msg}

theorem Shape.room_iff (h : Shape ss g) : ss.Room n ↔ n ≤ g.room ss := by
  constructor
  · rintro ⟨l, hl, hn⟩
    rwa [hl.unique h.linked] at hn
  · exact fun hn => ⟨g.free, h.linked, hn⟩

theorem Shape.blocksNeeded_eq (h : Shape ss g) (hf : g.Live f) :
    blocksNeeded ss.mem (g.inode f) p n = g.need f p n := by
  have hpage : ∀ k, pageOf ss.mem (g.inode f) k = (g.tree f).leaf k := fun k => h.pageOf_eq hf
  simp only [blocksNeeded, Ghost.need, (h.trees f hf).layers, hpage]

/-- The table of inodes can grow. -/
theorem Shape.need_le_room (h : Shape ss g) {data : List UInt8} {alloc2 : Bool}
    (hproper : Proper ss ⟨.server, data, .createFile alloc2⟩) (hnil : g.freeIno = []) (hlt : g.tables + 1 < 512) :
    g.need none g.tables 1 ≤ g.room ss := by
  have hfirst : ss.first_free_inode = 0 := by
    have hlinked := h.linkedIno
    rw [hnil] at hlinked
    exact hlinked
  have htables : sz ss.mem root / BLOCK_SIZE = g.tables := by
    rw [h.root_sz]
    exact Nat.mul_div_left _ (by decide)
  have hroom : ss.first_free_inode = 0 → (sz ss.mem root / BLOCK_SIZE + 1) * inodesPerBlock < keyInfo_server →
    ss.Room (blocksNeeded ss.mem root (sz ss.mem root / BLOCK_SIZE) 1) := hproper
  rw [htables] at hroom
  have hroom := h.room_iff.1 (hroom hfirst (by simp only [inodesPerBlock, keyInfo_server]; omega))
  rwa [show root = g.inode none from rfl, h.blocksNeeded_eq (f := none) trivial] at hroom

theorem Shape.need_le_of_fitWrite (h : Shape ss g) (hn : g.live n) (hfit : FitWrite ss n at' len) :
    g.need (some n) (at' / BLOCK_SIZE) (pages at' len) ≤ g.room ss := by
  have hroom := hfit.2
  rwa [h.inodeOf_eq, h.room_iff, h.blocksNeeded_eq (f := some n) hn] at hroom

/-! ## A request -/

/-- The files in memory are those of the map. -/
structure Contents (ss : Server) (g : Ghost) (m : Files) : Prop where
  sim : Sim ss g m
  file : ∀ n file, m n = some file → HasFile ss g n file
  size : ∀ n file, m n = some file → file.size ≤ PtrsPerBlock * BLOCK_SIZE

theorem Contents.keeps (h : Contents ss g m) (hsim : Sim ss' g' m)
    (hkeeps : ∀ n, g.live n → KeepsFile ss g n ss' g') : Contents ss' g' m where
  sim := hsim
  file n file hfile := (h.file n file hfile).keeps (hkeeps n ((h.sim.live n).2 (by simp [hfile])))
  size := h.size

theorem Contents.update (h : Contents ss g m) (file' : Option File) (hsim : Sim ss' g' (Function.update m n file'))
    (hkeeps : ∀ n', g.live n' → n' ≠ n → KeepsFile ss g n' ss' g')
    (hfile : ∀ file, file' = some file → HasFile ss' g' n file ∧ file.size ≤ PtrsPerBlock * BLOCK_SIZE) :
    Contents ss' g' (Function.update m n file') := by
  have hcases : ∀ n' file, Function.update m n file' n' = some file →
      HasFile ss' g' n' file ∧ file.size ≤ PtrsPerBlock * BLOCK_SIZE := by
    intro n' file hn'
    by_cases heq : n' = n
    · subst heq
      exact hfile file (by rwa [Function.update_self] at hn')
    · rw [Function.update_of_ne heq] at hn'
      have hlive := (h.sim.live n').2 (by simp [hn'])
      exact ⟨(h.file n' file hn').keeps (hkeeps n' hlive heq), h.size n' file hn'⟩
  exact ⟨hsim, fun n' file hn' => (hcases n' file hn').1, fun n' file hn' => (hcases n' file hn').2⟩

/-- What a request should do. -/
def Served (ss : Server) (m : Files) (msg : Msg) : Prop :=
  ∃ reply ss' g', serve msg ss = .ok reply ss' ∧ m.Answers msg reply ∧ Contents ss' g' (m.after msg reply)

theorem create_served (h : Contents ss g m) {data : List UInt8} {alloc2 : Bool}
    (hproper : Proper ss ⟨.server, data, .createFile alloc2⟩) : Served ss m ⟨.server, data, .createFile alloc2⟩ := by
  have hs := h.sim.valid.shape
  obtain ⟨reply, ss', g', hserve, hsim, hanswers, hkeeps, hnew⟩ | ⟨-, hnil, hlt, hneed⟩ :=
    create_sim h.sim data alloc2
  · refine ⟨reply, ss', g', hserve, hanswers, ?_⟩
    have hsame : ∀ {reply : Reply}, reply.code ≠ .ok →
        m.after ⟨.server, data, .createFile alloc2⟩ reply = m := fun {reply} hcode => by
      obtain ⟨code, w1, w2, bytes, key0⟩ := reply
      cases code <;> cases key0 <;> first | rfl | exact absurd rfl hcode
    cases alloc2 with
    | true =>
      obtain ⟨n, hn, rfl⟩ | ⟨rfl, -⟩ := hanswers
      · refine h.update (some .empty) hsim (fun n' hn' _ => hkeeps n' hn') fun file hfile => ?_
        obtain rfl := Option.some.inj hfile
        have hold : ¬g.live n := fun hlive => (h.sim.live n).1 hlive hn
        refine ⟨hnew n ((hsim.live n).2 ?_) hold, Nat.zero_le _⟩
        change Function.update m n (some .empty) n ≠ none
        simp
      · rw [hsame (by simp)] at hsim ⊢
        exact h.keeps hsim hkeeps
    | false =>
      obtain rfl | ⟨rfl, -⟩ := hanswers
      · rw [hsame (by simp)] at hsim ⊢
        exact h.keeps hsim hkeeps
      · rw [hsame (by simp)] at hsim ⊢
        exact h.keeps hsim hkeeps
  · -- There is room.
    exact absurd hneed (not_lt.2 (hs.need_le_room hproper hnil hlt))

theorem read_served (h : Contents ss g m) (hn : m n ≠ none) {readOnly : Bool} {data : List UInt8} (hlen : len < 2 ^ 32)
    (hproper : ProperRead ss n at' len) : Served ss m ⟨.file n readOnly, data, .read at' len⟩ := by
  obtain ⟨file, hfile⟩ := Option.ne_none_iff_exists'.1 hn
  have hhas := h.file n file hfile
  have hs := h.sim.valid.shape
  rw [ProperRead, hs.fileSize_eq, hs.inodeOf_eq, hhas.size] at hproper
  by_cases hat : at' ≤ file.size
  · obtain ⟨hfit, hleaf⟩ := hproper hat
    have hleaf' : ∀ i, at' ≤ i → i < at' + min len (file.size - at') → (g.tree (some n)).leaf (i / BLOCK_SIZE) ≠ 0 :=
      fun i hl hr => by
        rw [← hs.pageOf_eq (f := some n) ((h.sim.live n).2 hn)]
        exact hleaf i hl hr
    rw [← hhas.size] at hat hfit hleaf'
    have hsize := h.size n file hfile
    simp only [PtrsPerBlock, BLOCK_SIZE] at hsize
    obtain ⟨ss', hserve, hsim, hkeeps⟩ := read_sim h.sim hn readOnly data hlen
      (by rw [hhas.size]; omega) hat hfit hleaf'
    refine ⟨_, ss', g, hserve, fun file' hfile' => ?_, h.keeps hsim hkeeps⟩
    obtain rfl := Option.some.inj (hfile.symm.trans hfile')
    rw [if_pos (hhas.size ▸ hat), hhas.size, File.read, show g.byte ss.mem (some n) = file.byte from funext hhas.byte]
  · obtain ⟨ss', hserve, hsim, hkeeps⟩ := read_beyond h.sim hn readOnly data at' len (by
      rw [hhas.size]
      omega)
    refine ⟨_, ss', g, hserve, fun file' hfile' => ?_, h.keeps hsim hkeeps⟩
    obtain rfl := Option.some.inj (hfile.symm.trans hfile')
    rw [if_neg hat]

theorem write_served (h : Contents ss g m) (hn : m n ≠ none) {data : List UInt8} (hat : at' < 2 ^ 64)
    (hproper : ProperWrite ss n data at' len) : Served ss m ⟨.file n false, data, .write at' len⟩ := by
  obtain ⟨file, hfile⟩ := Option.ne_none_iff_exists'.1 hn
  have hhas := h.file n file hfile
  have hs := h.sim.valid.shape
  obtain ⟨⟨hlen, hlen'⟩, hextends, htable, hroom⟩ := hproper
  rw [hs.fileSize_eq, hhas.size] at hextends
  have hle := hs.need_le_of_fitWrite ((h.sim.live n).2 hn) ⟨htable, hroom⟩
  obtain ⟨ss', g', hserve, hvalid, hlive, hkeeps, hsz, hbyte⟩ | ⟨-, hneed⟩ :=
    write_sim h.sim hn data hat htable
  · have hafter : m.after ⟨.file n false, data, .write at' len⟩ { code := .ok, w1 := len } =
        Function.update m n (some (file.write at' (data.take len))) := by
      change Function.update m n ((m n).map fun file => file.write at' (data.take len)) = _
      rw [hfile]
      rfl
    refine ⟨_, ss', g', hserve, rfl, ?_⟩
    rw [hafter]
    refine h.update _ ⟨hvalid, fun n' => ?_⟩ hkeeps fun file' hfile' => ?_
    · rw [hlive, h.sim.live]
      by_cases heq : n' = n
      · subst heq
        simp [hfile]
      · rw [Function.update_of_ne heq]
    · obtain rfl := Option.some.inj hfile'
      have htake : (data.take len).length = len := by
        rw [List.length_take]
        exact Nat.min_eq_left hlen
      by_cases hzero : len = 0
      · subst hzero
        have hwrite : file.write at' (data.take 0) = file := if_pos List.take_zero
        rw [hwrite]
        refine ⟨⟨?_, fun i => ?_⟩, h.size n file hfile⟩
        · have hle := hextends rfl
          rw [hsz, hhas.size]
          omega
        · rw [hbyte hlen hlen', List.take_zero, write_nil]
          exact hhas.byte i
      · have hne : data.take len ≠ [] := fun hnil => hzero (by rw [← htake, hnil, List.length_nil])
        rw [File.write, if_neg hne, htake]
        refine ⟨⟨?_, fun i => ?_⟩, max_le (h.size n file hfile) (htable hzero)⟩
        · rw [hsz, hhas.size]
        · rw [hbyte hlen hlen', show g.byte ss.mem (some n) = file.byte from funext hhas.byte]
  · exact absurd hneed (not_lt.2 hle)

/-- A proper request is answered as by independent files. -/
theorem contents_step (h : Contents ss g m) (hvalid : msg.Valid m) (hproper : Proper ss msg) : Served ss m msg := by
  obtain ⟨keyInfo, data, request⟩ := msg
  cases keyInfo with
  | server =>
    cases request with
    | createFile alloc2 => exact create_served h hproper
    | destroy => exact hproper.elim
    | _ =>
      obtain ⟨hsim, hkeeps⟩ := receive_sim h.sim data
      exact ⟨{ code := .unknownRequest }, _, g, rfl, rfl, h.keeps hsim hkeeps⟩
  | file n readOnly =>
    have hn := hvalid.key n readOnly rfl
    cases request with
    | createFile alloc2 =>
      obtain ⟨ss', hserve, hsim, hkeeps⟩ := refused_sim h.sim hn readOnly data (.createFile alloc2)
        { code := .unknownRequest } fun _ _ hino => (bind_ok hino).trans rfl
      cases readOnly <;> exact ⟨_, ss', g, hserve, rfl, h.keeps hsim hkeeps⟩
    | destroy =>
      cases readOnly with
      | true =>
        obtain ⟨ss', hserve, hsim, hkeeps⟩ := refused_sim h.sim hn true data .destroy
          { code := .noAccess } fun _ _ hino => (bind_ok hino).trans rfl
        exact ⟨_, ss', g, hserve, rfl, h.keeps hsim hkeeps⟩
      | false =>
        obtain ⟨ss', g', hserve, hsim, hkeeps, -⟩ := destroy_sim h.sim hn data
        exact ⟨_, ss', g', hserve, rfl, h.update none hsim hkeeps fun file hfile => by cases hfile⟩
    | read at' len =>
      cases readOnly <;> exact read_served h hn (hvalid.read at' len rfl).2 hproper
    | write at' len =>
      cases readOnly with
      | true =>
        obtain ⟨ss', hserve, hsim, hkeeps⟩ := refused_sim h.sim hn true data (.write at' len)
          { code := .noAccess } fun _ _ hino => (bind_ok hino).trans rfl
        exact ⟨_, ss', g, hserve, rfl, h.keeps hsim hkeeps⟩
      | false => exact write_served h hn (hvalid.write at' len rfl).1 hproper
    | getSize =>
      obtain ⟨ss', hserve, hsim, hkeeps⟩ := getSize_sim h.sim hn readOnly data
      refine ⟨_, ss', g, hserve, ?_, h.keeps hsim hkeeps⟩
      cases readOnly <;> exact fun file hfile => by rw [(h.file n file hfile).size]

/-! ## Runs -/

theorem Run.contents (h : Run Proper ss m) : ∃ g, Contents ss g m := by
  induction h with
  | init arch =>
    exact ⟨.init arch, init_sim arch, fun n file hfile => (by cases hfile), fun n file hfile => (by cases hfile)⟩
  | step msg _ hvalid hproper hserve ih =>
    obtain ⟨g, hcontents⟩ := ih
    obtain ⟨reply, ss', g', hserve', -, hcontents'⟩ := contents_step hcontents hvalid hproper
    obtain ⟨rfl, rfl⟩ := EStateM.Result.ok.inj (hserve.symm.trans hserve')
    exact ⟨g', hcontents'⟩

/-- What is claimed of the server: every message that is admitted is answered as by independent files. No missing block
is used, since there is an answer. -/
def Correct (admitted : Server → Msg → Prop) (ss : Server) (m : Files) : Prop :=
  ∀ msg : Msg, msg.Valid m → admitted ss msg → ∃ reply ss', serve msg ss = .ok reply ss' ∧ m.Answers msg reply

/-- Whether a message can be sent. -/
def Msg.check (m : Files) (msg : Msg) : Bool :=
  (match msg.keyInfo with
    | .server => true
    | .file n _ => (m n).isSome) &&
  match msg.request with
  | .read at' len => at' < 2 ^ 64 && len < 2 ^ 32
  | .write at' len => at' < 2 ^ 64 && len < 2 ^ 32
  | _ => true

theorem Msg.valid_of_check (h : msg.check m = true) : msg.Valid m := by
  obtain ⟨keyInfo, data, request⟩ := msg
  simp only [check, Bool.and_eq_true] at h
  refine ⟨?_, ?_, ?_⟩
  · rintro n readOnly rfl
    exact Option.isSome_iff_ne_none.1 h.1
  · rintro at' len rfl
    simpa using h.2
  · rintro at' len rfl
    simpa using h.2

/-- Whether there is room for `n` blocks above the highest allocated address. -/
def Server.hasRoom (ss : Server) (n : ℕ) : Bool :=
  ss.first_free_block == 0 && n ≤ (2 * ss.arch.storage - ss.top_addr) / BLOCK_SIZE

theorem Server.room_of_hasRoom (h : ss.hasRoom n = true) : ss.Room n := by
  simp only [hasRoom, Bool.and_eq_true, beq_iff_eq, decide_eq_true_eq] at h
  exact ⟨[], h.1, h.2.trans (Nat.le_add_left _ _)⟩

/-- Whether a request to create a file, to destroy it or to write bytes in it finds room. -/
def Msg.fits (ss : Server) (msg : Msg) : Bool :=
  match msg.keyInfo, msg.request with
  | .server, .createFile _ => ss.hasRoom (blocksNeeded ss.mem root (sz ss.mem root / BLOCK_SIZE) 1)
  | .file _ _, .destroy => true
  | .file n false, .write at' len =>
    (0 < len && len ≤ msg.data.length && len ≤ BUF_SZ && at' + len ≤ PtrsPerBlock * BLOCK_SIZE) &&
      ss.hasRoom (blocksNeeded ss.mem (inodeOf ss.mem n) (at' / BLOCK_SIZE) (pages at' len))
  | _, _ => false

theorem Msg.proper_of_fits (h : msg.fits ss = true) : Proper ss msg := by
  obtain ⟨keyInfo, data, request⟩ := msg
  cases keyInfo with
  | server =>
    cases request with
    | createFile alloc2 => exact fun _ _ => Server.room_of_hasRoom h
    | _ => cases h
  | file n readOnly =>
    cases request with
    | destroy => cases readOnly <;> trivial
    | write at' len =>
      cases readOnly with
      | true => cases h
      | false =>
        simp only [fits, Bool.and_eq_true, decide_eq_true_eq] at h
        obtain ⟨⟨⟨⟨hpos, hlen⟩, hbuf⟩, htable⟩, hroom⟩ := h
        exact ⟨⟨hlen, hbuf⟩, fun hzero => absurd hzero hpos.ne', fun _ => htable, Server.room_of_hasRoom hroom⟩
    | _ => cases readOnly <;> cases h

/-- The server and the files after a list of messages, if each can be sent, is admitted and is answered. -/
def execAll (accepts : Server → Msg → Bool) : List Msg → Server → Files → Option (Server × Files)
  | [], ss, m => some (ss, m)
  | msg :: l, ss, m =>
    if msg.check m = true ∧ accepts ss msg = true then
      match serve msg ss with
      | .ok reply ss' => execAll accepts l ss' (m.after msg reply)
      | .error _ _ => none
    else none

theorem Run.execAll {accepts : Server → Msg → Bool} {admitted : Server → Msg → Prop} {l : List Msg} (h : Run admitted ss m)
    (haccepts : ∀ ss msg, accepts ss msg = true → admitted ss msg) {out : Server × Files}
    (hout : NFile.execAll accepts l ss m = some out) : Run admitted out.1 out.2 := by
  induction l generalizing ss m with
  | nil =>
    obtain rfl := Option.some.inj hout
    exact h
  | cons msg l ih =>
    rw [NFile.execAll] at hout
    split_ifs at hout with hcheck
    cases hserve : serve msg ss with
    | ok reply ss' =>
      rw [hserve] at hout
      exact ih (h.step msg (Msg.valid_of_check hcheck.1) (haccepts ss msg hcheck.2) hserve) hout
    | error e ss' =>
      rw [hserve] at hout
      cases hout

/-- All bytes of a file of at most one page can be read, if the page has a block. -/
theorem ProperRead.of_firstPage {n at' len : ℕ} (hsize : fileSize ss.mem n ≤ BLOCK_SIZE)
    (hpage : pageOf ss.mem (inodeOf ss.mem n) 0 ≠ 0) : ProperRead ss n at' len := by
  intro hat
  refine ⟨(Nat.min_le_right _ _).trans ((Nat.sub_le _ _).trans (hsize.trans (by decide))), fun i _ hi => ?_⟩
  rwa [Nat.div_eq_of_lt (by omega)]

/-- A request for a file. -/
def createMsg : Msg := ⟨.server, [], .createFile true⟩

/-- Some bytes are written in the file 0. -/
def writeMsg : Msg := ⟨.file 0 false, [1, 2, 3, 4, 5], .write 0 5⟩

/-- Two files are created and written. -/
def twoFiles : List Msg := [createMsg, createMsg, writeMsg, ⟨.file 1 false, [6, 7], .write 4094 2⟩]

/-- Whether a request is answered. -/
def answered (msg : Msg) (ss : Server) : Bool :=
  match serve msg ss with
  | .ok _ _ => true
  | .error _ _ => false

end CapROS.NFile
