import CapROS.NFile.Contents

/-!
# Files do not depend on each other

* `reply_isolated`: two servers with the same file give the same reply.
* `reply_isolated_fails`: a read beyond the end of a file sends what another client has sent.
-/

namespace CapROS.NFile

open Cells Bytes

/-- Both servers have the same file `n`. -/
structure SameFile (ss ss' : Server) (n : ℕ) : Prop where
  size : fileSize ss.mem n = fileSize ss'.mem n
  byte : ∀ i < fileSize ss.mem n, fileByte ss.mem n i = fileByte ss'.mem n i

/-- Files other than `n` have not changed. -/
def OthersSame (ss : Server) (m : Files) (n : ℕ) (ss' : Server) : Prop :=
  ∀ n', m n' ≠ none → n' ≠ n → inodeOf ss'.mem n' = inodeOf ss.mem n' ∧
    Same ss.mem ss'.mem (inodeOf ss.mem n') (inodeOf ss.mem n' + 64) ∧
    fileSize ss'.mem n' = fileSize ss.mem n' ∧ ∀ i, fileByte ss'.mem n' i = fileByte ss.mem n' i

/-- What is claimed of a request about the file `n`: the replies of both servers are the same, and other files do not
change. -/
def Isolated (ss : Server) (m : Files) (ss' : Server) (m' : Files) (n : ℕ) (msg : Msg) : Prop :=
  ∃ reply ss₁ ss₁', serve msg ss = .ok reply ss₁ ∧ serve msg ss' = .ok reply ss₁' ∧ OthersSame ss m n ss₁ ∧
    OthersSame ss' m' n ss₁'

/-- A request to read or write the file `n`. -/
def Msg.Accesses (msg : Msg) (n : ℕ) : Prop :=
  (∃ readOnly, msg.keyInfo = .file n readOnly) ∧ ∃ at' len, msg.request = .read at' len ∨ msg.request = .write at' len

/-- Requests that do not write outside of what belongs to the file. Those that write no bytes may make it larger than
one table can hold. -/
def Safe (ss : Server) (msg : Msg) : Prop :=
  match msg.keyInfo, msg.request with
  | .file n _, .read at' len => ProperRead ss n at' len
  | .file _ false, .write at' len =>
    (len = 0 → at' + 2 ^ 32 ≤ 2 ^ 64) ∧ (len ≠ 0 → at' + len ≤ PtrsPerBlock * BLOCK_SIZE)
  | _, _ => True

/-- The bytes that have been received are in the buffer. -/
def received (ss : Server) (msg : Msg) : ℕ → UInt8 := write ss.mem ss.buf (msg.data.take BUF_SZ)

/-- A read of bytes in blocks that fit in the buffer; or a read beyond the end of the file for which both buffers have the
same bytes, such as one that is not longer than the message; or a write for which there is room. -/
def Contained (ss ss' : Server) (msg : Msg) : Prop :=
  match msg.keyInfo, msg.request with
  | .file n _, .read at' len => ProperRead ss n at' len ∧ ProperRead ss' n at' len ∧
    (fileSize ss.mem n < at' → Cells.read (received ss msg) ss.buf len = Cells.read (received ss' msg) ss'.buf len)
  | .file n false, .write at' len => FitWrite ss n at' len ∧ FitWrite ss' n at' len
  | _, _ => True

variable {ss ss' : Server} {g g' : Ghost} {m m' : Files} {n i at' len : ℕ} {msg : Msg}

/-- A server in which the place after a read from a file is a number of 64 bits. -/
structure Sized (ss : Server) (g : Ghost) (m : Files) : Prop where
  sim : Sim ss g m
  size : ∀ n, g.live n → sz ss.mem (g.inode (some n)) + 2 ^ 32 ≤ 2 ^ 64

theorem Sized.keeps (h : Sized ss g m) (hsim : Sim ss' g' m') (hkeeps : ∀ n, g.live n → KeepsFile ss g n ss' g')
    (hnew : ∀ n, g'.live n → ¬g.live n → sz ss'.mem (g'.inode (some n)) + 2 ^ 32 ≤ 2 ^ 64) :
    Sized ss' g' m' := by
  refine ⟨hsim, fun n hn => ?_⟩
  by_cases hold : g.live n
  · rw [(hkeeps n hold).sz]
    exact h.size n hold
  · exact hnew n hn hold

theorem safe_step (h : Sized ss g m) (hvalid : msg.Valid m) (hsafe : Safe ss msg) {reply : Reply}
    (hserve : serve msg ss = .ok reply ss') : ∃ g', Sized ss' g' (m.after msg reply) := by
  have hs := h.sim.valid.shape
  obtain ⟨keyInfo, data, request⟩ := msg
  -- The reply is that of the lemma.
  have hsame : ∀ {reply' ss''}, serve ⟨keyInfo, data, request⟩ ss = .ok reply' ss'' → reply' = reply ∧ ss'' = ss' :=
    fun heq => EStateM.Result.ok.inj (heq.symm.trans hserve)
  have hkeep : ∀ {g'}, Sim ss' g' m → (∀ n, g.live n → KeepsFile ss g n ss' g') → Sized ss' g' m :=
    fun hsim hkeeps => h.keeps hsim hkeeps fun n hn hold => absurd ((h.sim.live n).2 ((hsim.live n).1 hn)) hold
  cases keyInfo with
  | server =>
    cases request with
    | createFile alloc2 =>
      obtain ⟨reply', ss'', g', hrun, hsim, -, hkeeps, hnew⟩ | ⟨⟨ss'', hrun⟩, -⟩ :=
        create_sim h.sim data alloc2
      · obtain ⟨rfl, rfl⟩ := hsame hrun
        refine ⟨g', h.keeps hsim hkeeps fun n hn hold => ?_⟩
        rw [(hnew n hn hold).size]
        decide
      · rw [hserve] at hrun
        cases hrun
    | destroy => cases hserve
    | _ =>
      obtain ⟨hsim, hkeeps⟩ := receive_sim h.sim data
      obtain ⟨rfl, rfl⟩ := EStateM.Result.ok.inj hserve
      exact ⟨g, hkeep hsim hkeeps⟩
  | file n readOnly =>
    have hn := hvalid.key n readOnly rfl
    have hlive := (h.sim.live n).2 hn
    cases request with
    | createFile alloc2 =>
      obtain ⟨ss'', hrun, hsim, hkeeps⟩ := refused_sim h.sim hn readOnly data (.createFile alloc2)
        { code := .unknownRequest } fun _ _ hino => (bind_ok hino).trans rfl
      obtain ⟨rfl, rfl⟩ := hsame hrun
      exact ⟨g, hkeep hsim hkeeps⟩
    | destroy =>
      cases readOnly with
      | true =>
        obtain ⟨ss'', hrun, hsim, hkeeps⟩ := refused_sim h.sim hn true data .destroy
          { code := .noAccess } fun _ _ hino => (bind_ok hino).trans rfl
        obtain ⟨rfl, rfl⟩ := hsame hrun
        exact ⟨g, hkeep hsim hkeeps⟩
      | false =>
        obtain ⟨ss'', g', hrun, hsim, hkeeps, -⟩ := destroy_sim h.sim hn data
        obtain ⟨rfl, rfl⟩ := hsame hrun
        refine ⟨g', hsim, fun n' hn' => ?_⟩
        have hfile := (hsim.live n').1 hn'
        have hne : n' ≠ n := by
          rintro rfl
          rw [Function.update_self] at hfile
          exact hfile rfl
        rw [Function.update_of_ne hne] at hfile
        have hold := (h.sim.live n').2 hfile
        rw [(hkeeps n' hold hne).sz]
        exact h.size n' hold
    | read at' len =>
      have hproper : ProperRead ss n at' len := by cases readOnly <;> exact hsafe
      rw [ProperRead, hs.fileSize_eq, hs.inodeOf_eq] at hproper
      by_cases hat : at' ≤ sz ss.mem (g.inode (some n))
      · obtain ⟨hfit, hleaf⟩ := hproper hat
        simp only [hs.pageOf_eq (f := some n) hlive] at hleaf
        obtain ⟨ss'', hrun, hsim, hkeeps⟩ := read_sim h.sim hn readOnly data (hvalid.read at' len rfl).2
          (h.size n hlive) hat hfit hleaf
        obtain ⟨rfl, rfl⟩ := hsame hrun
        exact ⟨g, hkeep hsim hkeeps⟩
      · obtain ⟨ss'', hrun, hsim, hkeeps⟩ := read_beyond h.sim hn readOnly data at' len (by omega)
        obtain ⟨rfl, rfl⟩ := hsame hrun
        exact ⟨g, hkeep hsim hkeeps⟩
    | write at' len =>
      cases readOnly with
      | true =>
        obtain ⟨ss'', hrun, hsim, hkeeps⟩ := refused_sim h.sim hn true data (.write at' len)
          { code := .noAccess } fun _ _ hino => (bind_ok hino).trans rfl
        obtain ⟨rfl, rfl⟩ := hsame hrun
        exact ⟨g, hkeep hsim hkeeps⟩
      | false =>
        obtain ⟨hzero, hlow⟩ := hsafe
        obtain ⟨ss'', g', hrun, hvalid', hlive', hkeeps, hsz, -⟩ | ⟨⟨ss'', hrun⟩, -⟩ :=
          write_sim h.sim hn data (hvalid.write at' len rfl).1 hlow
        · obtain ⟨rfl, rfl⟩ := hsame hrun
          refine ⟨g', ⟨hvalid', fun n' => ?_⟩, fun n' hn' => ?_⟩
          · change g'.live n' ↔
              Function.update m n ((m n).map fun file => file.write at' (data.take len)) n' ≠ none
            rw [hlive', h.sim.live]
            by_cases heq : n' = n
            · subst heq
              simp
            · rw [Function.update_of_ne heq]
          · by_cases heq : n' = n
            · subst heq
              have hle := h.size n' hlive
              rw [hsz]
              by_cases hlen : len = 0
              · have hat := hzero hlen
                omega
              · have hat := hlow hlen
                simp only [PtrsPerBlock, BLOCK_SIZE] at hat
                omega
            · rw [(hkeeps n' (hlive' ▸ hn') heq).sz]
              exact h.size n' (hlive' ▸ hn')
        · rw [hserve] at hrun
          cases hrun
    | getSize =>
      obtain ⟨ss'', hrun, hsim, hkeeps⟩ := getSize_sim h.sim hn readOnly data
      obtain ⟨rfl, rfl⟩ := hsame hrun
      cases readOnly <;> exact ⟨g, hkeep hsim hkeeps⟩

theorem Run.sized (h : Run Safe ss m) : ∃ g, Sized ss g m := by
  induction h with
  | init arch => exact ⟨.init arch, init_sim arch, fun n hn => hn.elim⟩
  | step msg _ hvalid hsafe hserve ih =>
    obtain ⟨g, hsized⟩ := ih
    exact safe_step hsized hvalid hsafe hserve

/-! ## Two servers -/

theorem othersSame_of_keeps (h : Sim ss g m) (hs' : Shape ss' g')
    (hkeeps : ∀ n', g.live n' → n' ≠ n → KeepsFile ss g n' ss' g') : OthersSame ss m n ss' := by
  intro n' hn' hne
  have hs := h.valid.shape
  have hlive := (h.live n').2 hn'
  have hkeep := hkeeps n' hlive hne
  rw [hs.inodeOf_eq, hs'.inodeOf_eq, hs.fileSize_eq, hs'.fileSize_eq]
  refine ⟨hkeep.inode, hkeep.same, hkeep.sz, fun i => ?_⟩
  rw [hs.fileByte_eq hlive, hs'.fileByte_eq hkeep.live]
  exact hkeep.byte

theorem read_isolated (h : Sized ss g m) (h' : Sized ss' g' m') (hn : m n ≠ none) (hn' : m' n ≠ none)
    (hsame : SameFile ss ss' n) {readOnly : Bool} {data : List UInt8} (hlen : len < 2 ^ 32)
    (hproper : ProperRead ss n at' len) (hproper' : ProperRead ss' n at' len)
    (hstale : fileSize ss.mem n < at' → Cells.read (write ss.mem ss.buf (data.take BUF_SZ)) ss.buf len =
      Cells.read (write ss'.mem ss'.buf (data.take BUF_SZ)) ss'.buf len) :
    Isolated ss m ss' m' n ⟨.file n readOnly, data, .read at' len⟩ := by
  have hs := h.sim.valid.shape
  have hs' := h'.sim.valid.shape
  have hlive := (h.sim.live n).2 hn
  have hlive' := (h'.sim.live n).2 hn'
  obtain ⟨hsize, hbyte⟩ := hsame
  rw [hs.fileSize_eq, hs'.fileSize_eq] at hsize
  rw [ProperRead, hs.fileSize_eq, hs.inodeOf_eq] at hproper
  rw [ProperRead, hs'.fileSize_eq, hs'.inodeOf_eq] at hproper'
  rw [hs.fileSize_eq] at hstale hbyte
  simp only [hs.pageOf_eq (f := some n) hlive] at hproper
  simp only [hs'.pageOf_eq (f := some n) hlive'] at hproper'
  by_cases hat : at' ≤ sz ss.mem (g.inode (some n))
  · have hat' : at' ≤ sz ss'.mem (g'.inode (some n)) := hsize ▸ hat
    obtain ⟨ss₁, hrun, hsim, hkeeps⟩ := read_sim h.sim hn readOnly data hlen (h.size n hlive) hat (hproper hat).1
      (hproper hat).2
    obtain ⟨ss₁', hrun', hsim', hkeeps'⟩ := read_sim h'.sim hn' readOnly data hlen (h'.size n hlive') hat'
      (hproper' hat').1 (hproper' hat').2
    refine ⟨_, ss₁, ss₁', hrun, ?_, othersSame_of_keeps h.sim hsim.valid.shape fun n' hlive _ => hkeeps n' hlive,
      othersSame_of_keeps h'.sim hsim'.valid.shape fun n' hlive _ => hkeeps' n' hlive⟩
    -- The bytes are those of the file.
    have hdata : Cells.read (g'.byte ss'.mem (some n)) at' (min len (sz ss'.mem (g'.inode (some n)) - at')) =
        Cells.read (g.byte ss.mem (some n)) at' (min len (sz ss.mem (g.inode (some n)) - at')) := by
      rw [← hsize]
      refine read_congr fun i hl hr => ?_
      rw [← hs.fileByte_eq hlive, ← hs'.fileByte_eq hlive']
      exact (hbyte i (by omega)).symm
    rw [hrun', hdata]
  · obtain ⟨ss₁, hrun, hsim, hkeeps⟩ := read_beyond h.sim hn readOnly data at' len (by omega)
    obtain ⟨ss₁', hrun', hsim', hkeeps'⟩ := read_beyond h'.sim hn' readOnly data at' len (by omega)
    refine ⟨_, ss₁, ss₁', hrun, ?_, othersSame_of_keeps h.sim hsim.valid.shape fun n' hlive _ => hkeeps n' hlive,
      othersSame_of_keeps h'.sim hsim'.valid.shape fun n' hlive _ => hkeeps' n' hlive⟩
    rw [hrun', hstale (by omega)]

theorem write_fits (h : Sim ss g m) (hn : m n ≠ none) (data : List UInt8) (hat : at' < 2 ^ 64)
    (hfit : FitWrite ss n at' len) :
    ∃ ss', serve ⟨.file n false, data, .write at' len⟩ ss = .ok { code := .ok, w1 := len } ss' ∧
      OthersSame ss m n ss' := by
  obtain ⟨ss', g', hrun, hvalid, -, hkeeps, -⟩ | ⟨-, hneed⟩ := write_sim h hn data hat hfit.1
  · exact ⟨ss', hrun, othersSame_of_keeps h hvalid.shape hkeeps⟩
  · exact absurd hneed (not_lt.2 (h.valid.shape.need_le_of_fitWrite ((h.live n).2 hn) hfit))

/-- Two servers with the same file give the same reply to a contained request, and other files do not change. -/
theorem reply_isolated (h : Run Safe ss m) (h' : Run Safe ss' m') (hn : m n ≠ none) (hn' : m' n ≠ none)
    (hsame : SameFile ss ss' n) (hvalid : msg.Valid m) (haccess : msg.Accesses n) (hcontained : Contained ss ss' msg) :
    Isolated ss m ss' m' n msg := by
  obtain ⟨g, hsized⟩ := h.sized
  obtain ⟨g', hsized'⟩ := h'.sized
  obtain ⟨keyInfo, data, request⟩ := msg
  obtain ⟨⟨readOnly, hkey⟩, at', len, hrequest⟩ := haccess
  subst hkey
  obtain hrequest | hrequest := hrequest
  · dsimp only at hrequest
    subst hrequest
    obtain ⟨hproper, hproper', hstale⟩ : ProperRead ss n at' len ∧ ProperRead ss' n at' len ∧
        (fileSize ss.mem n < at' → Cells.read (write ss.mem ss.buf (data.take BUF_SZ)) ss.buf len =
          Cells.read (write ss'.mem ss'.buf (data.take BUF_SZ)) ss'.buf len) := by
      cases readOnly <;> exact hcontained
    exact read_isolated hsized hsized' hn hn' hsame (hvalid.read at' len rfl).2 hproper hproper' hstale
  · dsimp only at hrequest
    subst hrequest
    cases readOnly with
    | true =>
      obtain ⟨ss₁, hrun, hsim, hkeeps⟩ := refused_sim hsized.sim hn true data (.write at' len)
        { code := .noAccess } fun _ _ hino => (bind_ok hino).trans rfl
      obtain ⟨ss₁', hrun', hsim', hkeeps'⟩ := refused_sim hsized'.sim hn' true data (.write at' len)
        { code := .noAccess } fun _ _ hino => (bind_ok hino).trans rfl
      exact ⟨_, ss₁, ss₁', hrun, hrun',
        othersSame_of_keeps hsized.sim hsim.valid.shape fun n' hlive _ => hkeeps n' hlive,
        othersSame_of_keeps hsized'.sim hsim'.valid.shape fun n' hlive _ => hkeeps' n' hlive⟩
    | false =>
      obtain ⟨ss₁, hrun, hothers⟩ := write_fits hsized.sim hn data (hvalid.write at' len rfl).1 hcontained.1
      obtain ⟨ss₁', hrun', hothers'⟩ := write_fits hsized'.sim hn' data (hvalid.write at' len rfl).1 hcontained.2
      exact ⟨_, ss₁, ss₁', hrun, hrun', hothers, hothers'⟩

theorem Msg.safe_of_fits (h : msg.fits ss = true) : Safe ss msg := by
  have hproper := proper_of_fits h
  obtain ⟨keyInfo, data, request⟩ := msg
  cases keyInfo with
  | server => trivial
  | file n readOnly =>
    cases request with
    | read at' len => cases readOnly <;> cases h
    | write at' len =>
      cases readOnly with
      | true => trivial
      | false =>
        simp only [fits, Bool.and_eq_true, decide_eq_true_eq] at h
        exact ⟨fun hzero => absurd hzero h.1.1.1.1.ne', hproper.table⟩
    | _ => cases readOnly <;> trivial

/-- Bytes of the file 0 of two servers are read. One of them has another file. -/
theorem reply_isolated_created : ∃ ss m ss' m' msg, (m 1).map File.size = some 4096 ∧ m' 1 = none ∧
    fileSize ss.mem 0 = 5 ∧ msg = ⟨.file 0 true, [], .read 1 3⟩ ∧ Isolated ss m ss' m' 0 msg := by
  have hcomputed : (execAll (fun ss msg => msg.fits ss) twoFiles (.init .arm) fun _ => none).map (fun out =>
      ((out.2 0).isSome, (out.2 1).map File.size, fileSize out.1.mem 0,
        (List.range 5).map (fileByte out.1.mem 0), decide (pageOf out.1.mem (inodeOf out.1.mem 0) 0 = 0))) =
      some (true, some 4096, 5, [1, 2, 3, 4, 5], false) := by
    decide +kernel
  have hcomputed' : (execAll (fun ss msg => msg.fits ss) [createMsg, writeMsg] (.init .arm) fun _ => none).map
      (fun out => ((out.2 0).isSome, (out.2 1).isSome, fileSize out.1.mem 0,
        (List.range 5).map (fileByte out.1.mem 0), decide (pageOf out.1.mem (inodeOf out.1.mem 0) 0 = 0))) =
      some (true, false, 5, [1, 2, 3, 4, 5], false) := by
    decide +kernel
  obtain ⟨⟨ss, m⟩, hexec, hout⟩ := Option.map_eq_some_iff.1 hcomputed
  obtain ⟨⟨ss', m'⟩, hexec', hout'⟩ := Option.map_eq_some_iff.1 hcomputed'
  simp only [Prod.mk.injEq, decide_eq_false_iff_not] at hout hout'
  obtain ⟨hfile, hother, hsize, hbytes, hpage⟩ := hout
  obtain ⟨hfile', hother', hsize', hbytes', hpage'⟩ := hout'
  have hrun : Run Safe ss m := Run.execAll (.init .arm) (fun _ _ => Msg.safe_of_fits) hexec
  have hrun' : Run Safe ss' m' := Run.execAll (.init .arm) (fun _ _ => Msg.safe_of_fits) hexec'
  have hsame : SameFile ss ss' 0 := by
    refine ⟨hsize.trans hsize'.symm, fun i hi => ?_⟩
    rw [hsize] at hi
    exact List.map_inj_left.1 (hbytes.trans hbytes'.symm) i (List.mem_range.2 hi)
  refine ⟨ss, m, ss', m', _, hother, by simpa using hother', hsize, rfl, ?_⟩
  refine reply_isolated hrun hrun' (Option.isSome_iff_ne_none.1 hfile) (Option.isSome_iff_ne_none.1 hfile') hsame
    (Msg.valid_of_check ?_) ⟨⟨true, rfl⟩, 1, 3, .inl rfl⟩
    ⟨.of_firstPage (hsize ▸ by decide) hpage, .of_firstPage (hsize' ▸ by decide) hpage', fun hlt => absurd hlt ?_⟩
  · simp [Msg.check, hfile]
  · rw [hsize]
    decide

/-- The bytes of the reply. -/
def replyData (msg : Msg) (ss : Server) : List UInt8 :=
  match serve msg ss with
  | .ok reply _ => reply.data
  | .error _ _ => []

/-- A client sends a byte in a request that is not known. Then another client reads beyond the end of an empty file. The
reply is an error, with the byte of the first client. -/
theorem reply_isolated_fails : ¬∀ ss m ss' m' n msg, Run (fun _ _ => True) ss m → Run (fun _ _ => True) ss' m' →
    m n ≠ none → m' n ≠ none → SameFile ss ss' n → msg.Valid m → msg.Accesses n → Isolated ss m ss' m' n msg := by
  intro h
  have hcomputed : (execAll (fun _ _ => true) [createMsg] (.init .arm) fun _ => none).map (fun out =>
      ((out.2 0).isSome, fileSize out.1.mem 0, replyData ⟨.file 0 true, [], .read 1 1⟩ out.1)) =
      some (true, 0, [0]) := by
    decide +kernel
  have hcomputed' : (execAll (fun _ _ => true) [createMsg, ⟨.server, [1], .getSize⟩] (.init .arm)
      fun _ => none).map (fun out => ((out.2 0).isSome, fileSize out.1.mem 0, replyData ⟨.file 0 true, [], .read 1 1⟩ out.1)) =
      some (true, 0, [1]) := by
    decide +kernel
  obtain ⟨⟨ss, m⟩, hexec, hout⟩ := Option.map_eq_some_iff.1 hcomputed
  obtain ⟨⟨ss', m'⟩, hexec', hout'⟩ := Option.map_eq_some_iff.1 hcomputed'
  simp only [Prod.mk.injEq] at hout hout'
  obtain ⟨hfile, hsize, hdata⟩ := hout
  obtain ⟨hfile', hsize', hdata'⟩ := hout'
  have hsame : SameFile ss ss' 0 := ⟨hsize.trans hsize'.symm, fun i hi => by
    rw [hsize] at hi
    exact absurd hi (Nat.not_lt_zero i)⟩
  have hvalid : Msg.Valid m ⟨.file 0 true, [], .read 1 1⟩ := Msg.valid_of_check (by simp [Msg.check, hfile])
  obtain ⟨reply, ss₁, ss₁', hserve, hserve', -⟩ := h ss m ss' m' 0 ⟨.file 0 true, [], .read 1 1⟩
    (Run.execAll (.init .arm) (fun _ _ _ => trivial) hexec) (Run.execAll (.init .arm) (fun _ _ _ => trivial) hexec')
    (Option.isSome_iff_ne_none.1 hfile) (Option.isSome_iff_ne_none.1 hfile') hsame hvalid ⟨⟨true, rfl⟩, 1, 1, .inl rfl⟩
  rw [replyData, hserve] at hdata
  rw [replyData, hserve'] at hdata'
  exact absurd (hdata.symm.trans hdata') (by decide)

end CapROS.NFile
