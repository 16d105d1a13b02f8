import CapROS.Pipe.Clients

/-!
# The byte stream of the pipe

The bytes that the server sends are those that it has accepted, in order, in all runs. The clients are not
always told how many: `pipe_read` counts what it asked for and not what it got, and a writer that fills the
buffer while the reader sleeps is told that all it has left was accepted.

* `stream_proper`: the main result.
* `stream_fails`: the claim does not hold of all actions.
-/

namespace CapROS.Pipe

open Cells

variable {ps : PipeState} {s s' : System} {w : Writer} {r : Reader} {data got : List UInt8} {code : ResultCode}
  {ended ended' : Prop} {n w1 : ℕ}

/-! ## The buffer -/

/-- The part of the buffer that is in use. -/
structure Bounds (ps : PipeState) : Prop where
  le : ps.start ≤ ps.stop
  room : ps.stop ≤ PIPE_BUF_SZ
  rewound : ps.start = ps.stop → ps.start = 0

/-- The writer has closed, and the buffer is empty. -/
def Ended (ps : PipeState) : Prop := ps.wClosed = true ∧ ps.start = ps.stop

/-- The state with more bytes in the buffer. -/
def PipeState.accept (ps : PipeState) (got : List UInt8) : PipeState :=
  { ps with buf := write ps.buf ps.stop got, stop := ps.stop + got.length }

theorem Bounds.rewind (hle : ps.start ≤ ps.stop) (hroom : ps.stop ≤ PIPE_BUF_SZ) : Bounds ps.rewind := by
  by_cases h : ps.start = ps.stop
  · refine ⟨?_, ?_, fun _ => ?_⟩ <;> simp [PipeState.rewind, h]
  · refine ⟨?_, ?_, fun h' => ?_⟩
    · simp [PipeState.rewind, h, hle]
    · simp [PipeState.rewind, h, hroom]
    · simp [PipeState.rewind, h] at h'

theorem queue_rewind : ps.rewind.queue = ps.queue := by
  by_cases h : ps.start = ps.stop
  · simp [PipeState.queue, PipeState.rewind, h]
  · simp [PipeState.queue, PipeState.rewind, h]

theorem available_le (ps : PipeState) (n : ℕ) : ps.available n ≤ ps.stop - ps.start :=
  (Nat.min_le_left _ _).trans (Nat.min_le_left _ _)

theorem available_eq (hn : n ≤ ps.stop - ps.start) (hsize : n ≤ PIPE_BUF_SZ) : ps.available n = n := by
  rw [PipeState.available, Nat.min_eq_right hn, Nat.min_eq_left hsize]

theorem Bounds.congr {ps' : PipeState} (h : Bounds ps) (hstart : ps'.start = ps.start)
    (hstop : ps'.stop = ps.stop) : Bounds ps' :=
  ⟨by rw [hstart, hstop]; exact h.le, hstop ▸ h.room, by rw [hstart, hstop]; exact h.rewound⟩

theorem length_transmitData (hn : n ≤ ps.stop - ps.start) (hsize : n ≤ PIPE_BUF_SZ) :
    (ps.transmitData n).length = n := by
  rw [PipeState.transmitData, length_read, available_eq hn hsize]

theorem Bounds.transmit (h : Bounds ps) (n : ℕ) : Bounds (ps.transmit n) := by
  have hle := available_le ps n
  have hbounds := h.le
  exact Bounds.rewind (by dsimp only; omega) h.room

theorem queue_transmit (ps : PipeState) (n : ℕ) :
    ps.queue = ps.transmitData n ++ (ps.transmit n).queue := by
  have hle := available_le ps n
  rw [PipeState.transmit, queue_rewind]
  simp only [PipeState.queue, PipeState.transmitData]
  rw [← read_add, show ps.stop - (ps.start + ps.available n) = ps.stop - ps.start - ps.available n by omega,
    Nat.add_sub_cancel' hle]

theorem ended_transmit (h : ps.transmitCode n = .eof) : Ended (ps.transmit n) := by
  unfold PipeState.transmitCode at h
  split_ifs at h with hend
  refine ⟨hend.1, ?_⟩
  simp [PipeState.transmit, PipeState.rewind, hend.2]

theorem Ended.transmit (h : Ended ps) (n : ℕ) : Ended (ps.transmit n) := by
  have hle := available_le ps n
  have hzero : ps.available n = 0 := by
    have := h.2
    omega
  refine ⟨h.1, ?_⟩
  simp [PipeState.transmit, PipeState.rewind, hzero, h.2]

theorem Bounds.accept (h : Bounds ps) (hroom : ps.stop + got.length ≤ PIPE_BUF_SZ) :
    Bounds (ps.accept got) ∧ (ps.accept got).queue = ps.queue ++ got := by
  have hle := h.le
  refine ⟨⟨?_, hroom, fun hempty => h.rewound ?_⟩, ?_⟩
  · simp only [PipeState.accept]
    omega
  · simp only [PipeState.accept] at hempty
    omega
  · exact read_write_append hle (by simp only [PipeState.accept]; omega)

/-! ## The clients -/

/-- Of the current call, the server has accepted `n` bytes that the writer does not know of. -/
structure Sent (w : Writer) (n : ℕ) : Prop where
  length : w.outbuf + w.resid = w.buf.length
  le : n ≤ w.resid
  accepted : w.accepted = w.buf.take (w.outbuf + n)

theorem Sent.move (h : Sent w n) (place : Place) : Sent { w with place := place } n :=
  ⟨h.length, h.le, h.accepted⟩

/-- The variables of the writer, when it will be told `wrReqLen` if it sleeps. -/
def WriterInv (w : Writer) (wrReqLen : ℕ) : Prop :=
  match w.place with
  | .idle => w.accepted = []
  | .closing => False
  | .calling => Sent w 0
  | .waiting => Sent w wrReqLen
  | .replied _ w1 => Sent w w1

/-- The first `n` bytes of the reader's buffer are those delivered. -/
structure Got (r : Reader) (n : ℕ) : Prop where
  length : r.inbuf + r.resid = r.len
  delivered : read r.buf 0 n = r.delivered

theorem Got.move (h : Got r n) (place : Place) : Got { r with place := place } n :=
  ⟨h.length, h.delivered⟩

/-- The variables of the reader. -/
def ReaderInv (r : Reader) (ended : Prop) : Prop :=
  match r.place with
  | .idle => r.delivered = []
  | .closing => False
  | .calling | .waiting => Got r r.inbuf
  | .replied code _ => Got r (r.inbuf + rqLen r.resid) ∧ (code = .eof → ended)

theorem rqLen_le (resid : ℕ) : rqLen resid ≤ resid := Nat.min_le_left _ _

theorem rqLen_le_size (resid : ℕ) : rqLen resid ≤ PIPE_BUF_SZ := Nat.min_le_right _ _

theorem Sent.length_string (h : Sent w n) : w.string.length = rqLen w.resid := by
  have hlength := h.length
  have hle := rqLen_le w.resid
  rw [Writer.string, List.length_take, List.length_drop]
  omega

theorem Sent.append (h : Sent w 0) (hgot : got <+: w.string) {place : Place} :
    Sent { w with place := place, accepted := w.accepted ++ got } got.length := by
  have hle : got.length ≤ rqLen w.resid := h.length_string ▸ hgot.length_le
  refine ⟨h.length, hle.trans (rqLen_le _), ?_⟩
  have htake : got = (w.buf.drop w.outbuf).take got.length := by
    calc got = w.string.take got.length := List.prefix_iff_eq_take.1 hgot
      _ = (w.buf.drop w.outbuf).take (min got.length (rqLen w.resid)) := List.take_take
      _ = (w.buf.drop w.outbuf).take got.length := by rw [Nat.min_eq_left hle]
  rw [h.accepted, Nat.add_zero, List.take_add, ← htake]

theorem ReaderInv.mono (h : ReaderInv r ended) (hended : ended → ended') : ReaderInv r ended' := by
  unfold ReaderInv at h ⊢
  split at h
  · exact h
  · exact h
  · exact h
  · exact h
  · exact h.imp_right fun hcode heof => hended (hcode heof)

theorem Got.receive (h : Got r r.inbuf) (hlength : data.length = rqLen r.resid)
    (hended : code = .eof → ended) : ReaderInv (r.receive code w1 data) ended := by
  refine ⟨⟨h.length, ?_⟩, hended⟩
  have htake : data.take (rqLen r.resid) = data := List.take_of_length_le hlength.le
  simp only [Reader.receive, htake]
  rw [read_write_append (Nat.zero_le _) (by omega), Nat.sub_zero, h.delivered]

/-! ## The system -/

/-- Who sleeps, and why. -/
def Sleeping (ps : PipeState) (writer : Place) (r : Reader) : Prop :=
  match ps.sleep with
  | .none => writer ≠ .waiting ∧ r.place ≠ .waiting
  | .writer => ps.sleepSlot = some .writer ∧ writer = .waiting ∧ r.place ≠ .waiting
  | .reader => ps.sleepSlot = some .reader ∧ r.place = .waiting ∧ writer ≠ .waiting ∧ ps.start = 0 ∧
      ps.wClosed = false ∧ ps.rdReqLen = rqLen r.resid

theorem Sleeping.writer {place place' : Place} (h : Sleeping ps place r) (hplace : place ≠ .waiting)
    (hplace' : place' ≠ .waiting) : Sleeping ps place' r := by
  unfold Sleeping at h ⊢
  cases hsleep : ps.sleep with
  | none =>
    rw [hsleep] at h
    exact ⟨hplace', h.2⟩
  | writer =>
    rw [hsleep] at h
    exact absurd h.2.1 hplace
  | reader =>
    rw [hsleep] at h
    exact ⟨h.1, h.2.1, hplace', h.2.2.2⟩

theorem Sleeping.reader {place : Place} {r' : Reader} (h : Sleeping ps place r) (hplace : r.place ≠ .waiting)
    (hplace' : r'.place ≠ .waiting) : Sleeping ps place r' := by
  unfold Sleeping at h ⊢
  cases hsleep : ps.sleep with
  | none =>
    rw [hsleep] at h
    exact ⟨h.1, hplace'⟩
  | writer =>
    rw [hsleep] at h
    exact ⟨h.1, h.2.1, hplace'⟩
  | reader =>
    rw [hsleep] at h
    exact absurd h.2.1 hplace

structure Inv (s : System) : Prop where
  bounds : Bounds s.ps
  sleeping : Sleeping s.ps s.writer.place s.reader
  writer : WriterInv s.writer s.ps.wrReqLen
  reader : ReaderInv s.reader (Ended s.ps)
  wClosed : s.ps.wClosed = s.closed
  closed : s.closed = true → s.writer.place = .idle ∧ s.ps.sleep = .none
  fifo : s.accepted = s.delivered ++ s.ps.queue
  writes : s.accepted = s.writes.flatMap (·.accepted) ++ s.writer.accepted
  reads : s.delivered = s.reads.flatMap (·.delivered) ++ s.reader.delivered
  written : ∀ r ∈ s.writes, r.outLen = r.accepted.length ∧ r.accepted <+: r.buf
  got : ∀ r ∈ s.reads, r.outLen = r.delivered.length ∧ Cells.read r.buf 0 r.outLen = r.delivered
  drained : ∀ r ∈ s.reads, r.result = .eof → Ended s.ps

theorem Inv.init (buf : ℕ → UInt8) : Inv (System.init buf) where
  bounds := ⟨le_rfl, Nat.zero_le _, fun _ => rfl⟩
  sleeping := ⟨by simp [System.init], by simp [System.init]⟩
  writer := rfl
  reader := rfl
  wClosed := rfl
  closed h := nomatch h
  fifo := rfl
  writes := rfl
  reads := rfl
  written r hr := nomatch hr
  got r hr := nomatch hr
  drained r hr := nomatch hr

theorem Inv.serve (h : Inv s) {ps : PipeState} {destroyed : Bool} {w : Writer} {r : Reader} {closed : Bool}
    {accepted delivered : List UInt8} (hbounds : Bounds ps) (hsleeping : Sleeping ps w.place r)
    (hwriter : WriterInv w ps.wrReqLen) (hreader : ReaderInv r (Ended ps)) (hwClosed : ps.wClosed = closed)
    (hclosed : closed = true → w.place = .idle ∧ ps.sleep = .none) (hfifo : accepted = delivered ++ ps.queue)
    (haccepted : ∃ l, accepted = s.accepted ++ l ∧ w.accepted = s.writer.accepted ++ l)
    (hdelivered : ∃ l, delivered = s.delivered ++ l ∧ r.delivered = s.reader.delivered ++ l)
    (hended : Ended s.ps → Ended ps) :
    Inv { s with ps := ps, destroyed := destroyed, writer := w, reader := r, closed := closed,
                 accepted := accepted, delivered := delivered } where
  bounds := hbounds
  sleeping := hsleeping
  writer := hwriter
  reader := hreader
  wClosed := hwClosed
  closed := hclosed
  fifo := hfifo
  writes := by
    obtain ⟨l, rfl, hw⟩ := haccepted
    rw [hw, h.writes, List.append_assoc]
  reads := by
    obtain ⟨l, rfl, hr⟩ := hdelivered
    rw [hr, h.reads, List.append_assoc]
  written := h.written
  got := h.got
  drained r hr heof := hended (h.drained r hr heof)

namespace System

variable {destroyed closed : Bool} {accepted delivered : List UInt8} {writes : List WriteReport}
  {reads : List ReadReport}

theorem receive_writer (h : w.place ≠ .closing) :
    receive ⟨ps, destroyed, w, r, closed, accepted, delivered, writes, reads⟩ ⟨some .writer, code, w1, data⟩ =
      ⟨ps, destroyed, { w with place := .replied code w1 }, r, closed, accepted, delivered, writes, reads⟩ :=
  if_neg h

theorem receive_reader (h : r.place ≠ .closing) (hlength : data.length = rqLen r.resid) :
    receive ⟨ps, destroyed, w, r, closed, accepted, delivered, writes, reads⟩ ⟨some .reader, code, w1, data⟩ =
      ⟨ps, destroyed, w, r.receive code w1 data, closed, accepted, delivered ++ data, writes, reads⟩ := by
  have htake : data.take (rqLen r.resid) = data := List.take_of_length_le hlength.le
  simp only [receive, if_neg h, htake]

theorem receive_closing_writer (h : w.place = .closing) :
    receive ⟨ps, destroyed, w, r, closed, accepted, delivered, writes, reads⟩ ⟨some .writer, code, w1, data⟩ =
      ⟨ps, destroyed, { w with place := .idle }, r, closed, accepted, delivered, writes, reads⟩ :=
  if_pos h

theorem receive_closing_reader (h : r.place = .closing) :
    receive ⟨ps, destroyed, w, r, closed, accepted, delivered, writes, reads⟩ ⟨some .reader, code, w1, data⟩ =
      ⟨ps, destroyed, w, { r with place := .idle }, closed, accepted, delivered, writes, reads⟩ :=
  if_pos h

end System

theorem Reader.delivered_receive (hlength : data.length = rqLen r.resid) :
    (r.receive code w1 data).delivered = r.delivered ++ data := by
  rw [Reader.receive, List.take_of_length_le hlength.le]

/-! ## The calls -/

theorem Inv.got_reader (h : Inv s) (hplace : s.reader.place = .calling ∨ s.reader.place = .waiting) :
    Got s.reader s.reader.inbuf := by
  have hreader := h.reader
  unfold ReaderInv at hreader
  obtain hplace | hplace := hplace
  · rwa [hplace] at hreader
  · rwa [hplace] at hreader

theorem serve_write (ps : PipeState) (w2 : ℕ) (string : List UInt8)
    (hgot : got = string.take (PIPE_BUF_SZ - ps.stop)) :
    serve ps .writer .writer .Pipe_Write w2 string =
      if (ps.accept got).stop = PIPE_BUF_SZ then
        if ps.sleep = .reader then (ps.accept got).return_to_reader .writer w2
        else ⟨{ ps.accept got with sleep := .writer, sleepSlot := some .writer, wrReqLen := got.length }, [],
          false⟩
      else if ps.sleep = .reader ∧ (ps.wClosed = true ∨ ps.rdReqLen ≤ (ps.accept got).stop - ps.start) then
        ⟨(ps.accept got).awake.transmit ps.rdReqLen,
          [(ps.accept got).wake_reader, ⟨some .writer, .ok, got.length, []⟩], false⟩
      else ⟨ps.accept got, [⟨some .writer, .ok, got.length, []⟩], false⟩ := by
  subst hgot
  rfl

theorem Inv.serveWrite (h : Inv s) (hplace : s.writer.place = .calling) (hproper : s.Proper .serveWrite)
    (hgot : got = s.writer.string.take (PIPE_BUF_SZ - s.ps.stop)) :
    Inv ({ s with
      writer := { s.writer with place := .waiting, accepted := s.writer.accepted ++ got }
      accepted := s.accepted ++ got }.call .writer .Pipe_Write s.writer.resid s.writer.string) := by
  have hsent : Sent s.writer 0 := by
    have hwriter := h.writer
    unfold WriterInv at hwriter
    rwa [hplace] at hwriter
  have hlength : got.length = min (rqLen s.writer.resid) (PIPE_BUF_SZ - s.ps.stop) := by
    rw [hgot, List.length_take, hsent.length_string, Nat.min_comm]
  have hprefix : got <+: s.writer.string := hgot ▸ List.take_prefix _ _
  have hroom := h.bounds.room
  obtain ⟨hbounds, hqueue⟩ := @Bounds.accept _ got h.bounds (by omega)
  have hfifo : s.accepted ++ got = s.delivered ++ (s.ps.accept got).queue := by
    rw [hqueue, h.fifo, List.append_assoc]
  have hopen : s.closed ≠ true := fun hclosed => by simpa [hplace] using (h.closed hclosed).1
  have hended : ∀ {ps'}, Ended s.ps → Ended ps' := fun hend => absurd (h.wClosed ▸ hend.1) hopen
  have hsleeping := h.sleeping
  unfold Sleeping at hsleeping
  simp only [System.call, serve_write s.ps s.writer.resid s.writer.string hgot]
  by_cases hsleep : s.ps.sleep = .reader
  · rw [hsleep] at hsleeping
    obtain ⟨hslot, hwaiting, -, hstart, hwClosed, hrequest⟩ := hsleeping
    have hreader := h.got_reader (.inr hwaiting)
    have hnot : s.reader.place ≠ .closing := by simp [hwaiting]
    have hqueue' := queue_transmit (s.ps.accept got) (s.ps.accept got).rdReqLen
    have hrequest : (s.ps.accept got).rdReqLen = rqLen s.reader.resid := hrequest
    have hsize : (s.ps.accept got).rdReqLen ≤ PIPE_BUF_SZ := hrequest ▸ rqLen_le_size _
    have hslot : (s.ps.accept got).sleepSlot = some .reader := hslot
    by_cases hfull : (s.ps.accept got).stop = PIPE_BUF_SZ
    · -- The buffer is full: the reader gets what it has asked for, and the writer sleeps.
      have hall : s.writer.resid = got.length := by
        have hstop : s.ps.stop + got.length = PIPE_BUF_SZ := hfull
        rw [hlength] at hstop ⊢
        exact hproper hsleep hstop
      have hdata := @length_transmitData (s.ps.accept got) (s.ps.accept got).rdReqLen
        (by rw [hfull, show (s.ps.accept got).start = 0 from hstart]; exact hsize) hsize
      rw [if_pos hfull, if_pos hsleep]
      simp only [PipeState.return_to_reader, List.foldl_cons, List.foldl_nil]
      rw [hslot, System.receive_reader hnot (hdata.trans hrequest)]
      refine h.serve ((hbounds.transmit _).congr rfl rfl) ⟨rfl, rfl, by simp [Reader.receive]⟩ ?_
        (hreader.receive (hdata.trans hrequest) fun heof => ended_transmit heof) h.wClosed
        (fun hclosed => absurd hclosed hopen) ?_ ⟨got, rfl, rfl⟩
        ⟨_, rfl, Reader.delivered_receive (hdata.trans hrequest)⟩ hended
      · have hsent' : Sent { s.writer with place := .waiting, accepted := s.writer.accepted ++ got }
            got.length := hsent.append hprefix
        rw [← hall] at hsent'
        exact hsent'
      · rw [hfifo, hqueue', List.append_assoc]
        rfl
    · rw [if_neg hfull]
      by_cases henough : s.ps.rdReqLen ≤ (s.ps.accept got).stop - s.ps.start
      · -- There is enough for the reader.
        have hdata := @length_transmitData (s.ps.accept got) (s.ps.accept got).rdReqLen henough hsize
        rw [if_pos ⟨hsleep, .inr henough⟩]
        simp only [PipeState.wake_reader, List.foldl_cons, List.foldl_nil]
        rw [hslot, System.receive_reader hnot (hdata.trans hrequest), System.receive_writer (by simp)]
        refine h.serve ((hbounds.transmit _).congr rfl rfl) ⟨by simp, by simp [Reader.receive]⟩ (hsent.append hprefix)
          (hreader.receive (hdata.trans hrequest) fun heof => ended_transmit heof) h.wClosed
          (fun hclosed => absurd hclosed hopen) ?_ ⟨got, rfl, rfl⟩
          ⟨_, rfl, Reader.delivered_receive (hdata.trans hrequest)⟩ hended
        rw [hfifo, hqueue', List.append_assoc]
        rfl
      · rw [if_neg (by simp [hwClosed, henough])]
        simp only [List.foldl_cons, List.foldl_nil]
        rw [System.receive_writer (by simp)]
        refine h.serve hbounds ?_ (hsent.append hprefix) (h.reader.mono hended) h.wClosed
          (fun hclosed => absurd hclosed hopen) hfifo ⟨got, rfl, rfl⟩ ⟨[], by simp, by simp⟩ hended
        show Sleeping _ _ _
        unfold Sleeping
        rw [show (s.ps.accept got).sleep = .reader from hsleep]
        exact ⟨hslot, hwaiting, by simp, hstart, hwClosed, hrequest⟩
  · have hnone : s.ps.sleep = .none := by
      cases hs : s.ps.sleep with
      | none => rfl
      | reader => exact absurd hs hsleep
      | writer =>
        rw [hs] at hsleeping
        simp [hplace] at hsleeping
    rw [hnone] at hsleeping
    by_cases hfull : (s.ps.accept got).stop = PIPE_BUF_SZ
    · -- The buffer is full, and the writer sleeps.
      rw [if_pos hfull, if_neg hsleep]
      exact h.serve ⟨hbounds.le, hbounds.room, hbounds.rewound⟩ ⟨rfl, rfl, hsleeping.2⟩ (hsent.append hprefix)
        (h.reader.mono hended) h.wClosed (fun hclosed => absurd hclosed hopen) hfifo ⟨got, rfl, rfl⟩
        ⟨[], by simp, by simp⟩ hended
    · rw [if_neg hfull, if_neg fun h' => hsleep h'.1]
      simp only [List.foldl_cons, List.foldl_nil]
      rw [System.receive_writer (by simp)]
      refine h.serve hbounds ?_ (hsent.append hprefix) (h.reader.mono hended) h.wClosed
        (fun hclosed => absurd hclosed hopen) hfifo ⟨got, rfl, rfl⟩ ⟨[], by simp, by simp⟩ hended
      unfold Sleeping
      rw [show (s.ps.accept got).sleep = .none from hnone]
      exact ⟨by simp, hsleeping.2⟩

theorem serve_nil (ps : PipeState) (c : Client) (opcode : Code) (w2 : ℕ) :
    serve ps c c opcode w2 [] = ProcessRequest ps c c opcode w2 0 := by
  simp [serve]

theorem Inv.sent_writer (h : Inv s) (hplace : s.writer.place = .waiting) : Sent s.writer s.ps.wrReqLen := by
  have hwriter := h.writer
  unfold WriterInv at hwriter
  rwa [hplace] at hwriter

theorem Inv.serveRead (h : Inv s) (hplace : s.reader.place = .calling) (hproper : s.Proper .serveRead) :
    Inv ({ s with reader := { s.reader with place := .waiting } }.call .reader .Pipe_Read
      (rqLen s.reader.resid) []) := by
  have hreader := h.got_reader (.inl hplace)
  have hsleeping := h.sleeping
  unfold Sleeping at hsleeping
  have hfifo := h.fifo
  have hsize := rqLen_le_size s.reader.resid
  simp only [System.call, serve_nil, ProcessRequest, ne_eq, not_true, if_false, PipeState.Pipe_Read]
  by_cases hempty : s.ps.start = s.ps.stop
  · by_cases hwClosed : s.ps.wClosed = true
    · -- The end of the file. The reader has asked for nothing.
      have hnone : s.ps.sleep = .none := (h.closed (h.wClosed ▸ hwClosed)).2
      have hzero : rqLen s.reader.resid = 0 := by
        have := hproper (.inr hwClosed)
        omega
      have hdata : ([] : List UInt8).length = rqLen ({ s.reader with place := .waiting } : Reader).resid :=
        hzero.symm
      rw [if_neg (not_not.2 hempty), if_pos hwClosed, if_neg (by simp [hnone])]
      simp only [List.foldl_cons, List.foldl_nil]
      rw [System.receive_reader (by simp) hdata]
      rw [hnone] at hsleeping
      refine h.serve (Bounds.rewind h.bounds.le h.bounds.room) ?_ h.writer
        ((hreader.move .waiting).receive hdata fun _ => ⟨hwClosed, ?_⟩) h.wClosed h.closed ?_
        ⟨[], by simp, by simp⟩ ⟨_, rfl, Reader.delivered_receive hdata⟩ fun _ => ⟨hwClosed, ?_⟩
      · unfold Sleeping
        rw [show s.ps.rewind.sleep = .none from hnone]
        exact ⟨hsleeping.1, by simp [Reader.receive]⟩
      · simp [PipeState.rewind, hempty]
      · rw [List.append_nil, queue_rewind, hfifo]
      · simp [PipeState.rewind, hempty]
    · have hended : ∀ {ps'}, Ended s.ps → Ended ps' := fun hend => absurd hend.1 hwClosed
      have hfalse : s.ps.wClosed = false := Bool.eq_false_iff.2 hwClosed
      have hstart : s.ps.rewind.start = 0 := by simp [PipeState.rewind, hempty]
      have hbounds := Bounds.rewind h.bounds.le h.bounds.room
      have hqueue : s.accepted = s.delivered ++ s.ps.rewind.queue := by rw [queue_rewind, hfifo]
      have hopen : s.closed ≠ true := fun hclosed => hwClosed (h.wClosed.trans hclosed)
      rw [if_neg (not_not.2 hempty), if_neg hwClosed]
      by_cases hwriter : s.ps.sleep = .writer
      · -- The writer has its reply, and the reader sleeps instead.
        rw [hwriter] at hsleeping
        obtain ⟨hslot, hwaiting, -⟩ := hsleeping
        rw [if_pos ⟨hwriter, h.bounds.rewound hempty⟩]
        simp only [PipeState.return_to_writer, List.foldl_cons, List.foldl_nil]
        rw [show s.ps.rewind.sleepSlot = some .writer from hslot, System.receive_writer (by simp [hwaiting])]
        exact h.serve (hbounds.congr rfl rfl) ⟨rfl, rfl, by simp, hstart, hfalse, rfl⟩
          ((h.sent_writer hwaiting).move _) (hreader.move _) h.wClosed (fun hclosed => absurd hclosed hopen)
          hqueue ⟨[], by simp, by simp⟩ ⟨[], by simp, by simp⟩ hended
      · rw [if_neg fun h' => hwriter h'.1]
        have hnot : s.writer.place ≠ .waiting := by
          cases hsleep : s.ps.sleep with
          | none =>
            rw [hsleep] at hsleeping
            exact hsleeping.1
          | writer => exact absurd hsleep hwriter
          | reader =>
            rw [hsleep] at hsleeping
            simp [hplace] at hsleeping
        refine h.serve (hbounds.congr rfl rfl) ⟨rfl, rfl, hnot, hstart, hfalse, rfl⟩ h.writer (hreader.move _)
          h.wClosed (fun hclosed => absurd hclosed hopen) hqueue ⟨[], by simp, by simp⟩ ⟨[], by simp, by simp⟩
          hended
  · -- There are as many bytes as the reader asks for.
    have hdata : (s.ps.transmitData (rqLen s.reader.resid)).length =
        rqLen ({ s.reader with place := .waiting } : Reader).resid :=
      length_transmitData (hproper (.inl hempty)) hsize
    have hqueue : s.accepted = s.delivered ++ s.ps.transmitData (rqLen s.reader.resid) ++
        (s.ps.transmit (rqLen s.reader.resid)).queue := by
      rw [hfifo, queue_transmit s.ps (rqLen s.reader.resid), List.append_assoc]
    rw [if_pos hempty]
    by_cases hwriter : s.ps.sleep = .writer ∧ s.ps.start = 0
    · rw [hwriter.1] at hsleeping
      obtain ⟨hslot, hwaiting, -⟩ := hsleeping
      have hopen : s.closed ≠ true := fun hclosed => by simpa [hwaiting] using (h.closed hclosed).1
      rw [if_pos hwriter]
      simp only [PipeState.wake_writer, List.foldl_cons, List.foldl_nil]
      rw [hslot, System.receive_writer (by simp [hwaiting]), System.receive_reader (by simp) hdata]
      exact h.serve ((h.bounds.transmit _).congr rfl rfl) ⟨by simp, by simp [Reader.receive]⟩
        ((h.sent_writer hwaiting).move _)
        ((hreader.move .waiting).receive hdata fun heof => ended_transmit heof) h.wClosed
        (fun hclosed => absurd hclosed hopen) hqueue ⟨[], by simp, by simp⟩
        ⟨_, rfl, Reader.delivered_receive hdata⟩ fun hend => hend.transmit _
    · rw [if_neg hwriter]
      simp only [List.foldl_cons, List.foldl_nil]
      rw [System.receive_reader (by simp) hdata]
      refine h.serve (h.bounds.transmit _) ?_ h.writer
        ((hreader.move .waiting).receive hdata fun heof => ended_transmit heof) h.wClosed h.closed hqueue
        ⟨[], by simp, by simp⟩ ⟨_, rfl, Reader.delivered_receive hdata⟩ fun hend => hend.transmit _
      unfold Sleeping
      cases hsleep : s.ps.sleep with
      | none =>
        rw [hsleep] at hsleeping
        rw [show (s.ps.transmit (rqLen s.reader.resid)).sleep = .none from hsleep]
        exact ⟨hsleeping.1, by simp [Reader.receive]⟩
      | writer =>
        rw [hsleep] at hsleeping
        rw [show (s.ps.transmit (rqLen s.reader.resid)).sleep = .writer from hsleep]
        exact ⟨hsleeping.1, hsleeping.2.1, by simp [Reader.receive]⟩
      | reader =>
        rw [hsleep] at hsleeping
        simp [hplace] at hsleeping

theorem Inv.close (h : Inv s) (hplace : s.writer.place = .idle) (hproper : s.Proper .close) :
    Inv ({ s with writer := { s.writer with place := .closing }, closed := true }.call .writer .Pipe_Close
      0 []) := by
  have hwriter : s.writer.accepted = [] := by
    have hwriter := h.writer
    unfold WriterInv at hwriter
    rwa [hplace] at hwriter
  have hsleeping := h.sleeping
  unfold Sleeping at hsleeping
  simp only [System.call, serve_nil, ProcessRequest, PipeState.Pipe_Close]
  by_cases hsleep : s.ps.sleep = .reader
  · rw [hsleep] at hsleeping
    obtain ⟨hslot, hwaiting, -, -, -, hrequest⟩ := hsleeping
    have hreader := h.got_reader (.inr hwaiting)
    have hbounds : Bounds s.ps.shut := h.bounds.congr rfl rfl
    have hrequest : s.ps.shut.rdReqLen = rqLen s.reader.resid := hrequest
    have hdata := @length_transmitData s.ps.shut s.ps.shut.rdReqLen (hproper hsleep)
      (hrequest ▸ rqLen_le_size _)
    rw [if_pos hsleep]
    simp only [PipeState.wake_reader, List.foldl_cons, List.foldl_nil]
    rw [show s.ps.shut.sleepSlot = some .reader from hslot,
      System.receive_reader (by simp [hwaiting]) (hdata.trans hrequest), System.receive_closing_writer rfl]
    refine h.serve ((hbounds.transmit _).congr rfl rfl) ⟨by simp, by simp [Reader.receive]⟩ hwriter
      (hreader.receive (hdata.trans hrequest) fun heof => ended_transmit heof) rfl (fun _ => ⟨rfl, rfl⟩) ?_
      ⟨[], by simp, by simp⟩ ⟨_, rfl, Reader.delivered_receive (hdata.trans hrequest)⟩
      fun hend => ((show Ended s.ps.shut from ⟨rfl, hend.2⟩).transmit _)
    have hqueue := queue_transmit s.ps.shut s.ps.rdReqLen
    rw [List.append_assoc, h.fifo]
    exact congrArg _ hqueue
  · have hnone : s.ps.sleep = .none := by
      cases hs : s.ps.sleep with
      | none => rfl
      | reader => exact absurd hs hsleep
      | writer =>
        rw [hs] at hsleeping
        simp [hplace] at hsleeping
    rw [hnone] at hsleeping
    rw [if_neg hsleep]
    simp only [List.foldl_cons, List.foldl_nil]
    rw [System.receive_closing_writer rfl]
    refine h.serve (h.bounds.congr rfl rfl) ?_ hwriter (h.reader.mono fun hend => ⟨rfl, hend.2⟩) rfl
      (fun _ => ⟨rfl, hnone⟩) h.fifo ⟨[], by simp, by simp⟩ ⟨[], by simp, by simp⟩ fun hend => ⟨rfl, hend.2⟩
    unfold Sleeping
    rw [show s.ps.shut.sleep = .none from hnone]
    exact ⟨by simp, hsleeping.2⟩

theorem Inv.readerClose (h : Inv s) (hplace : s.reader.place = .idle) :
    Inv ({ s with reader := { s.reader with place := .closing } }.call .reader .Pipe_Close 0 []) := by
  have hreader : s.reader.delivered = [] := by
    have hreader := h.reader
    unfold ReaderInv at hreader
    rwa [hplace] at hreader
  have hsleeping := h.sleeping
  simp only [System.call, serve_nil, ProcessRequest, PipeState.Pipe_Close]
  by_cases hsleep : s.ps.sleep = .writer
  · unfold Sleeping at hsleeping
    rw [hsleep] at hsleeping
    obtain ⟨hslot, hwaiting, -⟩ := hsleeping
    have hopen : s.closed ≠ true := fun hclosed => by simpa [hwaiting] using (h.closed hclosed).1
    rw [if_pos hsleep]
    simp only [PipeState.wake_writer, List.foldl_cons, List.foldl_nil]
    rw [hslot, System.receive_writer (by simp [hwaiting]), System.receive_closing_reader rfl]
    exact h.serve (h.bounds.congr rfl rfl) ⟨by simp, by simp⟩ ((h.sent_writer hwaiting).move _) hreader h.wClosed
      (fun hclosed => absurd hclosed hopen) h.fifo ⟨[], by simp, by simp⟩ ⟨[], by simp, by simp⟩ id
  · rw [if_neg hsleep]
    simp only [List.foldl_cons, List.foldl_nil]
    rw [System.receive_closing_reader rfl]
    exact h.serve h.bounds (hsleeping.reader (by simp [hplace]) (by simp)) h.writer hreader h.wClosed h.closed
      h.fifo ⟨[], by simp, by simp⟩ ⟨[], by simp, by simp⟩ id

theorem Inv.request (h : Inv s) {c : Client} {opcode : Code} {w2 : ℕ} {string : List UInt8}
    (hrun : s.exec (.request c opcode w2 string) = some s') : Inv s' := by
  obtain ⟨-, rfl⟩ := System.exec_request hrun
  have hle := h.bounds.le
  have hqueue : read (Cells.write s.ps.buf s.ps.stop (string.take (PIPE_BUF_SZ - s.ps.stop))) s.ps.start
      (s.ps.stop - s.ps.start) = s.ps.queue := read_write_below (by omega)
  exact h.serve (h.bounds.congr rfl rfl) h.sleeping h.writer h.reader h.wClosed h.closed
    (h.fifo.trans (congrArg (s.delivered ++ ·) hqueue.symm)) ⟨[], by simp, by simp⟩ ⟨[], by simp, by simp⟩ id

/-! ## Runs -/

theorem Inv.writeReply (h : Inv s) (hplace : s.writer.place = .replied code w1)
    (hrun : s.exec .writeReply = some s') : Inv s' := by
  have hsent : Sent s.writer w1 := by
    have hwriter := h.writer
    unfold WriterInv at hwriter
    rwa [hplace] at hwriter
  have hlength := hsent.length
  have hopen : s.closed ≠ true := fun hclosed => by simpa [hplace] using (h.closed hclosed).1
  simp only [System.exec, hplace] at hrun
  rw [sub32_of_le hsent.le] at hrun
  by_cases hgoes : s.writer.resid - w1 ≠ 0 ∧ code = .ok
  · rw [if_pos hgoes] at hrun
    obtain rfl := Option.some.inj hrun
    have hle := hsent.le
    have hnext : Sent { s.writer with
        place := .calling, resid := s.writer.resid - w1, outbuf := s.writer.outbuf + w1 } 0 :=
      ⟨by dsimp only; omega, Nat.zero_le _, hsent.accepted⟩
    exact ⟨h.bounds, h.sleeping.writer (by simp [hplace]) (by simp), hnext, h.reader, h.wClosed,
      fun hclosed => absurd hclosed hopen, h.fifo, h.writes, h.reads, h.written, h.got, h.drained⟩
  · rw [if_neg hgoes, sub32_of_le (by omega)] at hrun
    obtain rfl := Option.some.inj hrun
    refine ⟨h.bounds, h.sleeping.writer (by simp [hplace]) (by simp), rfl, h.reader, h.wClosed,
      fun hclosed => absurd hclosed hopen, h.fifo, ?_, h.reads, fun r hr => ?_, h.got, h.drained⟩
    · rw [h.writes]
      simp
    · obtain hr | hr := List.mem_append.1 hr
      · exact h.written r hr
      · obtain rfl := List.mem_singleton.1 hr
        refine ⟨?_, hsent.accepted ▸ List.take_prefix _ _⟩
        dsimp only
        rw [hsent.accepted, List.length_take]
        omega

theorem Inv.readReply (h : Inv s) (hplace : s.reader.place = .replied code w1)
    (hrun : s.exec .readReply = some s') : Inv s' := by
  obtain ⟨hgot, heof⟩ : Got s.reader (s.reader.inbuf + rqLen s.reader.resid) ∧ (code = .eof → Ended s.ps) := by
    have hreader := h.reader
    unfold ReaderInv at hreader
    rwa [hplace] at hreader
  have hlength := hgot.length
  have hle := rqLen_le s.reader.resid
  simp only [System.exec, hplace] at hrun
  rw [sub32_of_le hle] at hrun
  by_cases hgoes : s.reader.resid - rqLen s.reader.resid ≠ 0 ∧ code = .ok
  · rw [if_pos hgoes] at hrun
    obtain rfl := Option.some.inj hrun
    have hnext : ReaderInv { s.reader with
        place := .calling, resid := s.reader.resid - rqLen s.reader.resid
        inbuf := s.reader.inbuf + rqLen s.reader.resid } (Ended s.ps) :=
      ⟨by dsimp only; omega, hgot.delivered⟩
    exact ⟨h.bounds, h.sleeping.reader (by simp [hplace]) (by simp), h.writer, hnext, h.wClosed, h.closed, h.fifo,
      h.writes, h.reads, h.written, h.got, h.drained⟩
  · rw [if_neg hgoes, sub32_of_le (by omega)] at hrun
    obtain rfl := Option.some.inj hrun
    refine ⟨h.bounds, h.sleeping.reader (by simp [hplace]) (by simp), h.writer, rfl, h.wClosed, h.closed, h.fifo,
      h.writes, ?_, h.written, fun r hr => ?_, fun r hr hresult => ?_⟩
    · rw [h.reads]
      simp
    · obtain hr | hr := List.mem_append.1 hr
      · exact h.got r hr
      · obtain rfl := List.mem_singleton.1 hr
        have hcount : s.reader.len - (s.reader.resid - rqLen s.reader.resid) =
            s.reader.inbuf + rqLen s.reader.resid := by omega
        rw [hcount, ← hgot.delivered]
        exact ⟨(length_read _ _ _).symm, rfl⟩
    · obtain hr | hr := List.mem_append.1 hr
      · exact h.drained r hr hresult
      · obtain rfl := List.mem_singleton.1 hr
        exact heof hresult

theorem Inv.step (h : Inv s) (a : Action) (hproper : s.Proper a) (hrun : s.exec a = some s') : Inv s' := by
  cases a with
  | write buf =>
    simp only [System.exec, Option.ite_none_right_eq_some] at hrun
    obtain ⟨⟨hplace, hopen, -⟩, hrun⟩ := hrun
    obtain rfl := Option.some.inj hrun
    have hwriter : s.writer.accepted = [] := by
      have hwriter := h.writer
      unfold WriterInv at hwriter
      rwa [hplace] at hwriter
    have hwrites := h.writes
    rw [hwriter] at hwrites
    exact ⟨h.bounds, h.sleeping.writer (by simp [hplace]) (by simp), ⟨Nat.zero_add _, Nat.zero_le _, rfl⟩,
      h.reader, h.wClosed, fun hclosed => by simp [hopen] at hclosed, h.fifo, hwrites, h.reads, h.written, h.got,
      h.drained⟩
  | read len buf =>
    simp only [System.exec, Option.ite_none_right_eq_some] at hrun
    obtain ⟨⟨hplace, -⟩, hrun⟩ := hrun
    obtain rfl := Option.some.inj hrun
    have hreader : s.reader.delivered = [] := by
      have hreader := h.reader
      unfold ReaderInv at hreader
      rwa [hplace] at hreader
    have hreads := h.reads
    rw [hreader] at hreads
    have hnext : Got ⟨.calling, len, buf, len, 0, []⟩ 0 := ⟨Nat.zero_add _, rfl⟩
    exact ⟨h.bounds, h.sleeping.reader (by simp [hplace]) (by simp), h.writer, hnext, h.wClosed, h.closed, h.fifo,
      h.writes, hreads, h.written, h.got, h.drained⟩
  | serveWrite =>
    simp only [System.exec, Option.ite_none_right_eq_some] at hrun
    obtain ⟨⟨hplace, -⟩, hrun⟩ := hrun
    obtain rfl := Option.some.inj hrun
    exact h.serveWrite hplace hproper rfl
  | serveRead =>
    simp only [System.exec, Option.ite_none_right_eq_some] at hrun
    obtain ⟨⟨hplace, -⟩, hrun⟩ := hrun
    obtain rfl := Option.some.inj hrun
    exact h.serveRead hplace hproper
  | writeReply =>
    cases hplace : s.writer.place with
    | replied code w1 => exact h.writeReply hplace hrun
    | _ => simp [System.exec, hplace] at hrun
  | readReply =>
    cases hplace : s.reader.place with
    | replied code w1 => exact h.readReply hplace hrun
    | _ => simp [System.exec, hplace] at hrun
  | close =>
    simp only [System.exec, Option.ite_none_right_eq_some] at hrun
    obtain ⟨⟨hplace, -, -⟩, hrun⟩ := hrun
    obtain rfl := Option.some.inj hrun
    exact h.close hplace hproper
  | readerClose =>
    simp only [System.exec, Option.ite_none_right_eq_some] at hrun
    obtain ⟨⟨hplace, -⟩, hrun⟩ := hrun
    obtain rfl := Option.some.inj hrun
    exact h.readerClose hplace
  | request c opcode w2 string => exact h.request hrun

theorem System.Reach.inv (h : System.Reach (fun s a => s.Proper a) s) : Inv s := by
  induction h with
  | init buf => exact Inv.init buf
  | step a _ hproper hrun ih => exact ih.step a hproper hrun

structure Correct (s : System) : Prop where
  /-- What has been delivered is what has been accepted, in order, but for what is in the buffer. -/
  fifo : s.accepted = s.delivered ++ s.ps.queue
  /-- The end of the file comes when all has been delivered. -/
  drained : ∀ r ∈ s.reads, r.result = .eof → s.accepted = s.delivered
  /-- The reader does not sleep when the writer has closed. -/
  answered : s.closed = true → s.reader.place ≠ .waiting
  /-- The bytes that are accepted are those of the calls of the writer. -/
  writes : s.accepted = s.writes.flatMap (·.accepted) ++ s.writer.accepted
  /-- The bytes that are delivered are those of the calls of the reader. -/
  reads : s.delivered = s.reads.flatMap (·.delivered) ++ s.reader.delivered
  /-- A call of `pipe_write` reports how many of its bytes were accepted: the first ones. -/
  written : ∀ r ∈ s.writes, r.outLen = r.accepted.length ∧ r.accepted <+: r.buf
  /-- A call of `pipe_read` reports how many bytes it was delivered, and has them in its buffer. -/
  got : ∀ r ∈ s.reads, r.outLen = r.delivered.length ∧ Cells.read r.buf 0 r.outLen = r.delivered

/-- The pipe does what is claimed in the runs of proper actions. -/
theorem stream_proper (h : System.Reach (fun s a => s.Proper a) s) : Correct s where
  fifo := h.inv.fifo
  drained r hr heof := by
    have hend := (h.inv.drained r hr heof).2
    rw [h.inv.fifo, PipeState.queue, hend, Nat.sub_self, read_zero, List.append_nil]
  answered hclosed := by
    have hsleeping := h.inv.sleeping
    unfold Sleeping at hsleeping
    rw [(h.inv.closed hclosed).2] at hsleeping
    exact hsleeping.2
  writes := h.inv.writes
  reads := h.inv.reads
  written := h.inv.written
  got := h.inv.got

/-- The reader sleeps until three bytes are written, gets two of them, and then the third. The writer closes. -/
theorem stream_proper_byte : ∃ s : System, s.delivered = [7, 8, 9] ∧ s.writes.map (·.outLen) = [3] ∧
    s.reads.map (·.outLen) = [2, 1] ∧ s.closed = true ∧ Correct s := by
  have hread := System.Reach.step (.read 2 fun _ => 0)
    (@System.Reach.init (fun s a => s.Proper a) fun _ => 0) trivial rfl
  have hsleeps := hread.step .serveRead (fun hmore => (by simp [System.init, InitPipe] at hmore)) rfl
  have hwrite := hsleeps.step (.write [7, 8, 9]) trivial rfl
  have hserved := hwrite.step .serveWrite (fun _ hfull => absurd hfull (by decide)) rfl
  have hgot := (hserved.step .readReply trivial rfl).step .writeReply trivial rfl
  have hagain := hgot.step (.read 1 fun _ => 0) trivial rfl
  have hsent := hagain.step .serveRead (fun _ => (by decide : (1 : ℕ) ≤ 1)) rfl
  have hclosed := (hsent.step .readReply trivial rfl).step .close (fun hsleep => (by cases hsleep)) rfl
  exact ⟨_, rfl, rfl, rfl, rfl, stream_proper hclosed⟩

/-- One byte is written, and two are asked for. The reader gets one, and is told that it has two. -/
theorem stream_fails : ¬∀ s : System, System.Reach (fun _ _ => True) s → Correct s := by
  intro h
  have hwrite := System.Reach.step (.write [7])
    (@System.Reach.init (fun _ _ => True) fun _ => 0) trivial rfl
  have hserved := hwrite.step .serveWrite trivial rfl
  have hread := hserved.step (.read 2 fun _ => 0) trivial rfl
  have hsent := hread.step .serveRead trivial rfl
  have hgot := hsent.step .readReply trivial rfl
  exact absurd ((h _ hgot).got _ List.mem_cons_self).1 (by decide)

end CapROS.Pipe
