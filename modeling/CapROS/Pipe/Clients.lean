import CapROS.Pipe.Basic

/-!
# The clients of the pipe

`pipe_write` and `pipe_read` of `base/lib/domain/key`, which split a transfer into calls of the server, and the
system of one writer, one reader and the server.
-/

namespace CapROS.Pipe

open Cells

/-- Where a client is. -/
inductive Place where
  | idle
  /-- In `pipe_close`, or in another request that only has a result code for an answer. -/
  | closing
  /-- The call is in flight. -/
  | calling
  /-- The server has taken the call, and has not replied. -/
  | waiting
  /-- The reply is in flight. -/
  | replied (code : ResultCode) (w1 : ℕ)
  deriving DecidableEq

/-- The length of the next call for the rest of a transfer. -/
def rqLen (resid : ℕ) : ℕ := min resid PIPE_BUF_SZ

/-- Subtraction of `uint32_t`. -/
def sub32 (a b : ℕ) : ℕ := if b ≤ a then a - b else a + 2 ^ 32 - b

theorem sub32_of_le {a b : ℕ} (hle : b ≤ a) : sub32 a b = a - b := if_pos hle

/-- A client in `pipe_write`. -/
structure Writer where
  place : Place
  buf : List UInt8
  resid : ℕ
  /-- The offset of `outbuf`. -/
  outbuf : ℕ
  /-- The bytes of this call that the server has accepted. -/
  accepted : List UInt8

/-- A client in `pipe_read`. -/
structure Reader where
  place : Place
  len : ℕ
  buf : ℕ → UInt8
  resid : ℕ
  /-- The offset of `inbuf`. -/
  inbuf : ℕ
  /-- The bytes that have been delivered to this call. -/
  delivered : List UInt8

/-- What a call of `pipe_write` has come to. -/
structure WriteReport where
  buf : List UInt8
  outLen : ℕ
  accepted : List UInt8

/-- What a call of `pipe_read` has come to. -/
structure ReadReport where
  result : ResultCode
  buf : ℕ → UInt8
  outLen : ℕ
  delivered : List UInt8

/-- The string of the next call. -/
def Writer.string (w : Writer) : List UInt8 := (w.buf.drop w.outbuf).take (rqLen w.resid)

/-- A reply arrives, with a string that is received up to the limit. -/
def Reader.receive (r : Reader) (code : ResultCode) (w1 : ℕ) (data : List UInt8) : Reader :=
  { r with
    place := .replied code w1
    buf := write r.buf r.inbuf (data.take (rqLen r.resid))
    delivered := r.delivered ++ data.take (rqLen r.resid) }

/-- The clients and the server. -/
structure System where
  ps : PipeState
  destroyed : Bool
  writer : Writer
  reader : Reader
  /-- The writer has called `pipe_close`. -/
  closed : Bool
  /-- All the bytes that the server has accepted. -/
  accepted : List UInt8
  /-- All the bytes that have been delivered. -/
  delivered : List UInt8
  writes : List WriteReport
  reads : List ReadReport

/-- The requests that the library makes with the key of a client. -/
def Client.calls : Client → List Code
  | .reader => [.Pipe_Read, .Pipe_Close]
  | .writer => [.Pipe_Write, .Pipe_Close]

/-- What happens: `serveWrite`, `serveRead`, the two closes and `request` are calls that the server takes. -/
inductive Action where
  | write (buf : List UInt8)
  | serveWrite
  | writeReply
  | read (len : ℕ) (buf : ℕ → UInt8)
  | serveRead
  | readReply
  | close
  | readerClose
  /-- Any other request: `key_destroy`, one that is the other client's, or one that the server does not know. -/
  | request (c : Client) (code : Code) (w2 : ℕ) (string : List UInt8)

namespace System

/-- Where the client is. -/
def place (s : System) : Client → Place
  | .reader => s.reader.place
  | .writer => s.writer.place

/-- The client calls, and waits for a result code. -/
def ask (s : System) : Client → System
  | .reader => { s with reader := { s.reader with place := .closing } }
  | .writer => { s with writer := { s.writer with place := .closing } }

/-- A new pipe and its clients. -/
def init (buf : ℕ → UInt8) : System :=
  ⟨InitPipe buf, false, ⟨.idle, [], 0, 0, []⟩, ⟨.idle, 0, buf, 0, 0, []⟩, false, [], [], [], []⟩

/-- A message of the server arrives. -/
def receive (s : System) (r : Reply) : System :=
  match r.invKey with
  | none => s
  | some .writer =>
    if s.writer.place = .closing then { s with writer := { s.writer with place := .idle } }
    else { s with writer := { s.writer with place := .replied r.code r.w1 } }
  | some .reader =>
    if s.reader.place = .closing then { s with reader := { s.reader with place := .idle } }
    else { s with reader := s.reader.receive r.code r.w1 r.data
                  delivered := s.delivered ++ r.data.take (rqLen s.reader.resid) }

/-- The server takes a call. -/
def call (s : System) (c : Client) (code : Code) (w2 : ℕ) (string : List UInt8) : System :=
  let out := serve s.ps c c code w2 string
  out.replies.foldl receive { s with ps := out.ps, destroyed := out.destroyed }

def exec (s : System) : Action → Option System
  | .write buf =>
    if s.writer.place = .idle ∧ s.closed = false ∧ buf.length < 2 ^ 32 then
      some { s with writer := ⟨.calling, buf, buf.length, 0, []⟩ }
    else none
  | .serveWrite =>
    if s.writer.place = .calling ∧ s.destroyed = false then
      let got := s.writer.string.take (PIPE_BUF_SZ - s.ps.stop)
      some ({ s with writer := { s.writer with place := .waiting, accepted := s.writer.accepted ++ got }
                     accepted := s.accepted ++ got }.call .writer .Pipe_Write s.writer.resid s.writer.string)
    else none
  | .writeReply =>
    match s.writer.place with
    | .replied code w1 =>
      let resid := sub32 s.writer.resid w1
      if resid ≠ 0 ∧ code = .ok then
        some { s with writer :=
          { s.writer with place := .calling, resid := resid, outbuf := s.writer.outbuf + w1 } }
      else
        some { s with
          writer := { s.writer with place := .idle, accepted := [] }
          writes := s.writes ++ [⟨s.writer.buf, sub32 s.writer.buf.length resid, s.writer.accepted⟩] }
    | _ => none
  | .read len buf =>
    if s.reader.place = .idle ∧ len < 2 ^ 32 then some { s with reader := ⟨.calling, len, buf, len, 0, []⟩ }
    else none
  | .serveRead =>
    if s.reader.place = .calling ∧ s.destroyed = false then
      some ({ s with reader := { s.reader with place := .waiting } }.call .reader .Pipe_Read
        (rqLen s.reader.resid) [])
    else none
  | .readReply =>
    match s.reader.place with
    | .replied code _ =>
      -- The limit is taken for the length of the string.
      let resid := sub32 s.reader.resid (rqLen s.reader.resid)
      if resid ≠ 0 ∧ code = .ok then
        some { s with reader :=
          { s.reader with
            place := .calling, resid := resid, inbuf := s.reader.inbuf + rqLen s.reader.resid } }
      else
        some { s with
          reader := { s.reader with place := .idle, delivered := [] }
          reads := s.reads ++
            [⟨code, s.reader.buf, sub32 s.reader.len resid, s.reader.delivered⟩] }
    | _ => none
  | .close =>
    if s.writer.place = .idle ∧ s.closed = false ∧ s.destroyed = false then
      some ({ s with writer := { s.writer with place := .closing }, closed := true }.call .writer .Pipe_Close
        0 [])
    else none
  | .readerClose =>
    if s.reader.place = .idle ∧ s.destroyed = false then
      some ({ s with reader := { s.reader with place := .closing } }.call .reader .Pipe_Close 0 [])
    else none
  | .request c code w2 string =>
    if s.place c = .idle ∧ s.destroyed = false ∧ code ∉ c.calls then some ((s.ask c).call c code w2 string)
    else none

/-- Another request is answered at once. It changes nothing but the bytes behind those of the pipe, and only the
reader can destroy the pipe with it, without waking the writer. -/
theorem exec_request {s s' : System} {c : Client} {code : Code} {w2 : ℕ} {string : List UInt8}
    (h : s.exec (.request c code w2 string) = some s') :
    s.destroyed = false ∧ s' = { s with
      ps := { s.ps with buf := Cells.write s.ps.buf s.ps.stop (string.take (PIPE_BUF_SZ - s.ps.stop)) }
      destroyed := decide (c = .reader ∧ code = .key_destroy) } := by
  obtain ⟨⟨hplace, hd, hcode⟩, h⟩ := Option.ite_none_right_eq_some.1 h
  obtain rfl := Option.some.inj h
  refine ⟨hd, ?_⟩
  obtain ⟨ps, destroyed, ⟨⟩, ⟨⟩, closed, accepted, delivered, writes, reads⟩ := s
  cases c <;> cases code <;> simp_all [place, ask, call, serve, ProcessRequest, receive, Client.calls]

/-- The transfer is one that the clients are told the truth about. -/
def Proper (s : System) : Action → Prop
  | .serveWrite =>
    -- The writer does not fill the buffer for a sleeping reader with only a part of what it has.
    s.ps.sleep = .reader → s.ps.stop + min (rqLen s.writer.resid) (PIPE_BUF_SZ - s.ps.stop) = PIPE_BUF_SZ →
      s.writer.resid = min (rqLen s.writer.resid) (PIPE_BUF_SZ - s.ps.stop)
  | .serveRead =>
    -- A reader that does not go to sleep does not ask for more than there is.
    s.ps.start ≠ s.ps.stop ∨ s.ps.wClosed = true → rqLen s.reader.resid ≤ s.ps.stop - s.ps.start
  | .close => s.ps.sleep = .reader → s.ps.rdReqLen ≤ s.ps.stop - s.ps.start
  | _ => True

/-- The states after sequences of admitted actions on a new pipe. -/
inductive Reach (admitted : System → Action → Prop) : System → Prop where
  | init (buf : ℕ → UInt8) : Reach admitted (init buf)
  | step {s s'} (a : Action) : Reach admitted s → admitted s a → s.exec a = some s' → Reach admitted s'

end System

end CapROS.Pipe
