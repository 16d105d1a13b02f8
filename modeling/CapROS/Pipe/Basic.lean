import CapROS.Theory.Cells
import Mathlib.Algebra.Group.Nat.Defs
import Mathlib.Order.Nat

/-!
# The pipe

The server of `base/domain/pipe/pipe.c`. It receives each string directly into its buffer. A client that cannot
go on is parked, by keeping its resume key, and gets its reply when the other one has called.

* `ProcessRequest`: a request.
-/

namespace CapROS.Pipe

open Cells

def PIPE_BUF_SZ : ℕ := 4096

/-- The holders of the two keys to the pipe. -/
inductive Client where
  | reader
  | writer
  deriving DecidableEq

inductive ResultCode where
  | ok
  | eof
  | unknownRequest
  deriving DecidableEq

/-- Who sleeps. -/
inductive Sleep where
  | none
  | writer
  | reader
  deriving DecidableEq

/-- `struct pipe_state`. The resume key of the sleeper stands for the client that it belongs to. -/
structure PipeState where
  buf : ℕ → UInt8
  start : ℕ
  /-- `end`. -/
  stop : ℕ
  sleep : Sleep
  sleepSlot : Option Client
  /-- What the sleeping writer will be told that was accepted. -/
  wrReqLen : ℕ
  /-- What the sleeping reader asked for. -/
  rdReqLen : ℕ
  wClosed : Bool

/-- A message to a client. Only a writer looks at `w1`, and only a reader receives the string. -/
structure Reply where
  invKey : Option Client
  code : ResultCode
  w1 : ℕ
  data : List UInt8

/-- The state after a request, the messages, and whether the pipe has been destroyed. -/
structure Outcome where
  ps : PipeState
  replies : List Reply
  destroyed : Bool

inductive Code where
  | Pipe_Read
  | Pipe_Write
  | Pipe_Close
  | key_destroy
  | other
  deriving DecidableEq

def InitPipe (buf : ℕ → UInt8) : PipeState := ⟨buf, 0, 0, .none, none, 0, 0, false⟩

namespace PipeState

/-- How many bytes are sent to a reader that asks for `w2`. -/
def available (ps : PipeState) (w2 : ℕ) : ℕ := min (min (ps.stop - ps.start) w2) PIPE_BUF_SZ

/-- The bytes in the buffer. -/
def queue (ps : PipeState) : List UInt8 := read ps.buf ps.start (ps.stop - ps.start)

/-- When the buffer is empty, it is used from its beginning. -/
def rewind (ps : PipeState) : PipeState :=
  { ps with
    start := if ps.start = ps.stop then 0 else ps.start
    stop := if ps.start = ps.stop then 0 else ps.stop }

/-- The first bytes go to a reader that asks for `w2`. -/
def transmit (ps : PipeState) (w2 : ℕ) : PipeState :=
  { ps with start := ps.start + ps.available w2 }.rewind

/-- The result code of that message. -/
def transmitCode (ps : PipeState) (w2 : ℕ) : ResultCode :=
  if ps.wClosed = true ∧ ps.start + ps.available w2 = ps.stop then .eof else .ok

/-- The string of that message. -/
def transmitData (ps : PipeState) (w2 : ℕ) : List UInt8 := read ps.buf ps.start (ps.available w2)

/-- `return_to_writer`. -/
def return_to_writer (ps : PipeState) (caller : Client) (w2 : ℕ) : Outcome :=
  ⟨{ ps with sleep := .reader, sleepSlot := some caller, rdReqLen := w2 },
    [⟨ps.sleepSlot, .ok, ps.wrReqLen, []⟩], false⟩

/-- `return_to_reader`. -/
def return_to_reader (ps : PipeState) (caller : Client) (w2 : ℕ) : Outcome :=
  ⟨{ ps with sleep := .writer, sleepSlot := some caller, wrReqLen := w2 }.transmit ps.rdReqLen,
    [⟨ps.sleepSlot, ps.transmitCode ps.rdReqLen, ps.rdReqLen, ps.transmitData ps.rdReqLen⟩], false⟩

/-- The state after `wake_writer` or `wake_reader`. -/
def awake (ps : PipeState) : PipeState := { ps with sleep := .none, sleepSlot := none }

/-- The state when the writer has closed. -/
def shut (ps : PipeState) : PipeState := { ps with wClosed := true }

/-- The message of `wake_writer`. -/
def wake_writer (ps : PipeState) : Reply := ⟨ps.sleepSlot, .ok, ps.wrReqLen, []⟩

/-- The message of `wake_reader`. -/
def wake_reader (ps : PipeState) : Reply :=
  ⟨ps.sleepSlot, ps.transmitCode ps.rdReqLen, 0, ps.transmitData ps.rdReqLen⟩

/-- `OC_Pipe_Read`, with the reader's key. -/
def Pipe_Read (ps : PipeState) (caller : Client) (w2 : ℕ) : Outcome :=
  if ps.start ≠ ps.stop then
    if ps.sleep = .writer ∧ ps.start = 0 then
      ⟨ps.awake.transmit w2, [ps.wake_writer, ⟨some caller, ps.transmitCode w2, 0, ps.transmitData w2⟩], false⟩
    else ⟨ps.transmit w2, [⟨some caller, ps.transmitCode w2, 0, ps.transmitData w2⟩], false⟩
  else if ps.wClosed = true then
    if ps.sleep = .writer ∧ ps.start = 0 then
      ⟨ps.awake.rewind, [ps.wake_writer, ⟨some caller, .eof, 0, []⟩], false⟩
    else ⟨ps.rewind, [⟨some caller, .eof, 0, []⟩], false⟩
  -- The buffer is empty: the reader goes to sleep.
  else if ps.sleep = .writer ∧ ps.start = 0 then ps.rewind.return_to_writer caller w2
  else ⟨{ ps.rewind with rdReqLen := w2, sleep := .reader, sleepSlot := some caller }, [], false⟩

/-- `OC_Pipe_Write`, with the writer's key: `got` bytes have been received at the end of the buffer. -/
def Pipe_Write (ps : PipeState) (caller : Client) (w2 got : ℕ) : Outcome :=
  let ps := { ps with stop := ps.stop + got }
  if ps.stop = PIPE_BUF_SZ then
    if ps.sleep = .reader then ps.return_to_reader caller w2
    else ⟨{ ps with sleep := .writer, sleepSlot := some caller, wrReqLen := got }, [], false⟩
  else if ps.sleep = .reader ∧ (ps.wClosed = true ∨ ps.rdReqLen ≤ ps.stop - ps.start) then
    ⟨ps.awake.transmit ps.rdReqLen, [ps.wake_reader, ⟨some caller, .ok, got, []⟩], false⟩
  else ⟨ps, [⟨some caller, .ok, got, []⟩], false⟩

/-- `OC_Pipe_Close`. -/
def Pipe_Close (ps : PipeState) (keyInfo caller : Client) : Outcome :=
  match keyInfo with
  | .writer =>
    -- A sleeping reader is woken even if there is no more to read.
    if ps.sleep = .reader then
      ⟨ps.shut.awake.transmit ps.rdReqLen, [ps.shut.wake_reader, ⟨some caller, .ok, 0, []⟩], false⟩
    else ⟨ps.shut, [⟨some caller, .ok, 0, []⟩], false⟩
  | .reader =>
    -- When the reader closes, the pipe is destroyed.
    if ps.sleep = .writer then ⟨ps.awake, [ps.wake_writer, ⟨some caller, .ok, 0, []⟩], true⟩
    else ⟨ps, [⟨some caller, .ok, 0, []⟩], true⟩

end PipeState

def ProcessRequest (ps : PipeState) (keyInfo caller : Client) (code : Code) (w2 got : ℕ) : Outcome :=
  match code with
  | .Pipe_Read =>
    if keyInfo ≠ .reader then ⟨ps, [⟨some caller, .unknownRequest, 0, []⟩], false⟩ else ps.Pipe_Read caller w2
  | .Pipe_Write =>
    if keyInfo ≠ .writer then ⟨ps, [⟨some caller, .unknownRequest, 0, []⟩], false⟩
    else ps.Pipe_Write caller w2 got
  | .Pipe_Close => ps.Pipe_Close keyInfo caller
  | .key_destroy =>
    if keyInfo ≠ .reader then ⟨ps, [⟨some caller, .unknownRequest, 0, []⟩], false⟩
    else ⟨ps, [⟨some caller, .ok, 0, []⟩], true⟩
  | .other => ⟨ps, [⟨some caller, .unknownRequest, 0, []⟩], false⟩

/-- The loop of `main`: the string of the request is received at the end of the buffer, as far as there is
room. -/
def serve (ps : PipeState) (keyInfo caller : Client) (code : Code) (w2 : ℕ) (string : List UInt8) : Outcome :=
  let got := string.take (PIPE_BUF_SZ - ps.stop)
  ProcessRequest { ps with buf := write ps.buf ps.stop got } keyInfo caller code w2 got.length

end CapROS.Pipe
