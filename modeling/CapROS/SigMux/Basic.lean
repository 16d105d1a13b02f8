import Mathlib.Data.BitVec

/-!
# The signal multiplexor

`base/domain/sigmux/sigmux.c`, with the calls of its master and its clients.

* `System`: the multiplexor and the histories of its clients. A Resume key is good for one reply.
-/

namespace CapROS.SigMux

/-- A set of signals. -/
abbrev Signals := BitVec 32

def NCLIENT : ℕ := 16

/-- The key info of the master key. -/
def KI_MASTER : ℕ := 128

/-- The order codes. -/
inductive Code where
  | post
  | wait
  | makeRecipient
  | destroy
  | unknown
  deriving DecidableEq

inductive Result where
  | ok
  | unknownRequest
  | requestError
  deriving DecidableEq

/-- `client_s`. -/
structure Client where
  sleeping : Bool
  pending : Signals
  wakeup : Signals

/-- A Resume key to the caller, which is a client or another process. -/
structure ResumeKey where
  client : Option (Fin NCLIENT)
  call : ℕ

structure State where
  client : Fin NCLIENT → Client
  /-- `KR_CLIENT(i)`. -/
  krClient : Fin NCLIENT → Option ResumeKey

/-- A message, and the Resume key that is invoked with it. -/
structure Message where
  invKey : Option ResumeKey
  code : Result
  w1 : Signals
  /-- The key info of the Start key `snd_key0`, if it is not void. -/
  key0 : Option ℕ

structure Request where
  keyInfo : ℕ
  code : Code
  w1 : Signals

def InitSigMux : State := ⟨fun _ => ⟨false, 0#32, 0#32⟩, fun _ => none⟩

def State.setClient (s : State) (i : Fin NCLIENT) (c : Client) : State :=
  { s with client := Function.update s.client i c }

theorem State.setClient_client (s : State) (i : Fin NCLIENT) (c : Client) :
    (s.setClient i c).client i = c := by
  simp [State.setClient]

theorem State.setClient_client_of_ne {i j : Fin NCLIENT} (s : State) (c : Client) (hji : j ≠ i) :
    (s.setClient i c).client j = s.client j := by
  simp [State.setClient, hji]

/-- The signals of `c` for which `OC_SigMux_Post` wakes it. -/
def Client.shouldWake (c : Client) (w1 : Signals) : Signals :=
  if c.sleeping then c.wakeup &&& (c.pending ||| w1) else 0#32

/-- The client after `OC_SigMux_Post`. It is still marked as sleeping. -/
def Client.post (c : Client) (w1 : Signals) : Client :=
  { c with pending := (c.pending ||| w1) &&& ~~~c.shouldWake w1 }

/-- The loop of `OC_SigMux_Post`. -/
def post (w1 : Signals) : List (Fin NCLIENT) → State → State × List Message
  | [], s => (s, [])
  | i :: clients, s =>
    let rest := post w1 clients (s.setClient i ((s.client i).post w1))
    let shouldWake := (s.client i).shouldWake w1
    (rest.1, if shouldWake = 0#32 then rest.2 else ⟨s.krClient i, .ok, shouldWake, none⟩ :: rest.2)

/-- `OC_SigMux_Wait` of client `i`. The Resume key of the request is that of the call `ret`. -/
def wait (s : State) (ret : ResumeKey) (i : Fin NCLIENT) (w1 : Signals) : State × List Message :=
  let c := s.client i
  let shouldWake := w1 &&& c.pending
  if shouldWake = 0#32 then
    ({ s.setClient i ⟨true, c.pending, w1⟩ with krClient := Function.update s.krClient i (some ret) },
      [⟨none, .ok, shouldWake, none⟩])
  else (s.setClient i ⟨false, c.pending &&& ~~~shouldWake, w1⟩, [⟨some ret, .ok, shouldWake, none⟩])

/-- `ProcessRequest`, and the invocation by which the multiplexor returns. After `teardown` there is no state. -/
def ProcessRequest (s : State) (ret : ResumeKey) (r : Request) : Option (State × List Message) :=
  let reply (code : Result) (key0 : Option ℕ) : Message := ⟨some ret, code, 0#32, key0⟩
  match r.code with
  | .post =>
    if r.keyInfo = KI_MASTER then
      let posted := post r.w1 (List.finRange NCLIENT) s
      some (posted.1, posted.2 ++ [reply .ok none])
    else some (s, [reply .unknownRequest none])
  | .wait =>
    if h : r.keyInfo < NCLIENT then some (wait s ret ⟨r.keyInfo, h⟩ r.w1)
    else some (s, [reply .unknownRequest none])
  | .makeRecipient =>
    if r.keyInfo = KI_MASTER then
      if r.w1.toNat < NCLIENT then some (s, [reply .ok (some r.w1.toNat)])
      else some (s, [reply .requestError none])
    else some (s, [reply .unknownRequest none])
  | .destroy => none
  | .unknown => some (s, [reply .unknownRequest none])

/-! ## Calls and replies -/

/-- The answer to a Wait for the signals `wanted`. -/
structure Answer where
  call : ℕ
  wanted : Signals
  w1 : Signals

/-- What has happened to a client. -/
structure History where
  /-- The Wait that has not been answered, and its signals. -/
  waiting : Option (ℕ × Signals)
  /-- The signals that have been posted since they were last delivered. -/
  owed : Signals
  answers : List Answer

/-- A Resume key to the client is invoked. When its call has been answered, it is void. -/
def History.reply (h : History) (call : ℕ) (w1 : Signals) : History :=
  match h.waiting with
  | none => h
  | some (waiting, wanted) =>
    if waiting = call then ⟨none, h.owed &&& ~~~w1, ⟨call, wanted, w1⟩ :: h.answers⟩ else h

abbrev Histories := Fin NCLIENT → History

def invoke (h : Histories) (m : Message) : Histories :=
  match m.invKey with
  | some ⟨some i, call⟩ => Function.update h i ((h i).reply call m.w1)
  | _ => h

/-- The client whose key is invoked. -/
def Request.client (r : Request) : Option (Fin NCLIENT) :=
  if hi : r.keyInfo < NCLIENT then some ⟨r.keyInfo, hi⟩ else none

/-- What a request is to the clients. -/
def Request.note (r : Request) (call : ℕ) (h : Histories) : Histories :=
  match r.code with
  | .post => if r.keyInfo = KI_MASTER then fun i => { h i with owed := (h i).owed ||| r.w1 } else h
  | .wait =>
    match r.client with
    | some i => Function.update h i { h i with waiting := some (call, r.w1) }
    | none => h
  | _ => h

structure System where
  mux : State
  /-- The number of requests so far. -/
  calls : ℕ
  history : Histories

def System.serve (x : System) (r : Request) : Option System :=
  (ProcessRequest x.mux ⟨r.client, x.calls⟩ r).map fun out =>
    ⟨out.1, x.calls + 1, out.2.foldl invoke (r.note x.calls x.history)⟩

/-- The states of the system in runs of admitted requests. -/
inductive System.Reach (admitted : System → Request → Prop) : System → Prop where
  | init : Reach admitted ⟨InitSigMux, 0, fun _ => ⟨none, 0#32, []⟩⟩
  | step {x x' : System} (r : Request) (h : Reach admitted x) (hadmitted : admitted x r)
      (hserve : x.serve r = some x') : Reach admitted x'

/-- A client waits again only after it has been answered. -/
def System.OneWait (x : System) (r : Request) : Prop :=
  r.code = .wait → ∀ i, r.client = some i → (x.history i).waiting = none

/-- Moreover, no signals are posted for which a client was woken last and is still marked as sleeping, though
its Wait has been answered. -/
def System.Proper (x : System) (r : Request) : Prop :=
  x.OneWait r ∧ (r.code = .post → r.keyInfo = KI_MASTER → ∀ i, (x.mux.client i).sleeping = true →
    (x.history i).waiting = none → (x.mux.client i).wakeup &&& r.w1 = 0#32)

end CapROS.SigMux
