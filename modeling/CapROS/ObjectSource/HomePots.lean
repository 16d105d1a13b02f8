import CapROS.Kernel.Types
import CapROS.Theory.Yielding
import Mathlib.Data.List.Nodup

/-!
# Fetching the pots of a home range

The nodes of a home range are read from pots, one for each frame (`kern_IOReq.c`). `EnsureHomePot` looks for the pot
in the object hash under the OID of its frame, and if it is not there starts to read it and yields; the operation is
tried again when the pot has been read. A pot that is being read is in the object hash already, so that it is not read
twice. But the pot is requested with the OID of the node and not with that of its frame, and `objRange_FetchPot`
asserts that it is the OID of a frame.

* `ensureHomePot`, with `objRangeFetchPot`, `endReadPage`: the code.
* `Works`: what `EnsureHomePot` is for. `PotOk`, `ensureHomePot_iff`: when it does it.
-/

namespace CapROS.ObjectSource

open Yielding

/-! ## The state -/

/-- `FramesPerCluster`: for each frame a tag pot has a count and a tag. -/
def framesPerCluster : ℕ := erosPageSize / (4 + 1)

def frameToRangeLoc (relFrame : ℕ) : ℕ := relFrame + relFrame / framesPerCluster + 1

/-- `ObjectRange`, for the home of persistent objects. It consists of whole frames. -/
structure HomeRange where
  /-- Which range it is. -/
  number : ℕ
  start : ℕ
  fin : ℕ
  aligned : oidToObIndex start = 0

/-- The OID is in the range. -/
def HomeRange.Contains (rng : HomeRange) (oid : ℕ) : Prop := rng.start ≤ oid ∧ oid < rng.fin

instance (rng : HomeRange) (oid : ℕ) : Decidable (rng.Contains oid) :=
  inferInstanceAs (Decidable (rng.start ≤ oid ∧ oid < rng.fin))

/-- The home ranges that are mounted. -/
structure Ranges where
  ranges : List HomeRange
  disjoint : ∀ rng ∈ ranges, ∀ rng' ∈ ranges, ∀ oid, rng.Contains oid → rng'.Contains oid → rng = rng'

/-- The types of pots, `ot_PtTagPot`, `ot_PtHomePot` and `ot_PtLogPot`. -/
inductive PotType where
  | tagPot
  | homePot
  | logPot
  deriving DecidableEq, Repr

/-- A page frame with a pot, and where the pot is read from. -/
structure Pot where
  /-- The page frame. -/
  page : ℕ
  obType : PotType
  /-- The OID or LID under which it is in the object hash. -/
  oid : ℕ
  /-- `OFLG_Fetching`. -/
  fetching : Bool
  range : ℕ
  rangeLoc : ℕ
  deriving DecidableEq, Repr

/-- An `IORequest` to read a range location. -/
structure IORequest where
  page : ℕ
  range : ℕ
  rangeLoc : ℕ
  deriving DecidableEq, Repr

/-- The request that reads the pot. -/
def Pot.request (p : Pot) : IORequest := ⟨p.page, p.range, p.rangeLoc⟩

structure State where
  /-- The pots in the object hash, the last one first. -/
  hash : List Pot
  /-- The requests that are not complete. -/
  queue : List IORequest
  /-- How many `IORequest`s are free. -/
  freeIOReqs : ℕ
  deriving DecidableEq, Repr

abbrev Kernel (α : Type) := Prog Halt State α

/-- What the current process is, and the page frame that `objC_GrabPageFrame` gets for it, unless it yields. -/
structure Caller where
  page : Option ℕ
  /-- `proc_IsPFH`. -/
  isPFH : Bool
  deriving DecidableEq, Repr

/-! ## The code -/

variable {α : Type}

def sleepOnPFHQueue (c : Caller) : Kernel α := do
  Prog.check (c.isPFH = false) .assertion
  Prog.yield

/-- There is a page frame for the caller. -/
def HasFrame (c : Caller) (s : State) : Prop := ∃ page ∈ c.page, ∀ p ∈ s.hash, p.page ≠ page

/-- `objC_GrabPageFrame`. -/
def grabPageFrame (c : Caller) : Kernel ℕ := fun s =>
  match c.page with
  | none => .yield s
  | some page => if ∀ p ∈ s.hash, p.page ≠ page then .done page s else .yield s

def allocateIOReqAndPage (c : Caller) : Kernel ℕ := do
  let page ← grabPageFrame c
  let s ← Prog.get
  if 0 < s.freeIOReqs then do
    Prog.modify fun s => { s with freeIOReqs := s.freeIOReqs - 1 }
    pure page
  else sleepOnPFHQueue c

def objRangeFetchPot (c : Caller) (rng : HomeRange) (oidOrLid rangeLoc : ℕ) (obType : PotType) : Kernel α := do
  Prog.check (oidToObIndex oidOrLid = 0) .assertion
  let page ← allocateIOReqAndPage c
  let pot : Pot := ⟨page, obType, oidOrLid, true, rng.number, rangeLoc⟩
  Prog.modify fun s => { s with hash := pot :: s.hash, queue := s.queue ++ [pot.request] }
  sleepOnPFHQueue c

/-- `objH_Lookup`, for a pot. -/
def objHLookup (s : State) (oid : ℕ) (type : PotType) : Option Pot :=
  s.hash.find? fun p => p.oid = oid ∧ p.obType = type

def objHEnsureNotFetching (c : Caller) (p : Pot) : Kernel Unit :=
  if p.fetching then sleepOnPFHQueue c else pure ()

def ensureHomePot (c : Caller) (rng : HomeRange) (oid : ℕ) : Kernel Pot := do
  let frame := oidToFrame oid
  let relOid := oid - rng.start
  let relFrame := oidToFrame relOid
  let s ← Prog.get
  -- Is the pot in memory?
  match objHLookup s (frameToOID frame) .homePot with
  | some p => do
    objHEnsureNotFetching c p
    pure p
  | none => objRangeFetchPot c rng oid (frameToRangeLoc relFrame) .homePot

/-- The pot when the request of a page frame has been completed. -/
def Pot.endRead (p : Pot) (page : ℕ) : Pot := if p.page = page then { p with fetching := false } else p

/-- `IOReq_EndReadPage`, for the request of a page frame. -/
def State.endReadPage (s : State) (page : ℕ) : State where
  hash := s.hash.map fun p => p.endRead page
  queue := s.queue.filter fun r => r.page ≠ page
  freeIOReqs := s.freeIOReqs + 1

/-! ## Runs -/

/-- A pot is put into the object hash, and the request to read it is enqueued. -/
def State.startFetch (s : State) (p : Pot) : State := ⟨p :: s.hash, s.queue ++ [p.request], s.freeIOReqs - 1⟩

/-- What happens in a step. -/
inductive Event where
  | ensureHomePot
  | fetchOther
  | complete (page : ℕ)
  | evict (page : ℕ)
  deriving DecidableEq, Repr

/-- The steps: some activity calls `EnsureHomePot`, which returns or yields; another pot is fetched; a request is
completed; and a pot that is not being read is evicted from memory. -/
inductive Step (R : Ranges) : State → Event → State → Prop where
  | returns {s s' : State} {p : Pot} (c : Caller) (rng : HomeRange) (oid : ℕ) (hrng : rng ∈ R.ranges)
      (hin : rng.Contains oid) (h : ensureHomePot c rng oid s = .done p s') : Step R s .ensureHomePot s'
  | yields {s s' : State} (c : Caller) (rng : HomeRange) (oid : ℕ) (hrng : rng ∈ R.ranges)
      (hin : rng.Contains oid) (h : ensureHomePot c rng oid s = .yield s') : Step R s .ensureHomePot s'
  | fetchOther {s : State} (p : Pot) (htype : p.obType ≠ .homePot) (hfetch : p.fetching = true)
      (hpage : ∀ q ∈ s.hash, q.page ≠ p.page) (hfree : 0 < s.freeIOReqs) :
      Step R s .fetchOther (s.startFetch p)
  | complete {s : State} (r : IORequest) (hr : r ∈ s.queue) : Step R s (.complete r.page) (s.endReadPage r.page)
  | evict {s : State} (p : Pot) (hp : p ∈ s.hash) (hread : p.fetching = false) :
      Step R s (.evict p.page) { s with hash := s.hash.filter fun q => q.page ≠ p.page }

/-- The states that are reached. At first there are no pots in memory. -/
inductive Run (R : Ranges) : State → Prop where
  | start (freeIOReqs : ℕ) : Run R ⟨[], [], freeIOReqs⟩
  | step {s s' : State} {e : Event} (h : Run R s) (hstep : Step R s e s') : Run R s'

/-- The states that are reached from `s` while the pot in this page frame is not evicted. -/
inductive Keeps (R : Ranges) (page : ℕ) (s : State) : State → Prop where
  | refl : Keeps R page s s
  | step {s₁ s₂ : State} {e : Event} (h : Keeps R page s s₁) (hstep : Step R s₁ e s₂) (he : e ≠ .evict page) :
      Keeps R page s s₂

/-! ## What it is for -/

/-- The pot is that of the frame of this OID: it is in the object hash under the OID of the frame, and it is read from
the place of the frame in its range. -/
structure PotFor (rng : HomeRange) (oid : ℕ) (p : Pot) : Prop where
  type : p.obType = .homePot
  key : p.oid = frameToOID (oidToFrame oid)
  source : p.range = rng.number
  place : p.rangeLoc = frameToRangeLoc (oidToFrame (oid - rng.start))

/-- The pot is being read, and when that is complete a retry finds it. -/
structure Reading (R : Ranges) (s : State) (rng : HomeRange) (oid : ℕ) (p : Pot) : Prop where
  mem : p ∈ s.hash
  fetching : p.fetching = true
  request : p.request ∈ s.queue
  retry : ∀ s', Keeps R p.page s s' → (∀ r ∈ s'.queue, r.page ≠ p.page) →
    ∀ c, ensureHomePot c rng oid s' = .done { p with fetching := false } s'

/-- `EnsureHomePot` returns the pot, starts to fetch it, or waits for a fetch that has been started. Before it can
start one, it may have to wait for a page frame or an `IORequest`. -/
inductive Works (R : Ranges) (s : State) (c : Caller) (rng : HomeRange) (oid : ℕ) : Prop where
  | returns (p : Pot) (hp : PotFor rng oid p) (hmem : p ∈ s.hash) (hread : p.fetching = false)
      (h : ensureHomePot c rng oid s = .done p s)
  | starts (p : Pot) (s' : State) (hp : PotFor rng oid p) (h : ensureHomePot c rng oid s = .yield s')
      (hhash : s'.hash = p :: s.hash) (hreading : Reading R s' rng oid p)
  | waits (p : Pot) (hp : PotFor rng oid p) (h : ensureHomePot c rng oid s = .yield s)
      (hreading : Reading R s rng oid p)
  | noRoom (hroom : ¬ HasFrame c s ∨ s.freeIOReqs = 0) (h : ensureHomePot c rng oid s = .yield s)

/-- When it does that: the pot is in memory, or the OID is the first of its frame. And a page fault handler process
does not have to wait for the page fault handler. -/
def PotOk (s : State) (c : Caller) (oid : ℕ) : Prop :=
  match objHLookup s (frameToOID (oidToFrame oid)) .homePot with
  | some p => p.fetching = true → c.isPFH = false
  | none => oidToObIndex oid = 0 ∧ (HasFrame c s → c.isPFH = false)

variable {R : Ranges} {s s' : State} {c : Caller} {rng : HomeRange} {p q : Pot} {oid page : ℕ}

/-! ## What a call does -/

theorem sleepOnPFHQueue_yield (h : c.isPFH = false) : (sleepOnPFHQueue c : Kernel α) s = .yield s := by
  unfold sleepOnPFHQueue
  rw [check_pos h]
  rfl

theorem sleepOnPFHQueue_halt (h : c.isPFH ≠ false) : (sleepOnPFHQueue c : Kernel α) s = .halt .assertion s := by
  unfold sleepOnPFHQueue
  rw [check_neg h]
  rfl

theorem grabPageFrame_yield (h : ¬ HasFrame c s) : grabPageFrame c s = .yield s := by
  unfold grabPageFrame
  split
  · rfl
  · rename_i page hpage
    exact if_neg fun hfree => h ⟨page, hpage, hfree⟩

theorem grabPageFrame_done (hpage : c.page = some page) (hfree : ∀ p ∈ s.hash, p.page ≠ page) :
    grabPageFrame c s = .done page s := by
  unfold grabPageFrame
  rw [hpage]
  exact if_pos hfree

theorem ensureHomePot_some (h : objHLookup s (frameToOID (oidToFrame oid)) .homePot = some p) :
    ensureHomePot c rng oid s = (objHEnsureNotFetching c p s).andThen fun _ => pure p := by
  unfold ensureHomePot
  rw [bind_apply, get_apply, andThen_done, h]
  rfl

theorem ensureHomePot_none (h : objHLookup s (frameToOID (oidToFrame oid)) .homePot = none) :
    ensureHomePot c rng oid s =
      objRangeFetchPot c rng oid (frameToRangeLoc (oidToFrame (oid - rng.start))) .homePot s := by
  unfold ensureHomePot
  rw [bind_apply, get_apply, andThen_done, h]

/-- The pot that is requested. -/
def newPot (rng : HomeRange) (oid page : ℕ) : Pot :=
  ⟨page, .homePot, oid, true, rng.number, frameToRangeLoc (oidToFrame (oid - rng.start))⟩

section Fetch

variable (hnone : objHLookup s (frameToOID (oidToFrame oid)) .homePot = none)

include hnone

theorem ensureHomePot_wrongIndex (h : oidToObIndex oid ≠ 0) :
    ensureHomePot c rng oid s = .halt .assertion s := by
  rw [ensureHomePot_none hnone, objRangeFetchPot, bind_apply, check_neg h]
  rfl

theorem ensureHomePot_noFrame (h : oidToObIndex oid = 0) (hframe : ¬ HasFrame c s) :
    ensureHomePot c rng oid s = .yield s := by
  rw [ensureHomePot_none hnone, objRangeFetchPot, bind_apply, check_pos h, pure_apply, andThen_done, bind_apply,
    allocateIOReqAndPage, bind_apply, grabPageFrame_yield hframe]
  rfl

variable (hpage : c.page = some page) (hfree : ∀ p ∈ s.hash, p.page ≠ page)

include hpage hfree

theorem ensureHomePot_noRequest (h : oidToObIndex oid = 0) (hreq : s.freeIOReqs = 0) :
    ensureHomePot c rng oid s = (sleepOnPFHQueue c : Kernel Pot) s := by
  rw [ensureHomePot_none hnone, objRangeFetchPot, bind_apply, check_pos h, pure_apply, andThen_done, bind_apply,
    allocateIOReqAndPage, bind_apply, grabPageFrame_done hpage hfree, andThen_done, bind_apply, get_apply,
    andThen_done, if_neg (by omega)]
  by_cases hpfh : c.isPFH = false
  · rw [sleepOnPFHQueue_yield hpfh, sleepOnPFHQueue_yield hpfh]
    rfl
  · rw [sleepOnPFHQueue_halt hpfh, sleepOnPFHQueue_halt hpfh]
    rfl

theorem ensureHomePot_fetch (h : oidToObIndex oid = 0) (hreq : 0 < s.freeIOReqs) :
    ensureHomePot c rng oid s = (sleepOnPFHQueue c : Kernel Pot) (s.startFetch (newPot rng oid page)) := by
  rw [ensureHomePot_none hnone, objRangeFetchPot, bind_apply, check_pos h, pure_apply, andThen_done, bind_apply,
    allocateIOReqAndPage, bind_apply, grabPageFrame_done hpage hfree, andThen_done, bind_apply, get_apply,
    andThen_done, if_pos hreq]
  rfl

end Fetch

theorem ensureHomePot_state (c : Caller) (rng : HomeRange) (oid : ℕ) (s : State) :
    (ensureHomePot c rng oid s).state = s ∨
      ∃ page, objHLookup s (frameToOID (oidToFrame oid)) .homePot = none ∧ oidToObIndex oid = 0 ∧
        (∀ p ∈ s.hash, p.page ≠ page) ∧ (ensureHomePot c rng oid s).state = s.startFetch (newPot rng oid page) := by
  have hsleep (s : State) : ((sleepOnPFHQueue c : Kernel Pot) s).state = s := by
    by_cases hpfh : c.isPFH = false
    · rw [sleepOnPFHQueue_yield hpfh, Outcome.state_yield]
    · rw [sleepOnPFHQueue_halt hpfh, Outcome.state_halt]
  cases hlook : objHLookup s (frameToOID (oidToFrame oid)) .homePot with
  | some p =>
    -- The pot is there, and at most waited for.
    left
    rw [ensureHomePot_some hlook, objHEnsureNotFetching]
    split
    · by_cases hpfh : c.isPFH = false
      · rw [sleepOnPFHQueue_yield hpfh, andThen_yield, Outcome.state_yield]
      · rw [sleepOnPFHQueue_halt hpfh, andThen_halt, Outcome.state_halt]
    · rw [pure_apply, andThen_done, pure_apply, Outcome.state_done]
  | none =>
    -- The calls of `objRange_FetchPot` that do not get as far as `objH_InitObj` come first.
    by_cases hindex : oidToObIndex oid = 0
    swap
    · left
      rw [ensureHomePot_wrongIndex hlook hindex, Outcome.state_halt]
    by_cases hframe : HasFrame c s
    swap
    · left
      rw [ensureHomePot_noFrame hlook hindex hframe, Outcome.state_yield]
    obtain ⟨page, hpage, hfree⟩ := hframe
    by_cases hreq : s.freeIOReqs = 0
    · left
      rw [ensureHomePot_noRequest hlook hpage hfree hindex hreq, hsleep]
    · right
      refine ⟨page, rfl, hindex, hfree, ?_⟩
      rw [ensureHomePot_fetch hlook hpage hfree hindex (Nat.pos_of_ne_zero hreq), hsleep]

/-! ## The object hash -/

@[simp]
theorem Pot.endRead_page (p : Pot) (page : ℕ) : (p.endRead page).page = p.page := by
  unfold Pot.endRead
  split <;> rfl

@[simp]
theorem Pot.endRead_obType (p : Pot) (page : ℕ) : (p.endRead page).obType = p.obType := by
  unfold Pot.endRead
  split <;> rfl

@[simp]
theorem Pot.endRead_oid (p : Pot) (page : ℕ) : (p.endRead page).oid = p.oid := by
  unfold Pot.endRead
  split <;> rfl

theorem Pot.endRead_of_ne (h : p.page ≠ page) : p.endRead page = p := if_neg h

theorem Pot.endRead_eq (p : Pot) (page : ℕ) : ∃ b, p.endRead page = { p with fetching := b } := by
  unfold Pot.endRead
  split
  · exact ⟨false, rfl⟩
  · exact ⟨p.fetching, rfl⟩

theorem Pot.endRead_fetching (h : (p.endRead page).fetching = true) : p.page ≠ page := by
  rintro rfl
  rw [Pot.endRead, if_pos rfl] at h
  exact Bool.false_ne_true h

theorem objHLookup_some {type : PotType} (h : objHLookup s oid type = some p) :
    p ∈ s.hash ∧ p.oid = oid ∧ p.obType = type := by
  exact ⟨List.mem_of_find?_eq_some h, by simpa using List.find?_some h⟩

theorem objHLookup_none {type : PotType} (h : objHLookup s oid type = none) (hp : p ∈ s.hash) :
    ¬ (p.oid = oid ∧ p.obType = type) := by
  have hfind := List.find?_eq_none.mp h p hp
  exact of_decide_eq_false (by simpa using hfind)

theorem PotFor.setFetching (h : PotFor rng oid p) (b : Bool) : PotFor rng oid { p with fetching := b } :=
  ⟨h.type, h.key, h.source, h.place⟩

/-- The pots that are in memory, and the requests for them. -/
structure Inv (R : Ranges) (s : State) : Prop where
  /-- No two pots are in one page frame. -/
  pages : ∀ p ∈ s.hash, ∀ q ∈ s.hash, p.page = q.page → p = q
  /-- A home pot is in memory once. -/
  unique : ∀ p ∈ s.hash, ∀ q ∈ s.hash, p.obType = .homePot → q.obType = .homePot → p.oid = q.oid → p = q
  /-- A home pot belongs to a home range. -/
  located : ∀ p ∈ s.hash, p.obType = .homePot → ∃ rng ∈ R.ranges, rng.Contains p.oid ∧ PotFor rng p.oid p
  /-- There is a request for a pot that is being read. -/
  reading : ∀ p ∈ s.hash, p.fetching = true → p.request ∈ s.queue

namespace Inv

theorem startFetch (h : Inv R s) (hpage : ∀ q ∈ s.hash, q.page ≠ p.page)
    (hnew : p.obType = .homePot → ∀ q ∈ s.hash, q.obType = .homePot → q.oid ≠ p.oid)
    (hloc : p.obType = .homePot → ∃ rng ∈ R.ranges, rng.Contains p.oid ∧ PotFor rng p.oid p) :
    Inv R (s.startFetch p) where
  pages := by
    intro q hq q' hq' heq
    rcases List.mem_cons.mp hq with rfl | hold <;> rcases List.mem_cons.mp hq' with rfl | hold'
    · rfl
    · exact absurd heq.symm (hpage q' hold')
    · exact absurd heq (hpage q hold)
    · exact h.pages q hold q' hold' heq
  unique := by
    intro q hq q' hq' ht ht' heq
    rcases List.mem_cons.mp hq with rfl | hold <;> rcases List.mem_cons.mp hq' with rfl | hold'
    · rfl
    · exact absurd heq.symm (hnew ht q' hold' ht')
    · exact absurd heq (hnew ht' q hold ht)
    · exact h.unique q hold q' hold' ht ht' heq
  located := by
    intro q hq ht
    rcases List.mem_cons.mp hq with rfl | hold
    · exact hloc ht
    · exact h.located q hold ht
  reading := by
    intro q hq hf
    apply List.mem_append.mpr
    rcases List.mem_cons.mp hq with rfl | hold
    · exact .inr (List.mem_singleton_self _)
    · exact .inl (h.reading q hold hf)

theorem endReadPage (h : Inv R s) (page : ℕ) : Inv R (s.endReadPage page) where
  pages := by
    intro p hp q hq heq
    obtain ⟨p₀, hp₀, rfl⟩ := List.mem_map.mp hp
    obtain ⟨q₀, hq₀, rfl⟩ := List.mem_map.mp hq
    rw [Pot.endRead_page, Pot.endRead_page] at heq
    rw [h.pages p₀ hp₀ q₀ hq₀ heq]
  unique := by
    intro p hp q hq htp htq heq
    obtain ⟨p₀, hp₀, rfl⟩ := List.mem_map.mp hp
    obtain ⟨q₀, hq₀, rfl⟩ := List.mem_map.mp hq
    simp only [Pot.endRead_obType, Pot.endRead_oid] at htp htq heq
    rw [h.unique p₀ hp₀ q₀ hq₀ htp htq heq]
  located := by
    intro p hp ht
    obtain ⟨p₀, hp₀, rfl⟩ := List.mem_map.mp hp
    rw [Pot.endRead_obType] at ht
    obtain ⟨rng, hrng, hin, hfor⟩ := h.located p₀ hp₀ ht
    obtain ⟨b, hb⟩ := p₀.endRead_eq page
    rw [hb]
    exact ⟨rng, hrng, hin, hfor.setFetching b⟩
  reading := by
    intro p hp hf
    obtain ⟨p₀, hp₀, rfl⟩ := List.mem_map.mp hp
    -- The pot is in another page frame, and so is its request.
    have hne : p₀.page ≠ page := Pot.endRead_fetching hf
    rw [Pot.endRead_of_ne hne] at hf ⊢
    apply List.mem_filter.mpr
    exact ⟨h.reading p₀ hp₀ hf, decide_eq_true hne⟩

theorem evict (h : Inv R s) (keep : Pot → Bool) : Inv R { s with hash := s.hash.filter keep } where
  pages p hp q hq := h.pages p (List.mem_of_mem_filter hp) q (List.mem_of_mem_filter hq)
  unique p hp q hq := h.unique p (List.mem_of_mem_filter hp) q (List.mem_of_mem_filter hq)
  located p hp := h.located p (List.mem_of_mem_filter hp)
  reading p hp := h.reading p (List.mem_of_mem_filter hp)

theorem lookup (h : Inv R s) (hp : p ∈ s.hash) (ht : p.obType = .homePot) (hkey : p.oid = oid) :
    objHLookup s oid .homePot = some p := by
  cases hfind : objHLookup s oid .homePot with
  | some q =>
    obtain ⟨hq, hqkey, hqt⟩ := objHLookup_some hfind
    rw [h.unique q hq p hp hqt ht (hqkey.trans hkey.symm)]
  | none => exact absurd ⟨hkey, ht⟩ (objHLookup_none hfind hp)

end Inv

/-! ## Frames -/

theorem frameToOID_of_index (h : oidToObIndex oid = 0) : frameToOID (oidToFrame oid) = oid := by
  exact Nat.div_mul_cancel (Nat.dvd_of_mod_eq_zero h)

theorem HomeRange.Contains.frame (h : rng.Contains oid) : rng.Contains (frameToOID (oidToFrame oid)) := by
  have halign := rng.aligned
  obtain ⟨hle, hlt⟩ := h
  unfold oidToObIndex erosObjectsPerFrame at halign
  unfold HomeRange.Contains frameToOID oidToFrame erosObjectsPerFrame
  omega

theorem HomeRange.relFrame (rng : HomeRange) (oid : ℕ) :
    oidToFrame (frameToOID (oidToFrame oid) - rng.start) = oidToFrame (oid - rng.start) := by
  have halign := rng.aligned
  unfold oidToObIndex erosObjectsPerFrame at halign
  unfold frameToOID oidToFrame erosObjectsPerFrame
  omega

theorem potFor_newPot (h : oidToObIndex oid = 0) : PotFor rng oid (newPot rng oid page) :=
  ⟨rfl, (frameToOID_of_index h).symm, rfl, rfl⟩

theorem Inv.potFor (h : Inv R s) (hrng : rng ∈ R.ranges) (hin : rng.Contains oid)
    (hlook : objHLookup s (frameToOID (oidToFrame oid)) .homePot = some p) : PotFor rng oid p := by
  obtain ⟨hmem, hkey, htype⟩ := objHLookup_some hlook
  obtain ⟨rng', hrng', hin', hfor⟩ := h.located p hmem htype
  rw [hkey] at hin' hfor
  -- The range it was read from is this one, as both have the first OID of the frame.
  obtain rfl : rng' = rng := R.disjoint rng' hrng' rng hrng _ hin' hin.frame
  exact ⟨htype, hkey, hfor.source, hfor.place.trans (congrArg frameToRangeLoc (rng'.relFrame oid))⟩

/-! ## Runs -/

theorem Inv.call (h : Inv R s) (hrng : rng ∈ R.ranges) (hin : rng.Contains oid) (c : Caller) :
    Inv R (ensureHomePot c rng oid s).state := by
  rcases ensureHomePot_state c rng oid s with heq | ⟨page, hnone, hindex, hfree, heq⟩ <;> rw [heq]
  · exact h
  -- The pot is requested with the OID under which it was not found, as that is the first of its frame.
  rw [frameToOID_of_index hindex] at hnone
  apply h.startFetch hfree
  · intro _ q hq htype hkey
    exact objHLookup_none hnone hq ⟨hkey, htype⟩
  · intro _
    exact ⟨rng, hrng, hin, potFor_newPot hindex⟩

theorem Step.inv {e : Event} (hstep : Step R s e s') (h : Inv R s) : Inv R s' := by
  cases hstep with
  | returns c rng oid hrng hin hcall | yields c rng oid hrng hin hcall =>
    have hs := h.call hrng hin c
    rwa [hcall] at hs
  | fetchOther p htype hfetch hpage hfree =>
    exact h.startFetch hpage (fun ht => absurd ht htype) fun ht => absurd ht htype
  | complete r hr => exact h.endReadPage r.page
  | evict p hp hread => exact h.evict _

theorem Run.inv (h : Run R s) : Inv R s := by
  induction h with
  | start n => exact ⟨by simp, by simp, by simp, by simp⟩
  | step _ hstep ih => exact hstep.inv ih

theorem mem_startFetch (hp : p ∈ s.hash) : p ∈ (s.startFetch q).hash := List.mem_cons_of_mem q hp

theorem Step.keeps {e : Event} (hstep : Step R s e s') (he : e ≠ .evict p.page) (hp : p ∈ s.hash) :
    p ∈ s'.hash ∨ { p with fetching := false } ∈ s'.hash := by
  have hcall (c : Caller) (rng : HomeRange) (oid : ℕ) : p ∈ (ensureHomePot c rng oid s).state.hash := by
    rcases ensureHomePot_state c rng oid s with heq | ⟨page, -, -, -, heq⟩ <;> rw [heq]
    · exact hp
    · exact mem_startFetch hp
  cases hstep with
  | returns c rng oid hrng hin h | yields c rng oid hrng hin h =>
    have hmem := hcall c rng oid
    rw [h] at hmem
    exact .inl hmem
  | fetchOther q htype hfetch hpage hfree => exact .inl (mem_startFetch hp)
  | complete r hr =>
    -- If it is the request of this pot, the pot has been read.
    have hmem : p.endRead r.page ∈ (s.endReadPage r.page).hash := List.mem_map_of_mem hp
    unfold Pot.endRead at hmem
    split at hmem
    · exact .inr hmem
    · exact .inl hmem
  | evict q hq hread =>
    left
    apply List.mem_filter.mpr
    refine ⟨hp, decide_eq_true fun heq => he ?_⟩
    rw [heq]

theorem Keeps.mem (hkeep : Keeps R p.page s s') (h : Inv R s) (hp : p ∈ s.hash) :
    Inv R s' ∧ (p ∈ s'.hash ∨ { p with fetching := false } ∈ s'.hash) := by
  induction hkeep with
  | refl => exact ⟨h, .inl hp⟩
  | step _ hstep he ih =>
    obtain ⟨hinv, hmem | hmem⟩ := ih
    · exact ⟨hstep.inv hinv, hstep.keeps he hmem⟩
    · -- A pot that has been read is not read again.
      refine ⟨hstep.inv hinv, .inr ?_⟩
      rcases hstep.keeps (p := { p with fetching := false }) he hmem with hmem' | hmem'
      · exact hmem'
      · exact hmem'

/-- A pot that is being read, and for which the lookup is made, is found when it has been read. -/
theorem Inv.isReading (h : Inv R s) (hp : p ∈ s.hash) (hfor : PotFor rng oid p) (hfetch : p.fetching = true) :
    Reading R s rng oid p where
  mem := hp
  fetching := hfetch
  request := h.reading p hp hfetch
  retry := by
    intro s' hkeep hdone c
    obtain ⟨hinv, hmem⟩ := hkeep.mem h hp
    -- There is no request for it any more, so it has been read.
    have hmem' : { p with fetching := false } ∈ s'.hash := by
      rcases hmem with hmem | hmem
      · exact absurd rfl (hdone _ (hinv.reading p hmem hfetch))
      · exact hmem
    rw [ensureHomePot_some (hinv.lookup hmem' hfor.type hfor.key)]
    rfl

/-! ## When it works -/

theorem ensureHomePot_halt (h : ¬ PotOk s c oid) : ∃ s', ensureHomePot c rng oid s = .halt .assertion s' := by
  unfold PotOk at h
  cases hlook : objHLookup s (frameToOID (oidToFrame oid)) .homePot with
  | some p =>
    simp only [hlook] at h
    obtain ⟨hfetch, hpfh⟩ := Classical.not_imp.mp h
    refine ⟨s, ?_⟩
    rw [ensureHomePot_some hlook, objHEnsureNotFetching, if_pos hfetch, sleepOnPFHQueue_halt hpfh, andThen_halt]
  | none =>
    simp only [hlook] at h
    by_cases hindex : oidToObIndex oid = 0
    swap
    · exact ⟨s, ensureHomePot_wrongIndex hlook hindex⟩
    obtain ⟨⟨page, hpage, hfree⟩, hpfh⟩ := Classical.not_imp.mp fun himp => h ⟨hindex, himp⟩
    by_cases hreq : s.freeIOReqs = 0
    · exact ⟨s, by rw [ensureHomePot_noRequest hlook hpage hfree hindex hreq, sleepOnPFHQueue_halt hpfh]⟩
    · refine ⟨s.startFetch (newPot rng oid page), ?_⟩
      rw [ensureHomePot_fetch hlook hpage hfree hindex (Nat.pos_of_ne_zero hreq), sleepOnPFHQueue_halt hpfh]

theorem Works.not_halt (h : Works R s c rng oid) : ensureHomePot c rng oid s ≠ .halt .assertion s' := by
  intro hhalt
  cases h with
  | returns p hp hmem hread h | starts p s₁ hp h hhash hreading | waits p hp h hreading
  | noRoom hroom h => cases h.symm.trans hhalt

theorem Inv.works_some (h : Inv R s) (hrng : rng ∈ R.ranges) (hin : rng.Contains oid)
    (hlook : objHLookup s (frameToOID (oidToFrame oid)) .homePot = some p)
    (hok : p.fetching = true → c.isPFH = false) : Works R s c rng oid := by
  have hfor := h.potFor hrng hin hlook
  have hmem := (objHLookup_some hlook).1
  have hcall : ensureHomePot c rng oid s = (objHEnsureNotFetching c p s).andThen fun _ => pure p :=
    ensureHomePot_some hlook
  unfold objHEnsureNotFetching at hcall
  -- It may still be read, on behalf of another call.
  by_cases hfetch : p.fetching = true
  · rw [if_pos hfetch, sleepOnPFHQueue_yield (hok hfetch)] at hcall
    exact .waits p hfor hcall (h.isReading hmem hfor hfetch)
  · rw [if_neg hfetch] at hcall
    exact .returns p hfor hmem (Bool.eq_false_of_not_eq_true hfetch) hcall

theorem Inv.works_none (h : Inv R s) (hrng : rng ∈ R.ranges) (hin : rng.Contains oid)
    (hlook : objHLookup s (frameToOID (oidToFrame oid)) .homePot = none) (hindex : oidToObIndex oid = 0)
    (hok : HasFrame c s → c.isPFH = false) : Works R s c rng oid := by
  by_cases hframe : HasFrame c s
  swap
  · exact .noRoom (.inl hframe) (ensureHomePot_noFrame hlook hindex hframe)
  have hpfh := hok hframe
  obtain ⟨page, hpage, hfree⟩ := hframe
  by_cases hreq : s.freeIOReqs = 0
  · have hcall : ensureHomePot c rng oid s = (sleepOnPFHQueue c : Kernel Pot) s :=
      ensureHomePot_noRequest hlook hpage hfree hindex hreq
    rw [sleepOnPFHQueue_yield hpfh] at hcall
    exact .noRoom (.inr hreq) hcall
  · have hcall : ensureHomePot c rng oid s = _ :=
      ensureHomePot_fetch hlook hpage hfree hindex (Nat.pos_of_ne_zero hreq)
    rw [sleepOnPFHQueue_yield hpfh] at hcall
    have hinv := h.call hrng hin c
    rw [hcall] at hinv
    have hfor : PotFor rng oid (newPot rng oid page) := potFor_newPot hindex
    exact .starts _ _ hfor hcall rfl (hinv.isReading List.mem_cons_self hfor rfl)

/-- In all states that are reached, `EnsureHomePot` does what it is for exactly if the pot is in memory or the OID is
the first of its frame, and a page fault handler does not have to wait for a page fault handler. -/
theorem ensureHomePot_iff (h : Run R s) (hrng : rng ∈ R.ranges) (hin : rng.Contains oid) (c : Caller) :
    Works R s c rng oid ↔ PotOk s c oid := by
  constructor
  · -- A call that works does not stop the kernel.
    intro hworks
    by_contra hok
    obtain ⟨s', hhalt⟩ : ∃ s', ensureHomePot c rng oid s = .halt .assertion s' := ensureHomePot_halt hok
    exact hworks.not_halt hhalt
  · intro hok
    unfold PotOk at hok
    cases hlook : objHLookup s (frameToOID (oidToFrame oid)) .homePot with
    | some p =>
      simp only [hlook] at hok
      exact h.inv.works_some hrng hin hlook hok
    | none =>
      simp only [hlook] at hok
      exact h.inv.works_none hrng hin hlook hok.1 hok.2

/-- A range of four frames. -/
def fourFrames : HomeRange := ⟨0, 0x0100000000000000, 0x0100000000000400, by decide⟩

def fourFramesOnly : Ranges where
  ranges := [fourFrames]
  disjoint := by
    intro rng hrng rng' hrng' oid _ _
    rw [List.mem_singleton.mp hrng, List.mem_singleton.mp hrng']

/-- The pot of the second frame of `fourFrames`, that has been read into page frame 7. -/
def secondPot : Pot := ⟨7, .homePot, 0x0100000000000100, false, 0, 2⟩

theorem run_secondPot : Run fourFramesOnly ⟨[secondPot], [], 1⟩ := by
  have hstart : Run fourFramesOnly ⟨[], [], 1⟩ := .start 1
  -- The pot is requested with the first OID of the frame, and is read.
  have hfetch : Step fourFramesOnly ⟨[], [], 1⟩ .ensureHomePot
      (State.startFetch ⟨[], [], 1⟩ (newPot fourFrames 0x0100000000000100 7)) :=
    .yields ⟨some 7, false⟩ fourFrames 0x0100000000000100 (by simp [fourFramesOnly]) (by decide) rfl
  have hread := Step.complete (R := fourFramesOnly) (s := State.startFetch ⟨[], [], 1⟩
    (newPot fourFrames 0x0100000000000100 7)) (newPot fourFrames 0x0100000000000100 7).request (by decide)
  exact (hstart.step hfetch).step hread

/-- The pot of the frame is in memory, and it is found for the sixth OID of the frame. -/
theorem ensureHomePot_iff_sixth :
    Works fourFramesOnly ⟨[secondPot], [], 1⟩ ⟨none, false⟩ fourFrames 0x0100000000000105 :=
  (ensureHomePot_iff run_secondPot (by simp [fourFramesOnly]) (by decide) ⟨none, false⟩).mpr fun _ => rfl

/-- If it is not in memory the kernel stops for the sixth OID of the frame. -/
theorem ensureHomePot_sixth_halts :
    ¬ ∀ (R : Ranges) (s : State) (rng : HomeRange) (oid : ℕ) (c : Caller), Run R s → rng ∈ R.ranges →
      rng.Contains oid → c.isPFH = false → Works R s c rng oid := by
  intro h
  have hworks := h fourFramesOnly ⟨[], [], 1⟩ fourFrames 0x0100000000000105 ⟨some 7, false⟩ (.start 1)
    (by simp [fourFramesOnly]) (by decide) rfl
  have hhalt : ensureHomePot ⟨some 7, false⟩ fourFrames 0x0100000000000105 ⟨[], [], 1⟩ =
      .halt .assertion ⟨[], [], 1⟩ := rfl
  exact hworks.not_halt hhalt

end CapROS.ObjectSource
