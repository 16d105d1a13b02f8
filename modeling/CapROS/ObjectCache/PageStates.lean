import CapROS.ObjectCache.Requests
import CapROS.Theory.Counting

/-!
# The states of pages

The table of page states in `kern_Ckpt.c` as an invariant. The table holds, and no assertion fails
in making pages writeable and in cleaning them, in every run in which no page is dirty and being
cleaned when a demarcation takes place, no page is copied to an unlinked working copy or moved while
no key is prepared to it, and there is always enough space in the log and in the log directory.

* `PageStep`: the condition on an operation.
* `pageInv_run`: the invariant holds in every run that meets the condition.
-/

namespace CapROS.ObjectCache

open Yielding Counting
open Function (update update_idem update_self update_of_ne)

/-! ## The invariant -/

/-- The column `I/O` of the table. -/
inductive PageIoState where
  | noRequest
  | cln
  | fet
  deriving DecidableEq, Repr

/-- The I/O state of a page: a combination of `ioreq` and `OFLG_Fetching`. -/
def PageFrame.ioState (fr : PageFrame) : PageIoState :=
  if fr.ioreq.isNone then .noRequest else if fr.fetching then .fet else .cln

/-- The table of page states in `kern_Ckpt.c`: kernel-read-only, dirty, a working copy, I/O. -/
def pageStateTable : List (Bool × Bool × Bool × PageIoState) :=
  [(true, true, false, .noRequest),
    (true, true, true, .noRequest),
    (true, true, false, .cln),
    (true, true, true, .cln),
    (true, false, false, .cln),
    (true, false, true, .cln),
    (false, false, false, .noRequest),
    (false, false, false, .fet),
    (false, true, false, .noRequest)]

/-- The state of the page is one of those in the table. -/
def InTable (fr : PageFrame) : Prop :=
  (fr.kro, fr.dirty, decide (fr.obType = .workingCopy), fr.ioState) ∈ pageStateTable

/-- The page states of the table, in all frames that hold a page, from the demarcation to the end
of the checkpoint. -/
def TableHolds (s : State) : Prop :=
  s.ckptState.demarcated → ∀ f,
    (s.frames f).obType = .dataPage ∨ (s.frames f).obType = .workingCopy → InTable (s.frames f)

/-- The phases after all kernel-read-only pages have been cleaned, or are being written. -/
def CkptState.allClean : CkptState → Bool
  | notActive | phase1 | phase2 => false
  | phase3 | phase4 | phase5 => true

/-- The data part of a page frame is what the table says of kernel-read-only pages. -/
structure KROInv (ck : CkptState) (fr : PageFrame) : Prop where
  demarcated : ck.demarcated
  notFetching : fr.fetching = false
  dirtyOrClean : fr.dirty = true ∨ fr.ioreq.isSome
  notBoth : fr.ioreq.isSome → fr.dirty = false
  cleaned : ck.allClean → fr.dirty = false

structure DataPageInv (ck : CkptState) (fr : PageFrame) : Prop where
  cleanable : fr.cleanable = oidIsPersistent fr.oid
  nonPersistent : fr.cleanable = false → fr.dirty = true ∧ fr.kro = false ∧ fr.ioreq = none
  fetching : fr.fetching = true → fr.dirty = false ∧ fr.ioreq.isSome
  kro : fr.kro = true → KROInv ck fr
  /-- Once the demarcation has taken place, only kernel-read-only pages are being cleaned. -/
  cleaning : ck.demarcated → fr.kro = false → fr.beingCleaned = false
  /-- A page that is being cleaned was not zero. -/
  nonzero : fr.beingCleaned → fr.dirty = false → ¬fr.data.IsZero

structure WorkingCopyInv (ck : CkptState) (fr : PageFrame) : Prop where
  isKRO : fr.kro = true
  kro : KROInv ck fr
  products : fr.products = []
  ring : fr.keyRing = some []
  nonzero : fr.beingCleaned → fr.dirty = false → ¬fr.data.IsZero

def FrameInv (ck : CkptState) (fr : PageFrame) : Prop :=
  match fr.obType with
  | .dataPage => DataPageInv ck fr
  | .workingCopy => WorkingCopyInv ck fr
  | .logPot | .homePot | .tagPot => fr.dirty = false
  | .freeFrame | .newAlloc | .kernelUse => fr.kro = false ∧ fr.ioreq = none

/-- Every page that is being written, to a range for which a synchronization has been enqueued, is
before a synchronization of the range. -/
def Barrier (nextRange : ℕ) : List IORequest → Prop
  | [] => True
  | r :: l =>
      (r.doneFn = .endPageClean → r.range < nextRange →
        ∃ q ∈ l, q.doneFn = .endSync ∧ q.range = r.range) ∧
      Barrier nextRange l

/-- The synchronizations that are not done. -/
def pendingSyncs (queue : List IORequest) : ℕ := queue.countP fun r => decide (r.doneFn = .endSync)

/-- The part of the state that decides the states of pages. -/
structure View where
  frames : ℕ → PageFrame
  queue : List IORequest
  ckptState : CkptState
  numKRODirtyPages : ℤ
  logCursor : ℕ
  nextRangeToSync : ℕ
  rangesSynced : ℕ

/-- The part of the state that decides the states of pages. -/
def State.view (s : State) : View :=
  ⟨s.frames, s.queue, s.ckptState, s.numKRODirtyPages, s.logCursor, s.nextRangeToSync,
    s.rangesSynced⟩

/-- `DoSync` waits for all requests that were enqueued before. -/
structure SyncInv (v : View) : Prop where
  count : v.rangesSynced + pendingSyncs v.queue = v.nextRangeToSync
  idle : v.ckptState ≠ .phase4 → v.ckptState ≠ .phase5 → v.rangesSynced = v.nextRangeToSync
  start : v.ckptState = .phase3 → v.nextRangeToSync = 0
  barrier : v.ckptState = .phase4 → Barrier v.nextRangeToSync v.queue
  done : v.ckptState = .phase5 → ∀ r ∈ v.queue, r.doneFn ≠ .endPageClean

/-- A page that is counted in `numKRODirtyPages`. -/
def PageFrame.kroDirty (fr : PageFrame) : Bool := fr.kro && fr.dirty

structure PageInv (cfg : Config) (v : View) : Prop where
  frame : ∀ f, FrameInv v.ckptState (v.frames f)
  bound : ∀ f, cfg.nPages ≤ f → (v.frames f).obType = .freeFrame
  queue : QueueInv cfg v.frames v.queue
  sync : SyncInv v
  count : v.numKRODirtyPages = countBelow PageFrame.kroDirty v.frames cfg.nPages
  logCursor : v.logCursor < cfg.logWrapPoint

theorem PageInv.tableHolds {cfg : Config} {s : State} (h : PageInv cfg s.view) : TableHolds s := by
  intro hdem f hf
  have hfr := h.frame f
  simp only [State.view, FrameInv] at hfr
  rcases hf with hf | hf <;> simp only [hf] at hfr
  · obtain ⟨-, -, hfet, hkro, hcln, -⟩ := hfr
    simp only [InTable, hf, PageFrame.ioState]
    simp only [PageFrame.beingCleaned] at hcln
    cases hk : (s.frames f).kro with
    | true =>
      obtain ⟨-, hnf, hdc, hnb, -⟩ := hkro hk
      cases hio : (s.frames f).ioreq <;> simp_all [pageStateTable]
    | false =>
      cases hio : (s.frames f).ioreq <;> cases hd : (s.frames f).dirty <;>
        cases hft : (s.frames f).fetching <;> simp_all [pageStateTable]
  · obtain ⟨hk, ⟨-, hnf, hdc, hnb, -⟩, -, -, -⟩ := hfr
    simp only [InTable, hf, PageFrame.ioState]
    cases hio : (s.frames f).ioreq <;> simp_all [pageStateTable]

/-! ## Changes of single frames and requests -/

section Changes

variable {cfg : Config} {v : View} {f : ℕ} {fr : PageFrame} {N : ℤ}

theorem PageInv.count_update (h : PageInv cfg v) (hfr : FrameInv v.ckptState fr)
    (hbound : cfg.nPages ≤ f → fr.obType = .freeFrame)
    (hN : N + (v.frames f).kroDirty.toNat = v.numKRODirtyPages + fr.kroDirty.toNat) :
    N = countBelow PageFrame.kroDirty (update v.frames f fr) cfg.nPages := by
  have hcount := h.count
  rcases Nat.lt_or_ge f cfg.nPages with hlt | hge
  · have hupdate := countBelow_update PageFrame.kroDirty v.frames fr hlt
    omega
  · have hold := h.frame f
    have hfree := h.bound f hge
    have hnew := hbound hge
    simp only [FrameInv, hfree, hnew] at hold hfr
    rw [countBelow_update_of_le _ _ _ hge]
    simp only [PageFrame.kroDirty, hold.1, hfr.1, Bool.false_and] at hN
    omega

theorem bound_update (h : PageInv cfg v) (hbound : cfg.nPages ≤ f → fr.obType = .freeFrame) (g : ℕ)
    (hg : cfg.nPages ≤ g) : (update v.frames f fr g).obType = .freeFrame := by
  rcases eq_or_ne g f with rfl | hne
  · rw [update_self]
    exact hbound hg
  · rw [update_of_ne hne]
    exact h.bound g hg

theorem frame_update (h : PageInv cfg v) (hfr : FrameInv v.ckptState fr) (g : ℕ) :
    FrameInv v.ckptState (update v.frames f fr g) := by
  rcases eq_or_ne g f with rfl | hne
  · rw [update_self]
    exact hfr
  · rw [update_of_ne hne]
    exact h.frame g

theorem PageInv.setFrame (h : PageInv cfg v) (hio : fr.io = (v.frames f).io)
    (hfr : FrameInv v.ckptState fr) (hbound : cfg.nPages ≤ f → fr.obType = .freeFrame)
    (hN : N + (v.frames f).kroDirty.toNat = v.numKRODirtyPages + fr.kroDirty.toNat) :
    PageInv cfg { v with frames := update v.frames f fr, numKRODirtyPages := N } where
  frame := frame_update h hfr
  bound := bound_update h hbound
  queue := h.queue.setFrame hio
  sync := ⟨h.sync.count, h.sync.idle, h.sync.start, h.sync.barrier, h.sync.done⟩
  count := h.count_update hfr hbound hN
  logCursor := h.logCursor

variable {l l₁ l₂ : List IORequest} {n : ℕ} {r : IORequest}

theorem barrier_append (h : Barrier n l)
    (hr : r.doneFn ≠ .endPageClean) : Barrier n (l ++ [r]) := by
  induction l with
  | nil => exact ⟨fun he => absurd he hr, trivial⟩
  | cons q l ih =>
    refine ⟨fun hq hrange => ?_, ih h.2⟩
    obtain ⟨p, hp, hsync⟩ := h.1 hq hrange
    exact ⟨p, List.mem_append_left _ hp, hsync⟩

theorem PageInv.startIo (h : PageInv cfg v) (hidle : (v.frames f).io = none)
    (hpage : r.page = some f) (hio : fr.io = some (r.request, r.doneFn))
    (hclean : r.doneFn = .endPageClean →
      r.range < cfg.nLidRanges ∧ v.ckptState ≠ .phase4 ∧ v.ckptState ≠ .phase5)
    (hfr : FrameInv v.ckptState fr) (hbound : cfg.nPages ≤ f → fr.obType = .freeFrame)
    (hN : N + (v.frames f).kroDirty.toNat = v.numKRODirtyPages + fr.kroDirty.toNat) :
    PageInv cfg
      { v with
        frames := update v.frames f fr
        queue := v.queue ++ [r]
        numKRODirtyPages := N } := by
  have hnosync := PageFrame.io_ne_endSync hio
  refine ⟨frame_update h hfr, bound_update h hbound,
    h.queue.start hidle hpage hio fun hc => (hclean hc).1,
    ⟨?_, h.sync.idle, h.sync.start, ?_, ?_⟩, h.count_update hfr hbound hN, h.logCursor⟩
  · have hcount := h.sync.count
    simp only [pendingSyncs, List.countP_append, List.countP_singleton, hnosync, decide_false,
      Bool.false_eq_true, if_false, Nat.add_zero] at hcount ⊢
    exact hcount
  · intro h4
    exact barrier_append (h.sync.barrier h4) fun hc => (hclean hc).2.1 h4
  · intro h5 q hq
    rcases List.mem_append.1 hq with hq | hq
    · exact h.sync.done h5 q hq
    · obtain rfl := List.mem_singleton.1 hq
      exact fun hc => (hclean hc).2.2 h5

theorem barrier_remove (h : Barrier n (l₁ ++ r :: l₂)) (hfirst : ∀ q ∈ l₁, q.range ≠ r.range) :
    Barrier n (l₁ ++ l₂) := by
  induction l₁ with
  | nil => exact h.2
  | cons q l ih =>
    refine ⟨fun hq hrange => ?_, ih h.2 fun p hp => hfirst p (List.mem_cons_of_mem _ hp)⟩
    obtain ⟨p, hp, hsync, hpr⟩ := h.1 hq hrange
    rcases List.mem_append.1 hp with hp | hp
    · exact ⟨p, List.mem_append_left _ hp, hsync, hpr⟩
    · rcases List.mem_cons.1 hp with rfl | hp
      · exact absurd hpr.symm (hfirst q List.mem_cons_self)
      · exact ⟨p, List.mem_append_right _ hp, hsync, hpr⟩

theorem PageInv.finishIo (h : PageInv cfg v)
    (hqueue : v.queue = l₁ ++ r :: l₂) (hfirst : ∀ q ∈ l₁, q.range ≠ r.range)
    (hpage : r.page = some f) (hio : fr.io = none) (hfr : FrameInv v.ckptState fr)
    (hbound : cfg.nPages ≤ f → fr.obType = .freeFrame)
    (hN : N + (v.frames f).kroDirty.toNat = v.numKRODirtyPages + fr.kroDirty.toNat) :
    PageInv cfg
      { v with
        frames := update v.frames f fr
        queue := l₁ ++ l₂
        numKRODirtyPages := N } := by
  have hmem : ∀ q ∈ l₁ ++ l₂, q ∈ v.queue := fun q hq => hqueue ▸ mem_of_mem_remove hq
  have hnosync : r.doneFn ≠ .endSync := by
    rcases h.queue.requests r (hqueue ▸ List.mem_append_right _ List.mem_cons_self) with
      ⟨-, hnone⟩ | ⟨g, -, hreq, -⟩
    · simp [hpage] at hnone
    · exact PageFrame.io_ne_endSync hreq
  refine ⟨frame_update h hfr, bound_update h hbound, h.queue.finish hqueue hpage hio,
    ⟨?_, h.sync.idle, h.sync.start, ?_, ?_⟩, h.count_update hfr hbound hN, h.logCursor⟩
  · have hcount := h.sync.count
    simp only [hqueue, pendingSyncs, List.countP_append, List.countP_cons, hnosync, decide_false,
      Bool.false_eq_true, if_false, Nat.add_zero] at hcount ⊢
    exact hcount
  · intro h4
    have hb := h.sync.barrier h4
    rw [hqueue] at hb
    exact barrier_remove hb hfirst
  · intro h5 q hq
    exact h.sync.done h5 q (hmem q hq)

theorem PageInv.finishSync (h : PageInv cfg v)
    (hqueue : v.queue = l₁ ++ r :: l₂) (hfirst : ∀ q ∈ l₁, q.range ≠ r.range)
    (hsync : r.doneFn = .endSync) (hpage : r.page = none) :
    PageInv cfg { v with queue := l₁ ++ l₂, rangesSynced := v.rangesSynced + 1 } := by
  have hmem : ∀ q ∈ l₁ ++ l₂, q ∈ v.queue := fun q hq => hqueue ▸ mem_of_mem_remove hq
  have hcount := h.sync.count
  simp only [hqueue, pendingSyncs, List.countP_append, List.countP_cons, hsync, decide_true,
    if_true] at hcount
  refine ⟨h.frame, h.bound, h.queue.finishSync hqueue hpage, ⟨?_, ?_, h.sync.start, ?_, ?_⟩,
    h.count, h.logCursor⟩
  · simp only [pendingSyncs, List.countP_append]
    omega
  · intro h4 h5
    have hidle := h.sync.idle h4 h5
    omega
  · intro h4
    have hb := h.sync.barrier h4
    rw [hqueue] at hb
    exact barrier_remove hb hfirst
  · intro h5 q hq
    exact h.sync.done h5 q (hmem q hq)

theorem barrier_enqueueSync (h : Barrier n l) :
    Barrier (n + 1) (l ++ [⟨n, .synchronizeCache, none, .endSync⟩]) := by
  induction l with
  | nil => exact ⟨fun he => absurd he (by simp), trivial⟩
  | cons q l ih =>
    refine ⟨fun hq hrange => ?_, ih h.2⟩
    rcases Nat.lt_succ_iff_lt_or_eq.1 hrange with hlt | heq
    · obtain ⟨p, hp, hsync⟩ := h.1 hq hlt
      exact ⟨p, List.mem_append_left _ hp, hsync⟩
    · exact ⟨_, List.mem_append_right _ (List.mem_singleton_self _), rfl, heq.symm⟩

theorem PageInv.enqueueSync (h : PageInv cfg v)
    (hphase : v.ckptState = .phase4 ∨ v.ckptState = .phase5) :
    PageInv cfg
      { v with
        queue := v.queue ++ [⟨v.nextRangeToSync, .synchronizeCache, none, .endSync⟩]
        nextRangeToSync := v.nextRangeToSync + 1 } := by
  refine ⟨h.frame, h.bound, h.queue.enqueueSync _, ⟨?_, ?_, ?_, ?_, ?_⟩, h.count, h.logCursor⟩
  · have hcount := h.sync.count
    simp only [pendingSyncs, List.countP_append, List.countP_singleton, decide_true, if_true]
      at hcount ⊢
    omega
  · intro h4 h5
    rcases hphase with h | h <;> contradiction
  · intro h3
    rcases hphase with h | h <;> simp [h] at h3
  · intro h4
    exact barrier_enqueueSync (h.sync.barrier h4)
  · intro h5 q hq
    rcases List.mem_append.1 hq with hq | hq
    · exact h.sync.done h5 q hq
    · obtain rfl := List.mem_singleton.1 hq
      simp

end Changes

/-! ## Cleaning -/

section Cleaning

variable {cfg : Config} {s : State} {f : ℕ} {α : Type}

/-- The program returns, and the invariant holds then. -/
def Returns (cfg : Config) (m : Kernel α) (s : State) : Prop :=
  (m s).Sat (fun _ t => PageInv cfg t.view) (fun _ => False) fun _ _ => False

/-- The invariant holds when the program returns or yields, and no assertion fails. -/
def Safe (cfg : Config) (m : Kernel α) (s : State) : Prop :=
  (m s).Sat (fun _ t => PageInv cfg t.view) (fun t => PageInv cfg t.view) fun _ _ => False

variable {t : State}

theorem returns_of_eq {m : Kernel α} {a : α} (hm : m s = .done a t)
    (ht : PageInv cfg t.view) : Returns cfg m s := by
  unfold Returns
  rw [hm]
  exact ht

variable {lid : ℕ}

theorem incrementLID_lt {w : ℕ} (h : mainLogStart < w) : incrementLID w lid < w := by
  unfold incrementLID
  split
  · exact h
  · omega

variable {v : View}

theorem PageInv.setLogCursor (h : PageInv cfg v)
    (hlid : lid < cfg.logWrapPoint) : PageInv cfg { v with logCursor := lid } :=
  ⟨h.frame, h.bound, h.queue,
    ⟨h.sync.count, h.sync.idle, h.sync.start, h.sync.barrier, h.sync.done⟩, h.count, hlid⟩

theorem PageInv.dataPage (h : PageInv cfg v) (hf : (v.frames f).obType = .dataPage) :
    DataPageInv v.ckptState (v.frames f) := by
  simpa only [FrameInv, hf] using h.frame f

theorem PageInv.workingCopy (h : PageInv cfg v)
    (hf : (v.frames f).obType = .workingCopy) : WorkingCopyInv v.ckptState (v.frames f) := by
  simpa only [FrameInv, hf] using h.frame f

theorem PageInv.lt_nPages (h : PageInv cfg v) (hf : (v.frames f).obType ≠ .freeFrame) :
    f < cfg.nPages := by
  by_contra hge
  exact hf (h.bound f (Nat.not_lt.1 hge))

theorem PageInv.count_pos (h : PageInv cfg v) (hf : (v.frames f).obType ≠ .freeFrame)
    (hkd : (v.frames f).kroDirty = true) : 0 < v.numKRODirtyPages := by
  have hpos := countBelow_pos (h.lt_nPages hf) hkd
  rw [h.count]
  omega

/-- The header of a page whose cleaning has been started or finished. -/
def cleanedFrame (fr : PageFrame) : PageFrame := { fr with dirty := false }

theorem clearDirty_apply (hpos : (s.frames f).kro = true → 0 < s.numKRODirtyPages) :
    clearDirty f s = .done ()
      { s with
        frames := update s.frames f (cleanedFrame (s.frames f))
        numKRODirtyPages := s.numKRODirtyPages - (s.frames f).kro.toNat } := by
  cases hk : (s.frames f).kro with
  | true =>
    have hp := hpos hk
    have hle : 1 ≤ s.numKRODirtyPages := by omega
    simp [clearDirty, updateFrame, readFrame, State.setFrame, hk, Prog.when, decNumKRODirtyPages,
      kcheck, Prog.check, hle, cleanedFrame]
  | false =>
    simp [clearDirty, updateFrame, readFrame, State.setFrame, hk, Prog.when, cleanedFrame]

theorem doneCleaningPage_dataPage (hf : (s.frames f).obType = .dataPage) :
    doneCleaningPage f s = .done () (s.setFrame f { s.frames f with kro := false }) := by
  simp [doneCleaningPage, updateFrame, readFrame, State.setFrame, hf, Prog.when]

theorem doneCleaningPage_workingCopy (hf : (s.frames f).obType = .workingCopy)
    (hd : (s.frames f).dirty = false) (hp : (s.frames f).products = [])
    (hr : (s.frames f).keyRing = some []) :
    doneCleaningPage f s = .done () (s.setFrame f .free) := by
  simp [doneCleaningPage, updateFrame, readFrame, State.setFrame, hf, Prog.when, freeWorkingCopy,
    kcheck, Prog.check, hd, hp, PageFrame.ringIsEmpty, hr, releasePageFrame]

/-- The page in frame `f` can be cleaned: it is dirty, persistent and not being cleaned, and it is
kernel-read-only if the demarcation has taken place. -/
structure CanClean (s : State) (f : ℕ) : Prop where
  type : (s.frames f).obType = .dataPage ∨ (s.frames f).obType = .workingCopy
  dirty : (s.frames f).dirty = true
  idle : (s.frames f).ioreq = none
  cleanable : (s.frames f).obType = .dataPage → (s.frames f).cleanable = true
  kro : s.ckptState.demarcated → (s.frames f).kro = true

theorem PageInv.kroInv (h : PageInv cfg v)
    (hf : (v.frames f).obType = .dataPage ∨ (v.frames f).obType = .workingCopy)
    (hk : (v.frames f).kro = true) : KROInv v.ckptState (v.frames f) := by
  rcases hf with hf | hf
  · exact (h.dataPage hf).kro hk
  · exact (h.workingCopy hf).kro

theorem PageInv.not_fetching (h : PageInv cfg v)
    (hf : (v.frames f).obType = .dataPage ∨ (v.frames f).obType = .workingCopy)
    (hd : (v.frames f).dirty = true) : (v.frames f).fetching = false := by
  rcases hf with hf | hf
  · cases hfet : (v.frames f).fetching with
    | false => rfl
    | true => simp [((h.dataPage hf).fetching hfet).1] at hd
  · exact (h.workingCopy hf).kro.notFetching

theorem CanClean.not_allClean (hc : CanClean s f) (h : PageInv cfg s.view) :
    s.ckptState.allClean = false := by
  cases hall : s.ckptState.allClean with
  | false => rfl
  | true =>
    have hdem : s.ckptState.demarcated := by
      cases hck : s.ckptState <;> simp_all [CkptState.allClean, CkptState.demarcated]
    have hclean := (h.kroInv hc.type (hc.kro hdem)).cleaned hall
    simp [State.view, hc.dirty] at hclean

theorem frameInv_startWrite (h : PageInv cfg s.view) (hc : CanClean s f) (lid : ℕ)
    (hnz : ¬(s.frames f).data.IsZero) :
    FrameInv s.ckptState { cleanedFrame (s.frames f) with ioreq := some (.log lid) } := by
  have hfet := h.not_fetching hc.type hc.dirty
  rcases hc.type with hf | hf
  · have hpage := h.dataPage hf
    simp only [FrameInv, cleanedFrame, hf]
    refine ⟨hpage.cleanable, ?_, ?_, ?_, ?_, fun _ _ => hnz⟩
    · intro hnc
      simp [hc.cleanable hf] at hnc
    · intro hfet'
      exact absurd (hfet.symm.trans hfet') (by simp)
    · intro hk
      exact ⟨(hpage.kro hk).demarcated, hfet, .inr rfl, fun _ => rfl, fun _ => rfl⟩
    · intro hdem hk
      exact absurd ((hc.kro hdem).symm.trans hk) (by simp)
  · have hwc := h.workingCopy hf
    simp only [FrameInv, cleanedFrame, hf]
    exact ⟨hwc.isKRO, ⟨hwc.kro.demarcated, hfet, .inr rfl, fun _ => rfl, fun _ => rfl⟩,
      hwc.products, hwc.ring, fun _ _ => hnz⟩

theorem frameInv_cleanZero (h : PageInv cfg s.view) (hf : (s.frames f).obType = .dataPage)
    (hd : (s.frames f).dirty = true) (hidle : (s.frames f).ioreq = none)
    (hcl : (s.frames f).cleanable = true) :
    FrameInv s.ckptState { cleanedFrame (s.frames f) with kro := false } := by
  have hfet := h.not_fetching (.inl hf) hd
  have hpage := h.dataPage hf
  simp only [FrameInv, cleanedFrame, hf]
  refine ⟨hpage.cleanable, ?_, ?_, ?_, ?_, ?_⟩
  · intro hnc
    simp [hcl] at hnc
  · intro hfet'
    exact absurd (hfet.symm.trans hfet') (by simp)
  · intro hk
    simp at hk
  · intro _ _
    simp [PageFrame.beingCleaned, hidle]
  · intro hcln
    simp [PageFrame.beingCleaned, hidle] at hcln

theorem CanClean.bound (h : PageInv cfg s.view) (hc : CanClean s f) : f < cfg.nPages := by
  refine h.lt_nPages ?_
  rcases hc.type with hf | hf <;> simp [State.view, hf]

theorem CanClean.count_pos (h : PageInv cfg s.view) (hc : CanClean s f)
    (hk : (s.frames f).kro = true) : 0 < s.numKRODirtyPages := by
  refine h.count_pos (f := f) ?_ ?_
  · rcases hc.type with hf | hf <;> simp [State.view, hf]
  · simp [State.view, PageFrame.kroDirty, hk, hc.dirty]

/-- The state after `clearDirty`. -/
def State.cleared (s : State) (f : ℕ) : State :=
  { s with
    frames := update s.frames f (cleanedFrame (s.frames f))
    numKRODirtyPages := s.numKRODirtyPages - (s.frames f).kro.toNat }

/-- The entry that `cleanZeroPage` makes for the page. -/
def State.zeroRecorded (s : State) (f : ℕ) : State :=
  { s with
    logDir := update s.logDir (s.frames f).oid
      (some ⟨(s.frames f).allocCount, 0, 0, .page, s.workingGeneration⟩) }

theorem CanClean.count_eq (hc : CanClean s f) :
    s.numKRODirtyPages - (s.frames f).kro.toNat + (s.view.frames f).kroDirty.toNat =
      s.view.numKRODirtyPages + (false : Bool).toNat := by
  simp [State.view, PageFrame.kroDirty, hc.dirty]

/-- The state after a zero data page has been cleaned. -/
def State.zeroCleaned (s : State) (f : ℕ) : State :=
  ((s.cleared f).zeroRecorded f).setFrame f { cleanedFrame (s.frames f) with kro := false }

theorem cleanZeroPage_dataPage (hf : (s.frames f).obType = .dataPage) :
    cleanZeroPage f (s.cleared f) = .done () (s.zeroCleaned f) := by
  have hfr : ((s.cleared f).zeroRecorded f).frames f = cleanedFrame (s.frames f) :=
    update_self ..
  have hdone := doneCleaningPage_dataPage (show (((s.cleared f).zeroRecorded f).frames f).obType =
    .dataPage by rw [hfr]; exact hf)
  rw [hfr] at hdone
  exact hdone

section Cleaning

variable (h : PageInv cfg s.view) (hc : CanClean s f)
include h hc

theorem pageInv_zeroCleaned (hf : (s.frames f).obType = .dataPage) : PageInv cfg (s.zeroCleaned f).view := by
  have hidle : (s.view.frames f).io = none := PageFrame.io_eq_none.2 hc.idle
  have hinv : PageInv cfg { s.view with
      frames := update s.frames f { cleanedFrame (s.frames f) with kro := false }
      numKRODirtyPages := s.numKRODirtyPages - (s.frames f).kro.toNat } :=
    h.setFrame (by rw [hidle]; exact PageFrame.io_eq_none.2 hc.idle)
      (frameInv_cleanZero h hf hc.dirty hc.idle (hc.cleanable hf))
      (fun hge => absurd (hc.bound h) (Nat.not_lt.2 hge)) hc.count_eq
  simpa only [State.view, State.zeroCleaned, State.setFrame, State.zeroRecorded, State.cleared,
    update_idem] using hinv

theorem cleanZeroPage_cleared :
    Returns cfg (cleanZeroPage f) (s.cleared f) := by
  rcases hc.type with hf | hf
  · exact returns_of_eq (cleanZeroPage_dataPage hf) (pageInv_zeroCleaned h hc hf)
  · have hwc := h.workingCopy hf
    have hfr : ((s.cleared f).zeroRecorded f).frames f = cleanedFrame (s.frames f) :=
      update_self ..
    have hrun : cleanZeroPage f (s.cleared f) =
        doneCleaningPage f ((s.cleared f).zeroRecorded f) := rfl
    refine returns_of_eq (hrun.trans (doneCleaningPage_workingCopy (by rw [hfr]; exact hf)
      (by rw [hfr]; rfl) (by rw [hfr]; exact hwc.products) (by rw [hfr]; exact hwc.ring))) ?_
    have hinv : PageInv cfg { s.view with
        frames := update s.frames f .free
        numKRODirtyPages := s.numKRODirtyPages - (s.frames f).kro.toNat } :=
      h.setFrame (PageFrame.io_eq_none.2 hc.idle).symm (by simp [FrameInv, PageFrame.free])
        (fun _ => rfl) hc.count_eq
    simpa only [State.view, State.setFrame, State.zeroRecorded, State.cleared,
      update_idem] using hinv

theorem startPageWrite_cleared (hnz : ¬(s.frames f).data.IsZero) :
    Returns cfg (startPageWrite cfg f) (s.cleared f) := by
  obtain ⟨rng, hrng⟩ := Option.isSome_iff_exists.1 (cfg.mounted s.logCursor h.logCursor)
  have hlt := cfg.lidToRange_lt _ _ hrng
  have hnot := hc.not_allClean h
  have hinv : PageInv cfg { s.view with
      frames := update s.frames f
        { cleanedFrame (s.frames f) with ioreq := some (.log s.logCursor) }
      queue := s.queue ++ [⟨rng, .writeRangeLoc (.log s.logCursor), some f, .endPageClean⟩]
      numKRODirtyPages := s.numKRODirtyPages - (s.frames f).kro.toNat } := by
    refine h.startIo (PageFrame.io_eq_none.2 hc.idle) rfl ?_ (fun _ => ⟨hlt, ?_, ?_⟩)
      (frameInv_startWrite h hc _ hnz) (fun hge => absurd (hc.bound h) (Nat.not_lt.2 hge)) ?_
    · have hfet := h.not_fetching hc.type hc.dirty
      simp only [State.view] at hfet
      simp [PageFrame.io, cleanedFrame, hfet, hc.type]
    · intro h4
      simp [State.view] at h4
      simp [h4, CkptState.allClean] at hnot
    · intro h5
      simp [State.view] at h5
      simp [h5, CkptState.allClean] at hnot
    · simp [State.view, PageFrame.kroDirty, cleanedFrame, hc.dirty]
  have hinv' := hinv.setLogCursor (incrementLID_lt cfg.mainLog : incrementLID _ s.logCursor < _)
  cases hk : (s.frames f).kro with
  | false =>
    simpa [Returns, startPageWrite, readFrame, nextLogLoc, rangeOfLid, hrng, State.cleared,
      updateFrame, noteLogged, cleanedFrame, hk, Prog.when, ioreqEnqueue, State.setFrame,
      Outcome.Sat, State.view] using hinv'
  | true =>
    simpa [Returns, startPageWrite, readFrame, nextLogLoc, rangeOfLid, hrng, State.cleared,
      updateFrame, noteLogged, cleanedFrame, hk, Prog.when, ioreqEnqueue, State.setFrame,
      createLogDirEntryForNonzeroPage, recordLocation, Outcome.Sat, State.view] using hinv'

theorem cleanDataPage_returns :
    Returns cfg (cleanDataPage cfg f) s := by
  have hrun : cleanDataPage cfg f s =
      (if (s.frames f).data.IsZero then cleanZeroPage f else startPageWrite cfg f) (s.cleared f) := by
    unfold cleanDataPage
    rw [bind_apply, clearDirty_apply (hc.count_pos h), andThen_done]
    have hdata : ((s.cleared f).frames f).data = (s.frames f).data := by
      simp [State.cleared, cleanedFrame]
    rw [← hdata]
    rfl
  unfold Returns
  rw [hrun]
  split
  · exact cleanZeroPage_cleared h hc
  · rename_i hnz
    exact startPageWrite_cleared h hc hnz

end Cleaning

theorem noIORequest_sat (h : PageInv cfg s.view) (isPFH : Bool) :
    (noIORequest isPFH s).Sat (fun b t => PageInv cfg t.view ∧ (isPFH = false → b = false))
      (fun t => PageInv cfg t.view) fun _ _ => False := by
  unfold noIORequest
  split
  · rename_i hp
    exact ⟨h, fun hp' => absurd (hp.symm.trans hp') (by simp)⟩
  · exact h

theorem pageClean_sat (h : PageInv cfg s.view) (res : Resources)
    (hc : (s.frames f).ioreq = none → CanClean s f) :
    (pageClean cfg res f s).Sat (fun b t => PageInv cfg t.view ∧ (res.isPFH = false → b = false))
      (fun t => PageInv cfg t.view) fun _ _ => False := by
  simp only [pageClean, readFrame, bind_apply, andThen_done]
  cases hio : (s.frames f).ioreq with
  | some loc => exact noIORequest_sat h _
  | none =>
    have hc := hc hio
    have hclean : ((do
        cleanDataPage cfg f
        pure false : Kernel Bool) s).Sat
          (fun b t => PageInv cfg t.view ∧ (res.isPFH = false → b = false))
          (fun t => PageInv cfg t.view) fun _ _ => False := by
      have hret := cleanDataPage_returns h hc
      unfold Returns at hret
      rw [bind_apply]
      cases hd : cleanDataPage cfg f s with
      | done a t =>
        rw [hd] at hret
        exact ⟨hret, fun _ => rfl⟩
      | yield t | halt e t =>
        rw [hd] at hret
        exact hret.elim
    rcases hc.type with hf | hf <;> rw [hf] <;> simp only [Option.isSome_none, Bool.false_eq_true,
      if_false]
    all_goals
      split
      · exact hclean
      · exact noIORequest_sat h _

theorem frameInv_endPageClean {ck : CkptState} {fr : PageFrame} (h : DataPageInv ck fr)
    (hf : fr.obType = .dataPage) (hfet : fr.fetching = false) :
    FrameInv ck { fr with ioreq := none, kro := false } := by
  simp only [FrameInv, hf]
  refine ⟨h.cleanable, fun hnc => ⟨(h.nonPersistent hnc).1, rfl, rfl⟩, ?_, ?_, fun _ _ => rfl, ?_⟩
  · intro hfet'
    exact absurd (hfet.symm.trans hfet') (by simp)
  · intro hk
    simp at hk
  · intro hcln
    simp [PageFrame.beingCleaned] at hcln

theorem endPageCleanEntry_sat {loc : DiskLoc} (hio : (t.frames f).ioreq = some loc)
    (hok : (t.frames f).dirty = true → (t.frames f).kro = false) :
    ∃ dir, endPageCleanEntry f t = .done () { t with logDir := dir } := by
  cases hd : (t.frames f).dirty with
  | true =>
    refine ⟨t.logDir, ?_⟩
    simp [endPageCleanEntry, readFrame, hd, kcheck, Prog.check, hok hd]
  | false =>
    cases hk : (t.frames f).kro with
    | true =>
      refine ⟨t.logDir, ?_⟩
      simp [endPageCleanEntry, readFrame, hd, hk, Prog.when]
    | false =>
      refine ⟨update t.logDir (t.frames f).oid
        (some ⟨(t.frames f).allocCount, 0, loc.address, .page, t.workingGeneration⟩), ?_⟩
      simp [endPageCleanEntry, readFrame, hd, hk, Prog.when, createLogDirEntryForNonzeroPage, hio,
        recordLocation]

/-- `IOReq_EndPageClean`. The state `t` is that in which the request has been taken out of the
queue and the page has been written. -/
theorem endPageClean_returns (h : PageInv cfg s.view) {l₁ l₂ : List IORequest} {r : IORequest}
    (hqueue : s.queue = l₁ ++ r :: l₂) (hfirst : ∀ q ∈ l₁, q.range ≠ r.range)
    (hpage : r.page = some f) (hdone : r.doneFn = .endPageClean)
    (ht : t.view = { s.view with queue := l₁ ++ l₂ }) : Returns cfg (endPageClean f) t := by
  have hframes : t.frames = s.frames := congrArg View.frames ht
  have hmem : r ∈ s.queue := hqueue ▸ List.mem_append_right _ List.mem_cons_self
  have hio := h.queue.io_of_mem hmem hpage
  rw [hdone] at hio
  obtain ⟨loc, hioreq, -, hfet, htype⟩ := PageFrame.of_io_endPageClean hio
  simp only [State.view] at hioreq hfet htype
  have hnb : (s.frames f).kro = true → (s.frames f).dirty = false := fun hk =>
    (h.kroInv htype hk).notBoth (by simp [State.view, hioreq])
  have hkd : (s.view.frames f).kroDirty = false := by
    cases hk : (s.frames f).kro
    · simp [State.view, PageFrame.kroDirty, hk]
    · simp [State.view, PageFrame.kroDirty, hnb hk]
  have hlt : f < cfg.nPages := by
    refine h.lt_nPages ?_
    rcases htype with hf | hf <;> simp [State.view, hf]
  have hnk : (s.frames f).dirty = true → (s.frames f).kro = false := by
    intro hd
    cases hk : (s.frames f).kro with
    | false => rfl
    | true => simp [hnb hk] at hd
  obtain ⟨dir, hentry⟩ := @endPageCleanEntry_sat f t loc (by rw [hframes]; exact hioreq)
    (by rw [hframes]; exact hnk)
  set t₁ : State := { t with
    logDir := dir
    frames := update s.frames f { s.frames f with ioreq := none } } with ht₁
  have hrun : endPageClean f t = doneCleaningPage f t₁ := by
    unfold endPageClean
    rw [bind_apply, hentry, andThen_done]
    simp only [updateFrame, bind_apply, modify_apply, andThen_done, State.setFrame, ht₁, hframes]
  have hfr : t₁.frames f = { s.frames f with ioreq := none } := update_self ..
  have hview : ∀ fr, (t₁.setFrame f fr).view =
      { s.view with frames := update s.frames f fr, queue := l₁ ++ l₂ } := by
    intro fr
    have hrest : (t₁.setFrame f fr).view = { t.view with frames := update s.frames f fr } := by
      simp only [State.view, State.setFrame, ht₁, update_idem]
    rw [hrest, ht]
  rcases htype with hf | hf
  · refine returns_of_eq (hrun.trans (doneCleaningPage_dataPage (by rw [hfr]; exact hf))) ?_
    rw [hview, hfr]
    have hinv : FrameInv s.ckptState { s.frames f with ioreq := none, kro := false } :=
      frameInv_endPageClean (h.dataPage hf) hf hfet
    exact h.finishIo hqueue hfirst hpage rfl hinv
      (fun hge => absurd hlt (Nat.not_lt.2 hge)) (by rw [hkd]; simp [State.view, PageFrame.kroDirty])
  · have hwc := h.workingCopy hf
    refine returns_of_eq (hrun.trans (doneCleaningPage_workingCopy (by rw [hfr]; exact hf)
      (by rw [hfr]; exact hnb hwc.isKRO) (by rw [hfr]; exact hwc.products)
      (by rw [hfr]; exact hwc.ring))) ?_
    rw [hview]
    exact h.finishIo hqueue hfirst hpage rfl (by simp [FrameInv, PageFrame.free]) (fun _ => rfl)
      (by rw [hkd]; simp [State.view, PageFrame.kroDirty, PageFrame.free])

end Cleaning

end CapROS.ObjectCache
