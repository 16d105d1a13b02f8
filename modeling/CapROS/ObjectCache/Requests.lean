import CapROS.ObjectCache.System

/-!
# The queue of I/O requests

The headers of page frames and the queue of requests tell the same: each request but the
synchronizations is that of one frame, and a frame that is being read or written is the page of one
request.
-/

namespace CapROS.ObjectCache

open Yielding
open Function (update update_idem update_self update_of_ne)

/-- The frame has an I/O request and is not being fetched, so that it is being written. -/
def PageFrame.beingCleaned (fr : PageFrame) : Bool := fr.ioreq.isSome && !fr.fetching

/-- The I/O that a frame takes part in, as its header tells it. -/
def PageFrame.io (fr : PageFrame) : Option (RequestType × DoneFn) :=
  fr.ioreq.map fun loc =>
    if fr.fetching then (.readRangeLoc loc, .endReadPage)
    else if fr.obType = .dataPage ∨ fr.obType = .workingCopy then
      (.writeRangeLoc loc, .endPageClean)
    else (.writeRangeLoc loc, .endWrite)

/-- The request is what the header of its page tells, or a synchronization. -/
def RequestOk (cfg : Config) (frames : ℕ → PageFrame) (r : IORequest) : Prop :=
  (r.doneFn = .endSync ∧ r.page = none) ∨
    ∃ f, r.page = some f ∧ (frames f).io = some (r.request, r.doneFn) ∧
      (r.doneFn = .endPageClean → r.range < cfg.nLidRanges)

/-- The queue and the headers of the frames agree. -/
structure QueueInv (cfg : Config) (frames : ℕ → PageFrame) (queue : List IORequest) : Prop where
  requests : ∀ r ∈ queue, RequestOk cfg frames r
  nodup : (queue.filterMap IORequest.page).Nodup
  enqueued : ∀ f, (frames f).io.isSome → ∃ r ∈ queue, r.page = some f

section QueueInv

variable {cfg : Config} {frames : ℕ → PageFrame} {queue : List IORequest} {f : ℕ} {fr : PageFrame}

variable {fr : PageFrame}

theorem PageFrame.io_eq_none : fr.io = none ↔ fr.ioreq = none := by
  simp [PageFrame.io]

variable {rt : RequestType}

theorem PageFrame.io_ne_endSync {fn : DoneFn} (hio : fr.io = some (rt, fn)) : fn ≠ .endSync := by
  obtain ⟨loc, -, hio⟩ := Option.map_eq_some_iff.1 hio
  split_ifs at hio <;> simp [← (Prod.mk.inj hio).2]

theorem PageFrame.io_congr {fr' : PageFrame} (hf : fr.fetching = fr'.fetching)
    (hio : fr.ioreq = fr'.ioreq) (ht : fr.obType = fr'.obType) : fr.io = fr'.io := by
  rw [PageFrame.io, PageFrame.io, hio]
  refine Option.map_congr fun loc _ => ?_
  rw [hf, ht]

theorem io_update {frames : ℕ → PageFrame} (hio : fr.io = (frames f).io) (g : ℕ) :
    (update frames f fr g).io = (frames g).io := by
  rcases eq_or_ne g f with rfl | hne
  · rw [update_self, hio]
  · rw [update_of_ne hne]

variable {l₁ l₂ : List IORequest} {r : IORequest}

theorem mem_of_mem_remove {q : IORequest} (hq : q ∈ l₁ ++ l₂) :
    q ∈ l₁ ++ r :: l₂ := by
  rcases List.mem_append.1 hq with hq | hq
  · exact List.mem_append_left _ hq
  · exact List.mem_append_right _ (List.mem_cons_of_mem _ hq)

theorem page_ne_of_nodup (hpage : r.page = some f)
    (hnodup : ((l₁ ++ r :: l₂).filterMap IORequest.page).Nodup) :
    ∀ q ∈ l₁ ++ l₂, q.page ≠ some f := by
  intro q hq hqf
  simp only [List.filterMap_append, List.filterMap_cons, hpage] at hnodup
  obtain ⟨-, h₂, hdisj⟩ := List.nodup_append.1 hnodup
  rcases List.mem_append.1 hq with hq | hq
  · exact hdisj f (List.mem_filterMap.2 ⟨q, hq, hqf⟩) f List.mem_cons_self rfl
  · exact (List.nodup_cons.1 h₂).1 (List.mem_filterMap.2 ⟨q, hq, hqf⟩)

theorem PageFrame.of_io_endPageClean (hio : fr.io = some (rt, .endPageClean)) :
    ∃ loc, fr.ioreq = some loc ∧ rt = .writeRangeLoc loc ∧ fr.fetching = false ∧
      (fr.obType = .dataPage ∨ fr.obType = .workingCopy) := by
  obtain ⟨loc, hreq, hio⟩ := Option.map_eq_some_iff.1 hio
  split_ifs at hio with hfet htype
  · cases hio
  · exact ⟨loc, hreq, (Prod.mk.inj hio).1.symm, by simpa using hfet, htype⟩
  · cases hio

theorem PageFrame.of_io_endReadPage (hio : fr.io = some (rt, .endReadPage)) :
    ∃ loc, fr.ioreq = some loc ∧ fr.fetching = true ∧ rt = .readRangeLoc loc := by
  obtain ⟨loc, hreq, hio⟩ := Option.map_eq_some_iff.1 hio
  split_ifs at hio with hfet
  · exact ⟨loc, hreq, hfet, (Prod.mk.inj hio).1.symm⟩
  · cases hio
  · cases hio

theorem PageFrame.of_io_endWrite (hio : fr.io = some (rt, .endWrite)) :
    ∃ loc, fr.ioreq = some loc ∧ rt = .writeRangeLoc loc ∧ fr.fetching = false ∧
      fr.obType ≠ .dataPage ∧ fr.obType ≠ .workingCopy := by
  obtain ⟨loc, hreq, hio⟩ := Option.map_eq_some_iff.1 hio
  split_ifs at hio with hfet htype
  · cases hio
  · cases hio
  · exact ⟨loc, hreq, (Prod.mk.inj hio).1.symm, by simpa using hfet, not_or.1 htype⟩

theorem QueueInv.io_of_mem (h : QueueInv cfg frames queue) (hr : r ∈ queue)
    (hpage : r.page = some f) : (frames f).io = some (r.request, r.doneFn) := by
  rcases h.requests r hr with ⟨-, hnone⟩ | ⟨g, hg, hio, -⟩
  · simp [hpage] at hnone
  · obtain rfl : f = g := Option.some.inj (hpage.symm.trans hg)
    exact hio

theorem QueueInv.page_ne (h : QueueInv cfg frames queue) (hidle : (frames f).io = none) :
    ∀ r ∈ queue, r.page ≠ some f := by
  intro r hr hpage
  have hio := h.io_of_mem hr hpage
  simp [hidle] at hio

theorem RequestOk.update (h : RequestOk cfg frames r) (hne : r.page ≠ some f) :
    RequestOk cfg (update frames f fr) r := by
  rcases h with hsync | ⟨g, hg, hreq, hrange⟩
  · exact .inl hsync
  · have hgf : g ≠ f := by
      rintro rfl
      exact hne hg
    exact .inr ⟨g, hg, by rw [update_of_ne hgf]; exact hreq, hrange⟩

section QueueInv

variable (h : QueueInv cfg frames queue)
include h

theorem QueueInv.setFrame (hio : fr.io = (frames f).io) :
    QueueInv cfg (update frames f fr) queue where
  requests r hr := by
    rcases h.requests r hr with hsync | ⟨g, hg, hreq, hrange⟩
    · exact .inl hsync
    · exact .inr ⟨g, hg, (io_update hio g).trans hreq, hrange⟩
  nodup := h.nodup
  enqueued g hg := by
    rw [io_update hio g] at hg
    exact h.enqueued g hg

theorem QueueInv.start (hidle : (frames f).io = none)
    (hpage : r.page = some f) (hio : fr.io = some (r.request, r.doneFn))
    (hclean : r.doneFn = .endPageClean → r.range < cfg.nLidRanges) :
    QueueInv cfg (update frames f fr) (queue ++ [r]) := by
  refine ⟨?_, ?_, ?_⟩
  · intro q hq
    rcases List.mem_append.1 hq with hq | hq
    · exact (h.requests q hq).update (h.page_ne hidle q hq)
    · obtain rfl := List.mem_singleton.1 hq
      refine .inr ⟨f, hpage, ?_, hclean⟩
      rw [update_self]
      exact hio
  · simp only [List.filterMap_append, List.filterMap_cons, hpage, List.filterMap_nil]
    refine List.nodup_append.2 ⟨h.nodup, List.nodup_singleton f, ?_⟩
    intro a ha b hb
    obtain rfl := List.mem_singleton.1 hb
    rintro rfl
    obtain ⟨q, hq, hqa⟩ := List.mem_filterMap.1 ha
    exact h.page_ne hidle q hq hqa
  · intro g hg
    rcases eq_or_ne g f with rfl | hne
    · exact ⟨r, List.mem_append_right _ (List.mem_singleton_self r), hpage⟩
    · simp only [update_of_ne hne] at hg
      obtain ⟨q, hq, hqg⟩ := h.enqueued g hg
      exact ⟨q, List.mem_append_left _ hq, hqg⟩

theorem QueueInv.enqueued_remove (hqueue : queue = l₁ ++ r :: l₂) {g : ℕ} (hg : (frames g).io.isSome)
    (hne : r.page ≠ some g) : ∃ q ∈ l₁ ++ l₂, q.page = some g := by
  obtain ⟨q, hq, hqg⟩ := h.enqueued g hg
  rw [hqueue] at hq
  rcases List.mem_append.1 hq with hq | hq
  · exact ⟨q, List.mem_append_left _ hq, hqg⟩
  · rcases List.mem_cons.1 hq with rfl | hq
    · exact absurd hqg hne
    · exact ⟨q, List.mem_append_right _ hq, hqg⟩

theorem QueueInv.finish (hqueue : queue = l₁ ++ r :: l₂) (hpage : r.page = some f) (hio : fr.io = none) :
    QueueInv cfg (update frames f fr) (l₁ ++ l₂) := by
  have hnodup := h.nodup
  rw [hqueue] at hnodup
  have hne := page_ne_of_nodup hpage hnodup
  refine ⟨?_, ?_, ?_⟩
  · intro q hq
    exact (h.requests q (hqueue ▸ mem_of_mem_remove hq)).update (hne q hq)
  · refine List.Nodup.sublist (List.Sublist.filterMap _ ?_) hnodup
    exact List.Sublist.append_left (List.sublist_cons_self r l₂) l₁
  · intro g hg
    rcases eq_or_ne g f with rfl | hgf
    · simp [update_self, hio] at hg
    · simp only [update_of_ne hgf] at hg
      refine h.enqueued_remove hqueue hg fun hpg => hgf ?_
      exact Option.some.inj (hpg.symm.trans hpage)

theorem QueueInv.finishSync (hqueue : queue = l₁ ++ r :: l₂) (hpage : r.page = none) : QueueInv cfg frames (l₁ ++ l₂) where
  requests q hq := h.requests q (hqueue ▸ mem_of_mem_remove hq)
  nodup := by
    have hnodup := h.nodup
    simpa only [hqueue, List.filterMap_append, List.filterMap_cons, hpage] using hnodup
  enqueued g hg := h.enqueued_remove hqueue hg (by simp [hpage])

theorem QueueInv.enqueueSync (range : ℕ) :
    QueueInv cfg frames (queue ++ [⟨range, .synchronizeCache, none, .endSync⟩]) where
  requests q hq := by
    rcases List.mem_append.1 hq with hq | hq
    · exact h.requests q hq
    · obtain rfl := List.mem_singleton.1 hq
      exact .inl ⟨rfl, rfl⟩
  nodup := by simpa [List.filterMap_append] using h.nodup
  enqueued g hg := by
    obtain ⟨q, hq, hqg⟩ := h.enqueued g hg
    exact ⟨q, List.mem_append_left _ hq, hqg⟩

end QueueInv

end QueueInv

/-! ## Allocation -/

theorem grabPageFrame_bind_sat {cfg : Config} {s : State} {α : Type} {k : ℕ → Kernel α}
    {alloc : Option ℕ} {Q : α → State → Prop} {Y : State → Prop} {E : Halt → State → Prop} (hY : Y s)
    (hk : ∀ g, g < cfg.nPages → (s.frames g).obType = .freeFrame →
      (k g (s.setFrame g { obType := .newAlloc })).Sat Q Y E) :
    ((grabPageFrame cfg alloc >>= k) s).Sat Q Y E := by
  rw [bind_apply]
  cases alloc with
  | none => exact hY
  | some g =>
    simp only [grabPageFrame]
    split
    · rename_i hg
      exact hk g hg.1 hg.2
    · exact hY

/-! ## Completion -/

section Completion

variable {cfg : Config} {s : State}

/-- The request is the oldest of its range, with `l₁` before it in the queue and `l₂` behind it. -/
structure Oldest (queue l₁ l₂ : List IORequest) (r : IORequest) : Prop where
  queue : queue = l₁ ++ r :: l₂
  first : ∀ q ∈ l₁, q.range ≠ r.range

theorem Oldest.mem {queue l₁ l₂ : List IORequest} {r : IORequest} (h : Oldest queue l₁ l₂ r) :
    r ∈ queue := h.queue ▸ List.mem_append_right _ List.mem_cons_self

/-- What ends up on the disk when the page in the frame `f` is written. -/
def State.writtenData (s : State) (f : ℕ) (torn : FrameData) : FrameData :=
  if (s.frames f).dirty then torn else (s.frames f).data

/-- The queue and the disk after a page has been written. -/
def State.afterWrite (s : State) (queue : List IORequest) (f : ℕ) (loc : DiskLoc)
    (torn : FrameData) : State :=
  { s with queue, disk := update s.disk loc (s.writtenData f torn) }

theorem ioComplete_sat (h : QueueInv cfg s.frames s.queue) (i : ℕ) (torn : FrameData)
    {Q : Unit → State → Prop} {Y : State → Prop} {E : Halt → State → Prop} (hidle : Y s)
    (hsync : ∀ l₁ l₂ r, Oldest s.queue l₁ l₂ r → r.doneFn = .endSync → r.page = none →
      Q () { s with queue := l₁ ++ l₂, rangesSynced := s.rangesSynced + 1 })
    (hread : ∀ l₁ l₂ r f loc, Oldest s.queue l₁ l₂ r → r.page = some f →
      r.doneFn = .endReadPage → r.request = .readRangeLoc loc →
      (s.frames f).ioreq = some loc → (s.frames f).fetching = true →
      Q () { s with
        queue := l₁ ++ l₂
        frames := update s.frames f
          { s.frames f with data := s.disk loc, ioreq := none, fetching := false } })
    (hwrite : ∀ l₁ l₂ r f loc, Oldest s.queue l₁ l₂ r → r.page = some f →
      r.doneFn = .endWrite → r.request = .writeRangeLoc loc →
      (s.frames f).ioreq = some loc → (s.frames f).fetching = false →
      Q () ((s.afterWrite (l₁ ++ l₂) f loc torn).setFrame f { s.frames f with ioreq := none }))
    (hclean : ∀ l₁ l₂ r f loc, Oldest s.queue l₁ l₂ r → r.page = some f →
      r.doneFn = .endPageClean → r.request = .writeRangeLoc loc →
      (s.frames f).ioreq = some loc → (s.frames f).fetching = false →
      (s.frames f).obType = .dataPage ∨ (s.frames f).obType = .workingCopy →
      (endPageClean f (s.afterWrite (l₁ ++ l₂) f loc torn)).Sat Q Y E) :
    (ioComplete i torn s).Sat Q Y E := by
  unfold ioComplete
  split
  · exact hidle
  rename_i r hr
  split
  swap
  · exact hidle
  rename_i hnext
  have hi : i < s.queue.length := (List.getElem?_eq_some_iff.1 hr).1
  have hri : s.queue[i] = r := (List.getElem?_eq_some_iff.1 hr).2
  have hold : Oldest s.queue (s.queue.take i) (s.queue.drop (i + 1)) r := by
    refine ⟨?_, by simpa [isNext] using hnext⟩
    rw [← hri, List.getElem_cons_drop, List.take_append_drop]
  have herase : s.queue.eraseIdx i = s.queue.take i ++ s.queue.drop (i + 1) :=
    List.eraseIdx_eq_take_drop_succ ..
  rw [herase]
  rcases h.requests r hold.mem with ⟨hdone, hnone⟩ | ⟨f, hpage, hio, -⟩
  · have hq := hsync _ _ r hold hdone hnone
    simp only [runDoneFn, transfer, hdone, hnone, endSync, modify_apply]
    exact hq
  · cases hdone : r.doneFn with
    | endReadPage =>
      rw [hdone] at hio
      obtain ⟨loc, hreq, hfet, hrt⟩ := PageFrame.of_io_endReadPage hio
      have hq := hread _ _ r f loc hold hpage hdone hrt hreq hfet
      simp only [runDoneFn, transfer, hdone, hpage, hrt, endRead, updateFrame, modify_apply,
        State.setFrame, update_self, update_idem]
      exact hq
    | endWrite =>
      rw [hdone] at hio
      obtain ⟨loc, hreq, hrt, hfet, -⟩ := PageFrame.of_io_endWrite hio
      have hq := hwrite _ _ r f loc hold hpage hdone hrt hreq hfet
      simp only [runDoneFn, transfer, hdone, hpage, hrt]
      exact hq
    | endPageClean =>
      rw [hdone] at hio
      obtain ⟨loc, hreq, hrt, hfet, htype⟩ := PageFrame.of_io_endPageClean hio
      have hq := hclean _ _ r f loc hold hpage hdone hrt hreq hfet htype
      simp only [runDoneFn, transfer, hdone, hpage, hrt]
      exact hq
    | endSync => exact absurd hdone (PageFrame.io_ne_endSync hio)

end Completion

end CapROS.ObjectCache
