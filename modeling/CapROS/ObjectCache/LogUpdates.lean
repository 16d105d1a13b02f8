import CapROS.ObjectCache.Requests

/-!
# What the log directory refers to

An entry of the log directory is made before the frame it refers to has been written, or at the
moment at which it has been. In every run in which a log pot is only made while there is an I/O
request to write it, no entry of the working generation is left behind with nothing to back it:
the content of the frame it refers to is on the disk or in a request.

* `LogStep`: the condition on an operation.
* `noLostUpdate_run`: all runs that meet the condition.
-/

namespace CapROS.ObjectCache

open Yielding
open Function (update update_self update_of_ne)

/-! ## The invariant -/

/-- The first location of the frame of the log in which the location lies. -/
def logFrame (loc : ℕ) : ℕ := frameToOID (oidToFrame loc)

/-- The frames that are being written to the frame `lid` of the log, in the order of their
requests. -/
def writers (queue : List IORequest) (lid : ℕ) : List ℕ :=
  queue.filterMap fun r => if r.request = .writeRangeLoc (.log lid) then r.page else none

/-- The page may be dirty when it has been written: it is so already, or it is a current version
that can still be written to. -/
def PageFrame.exposed (fr : PageFrame) : Bool :=
  fr.dirty || (decide (fr.obType = .dataPage) && !fr.kro)

/-- The part of the state that decides what is in the log. -/
structure LogView where
  frames : ℕ → PageFrame
  queue : List IORequest
  disk : DiskLoc → FrameData
  logged : ℕ → Option FrameData
  logDir : ℕ → Option DirEntry
  workingGeneration : ℕ
  logCursor : ℕ
  nodesToClean : List ℕ

/-- The part of the state that decides what is in the log. -/
def State.logView (s : State) : LogView :=
  ⟨s.frames, s.queue, s.disk, s.logged, s.logDir, s.workingGeneration, s.logCursor,
    s.nodesToClean⟩

/-- An entry of the working generation refers to the frame `lid` of the log. -/
def LogView.Refers (v : LogView) (lid : ℕ) : Prop :=
  ∃ oid e, v.logDir oid = some e ∧ e.generation = v.workingGeneration ∧ e.logLoc ≠ 0 ∧
    logFrame e.logLoc = lid

/-- What the kernel means to have in the frame `lid` of the log is there, or is what the last
request for the frame writes. -/
structure LogView.Secure (v : LogView) (lid : ℕ) : Prop where
  onDisk : writers v.queue lid = [] → v.logged lid = some (v.disk (.log lid))
  beingWritten : ∀ f, (writers v.queue lid).getLast? = some f → (v.frames f).exposed = false

/-- What holds of the header of a frame whatever the checkpoint does. -/
structure FrameOk (fr : PageFrame) : Prop where
  fetching : fr.fetching = true → fr.ioreq.isSome
  pot : fr.obType = .logPot ∨ fr.obType = .homePot ∨ fr.obType = .tagPot → fr.dirty = false
  unused : fr.obType = .freeFrame ∨ fr.obType = .newAlloc ∨ fr.obType = .kernelUse →
    fr.ioreq = none

structure LogInv (cfg : Config) (v : LogView) : Prop where
  frame : ∀ f, FrameOk (v.frames f)
  queue : QueueInv cfg v.frames v.queue
  /-- What is written is written to a frame of the log, by the range that has it. -/
  range : ∀ r ∈ v.queue, ∀ loc, r.request = .writeRangeLoc loc →
    ∃ lid, loc = .log lid ∧ cfg.lidToRange lid = some r.range ∧ oidToObIndex lid = 0
  /-- A page that is clean while it is being written has not been changed since. -/
  written : ∀ lid f, (writers v.queue lid).getLast? = some f → (v.frames f).dirty = false →
    v.logged lid = some (v.frames f).data
  /-- A location is not shared with a page whose writing may turn out to be a waste of time. -/
  single : ∀ lid f, (writers v.queue lid).getLast? = some f → (v.frames f).exposed = true →
    writers v.queue lid = [f]
  secure : ∀ lid, v.Refers lid → v.Secure lid
  generation : ∀ oid e, v.logDir oid = some e → e.generation ≤ v.workingGeneration
  aligned : oidToObIndex v.logCursor = 0
  candidates : v.nodesToClean.length ≤ diskNodesPerPage

/-- The content of the frame `lid` of the log is on the disk, or queued in a request to write it,
or held in a frame that is marked dirty. -/
def Backed (s : State) (lid : ℕ) : Prop :=
  ∃ d, s.logged lid = some d ∧
    (s.disk (.log lid) = d ∨
      (∃ r ∈ s.queue, ∃ f, r.request = .writeRangeLoc (.log lid) ∧ r.page = some f ∧
        (s.frames f).data = d) ∨
      ∃ f, (s.frames f).dirty = true ∧ (s.frames f).data = d)

/-- Every entry of the working generation that has a location refers to a frame that is backed. -/
def NoLostUpdate (s : State) : Prop :=
  ∀ oid e, s.logDir oid = some e → e.generation = s.workingGeneration → e.logLoc ≠ 0 →
    Backed s (logFrame e.logLoc)

/-! ## Writers -/

section Writers

variable {cfg : Config} {v : LogView} {lid f : ℕ}

theorem mem_writers {queue : List IORequest} :
    f ∈ writers queue lid ↔
      ∃ r ∈ queue, r.request = .writeRangeLoc (.log lid) ∧ r.page = some f := by
  simp only [writers, List.mem_filterMap]
  refine exists_congr fun r => and_congr_right fun _ => ?_
  split
  · rename_i hreq
    exact ⟨fun hpage => ⟨hreq, hpage⟩, fun h => h.2⟩
  · rename_i hreq
    exact ⟨nofun, fun h => absurd h.1 hreq⟩

theorem writers_append (queue : List IORequest) (r : IORequest) :
    writers (queue ++ [r]) lid =
      writers queue lid ++
        (if r.request = .writeRangeLoc (.log lid) then r.page.toList else []) := by
  simp only [writers, List.filterMap_append]
  congr 1
  split <;> cases hpage : r.page <;> simp_all

theorem LogInv.of_mem_writers (h : LogInv cfg v) (hf : f ∈ writers v.queue lid) :
    (v.frames f).ioreq = some (.log lid) ∧ (v.frames f).fetching = false := by
  obtain ⟨r, hr, hreq, hpage⟩ := mem_writers.1 hf
  have hio := h.queue.io_of_mem hr hpage
  rw [hreq] at hio
  rcases hioreq : (v.frames f).ioreq with - | loc
  · simp [PageFrame.io, hioreq] at hio
  · simp only [PageFrame.io, hioreq, Option.map_some, Option.some.injEq] at hio
    split at hio
    · simp at hio
    · rename_i hfet
      have hloc : loc = .log lid := by
        split at hio <;> exact RequestType.writeRangeLoc.inj (Prod.mk.inj hio).1
      exact ⟨congrArg some hloc, by simpa using hfet⟩

theorem LogInv.not_mem_writers (h : LogInv cfg v) (hidle : (v.frames f).io = none) :
    f ∉ writers v.queue lid := by
  intro hf
  have hio := (h.of_mem_writers hf).1
  rw [PageFrame.io_eq_none] at hidle
  simp [hidle] at hio

theorem LogInv.beingCleaned_of_last (h : LogInv cfg v)
    (hf : (writers v.queue lid).getLast? = some f) : (v.frames f).beingCleaned = true := by
  obtain ⟨hio, hfet⟩ := h.of_mem_writers (List.mem_of_getLast? hf)
  simp [PageFrame.beingCleaned, hio, hfet]

variable {l₁ l₂ : List IORequest} {r : IORequest}

theorem writers_remove_of_ne (hreq : r.request = .writeRangeLoc (.log lid) → r.page = none) :
    writers (l₁ ++ r :: l₂) lid = writers (l₁ ++ l₂) lid := by
  have hnone : (if r.request = .writeRangeLoc (.log lid) then r.page else none) = none := by
    split
    · rename_i h
      exact hreq h
    · rfl
  simp only [writers, List.filterMap_append, List.filterMap_cons, hnone]

theorem LogInv.writers_remove (h : LogInv cfg v)
    (hqueue : v.queue = l₁ ++ r :: l₂) (hfirst : ∀ q ∈ l₁, q.range ≠ r.range)
    (hreq : r.request = .writeRangeLoc (.log lid)) (hpage : r.page = some f) :
    writers v.queue lid = f :: writers (l₁ ++ l₂) lid := by
  have hrange : ∀ q ∈ v.queue, q.request = .writeRangeLoc (.log lid) →
      cfg.lidToRange lid = some q.range := by
    intro q hq hqreq
    obtain ⟨lid', hlid, hsome, -⟩ := h.range q hq _ hqreq
    obtain rfl := DiskLoc.log.inj hlid
    exact hsome
  have hr : r ∈ v.queue := hqueue ▸ List.mem_append_right _ List.mem_cons_self
  have hnone : writers l₁ lid = [] := by
    refine List.filterMap_eq_nil_iff.2 fun q hq => if_neg fun hqreq => hfirst q hq ?_
    have hqr := hrange q (hqueue ▸ List.mem_append_left _ hq) hqreq
    exact Option.some.inj (hqr.symm.trans (hrange r hr hreq))
  have happend : ∀ l, writers (l₁ ++ l) lid = writers l lid := by
    intro l
    rw [writers, List.filterMap_append]
    exact (congrArg (· ++ _) hnone).trans (List.nil_append _)
  rw [hqueue, happend, happend]
  simp [writers, hreq, hpage]

end Writers

/-! ## Changes of single frames, requests and entries -/

section Changes

variable {cfg : Config} {v : LogView} {f : ℕ} {fr : PageFrame}

variable {frames : ℕ → PageFrame}

theorem frameOk_update (h : ∀ g, FrameOk (frames g)) (hfr : FrameOk fr)
    (g : ℕ) : FrameOk (update frames f fr g) := by
  rcases eq_or_ne g f with rfl | hne
  · rw [update_self]
    exact hfr
  · rw [update_of_ne hne]
    exact h g

/-- A frame changes without a change of its I/O. If it is being written, it does not come to be
exposed, and what it holds only changes if it is dirty afterwards. -/
theorem LogInv.setFrame (h : LogInv cfg v) (hfr : FrameOk fr) (hio : fr.io = (v.frames f).io)
    (hdata : (v.frames f).beingCleaned = true → fr.dirty = false →
      (v.frames f).dirty = false ∧ fr.data = (v.frames f).data)
    (hexp : (v.frames f).beingCleaned = true → fr.exposed = true → (v.frames f).exposed = true) :
    LogInv cfg { v with frames := update v.frames f fr } where
  frame := frameOk_update h.frame hfr
  queue := h.queue.setFrame hio
  range := h.range
  written lid g hg hd := by
    rcases eq_or_ne g f with rfl | hne
    · simp only [update_self] at hd ⊢
      obtain ⟨hold, hsame⟩ := hdata (h.beingCleaned_of_last hg) hd
      rw [hsame]
      exact h.written lid g hg hold
    · simp only [update_of_ne hne] at hd ⊢
      exact h.written lid g hg hd
  single lid g hg he := by
    rcases eq_or_ne g f with rfl | hne
    · simp only [update_self] at he
      exact h.single lid g hg (hexp (h.beingCleaned_of_last hg) he)
    · simp only [update_of_ne hne] at he
      exact h.single lid g hg he
  secure lid hlid := by
    obtain ⟨hdisk, hlast⟩ := h.secure lid hlid
    refine ⟨hdisk, fun g hg => ?_⟩
    rcases eq_or_ne g f with rfl | hne
    · simp only [update_self]
      cases he : fr.exposed with
      | false => rfl
      | true =>
        have hold := hexp (h.beingCleaned_of_last hg) he
        exact absurd (hlast g hg) (by simp [hold])
    · simp only [update_of_ne hne]
      exact hlast g hg
  generation := h.generation
  aligned := h.aligned
  candidates := h.candidates

theorem LogInv.setIdle (h : LogInv cfg v) (hfr : FrameOk fr) (hidle : (v.frames f).ioreq = none)
    (hio : fr.ioreq = none) : LogInv cfg { v with frames := update v.frames f fr } := by
  refine h.setFrame hfr ?_ ?_ ?_
  · rw [PageFrame.io_eq_none.2 hidle, PageFrame.io_eq_none.2 hio]
  · simp [PageFrame.beingCleaned, hidle]
  · simp [PageFrame.beingCleaned, hidle]

variable {dir : ℕ → Option DirEntry}

/-- The log directory changes: an entry of the working generation is an old one, or it refers to a
frame that is secure. -/
theorem LogInv.setLogDir (h : LogInv cfg v)
    (hdir : ∀ oid e, dir oid = some e → v.logDir oid = some e ∨
      (e.generation = v.workingGeneration ∧ (e.logLoc ≠ 0 → v.Secure (logFrame e.logLoc)))) :
    LogInv cfg { v with logDir := dir } where
  frame := h.frame
  queue := h.queue
  range := h.range
  written := h.written
  single := h.single
  secure lid hlid := by
    obtain ⟨oid, e, he, hgen, hnz, rfl⟩ := hlid
    suffices hs : v.Secure (logFrame e.logLoc) from ⟨hs.onDisk, hs.beingWritten⟩
    rcases hdir oid e he with hold | ⟨-, hnew⟩
    · exact h.secure _ ⟨oid, e, hold, hgen, hnz, rfl⟩
    · exact hnew hnz
  generation oid e he := by
    rcases hdir oid e he with hold | ⟨hgen, -⟩
    · exact h.generation oid e hold
    · exact hgen.le
  aligned := h.aligned
  candidates := h.candidates

variable {lid : ℕ}

theorem LogInv.setLogCursor (h : LogInv cfg v) (hlid : oidToObIndex lid = 0) :
    LogInv cfg { v with logCursor := lid } :=
  ⟨h.frame, h.queue, h.range, h.written, h.single,
    fun lid hlid => ⟨(h.secure lid hlid).onDisk, (h.secure lid hlid).beingWritten⟩,
    h.generation, hlid, h.candidates⟩

theorem LogInv.setCandidates (h : LogInv cfg v) {l : List ℕ} (hl : l.length ≤ diskNodesPerPage) :
    LogInv cfg { v with nodesToClean := l } :=
  ⟨h.frame, h.queue, h.range, h.written, h.single,
    fun lid hlid => ⟨(h.secure lid hlid).onDisk, (h.secure lid hlid).beingWritten⟩,
    h.generation, h.aligned, hl⟩

theorem LogInv.nextGeneration (h : LogInv cfg v) :
    LogInv cfg { v with workingGeneration := v.workingGeneration + 1 } where
  frame := h.frame
  queue := h.queue
  range := h.range
  written := h.written
  single := h.single
  secure lid hlid := by
    obtain ⟨oid, e, he, hgen, -⟩ := hlid
    have hle := h.generation oid e he
    simp only at hgen
    omega
  generation oid e he := Nat.le_succ_of_le (h.generation oid e he)
  aligned := h.aligned
  candidates := h.candidates

variable {loc : DiskLoc} {r : IORequest}

theorem LogInv.startRead (h : LogInv cfg v) (hfr : FrameOk fr) (hidle : (v.frames f).io = none)
    (hpage : r.page = some f) (hreq : r.request = .readRangeLoc loc)
    (hio : fr.io = some (r.request, r.doneFn)) (hdone : r.doneFn = .endReadPage) :
    LogInv cfg { v with
      frames := update v.frames f fr
      queue := v.queue ++ [r] } := by
  have hwriters : ∀ lid, writers (v.queue ++ [r]) lid = writers v.queue lid := by
    intro lid
    simp [writers_append, hreq]
  have hne : ∀ lid g, (writers v.queue lid).getLast? = some g → g ≠ f := by
    rintro lid g hg rfl
    exact h.not_mem_writers hidle (List.mem_of_getLast? hg)
  refine ⟨frameOk_update h.frame hfr, h.queue.start hidle hpage hio (by simp [hdone]), ?_, ?_, ?_, ?_,
    h.generation, h.aligned, h.candidates⟩
  · intro q hq loc' hloc
    rcases List.mem_append.1 hq with hq | hq
    · exact h.range q hq loc' hloc
    · obtain rfl := List.mem_singleton.1 hq
      simp [hreq] at hloc
  · intro lid g hg hd
    simp only [hwriters] at hg
    simp only [update_of_ne (hne lid g hg)] at hd ⊢
    exact h.written lid g hg hd
  · intro lid g hg he
    simp only [hwriters] at hg ⊢
    simp only [update_of_ne (hne lid g hg)] at he
    exact h.single lid g hg he
  · intro lid hlid
    obtain ⟨hdisk, hlast⟩ := h.secure lid hlid
    refine ⟨fun hnil => hdisk ((hwriters lid).symm.trans hnil), fun g hg => ?_⟩
    simp only [hwriters] at hg
    simp only [update_of_ne (hne lid g hg)]
    exact hlast g hg

/-- A frame starts to be written to the frame `lid` of the log. New entries may refer to it, unless
the page is exposed; then the frame of the log must not be in use. -/
theorem LogInv.startWrite (h : LogInv cfg v) (hfr : FrameOk fr) (hidle : (v.frames f).io = none)
    (hpage : r.page = some f)
    (hreq : r.request = .writeRangeLoc (.log lid)) (hio : fr.io = some (r.request, r.doneFn))
    (hrange : cfg.lidToRange lid = some r.range) (halign : oidToObIndex lid = 0)
    (hdir : ∀ oid e, dir oid = some e → v.logDir oid = some e ∨
      (e.generation = v.workingGeneration ∧
        (e.logLoc ≠ 0 → logFrame e.logLoc = lid ∧ fr.exposed = false)))
    (hfree : fr.exposed = true → writers v.queue lid = [] ∧ ¬v.Refers lid) :
    LogInv cfg { v with
      frames := update v.frames f fr
      queue := v.queue ++ [r]
      logged := update v.logged lid (some fr.data)
      logDir := dir } := by
  have hwriters : ∀ lid' ≠ lid, writers (v.queue ++ [r]) lid' = writers v.queue lid' := by
    intro lid' hne
    simp [writers_append, hreq, hne.symm]
  have hself : writers (v.queue ++ [r]) lid = writers v.queue lid ++ [f] := by
    simp [writers_append, hreq, hpage]
  have hlast : ∀ {g}, (writers v.queue lid ++ [f]).getLast? = some g → g = f := by
    intro g hg
    simpa [eq_comm] using hg
  have hne : ∀ lid g, (writers v.queue lid).getLast? = some g → g ≠ f := by
    rintro lid g hg rfl
    exact h.not_mem_writers hidle (List.mem_of_getLast? hg)
  refine ⟨frameOk_update h.frame hfr, h.queue.start hidle hpage hio fun _ =>
    cfg.lidToRange_lt _ _ hrange, ?_, ?_, ?_, ?_, ?_, h.aligned, h.candidates⟩
  · intro q hq loc' hloc
    rcases List.mem_append.1 hq with hq | hq
    · exact h.range q hq loc' hloc
    · obtain rfl := List.mem_singleton.1 hq
      exact ⟨lid, RequestType.writeRangeLoc.inj (hloc.symm.trans hreq), hrange, halign⟩
  · intro lid' g hg hd
    rcases eq_or_ne lid' lid with rfl | hlid
    · simp only [hself] at hg
      obtain rfl := hlast hg
      simp only [update_self]
    · simp only [hwriters lid' hlid] at hg
      simp only [update_of_ne (hne lid' g hg)] at hd ⊢
      simp only [update_of_ne hlid]
      exact h.written lid' g hg hd
  · intro lid' g hg he
    rcases eq_or_ne lid' lid with rfl | hlid
    · simp only [hself] at hg ⊢
      obtain rfl := hlast hg
      simp only [update_self] at he
      rw [(hfree he).1, List.nil_append]
    · simp only [hwriters lid' hlid] at hg ⊢
      simp only [update_of_ne (hne lid' g hg)] at he
      exact h.single lid' g hg he
  · rintro lid' ⟨oid, e, he, hgen, hnz, rfl⟩
    rcases eq_or_ne (logFrame e.logLoc) lid with hlid | hlid
    · -- the last request for this frame is the new one
      refine ⟨fun hnil => ?_, fun g hg => ?_⟩
      · simp only [hlid, hself] at hnil
        simp at hnil
      · simp only [hlid, hself] at hg
        obtain rfl := hlast hg
        simp only [update_self]
        cases hexp : fr.exposed with
        | false => rfl
        | true =>
          rcases hdir oid e he with hold | ⟨-, hnew⟩
          · exact absurd ⟨oid, e, hold, hgen, hnz, hlid⟩ (hfree hexp).2
          · exact absurd (hnew hnz).2 (by simp [hexp])
    · have hold : v.logDir oid = some e := by
        rcases hdir oid e he with hold | ⟨-, hnew⟩
        · exact hold
        · exact absurd (hnew hnz).1 hlid
      obtain ⟨hdisk, hlast'⟩ := h.secure _ ⟨oid, e, hold, hgen, hnz, rfl⟩
      refine ⟨fun hnil => ?_, fun g hg => ?_⟩
      · simp only [hwriters _ hlid] at hnil
        simp only [update_of_ne hlid]
        exact hdisk hnil
      · simp only [hwriters _ hlid] at hg
        simp only [update_of_ne (hne _ g hg)]
        exact hlast' g hg
  · intro oid e he
    rcases hdir oid e he with hold | ⟨hgen, -⟩
    · exact h.generation oid e hold
    · exact hgen.le

section Finish

variable {l₁ l₂ : List IORequest} (h : LogInv cfg v) (hold : Oldest v.queue l₁ l₂ r)

include h hold

theorem LogInv.last_ne (hpage : r.page = some f) {g : ℕ}
    (hg : (writers (l₁ ++ l₂) lid).getLast? = some g) : g ≠ f := by
  rintro rfl
  have hnodup := h.queue.nodup
  rw [hold.queue] at hnodup
  obtain ⟨q, hq, -, hqg⟩ := mem_writers.1 (List.mem_of_getLast? hg)
  exact page_ne_of_nodup hpage hnodup q hq hqg

theorem LogInv.range_remove : ∀ q ∈ l₁ ++ l₂, ∀ loc, q.request = .writeRangeLoc loc →
      ∃ lid, loc = .log lid ∧ cfg.lidToRange lid = some q.range ∧ oidToObIndex lid = 0 :=
  fun q hq => h.range q (hold.queue ▸ mem_of_mem_remove hq)

theorem LogInv.finishOther (hreq : ∀ loc, r.request = .writeRangeLoc loc → r.page = none)
    (hframe : ∀ g, FrameOk (frames g))
    (hqueue : QueueInv cfg frames (l₁ ++ l₂))
    (hsame : ∀ g, r.page ≠ some g → frames g = v.frames g) :
    LogInv cfg { v with frames, queue := l₁ ++ l₂ } := by
  have hwriters : ∀ lid, writers (l₁ ++ l₂) lid = writers v.queue lid := by
    intro lid
    rw [hold.queue, writers_remove_of_ne (hreq _)]
  have hkeep : ∀ lid g, (writers (l₁ ++ l₂) lid).getLast? = some g → frames g = v.frames g := by
    intro lid g hg
    refine hsame g fun hpage => ?_
    exact h.last_ne hold hpage hg rfl
  refine ⟨hframe, hqueue, h.range_remove hold, ?_, ?_, ?_, h.generation, h.aligned, h.candidates⟩
  · intro lid g hg hd
    simp only [hkeep lid g hg] at hd ⊢
    exact h.written lid g ((congrArg _ (hwriters lid)).symm.trans hg) hd
  · intro lid g hg he
    simp only [hkeep lid g hg] at he
    simp only [hwriters] at hg ⊢
    exact h.single lid g hg he
  · intro lid hlid
    obtain ⟨hdisk, hlast⟩ := h.secure lid hlid
    refine ⟨fun hnil => hdisk ((hwriters lid).symm.trans hnil), fun g hg => ?_⟩
    simp only [hkeep lid g hg]
    exact hlast g ((congrArg _ (hwriters lid)).symm.trans hg)

/-- The view after the frame `f` has been written to the frame `lid` of the log. -/
def LogView.finishWrite (v : LogView) (queue : List IORequest) (lid : ℕ) (d : FrameData) (f : ℕ)
    (fr : PageFrame) : LogView :=
  { v with
    queue
    disk := update v.disk (.log lid) d
    frames := update v.frames f fr }

variable {d : FrameData}

/-- When a page has been written that was not dirtied meanwhile, its frame of the log is secure. -/
theorem LogInv.secure_finishWrite (hpage : r.page = some f) (hreq : r.request = .writeRangeLoc (.log lid))
    (hclean : (v.frames f).dirty = false) (hd : d = (v.frames f).data) :
    (v.finishWrite (l₁ ++ l₂) lid d f fr).Secure lid := by
  have hwriters := h.writers_remove hold.queue hold.first hreq hpage
  constructor
  · intro hnil
    simp only [LogView.finishWrite] at hnil ⊢
    have hw := h.written lid f (by rw [hwriters, hnil]; rfl) hclean
    simp only [update_self, hw, hd]
  · intro g hg
    simp only [LogView.finishWrite] at hg ⊢
    simp only [update_of_ne (h.last_ne hold hpage hg)]
    cases he : (v.frames g).exposed with
    | false => rfl
    | true =>
      -- an exposed page would have been the only writer
      have hs := h.single lid g (by rw [hwriters, List.getLast?_cons, hg]; rfl) he
      rw [hwriters] at hs
      simp [(List.cons.inj hs).2] at hg

theorem LogInv.finishWrite (hpage : r.page = some f) (hreq : r.request = .writeRangeLoc (.log lid))
    (hd : (v.frames f).dirty = false → d = (v.frames f).data) (hfr : FrameOk fr)
    (hio : fr.io = none) : LogInv cfg (v.finishWrite (l₁ ++ l₂) lid d f fr) := by
  have hself := h.writers_remove hold.queue hold.first hreq hpage
  have hwriters : ∀ lid' ≠ lid, writers (l₁ ++ l₂) lid' = writers v.queue lid' := by
    intro lid' hne
    rw [hold.queue, writers_remove_of_ne (by simp [hreq, hne.symm])]
  have hlast : ∀ {lid' g}, (writers (l₁ ++ l₂) lid').getLast? = some g →
      (writers v.queue lid').getLast? = some g := by
    intro lid' g hg
    rcases eq_or_ne lid' lid with rfl | hne
    · rw [hself, List.getLast?_cons, hg]
      rfl
    · rw [← hwriters lid' hne]
      exact hg
  refine ⟨frameOk_update h.frame hfr, h.queue.finish hold.queue hpage hio, h.range_remove hold,
    ?_, ?_, ?_, h.generation, h.aligned, h.candidates⟩
  · intro lid' g hg hdirty
    simp only [LogView.finishWrite] at hg hdirty ⊢
    simp only [update_of_ne (h.last_ne hold hpage hg)] at hdirty ⊢
    exact h.written lid' g (hlast hg) hdirty
  · intro lid' g hg he
    simp only [LogView.finishWrite] at hg he ⊢
    simp only [update_of_ne (h.last_ne hold hpage hg)] at he
    have hs := h.single lid' g (hlast hg) he
    rcases eq_or_ne lid' lid with rfl | hne
    · rw [hself] at hs
      simp [(List.cons.inj hs).2] at hg
    · rw [hwriters lid' hne]
      exact hs
  · intro lid' hlid
    obtain ⟨hdisk, hlast'⟩ := h.secure lid' hlid
    rcases eq_or_ne lid' lid with rfl | hne
    · by_cases hnil : writers (l₁ ++ l₂) lid' = []
      · have hexp := hlast' f (by rw [hself, hnil]; rfl)
        have hclean : (v.frames f).dirty = false := by
          cases hdirty : (v.frames f).dirty with
          | false => rfl
          | true => simp [PageFrame.exposed, hdirty] at hexp
        exact h.secure_finishWrite hold hpage hreq hclean (hd hclean)
      · refine ⟨fun hnil' => absurd hnil' hnil, fun g hg => ?_⟩
        simp only [LogView.finishWrite] at hg ⊢
        simp only [update_of_ne (h.last_ne hold hpage hg)]
        exact hlast' g (hlast hg)
    · refine ⟨fun hnil => ?_, fun g hg => ?_⟩
      · simp only [LogView.finishWrite] at hnil ⊢
        have hne' : DiskLoc.log lid' ≠ .log lid := fun he => hne (DiskLoc.log.inj he)
        simp only [update_of_ne hne']
        exact hdisk (by rw [← hwriters lid' hne]; exact hnil)
      · simp only [LogView.finishWrite] at hg ⊢
        simp only [update_of_ne (h.last_ne hold hpage hg)]
        exact hlast' g (hlast hg)

end Finish

theorem LogInv.enqueueSync (h : LogInv cfg v) (range : ℕ) :
    LogInv cfg { v with queue := v.queue ++ [⟨range, .synchronizeCache, none, .endSync⟩] } := by
  have hwriters : ∀ lid, writers (v.queue ++ [⟨range, .synchronizeCache, none, .endSync⟩]) lid =
      writers v.queue lid := by
    intro lid
    simp [writers_append]
  refine ⟨h.frame, h.queue.enqueueSync range, ?_, ?_, ?_, ?_, h.generation, h.aligned, h.candidates⟩
  · intro q hq loc hloc
    rcases List.mem_append.1 hq with hq | hq
    · exact h.range q hq loc hloc
    · obtain rfl := List.mem_singleton.1 hq
      simp at hloc
  · intro lid g hg hd
    simp only [hwriters] at hg
    exact h.written lid g hg hd
  · intro lid g hg he
    simp only [hwriters] at hg ⊢
    exact h.single lid g hg he
  · intro lid hlid
    obtain ⟨hdisk, hlast⟩ := h.secure lid hlid
    refine ⟨fun hnil => hdisk ((hwriters lid).symm.trans hnil), fun g hg => ?_⟩
    simp only [hwriters] at hg
    exact hlast g hg

theorem LogInv.secure_of_writer (h : LogInv cfg v) (hf : f ∈ writers v.queue lid)
    (hexp : (v.frames f).exposed = false) : v.Secure lid where
  onDisk hnil := by simp [hnil] at hf
  beingWritten g hg := by
    cases he : (v.frames g).exposed with
    | false => rfl
    | true =>
      rw [h.single lid g hg he] at hf
      obtain rfl := List.mem_singleton.1 hf
      exact absurd hexp (by simp [he])

theorem LogInv.mem_writers_of_ioreq (h : LogInv cfg v)
    (hio : (v.frames f).ioreq = some loc) (hfet : (v.frames f).fetching = false) :
    ∃ lid, loc = .log lid ∧ oidToObIndex lid = 0 ∧ f ∈ writers v.queue lid := by
  obtain ⟨fn, hfn⟩ : ∃ fn, (v.frames f).io = some (.writeRangeLoc loc, fn) := by
    simp only [PageFrame.io, hio, hfet, Option.map_some, Bool.false_eq_true, if_false]
    split
    · exact ⟨_, rfl⟩
    · exact ⟨_, rfl⟩
  obtain ⟨r, hr, hpage⟩ := h.queue.enqueued f (by simp [hfn])
  have hreq := h.queue.io_of_mem hr hpage
  rw [hfn] at hreq
  have hreq := (Prod.mk.inj (Option.some.inj hreq)).1.symm
  obtain ⟨lid, rfl, -, halign⟩ := h.range r hr loc hreq
  exact ⟨lid, rfl, halign, mem_writers.2 ⟨r, hr, hreq, hpage⟩⟩

theorem LogInv.noLostUpdate {s : State} (h : LogInv cfg s.logView) : NoLostUpdate s := by
  intro oid e he hgen hnz
  have hsec := h.secure _ ⟨oid, e, he, hgen, hnz, rfl⟩
  rcases hl : (writers s.queue (logFrame e.logLoc)).getLast? with - | f
  · have hdisk := hsec.onDisk (List.getLast?_eq_none_iff.1 hl)
    exact ⟨_, hdisk, .inl rfl⟩
  · have hexp := hsec.beingWritten f hl
    have hclean : (s.frames f).dirty = false := by
      cases hdirty : (s.frames f).dirty with
      | false => rfl
      | true => simp [State.logView, PageFrame.exposed, hdirty] at hexp
    obtain ⟨r, hr, hreq, hpage⟩ := mem_writers.1 (List.mem_of_getLast? hl)
    exact ⟨_, h.written _ f hl hclean, .inr (.inl ⟨r, hr, f, hreq, hpage, rfl⟩)⟩

end Changes

end CapROS.ObjectCache
