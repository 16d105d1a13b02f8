import CapROS.ObjectCache.LogUpdates
import CapROS.ObjectCache.NodeRules
import CapROS.ObjectCache.PageStates

/-!
# No update of the log is lost

Every operation keeps the invariant of the log, on condition that a log pot is only made while
there is an I/O request to write it, and that a current version is only cleaned into a frame of the
log that is not in use.

* `noLostUpdate_run`: all runs.
-/

namespace CapROS.ObjectCache

open Yielding
open Function (update update_idem update_self update_of_ne)

/-- The program keeps the invariant of the log. -/
abbrev KeepsLog (cfg : Config) {α : Type} (m : Kernel α) : Prop :=
  Maintains (fun s => LogInv cfg s.logView) m

/-- The program keeps the invariant of the log when it starts in the state `s`. -/
abbrev KeepsLogAt (cfg : Config) {α : Type} (m : Kernel α) (s : State) : Prop :=
  (m s).Sat (fun _ t => LogInv cfg t.logView) (fun t => LogInv cfg t.logView) fun _ _ => True

/-! ## Pages -/

section Pages

variable {cfg : Config} {s : State} {f : ℕ}

theorem FrameOk.free : FrameOk .free := ⟨nofun, fun _ => rfl, fun _ => rfl⟩

variable {fr : PageFrame}

theorem FrameOk.congr {fr' : PageFrame} (h : FrameOk fr) (hf : fr'.fetching = fr.fetching)
    (hio : fr'.ioreq = fr.ioreq) (ht : fr'.obType = fr.obType)
    (hd : fr'.dirty = true → fr.dirty = true ∨ fr.obType = .dataPage) : FrameOk fr' where
  fetching hfet := by
    rw [hio]
    exact h.fetching (hf.symm.trans hfet)
  pot hpot := by
    rw [ht] at hpot
    cases hdirty : fr'.dirty with
    | false => rfl
    | true =>
      rcases hd hdirty with hd | hd
      · exact absurd (h.pot hpot) (by simp [hd])
      · simp [hd] at hpot
  unused hun := by
    rw [ht] at hun
    rw [hio]
    exact h.unused hun

theorem LogInv.useFrame (h : LogInv cfg s.logView)
    (hf : (s.frames f).obType = .freeFrame ∨ (s.frames f).obType = .newAlloc)
    (hfr : FrameOk fr) (hio : fr.ioreq = none) : LogInv cfg (s.setFrame f fr).logView := by
  refine h.setIdle hfr ((h.frame f).unused ?_) hio
  rcases hf with hf | hf
  · exact .inl hf
  · exact .inr (.inl hf)

theorem LogInv.newAlloc (h : LogInv cfg s.logView) (hf : (s.frames f).obType = .freeFrame) :
    LogInv cfg (s.setFrame f { obType := .newAlloc }).logView :=
  h.useFrame (.inl hf) ⟨nofun, fun _ => rfl, fun _ => rfl⟩ rfl

variable {k : ℕ → Kernel α} {α : Type}

theorem keepsLog_grabPageFrame_bind {alloc : Option ℕ} (h : LogInv cfg s.logView)
    (hk : ∀ g t, LogInv cfg t.logView → (t.frames g).obType = .newAlloc →
      (∀ f, f ≠ g → t.frames f = s.frames f) → (s.frames g).obType = .freeFrame →
      KeepsLogAt cfg (k g) t) :
    KeepsLogAt cfg (grabPageFrame cfg alloc >>= k) s := by
  refine grabPageFrame_bind_sat h fun g _ hg => hk g _ (h.newAlloc hg) ?_ ?_ hg
  · simp [State.setFrame]
  · intro f hne
    simp [State.setFrame, hne]

theorem releasePageFrame_keepsLog (h : LogInv cfg s.logView) (hio : (s.frames f).ioreq = none) :
    LogInv cfg (s.setFrame f .free).logView := h.setIdle .free hio rfl

theorem createNewNullPage_keepsLog (res : Resources) (oid allocCount : ℕ) :
    KeepsLog cfg (createNewNullPage cfg res oid allocCount) := by
  intro s h
  refine keepsLog_grabPageFrame_bind h fun g t ht hg _ _ => ?_
  exact ht.useFrame (.inr hg) ⟨nofun, by simp, by simp⟩ rfl

variable {loc : DiskLoc}

theorem rangeOfLoc_bind_keepsLog
    (hk : ∀ rng, KeepsLogAt cfg (k rng) s) : KeepsLogAt cfg (rangeOfLoc cfg loc >>= k) s := by
  cases loc with
  | log lid =>
    simp only [KeepsLogAt, bind_apply, rangeOfLoc, rangeOfLid]
    cases cfg.lidToRange lid with
    | none => trivial
    | some rng => exact hk rng
  | home rangeLoc => exact hk _

theorem allocateIOReqAndPage_sat (h : LogInv cfg s.logView) (res : Resources) :
    (allocateIOReqAndPage cfg res s).Sat
      (fun g t => LogInv cfg t.logView ∧ (t.frames g).obType = .newAlloc)
      (fun t => LogInv cfg t.logView) fun _ _ => True := by
  refine grabPageFrame_bind_sat h fun g _ hfree => ?_
  have hnew := h.newAlloc hfree
  have hg : ((s.setFrame g { obType := .newAlloc }).frames g).obType = .newAlloc := by
    simp [State.setFrame]
  split
  · exact ⟨hnew, hg⟩
  · exact hnew.useFrame (.inr hg) .free rfl

theorem fetchInto_keepsLog (res : Resources)
    (hio : fr.ioreq = some loc) (hfet : fr.fetching = true) (hd : fr.dirty = false)
    (hused : fr.obType = .dataPage ∨ fr.obType = .logPot ∨ fr.obType = .homePot) :
    KeepsLog cfg (do
      let f ← allocateIOReqAndPage cfg res
      let rng ← rangeOfLoc cfg loc
      updateFrame f fun _ => fr
      ioreqEnqueue ⟨rng, .readRangeLoc loc, some f, .endReadPage⟩
      (Prog.yield : Kernel Unit)) := by
  intro s h
  refine sat_bind (allocateIOReqAndPage_sat h res) ?_
  rintro g t ⟨ht, hg⟩
  refine rangeOfLoc_bind_keepsLog fun rng => ?_
  have hfr : FrameOk fr := by
    refine ⟨fun _ => by simp [hio], fun _ => hd, fun hun => ?_⟩
    rcases hused with hu | hu | hu <;> simp [hu] at hun
  have hidle : (t.frames g).io = none := PageFrame.io_eq_none.2 ((ht.frame g).unused (.inr (.inl hg)))
  exact ht.startRead hfr hidle rfl rfl (by simp [PageFrame.io, hio, hfet]) rfl

theorem fetchPage_keepsLog (res : Resources) (oid : ℕ) (loc : DiskLoc) :
    KeepsLog cfg (fetchPage cfg res oid loc) :=
  maintains_check_bind fun _ => fetchInto_keepsLog res rfl rfl rfl (.inl rfl)

theorem fetchPot_keepsLog (res : Resources) (oidOrLid : ℕ) (loc : DiskLoc) (isLog : Bool) :
    KeepsLog cfg (fetchPot cfg res oidOrLid loc (if isLog then .logPot else .homePot)) := by
  refine maintains_check_bind fun _ => fetchInto_keepsLog res rfl rfl rfl ?_
  cases isLog
  · exact .inr (.inr rfl)
  · exact .inr (.inl rfl)

theorem LogInv.updateFrame (h : LogInv cfg s.logView)
    (hf : fr.fetching = (s.frames f).fetching) (hio : fr.ioreq = (s.frames f).ioreq)
    (ht : fr.obType = (s.frames f).obType)
    (hd : fr.dirty = true → (s.frames f).dirty = true ∨ (s.frames f).obType = .dataPage)
    (hdata : fr.dirty = false → (s.frames f).dirty = false ∧ fr.data = (s.frames f).data)
    (hexp : fr.exposed = true → (s.frames f).exposed = true) :
    LogInv cfg (s.setFrame f fr).logView := by
  exact h.setFrame ((h.frame f).congr hf hio ht hd) (PageFrame.io_congr hf hio ht)
    (fun _ => hdata) fun _ => hexp

theorem storePage_keepsLog (d : PageData) : KeepsLog cfg (storePage f d) := by
  intro s h
  refine sat_when (fun hf => ?_) fun _ => h
  obtain ⟨-, hd, -⟩ := hf
  refine h.updateFrame rfl rfl rfl (fun _ => .inl hd) ?_ fun he => he
  intro hd'
  exact absurd (hd.symm.trans hd') (by simp)

theorem usePage_keepsLog (pinned : Bool) (keys products : List ℕ) :
    KeepsLog cfg (usePage f pinned keys products) := by
  intro s h
  refine sat_when (fun _ => ?_) fun _ => h
  exact h.updateFrame rfl rfl rfl .inl (fun hd => ⟨hd, rfl⟩) fun he => he

theorem agePageSteal_keepsLog : KeepsLog cfg (agePageSteal f) := by
  intro s h
  refine sat_ite (fun _ => sat_ite (fun _ => h) fun hio => ?_) fun _ => h
  exact releasePageFrame_keepsLog h (by simpa using hio)

end Pages

/-! ## Cleaning of pages -/

section Cleaning

variable {cfg : Config} {s : State} {f : ℕ}

/-- A frame of the log that is not in use: no entry of the working generation refers to it, and
nothing is being written to it. -/
def LogView.Free (v : LogView) (lid : ℕ) : Prop := writers v.queue lid = [] ∧ ¬v.Refers lid

variable {lid : ℕ}

theorem logFrame_eq {i : ℕ} (h : oidToObIndex lid = 0) (hi : i < erosObjectsPerFrame) :
    logFrame (lid + i) = lid := by
  simp only [logFrame, frameToOID, oidToFrame, oidToObIndex, erosObjectsPerFrame] at *
  omega

theorem incrementLID_aligned {w : ℕ} (h : oidToObIndex lid = 0) :
    oidToObIndex (incrementLID w lid) = 0 := by
  unfold incrementLID
  split
  · rfl
  · simp only [oidToObIndex, frameToOID, erosObjectsPerFrame] at *
    omega

theorem clearDirty_sat (h : LogInv cfg s.logView) (hio : (s.frames f).ioreq = none) :
    (clearDirty f s).Sat
      (fun _ t => LogInv cfg t.logView ∧ t.frames f = { s.frames f with dirty := false } ∧
        t.logView = (s.setFrame f { s.frames f with dirty := false }).logView)
      (fun _ => False) fun _ _ => True := by
  have hinv : LogInv cfg (s.setFrame f { s.frames f with dirty := false }).logView :=
    h.setIdle ((h.frame f).congr rfl rfl rfl nofun) hio hio
  have hframe : (s.setFrame f { s.frames f with dirty := false }).frames f = { s.frames f with dirty := false } :=
    update_self _ _ _
  refine sat_when (fun _ => ?_) fun _ => ⟨hinv, hframe, rfl⟩
  exact sat_check fun _ => ⟨hinv, hframe, rfl⟩

theorem LogInv.record (h : LogInv cfg s.logView) (oid allocCount callCount logLoc : ℕ)
    (type : BaseType) (hsec : logLoc ≠ 0 → s.logView.Secure (logFrame logLoc)) :
    LogInv cfg { s.logView with
      logDir := update s.logDir oid
        (some ⟨allocCount, callCount, logLoc, type, s.workingGeneration⟩) } := by
  refine h.setLogDir fun oid' e he => ?_
  rcases eq_or_ne oid' oid with rfl | hne
  · rw [update_self] at he
    obtain rfl := Option.some.inj he
    exact .inr ⟨rfl, hsec⟩
  · rw [update_of_ne hne] at he
    exact .inl he

theorem doneCleaningPage_keepsLog (h : LogInv cfg s.logView) (hio : (s.frames f).ioreq = none) :
    KeepsLogAt cfg (doneCleaningPage f) s := by
  have hinv : LogInv cfg (s.setFrame f { s.frames f with kro := false }).logView :=
    h.setIdle ((h.frame f).congr rfl rfl rfl .inl) hio hio
  refine sat_when (fun _ => ?_) fun _ => hinv
  refine sat_check_bind fun _ => sat_check_bind fun _ => sat_check_bind fun _ => ?_
  exact releasePageFrame_keepsLog hinv (by simpa [State.setFrame] using hio)

theorem cleanZeroPage_keepsLog (h : LogInv cfg s.logView) (hio : (s.frames f).ioreq = none) :
    KeepsLogAt cfg (cleanZeroPage f) s :=
  doneCleaningPage_keepsLog (h.record _ _ _ _ _ nofun) hio

theorem startPageWrite_keepsLog (h : LogInv cfg s.logView)
    (hf : (s.frames f).obType = .dataPage ∨ (s.frames f).obType = .workingCopy)
    (hio : (s.frames f).ioreq = none) (hd : (s.frames f).dirty = false)
    (hfree : (s.frames f).exposed = true → s.logView.Free s.logCursor) :
    KeepsLogAt cfg (startPageWrite cfg f) s := by
  have hfet : (s.frames f).fetching = false := by
    cases hfet : (s.frames f).fetching with
    | false => rfl
    | true => simpa [State.logView, hio] using (h.frame f).fetching hfet
  have hlid : logFrame s.logCursor = s.logCursor := logFrame_eq (i := 0) h.aligned (by decide)
  simp only [KeepsLogAt, startPageWrite, readFrame, nextLogLoc, rangeOfLid, bind_apply,
    andThen_done]
  cases hrng : cfg.lidToRange s.logCursor with
  | none => trivial
  | some rng =>
    have hfr : FrameOk { s.frames f with ioreq := some (.log s.logCursor) } := by
      refine ⟨fun _ => rfl, fun _ => hd, fun hun => ?_⟩
      rcases hf with hf | hf <;> simp [hf] at hun
    have hstart : ∀ dir : ℕ → Option DirEntry,
        (∀ oid e, dir oid = some e → s.logDir oid = some e ∨
          (e.generation = s.workingGeneration ∧
            (e.logLoc ≠ 0 → logFrame e.logLoc = s.logCursor ∧ (s.frames f).exposed = false))) →
        LogInv cfg { s.logView with
          frames := update s.frames f
            { s.frames f with ioreq := some (.log s.logCursor) }
          queue := s.queue ++ [⟨rng, .writeRangeLoc (.log s.logCursor), some f, .endPageClean⟩]
          logged := update s.logged s.logCursor (some (s.frames f).data)
          logDir := dir
          logCursor := incrementLID cfg.logWrapPoint s.logCursor } := by
      intro dir hdir
      refine LogInv.setLogCursor (h.startWrite hfr (PageFrame.io_eq_none.2 hio) rfl rfl ?_ hrng
        h.aligned hdir hfree) (incrementLID_aligned h.aligned)
      simp [PageFrame.io, hfet, hf]
    cases hk : (s.frames f).kro with
    | false =>
      have hinv := hstart s.logDir fun _ _ he => .inl he
      simpa [updateFrame, State.setFrame, noteLogged, Prog.when, ioreqEnqueue, Outcome.Sat,
        State.logView, hk] using hinv
    | true =>
      -- a kernel-read-only page is not exposed, so that it may have its entry at once
      have hexp : (s.frames f).exposed = false := by simp [PageFrame.exposed, hd, hk]
      have hinv := hstart (update s.logDir (s.frames f).oid
          (some ⟨(s.frames f).allocCount, 0, s.logCursor, .page, s.workingGeneration⟩)) (by
        intro oid e he
        rcases eq_or_ne oid (s.frames f).oid with rfl | hne
        · rw [update_self] at he
          obtain rfl := Option.some.inj he
          exact .inr ⟨rfl, fun _ => ⟨hlid, hexp⟩⟩
        · rw [update_of_ne hne] at he
          exact .inl he)
      simpa [updateFrame, State.setFrame, noteLogged, Prog.when, ioreqEnqueue, Outcome.Sat,
        State.logView, hk, createLogDirEntryForNonzeroPage, readFrame, recordLocation,
        DiskLoc.address] using hinv

/-- When the page is cleaned, it is written to a frame of the log for which it has no entry yet. -/
structure PageFrame.TakesLogFrame (fr : PageFrame) : Prop where
  type : fr.obType = .dataPage
  dirty : fr.dirty = true
  idle : fr.ioreq = none
  kro : fr.kro = false
  nonzero : ¬fr.data.IsZero

theorem cleanDataPage_keepsLog (h : LogInv cfg s.logView)
    (hf : (s.frames f).obType = .dataPage ∨ (s.frames f).obType = .workingCopy)
    (hd : (s.frames f).dirty = true) (hio : (s.frames f).ioreq = none)
    (hfree : (s.frames f).TakesLogFrame → s.logView.Free s.logCursor) :
    KeepsLogAt cfg (cleanDataPage cfg f) s := by
  refine sat_bind ((clearDirty_sat h hio).mono (fun _ _ ht => ht) (fun _ ht => ht.elim)
    fun _ _ _ => trivial) ?_
  rintro _ t ⟨ht, hfr, hview⟩
  refine sat_ite (fun _ => ?_) fun hnz => ?_
  · exact cleanZeroPage_keepsLog ht (by rw [hfr]; exact hio)
  · refine startPageWrite_keepsLog ht (by rw [hfr]; exact hf) (by rw [hfr]; exact hio)
      (by rw [hfr]) fun he => ?_
    rw [hfr] at he
    obtain ⟨hdata, hk⟩ : (s.frames f).obType = .dataPage ∧ (s.frames f).kro = false := by
      simpa [PageFrame.exposed] using he
    have hq : t.queue = s.queue := congrArg LogView.queue hview
    have hcur : t.logCursor = s.logCursor := congrArg LogView.logCursor hview
    have hdir : t.logDir = s.logDir := congrArg LogView.logDir hview
    have hgen : t.workingGeneration = s.workingGeneration :=
      congrArg LogView.workingGeneration hview
    simpa only [LogView.Free, LogView.Refers, State.logView, hq, hcur, hdir, hgen] using
      hfree ⟨hdata, hd, hio, hk, by rwa [hfr] at hnz⟩

theorem noIORequest_keepsLog (isPFH : Bool) : KeepsLog cfg (noIORequest isPFH) :=
  maintains_ite (fun _ => maintains_pure _) fun _ => maintains_yield

theorem pageClean_keepsLog (h : LogInv cfg s.logView) (res : Resources)
    (hd : (s.frames f).dirty = true)
    (hfree : (s.frames f).TakesLogFrame → s.logView.Free s.logCursor) :
    KeepsLogAt cfg (pageClean cfg res f) s := by
  refine sat_ite (fun _ => noIORequest_keepsLog _ s h) fun hio => ?_
  have hio : (s.frames f).ioreq = none := by simpa using hio
  cases hf : (s.frames f).obType
  case logPot => exact absurd ((h.frame f).pot (.inl hf)) (by simp [State.logView, hd])
  case dataPage | workingCopy =>
    refine sat_ite (fun _ => ?_) fun _ => noIORequest_keepsLog _ s h
    refine sat_bind (cleanDataPage_keepsLog h (by simp [hf]) hd hio hfree) fun _ _ ht => ht
  all_goals trivial

theorem agePageClean_keepsLog (h : LogInv cfg s.logView) (res : Resources)
    (hfree : (s.frames f).TakesLogFrame → s.logView.Free s.logCursor) :
    KeepsLogAt cfg (agePageClean cfg res f) s := by
  refine sat_ite (fun hage => ?_) fun _ => h
  exact sat_bind (pageClean_keepsLog h res hage.2.1 hfree) fun _ _ ht => ht

theorem cleanAKROPage_keepsLog (res : Resources) : KeepsLog cfg (cleanAKROPage cfg res f) := by
  intro s h
  refine sat_ite (fun hkro => ?_) fun _ => h
  refine sat_bind (pageClean_keepsLog h _ hkro.2.2 fun ht => ?_) fun _ _ ht => sat_check fun _ => ht
  exact absurd (hkro.2.1.symm.trans ht.kro) (by simp)

end Cleaning

/-! ## Completion of requests -/

section Completion

variable {cfg : Config} {s : State} {f : ℕ}

theorem FrameOk.finished {fr : PageFrame} (h : FrameOk fr) (hfet : fr.fetching = false) :
    FrameOk { fr with ioreq := none } :=
  ⟨fun hf => absurd (hfet.symm.trans hf) (by simp), h.pot, fun _ => rfl⟩

theorem endPageClean_keepsLog (h : LogInv cfg s.logView) {l₁ l₂ : List IORequest} {r : IORequest}
    {lid : ℕ} (hold : Oldest s.queue l₁ l₂ r) (hpage : r.page = some f)
    (hreq : r.request = .writeRangeLoc (.log lid)) (halign : oidToObIndex lid = 0)
    (hio : (s.frames f).ioreq = some (.log lid)) (hfet : (s.frames f).fetching = false)
    (torn : FrameData) :
    KeepsLogAt cfg (endPageClean f) (s.afterWrite (l₁ ++ l₂) f (.log lid) torn) := by
  set t : State := (s.afterWrite (l₁ ++ l₂) f (.log lid) torn).setFrame f
    { s.frames f with ioreq := none } with ht
  have hdata : (s.frames f).dirty = false → s.writtenData f torn = (s.frames f).data := by
    intro hd
    simp [State.writtenData, hd]
  have hinv : LogInv cfg t.logView :=
    h.finishWrite hold hpage hreq hdata ((h.frame f).finished hfet) rfl
  have hidle : (t.frames f).ioreq = none := by simp [ht, State.setFrame]
  have hdone : ∀ dir, LogInv cfg { t.logView with logDir := dir } →
      KeepsLogAt cfg (doneCleaningPage f) { t with logDir := dir } := fun dir hdir =>
    doneCleaningPage_keepsLog hdir hidle
  cases hd : (s.frames f).dirty with
  | true =>
    have hrun : endPageClean f (s.afterWrite (l₁ ++ l₂) f (.log lid) torn) =
        (do
          kcheck (¬(s.frames f).kro)
          updateFrame f fun fr => { fr with ioreq := none }
          doneCleaningPage f) (s.afterWrite (l₁ ++ l₂) f (.log lid) torn) := by
      simp [endPageClean, endPageCleanEntry, readFrame, State.afterWrite, hd]
    simp only [KeepsLogAt, hrun]
    exact sat_check_bind fun _ => hdone s.logDir hinv
  | false =>
    cases hk : (s.frames f).kro with
    | true =>
      have hrun : endPageClean f (s.afterWrite (l₁ ++ l₂) f (.log lid) torn) =
          doneCleaningPage f t := by
        simp [endPageClean, endPageCleanEntry, readFrame, State.afterWrite, hd, hk, Prog.when,
          updateFrame, ht]
      simp only [KeepsLogAt, hrun]
      exact hdone s.logDir hinv
    | false =>
      -- the page was not dirtied while it was being written, so it is on the disk now
      have hsec : t.logView.Secure (logFrame lid) := by
        rw [show logFrame lid = lid from logFrame_eq (i := 0) halign (by decide)]
        exact h.secure_finishWrite hold hpage hreq hd (hdata hd)
      have hdir := hinv.record (s.frames f).oid (s.frames f).allocCount 0 lid .page fun _ => hsec
      have hrun : endPageClean f (s.afterWrite (l₁ ++ l₂) f (.log lid) torn) =
          doneCleaningPage f { t with
            logDir := update t.logDir (s.frames f).oid
              (some ⟨(s.frames f).allocCount, 0, lid, .page, t.workingGeneration⟩) } := by
        simp [endPageClean, endPageCleanEntry, readFrame, State.afterWrite, hd, hk, Prog.when,
          updateFrame, ht, createLogDirEntryForNonzeroPage, hio, recordLocation, DiskLoc.address,
          State.setFrame]
      simp only [KeepsLogAt, hrun]
      exact hdone _ hdir

theorem ioComplete_keepsLog (i : ℕ) (torn : FrameData) : KeepsLog cfg (ioComplete i torn) := by
  intro s h
  refine ioComplete_sat h.queue i torn h ?_ ?_ ?_ ?_
  · intro l₁ l₂ r hold hdone hnone
    exact h.finishOther hold (fun _ _ => hnone) h.frame (h.queue.finishSync hold.queue hnone)
      fun _ _ => rfl
  · intro l₁ l₂ r f loc hold hpage hdone hreq hio hfet
    have hfr : FrameOk { s.frames f with data := s.disk loc, ioreq := none, fetching := false } :=
      ⟨nofun, (h.frame f).pot, fun _ => rfl⟩
    refine h.finishOther hold (by simp [hreq]) (frameOk_update h.frame hfr)
      (h.queue.finish hold.queue hpage rfl) fun g hg => update_of_ne ?_ _ _
    rintro rfl
    exact hg hpage
  · intro l₁ l₂ r f loc hold hpage hdone hreq hio hfet
    obtain ⟨lid, rfl, -, -⟩ := h.range r hold.mem loc hreq
    refine h.finishWrite hold hpage hreq (fun hd => ?_) ((h.frame f).finished hfet) rfl
    simp only [State.logView] at hd
    simp [State.writtenData, hd, State.logView]
  · intro l₁ l₂ r f loc hold hpage hdone hreq hio hfet _
    obtain ⟨lid, rfl, -, halign⟩ := h.range r hold.mem loc hreq
    exact endPageClean_keepsLog h hold hpage hreq halign hio hfet torn

end Completion

/-! ## Copy on write -/

section CopyOnWrite

variable {cfg : Config} {s : State} {f : ℕ}

/-- The program leaves the page in the frame `f` writeable if the result is `f`. -/
def LogMitigated (cfg : Config) (f : ℕ) (g : ℕ) (t : State) : Prop :=
  LogInv cfg t.logView ∧ (g = f → (t.frames f).obType = .dataPage ∧ (t.frames f).kro = false)

variable {g : ℕ} (h : LogInv cfg s.logView) (hf : (s.frames f).obType = .dataPage)

include h hf

theorem LogInv.moveKROPage (hg : (s.frames g).obType = .newAlloc) (hfet : (s.frames f).fetching = false) :
    (moveKROPage f g s).Sat (fun _ t => LogInv cfg t.logView) (fun _ => False) fun _ _ => False := by
  have hgf : g ≠ f := by
    rintro rfl
    simp [hf] at hg
  have hold : LogInv cfg (s.setFrame f { s.frames f with
      obType := .workingCopy
      products := []
      keyRing := (movedRings (s.frames f).keyRing).1 }).logView := by
    refine h.setFrame ⟨(h.frame f).fetching, by simp, by simp⟩ ?_ (fun _ hd => ⟨hd, rfl⟩) ?_
    · simp [PageFrame.io, State.logView, hf]
    · intro _ he
      have hd : (s.frames f).dirty = true := by simpa [PageFrame.exposed] using he
      simp [PageFrame.exposed, State.logView, hd]
  refine hold.useFrame (.inr ?_) ⟨?_, by simp, by simp⟩ rfl
  · simpa [State.setFrame, hgf] using hg
  · intro hfet'
    exact absurd (hfet.symm.trans hfet') (by simp)

theorem LogInv.copyKROPage (hg : (s.frames g).obType = .newAlloc) (hio : (s.frames f).ioreq = none) :
    (copyKROPage f g s).Sat (fun _ t => LogMitigated cfg f f t) (fun _ => False) fun _ _ => False := by
  have hgf : g ≠ f := by
    rintro rfl
    simp [hf] at hg
  have hold : LogInv cfg (s.setFrame f { s.frames f with kro := false }).logView :=
    h.setIdle ((h.frame f).congr rfl rfl rfl .inl) hio hio
  refine ⟨hold.useFrame (.inr ?_) ⟨nofun, by simp, by simp⟩ rfl, fun _ => ?_⟩
  · simpa [State.setFrame, hgf] using hg
  · simp [State.setFrame, hgf.symm, hf]

theorem mitigateWithCopy_log (hfet : (s.frames f).fetching = false) (res : Resources) :
    (mitigateWithCopy cfg res f s).Sat (LogMitigated cfg f) (fun t => LogInv cfg t.logView)
      fun _ _ => True := by
  refine grabPageFrame_bind_sat h fun g _ hfree => ?_
  have hgf : f ≠ g := by
    rintro rfl
    simp [hf] at hfree
  have hnew := h.newAlloc hfree
  have hfr : (s.setFrame g { obType := .newAlloc }).frames f = s.frames f := by
    simp [State.setFrame, hgf]
  have hg : ((s.setFrame g { obType := .newAlloc }).frames g).obType = .newAlloc := by
    simp [State.setFrame]
  refine sat_ite (fun _ => ?_) fun hidle => sat_check_bind fun _ => ?_
  · have hmove := hnew.moveKROPage (by rw [hfr]; exact hf) hg (by rw [hfr]; exact hfet)
    refine sat_bind (hmove.mono (fun _ _ ht => ht) (fun _ ht => ht.elim) fun _ _ ht => ht.elim) ?_
    exact fun _ t ht => ⟨ht, fun he => absurd he.symm hgf⟩
  · rw [hfr] at hidle
    have hio : (s.frames f).ioreq = none := by
      simpa using (not_or.1 hidle).1
    have hcopy := hnew.copyKROPage (by rw [hfr]; exact hf) hg (by rw [hfr]; exact hio)
    exact sat_bind (hcopy.mono (fun _ _ ht => ht) (fun _ ht => ht.elim) fun _ _ ht => ht.elim)
      fun _ t ht => ht

theorem mitigateZero_log (hfet : (s.frames f).fetching = false) (res : Resources) :
    (mitigateZero cfg res f s).Sat (LogMitigated cfg f) (fun t => LogInv cfg t.logView)
      fun _ _ => True := by
  refine sat_check_bind fun _ => sat_ite (fun _ => mitigateWithCopy_log h hf hfet res) fun hio => ?_
  have hio : (s.frames f).ioreq = none := by simpa using hio
  refine sat_bind ((clearDirty_sat h hio).mono (fun _ _ ht => ht) (fun _ ht => ht.elim)
    fun _ _ _ => trivial) ?_
  rintro _ t ⟨ht, hfr, -⟩
  have hrec := ht.record (t.frames f).oid (t.frames f).allocCount 0 0 .page nofun
  have hrun : cleanZeroPage f t = .done () (({ t with
      logDir := update t.logDir (t.frames f).oid
        (some ⟨(t.frames f).allocCount, 0, 0, .page, t.workingGeneration⟩) } : State).setFrame f
      { t.frames f with kro := false }) := doneCleaningPage_dataPage (by rw [hfr]; exact hf)
  rw [bind_apply, hrun]
  refine ⟨hrec.setIdle ((ht.frame f).congr rfl rfl rfl .inl) ?_ ?_, fun _ => ?_⟩
  · simpa [State.logView, hfr] using hio
  · simpa [hfr] using hio
  · simpa [State.setFrame, hfr] using hf

omit hf in
theorem mitigateKRO_log (res : Resources) :
    (mitigateKRO cfg res f s).Sat (LogMitigated cfg f) (fun t => LogInv cfg t.logView)
      fun _ _ => True := by
  refine sat_check_bind fun hk => sat_check_bind fun hf => ?_
  have hfet : (s.frames f).fetching = false := by simpa using hk.2.2
  exact sat_ite (fun _ => mitigateZero_log h hf hfet res) fun _ => mitigateWithCopy_log h hf hfet res

theorem setDirtyFlag_keepsLog (hk : (s.frames f).kro = false) : KeepsLogAt cfg (setDirtyFlag f) s :=
  h.updateFrame rfl rfl rfl (fun _ => .inr hf) nofun fun _ => by simp [PageFrame.exposed, hf, hk]

theorem mitigateIfKRO_log (res : Resources) :
    (mitigateIfKRO cfg res f s).Sat (fun _ t => LogMitigated cfg f f t)
      (fun t => LogInv cfg t.logView) fun _ _ => True := by
  refine sat_ite (fun _ => ?_) fun hk => ⟨h, fun _ => ⟨hf, by simpa using hk⟩⟩
  refine sat_bind (mitigateKRO_log h res) fun g t ht => ?_
  refine sat_when (fun _ => ht.1) fun hg => ?_
  obtain rfl : g = f := by simpa using hg
  exact ht

theorem ensureWritableActive_keepsLog (res : Resources) (sp : Space) :
    KeepsLogAt cfg (ensureWritableActive cfg res sp f) s := by
  have hspace : (checkNextSpace sp s).Sat (fun _ t => t = s) (fun t => LogInv cfg t.logView)
      fun _ _ => True :=
    sat_check_bind fun _ => sat_check_bind fun _ => sat_check fun _ => rfl
  refine sat_bind hspace ?_
  rintro _ t rfl
  refine sat_bind (mitigateIfKRO_log h hf res) fun _ u hu => ?_
  exact setDirtyFlag_keepsLog hu.1 (hu.2 rfl).1 (hu.2 rfl).2

theorem ensureWritable_keepsLog (res : Resources) (sp : Space) : KeepsLogAt cfg (ensureWritable cfg res sp f) s := by
  refine sat_ite (fun _ => h) fun _ => sat_check_bind fun _ => sat_check_bind fun _ => ?_
  refine sat_ite (fun _ => ?_) fun _ => ensureWritableActive_keepsLog h hf res sp
  refine sat_check_bind fun hk => sat_ite (fun _ => ?_) fun _ => sat_check_bind fun _ => ?_
  · have hdeclare : (declareDemarcationEvent s).Sat
        (fun _ t => LogInv cfg t.logView ∧ (t.frames f).obType = .dataPage)
        (fun t => LogInv cfg t.logView) fun _ _ => True := sat_check_bind fun _ => ⟨h, hf⟩
    exact sat_bind hdeclare fun _ t ht => ensureWritableActive_keepsLog ht.1 ht.2 res sp
  · exact setDirtyFlag_keepsLog h hf (by simpa using hk)

omit h hf in
theorem ensureWritableHeld_keepsLog (res : Resources) (sp : Space) :
    KeepsLog cfg (ensureWritableHeld cfg res sp f) := fun _ h =>
  sat_when (fun hf => ensureWritable_keepsLog h hf.1 res sp) fun _ => h

end CopyOnWrite

/-! ## The demarcation and the checkpoint thread -/

section Checkpoint

variable {cfg : Config} {s : State} {f : ℕ}

theorem createLogDirEntryForNonzeroPage_keepsLog (h : LogInv cfg s.logView) {loc : DiskLoc}
    (hio : (s.frames f).ioreq = some loc) (hfet : (s.frames f).fetching = false)
    (hexp : (s.frames f).exposed = false) :
    KeepsLogAt cfg (createLogDirEntryForNonzeroPage f) s := by
  obtain ⟨lid, rfl, halign, hmem⟩ := h.mem_writers_of_ioreq hio hfet
  have hsec := h.secure_of_writer hmem hexp
  have hlid : logFrame lid = lid := logFrame_eq (i := 0) halign (by decide)
  simp only [KeepsLogAt, createLogDirEntryForNonzeroPage, readFrame, bind_apply, andThen_done, hio]
  exact h.record (s.frames f).oid (s.frames f).allocCount 0 lid .page fun _ => hlid.symm ▸ hsec

theorem makeKRO_keepsLog (h : LogInv cfg s.logView)
    (hf : (s.frames f).dirty = false →
      (s.frames f).ioreq.isSome ∧ (s.frames f).fetching = false) :
    KeepsLogAt cfg (makeKRO f) s := by
  have hinv : LogInv cfg (s.setFrame f { s.frames f with kro := true }).logView := by
    refine h.updateFrame rfl rfl rfl .inl (fun hd => ⟨hd, rfl⟩) fun he => ?_
    have hd : (s.frames f).dirty = true := by simpa [PageFrame.exposed] using he
    simp [PageFrame.exposed, hd]
  refine sat_ite (fun _ => hinv) fun hd => ?_
  have hd : (s.frames f).dirty = false := by simpa [State.setFrame] using hd
  obtain ⟨hio, hfet⟩ := hf hd
  obtain ⟨loc, hio⟩ := Option.isSome_iff_exists.1 hio
  refine @createLogDirEntryForNonzeroPage_keepsLog cfg _ f hinv loc ?_ ?_ ?_
  · simpa [State.setFrame] using hio
  · simpa [State.setFrame] using hfet
  · simpa [State.setFrame, PageFrame.exposed] using hd

theorem checkpointPage_keepsLog : KeepsLog cfg (checkpointPage f) := by
  intro s h
  refine sat_check_bind fun _ => sat_when (fun hd => ?_) fun _ => h
  refine makeKRO_keepsLog h fun hclean => ?_
  rcases hd with hd | hd
  · simp [hclean] at hd
  · exact ⟨hd.1, by simpa using hd.2⟩

theorem demarcatePage_keepsLog : KeepsLog cfg (demarcatePage f) := by
  intro s h
  simp only [demarcatePage, readFrame, bind_apply, andThen_done]
  cases (s.frames f).obType
  case tagPot | homePot => exact sat_check_bind fun _ => sat_check fun _ => h
  case dataPage => exact sat_when (fun _ => checkpointPage_keepsLog s h) fun _ => h
  case logPot => exact checkpointPage_keepsLog s h
  all_goals exact h

theorem declareDemarcationEvent_keepsLog : KeepsLog cfg declareDemarcationEvent := fun _ h =>
  sat_check_bind fun _ => h

theorem demarcateNode_keepsLog (n : ℕ) : KeepsLog cfg (demarcateNode n) := fun _ h =>
  sat_ite (fun _ => sat_check_bind fun _ => h) fun _ => h

theorem doPhase1Work_keepsLog : KeepsLog cfg (doPhase1Work cfg) := by
  refine maintains_bind (maintains_modify fun _ h => h) fun _ =>
    maintains_bind (maintains_forEach demarcateNode_keepsLog _) fun _ =>
    maintains_bind (maintains_forEach (fun f => demarcatePage_keepsLog) _) fun _ => ?_
  exact maintains_modify fun _ h => h

theorem enqueueSyncs_keepsLog (avail : ℕ) : KeepsLog cfg (enqueueSyncs cfg avail) := by
  induction avail with
  | zero =>
    intro s h
    unfold enqueueSyncs
    split
    · exact h
    · exact h
  | succ avail ih =>
    intro s h
    unfold enqueueSyncs
    split
    · exact ih _ (h.enqueueSync s.nextRangeToSync)
    · exact h

theorem doSync_keepsLog (avail : ℕ) : KeepsLog cfg (doSync cfg avail) :=
  maintains_bind (enqueueSyncs_keepsLog avail) fun _ => maintains_get_bind fun _ =>
    maintains_ite (fun _ => maintains_yield) fun _ => maintains_pure _

theorem iterate_incrementLID_aligned {w : ℕ} (n : ℕ) {lid : ℕ} (h : oidToObIndex lid = 0) :
    oidToObIndex ((incrementLID w)^[n] lid) = 0 := by
  induction n generalizing lid with
  | zero => exact h
  | succ n ih => exact ih (incrementLID_aligned h)

theorem finishPhase2_keepsLog : KeepsLog cfg finishPhase2 := by
  refine maintains_get_bind fun _ => maintains_when fun _ => ?_
  exact fun _ h => h

theorem finishPhase3_keepsLog (dirFrames : ℕ) : KeepsLog cfg (finishPhase3 cfg dirFrames) :=
  fun _ h => LogInv.setLogCursor h (iterate_incrementLID_aligned (dirFrames + 1) h.aligned)

theorem doPhase4Work_keepsLog (avail : ℕ) : KeepsLog cfg (doPhase4Work cfg avail) := by
  refine maintains_bind (doSync_keepsLog avail) fun _ => ?_
  exact fun _ h => h

theorem doPhase5Work_keepsLog (avail : ℕ) : KeepsLog cfg (doPhase5Work cfg avail) := by
  refine maintains_bind (doSync_keepsLog avail) fun _ => ?_
  exact fun _ h => h.nextGeneration

end Checkpoint

/-! ## Nodes -/

section Nodes

variable {cfg : Config} {s : State}

theorem readNode_keepsLog (n : ℕ) : KeepsLog cfg (readNode n) := fun _ h => h

theorem nodeClearDirty_sat (n : ℕ) :
    (nodeClearDirty n s).Sat (fun _ t => t.logView = s.logView) (fun _ => False)
      fun _ _ => True := by
  have hkro : (Prog.when ((s.nodes n).kro = true) (nodeClearKRO n) s).Sat
      (fun _ t => t.logView = s.logView) (fun _ => False) fun _ _ => True :=
    sat_when (fun _ => sat_check_bind fun _ => rfl) fun _ => rfl
  exact sat_bind (m := Prog.when ((s.nodes n).kro = true) (nodeClearKRO n)) hkro fun _ _ ht => ht

/-- All that the log directory has gained are entries that refer to the frame `lid` of the log. -/
def DirGains (gen lid : ℕ) (dir dir' : ℕ → Option DirEntry) : Prop :=
  ∀ oid e, dir' oid = some e → dir oid = some e ∨ (e.generation = gen ∧ logFrame e.logLoc = lid)

theorem DirGains.refl (gen lid : ℕ) (dir : ℕ → Option DirEntry) : DirGains gen lid dir dir :=
  fun _ _ he => .inl he

variable {lid f : ℕ}

theorem DirGains.trans {gen : ℕ} {dir₁ dir₂ dir₃ : ℕ → Option DirEntry}
    (h₁ : DirGains gen lid dir₁ dir₂) (h₂ : DirGains gen lid dir₂ dir₃) :
    DirGains gen lid dir₁ dir₃ := fun oid e he =>
  (h₂ oid e he).elim (h₁ oid e) .inr

/-- Nothing but the log directory has changed, by entries that refer to the frame `lid`. -/
def Records (s : State) (lid : ℕ) (t : State) : Prop :=
  ∃ dir, t.logView = { s.logView with logDir := dir } ∧
    DirGains s.workingGeneration lid s.logDir dir

theorem recordNode_records (n : ℕ) {i : ℕ} (hi : logFrame (lid + i) = lid) :
    (recordNode n (lid + i) s).Sat (fun _ t => Records s lid t) (fun _ => False)
      fun _ _ => True := by
  refine sat_bind (nodeClearDirty_sat n) fun _ t ht => ?_
  have hdir : t.logDir = s.logDir := congrArg LogView.logDir ht
  have hgen : t.workingGeneration = s.workingGeneration := congrArg LogView.workingGeneration ht
  refine ⟨update t.logDir (t.nodes n).oid (some ⟨(t.nodes n).allocCount,
    (t.nodes n).callCount, lid + i, .node, t.workingGeneration⟩), ?_, ?_⟩
  · rw [← ht]
    rfl
  · intro oid e he
    rcases eq_or_ne oid (t.nodes n).oid with rfl | hne
    · rw [update_self] at he
      obtain rfl := Option.some.inj he
      exact .inr ⟨hgen, hi⟩
    · rw [update_of_ne hne, hdir] at he
      exact .inl he

theorem recordNodes_records (l : List (ℕ × ℕ))
    (hl : ∀ p ∈ l, logFrame (lid + p.2) = lid) :
    (Prog.forEach (fun (n, i) => recordNode n (lid + i)) l s).Sat (fun _ t => Records s lid t)
      (fun _ => False) fun _ _ => True := by
  induction l generalizing s with
  | nil => exact ⟨s.logDir, rfl, .refl _ _ _⟩
  | cons p l ih =>
    refine sat_bind (recordNode_records p.1 (hl p List.mem_cons_self)) ?_
    rintro _ t ⟨dir, hview, hgains⟩
    refine (ih fun q hq => hl q (List.mem_cons_of_mem _ hq)).mono ?_ (fun _ ht => ht) fun _ _ ht => ht
    rintro _ u ⟨dir', hview', hgains'⟩
    have hdir : t.logDir = dir := congrArg LogView.logDir hview
    have hgen : t.workingGeneration = s.workingGeneration :=
      congrArg LogView.workingGeneration hview
    refine ⟨dir', by rw [hview', hview], hgains.trans ?_⟩
    rw [← hdir, ← hgen]
    exact hgains'

theorem LogInv.startPot (h : LogInv cfg s.logView) (hf : (s.frames f).obType = .newAlloc)
    {dir : ℕ → Option DirEntry} (hdir : DirGains s.workingGeneration s.logCursor s.logDir dir)
    {fr : PageFrame} (ht : fr.obType = .logPot) (hd : fr.dirty = false) (hfet : fr.fetching = false)
    (hio : fr.ioreq = some (.log s.logCursor)) {rng : ℕ}
    (hrng : cfg.lidToRange s.logCursor = some rng) :
    LogInv cfg { s.logView with
      frames := update s.frames f fr
      queue := s.queue ++ [⟨rng, .writeRangeLoc (.log s.logCursor), some f, .endWrite⟩]
      logged := update s.logged s.logCursor (some fr.data)
      logDir := dir
      logCursor := incrementLID cfg.logWrapPoint s.logCursor
      nodesToClean := [] } := by
  have hidle : (s.frames f).io = none :=
    PageFrame.io_eq_none.2 ((h.frame f).unused (.inr (.inl hf)))
  have hexp : fr.exposed = false := by simp [PageFrame.exposed, hd, ht]
  have hfr : FrameOk fr := ⟨fun _ => by simp [hio], fun _ => hd, fun hun => by simp [ht] at hun⟩
  refine LogInv.setCandidates (LogInv.setLogCursor (h.startWrite hfr hidle rfl rfl ?_ hrng h.aligned
    ?_ ?_) (incrementLID_aligned h.aligned)) (Nat.zero_le _)
  · simp [PageFrame.io, hio, hfet, ht]
  · intro oid e he
    exact (hdir oid e he).imp id fun hnew => ⟨hnew.1, fun _ => ⟨hnew.2, hexp⟩⟩
  · simp [hexp]

variable {res : Resources}

theorem createLogPot_keepsLog (h : LogInv cfg s.logView)
    (hf : (s.frames f).obType = .newAlloc) (hres : res.hasRequest = true) :
    KeepsLogAt cfg (createLogPot cfg res f) s := by
  have hlid : ∀ p ∈ s.nodesToClean.zipIdx, logFrame (s.logCursor + p.2) = s.logCursor := by
    intro p hp
    have hlt : p.2 < s.nodesToClean.length := by
      simpa using (List.mem_zipIdx hp).2.1
    have hle : s.nodesToClean.length ≤ diskNodesPerPage := h.candidates
    refine logFrame_eq h.aligned ?_
    simp only [diskNodesPerPage, erosObjectsPerFrame] at *
    omega
  set pot := makePot cfg { s with logCursor := incrementLID cfg.logWrapPoint s.logCursor }
    s.nodesToClean
  set s₁ : State := { s with
    logCursor := incrementLID cfg.logWrapPoint s.logCursor
    logged := update s.logged s.logCursor (some pot) } with hs₁
  have hrun : createLogPot cfg res f s = ((do
      Prog.forEach (fun (n, i) => recordNode n (s.logCursor + i)) s.nodesToClean.zipIdx
      Prog.modify fun s => { s with nodesToClean := [] }
      updateFrame f fun _ => { obType := .logPot, oid := s.logCursor, data := pot, keyRing := some [] }
      Prog.when (res.hasRequest = true) (cleanLogPot cfg f)) : Kernel Unit) s₁ := rfl
  simp only [KeepsLogAt, hrun]
  refine sat_bind ((recordNodes_records _ hlid).mono (fun _ _ ht => ht) (fun _ ht => ht.elim)
    fun _ _ _ => trivial) ?_
  rintro _ t ⟨dir, hview, hgains⟩
  refine sat_when (fun _ => ?_) fun hno => absurd hres hno
  simp only [cleanLogPot, readFrame, bind_apply, andThen_done, State.setFrame,
    update_self, rangeOfLid]
  cases hrng : cfg.lidToRange s.logCursor with
  | none => trivial
  | some rng =>
    set fr : PageFrame :=
      { obType := .logPot, oid := s.logCursor, data := pot, keyRing := some []
        ioreq := some (.log s.logCursor) } with hfr
    have hinv := h.startPot hf hgains (show fr.obType = .logPot from rfl) rfl rfl rfl hrng
    have hframes : t.frames = s.frames := congrArg LogView.frames hview
    have hqueue : t.queue = s.queue := congrArg LogView.queue hview
    -- beside the directory, `t` has the cursor and the content of the pot from the beginning
    have hfinal : ({ t.logView with
        frames := update s.frames f fr
        queue := t.queue ++ [⟨rng, .writeRangeLoc (.log s.logCursor), some f, .endWrite⟩]
        nodesToClean := [] } : LogView) = { s.logView with
        frames := update s.frames f fr
        queue := s.queue ++ [⟨rng, .writeRangeLoc (.log s.logCursor), some f, .endWrite⟩]
        logged := update s.logged s.logCursor (some pot)
        logDir := dir
        logCursor := incrementLID cfg.logWrapPoint s.logCursor
        nodesToClean := [] } := by
      rw [hqueue, hview]
      rfl
    rw [← hfinal] at hinv
    simpa [updateFrame, State.setFrame, ioreqEnqueue, Outcome.Sat, hframes, State.logView, hfr]
      using hinv

theorem length_swapRemove_le (l : List ℕ) (i : ℕ) : (swapRemove l i).length ≤ l.length := by
  simp [swapRemove]

theorem length_dropCandidates_le (gone : ℕ → Bool) (force : Bool) (fuel i : ℕ) (l : List ℕ) :
    (dropCandidates gone force fuel i l).2.length ≤ l.length := by
  induction fuel generalizing i l with
  | zero => exact le_rfl
  | succ fuel ih =>
    unfold dropCandidates
    split
    · split
      · split
        · exact (ih i _).trans (length_swapRemove_le l i)
        · exact length_swapRemove_le l i
      · exact ih (i + 1) l
    · exact le_rfl

theorem reviewCandidates_keepsLog (force : Bool) : KeepsLog cfg (reviewCandidates force) :=
  fun _ h => h.setCandidates ((length_dropCandidates_le _ _ _ _ _).trans h.candidates)

theorem cleanAPotOfNodes_keepsLog (hres : res.hasRequest = true) (force : Bool) :
    KeepsLog cfg (cleanAPotOfNodes cfg res force) := by
  refine maintains_get_bind fun _ => maintains_ite (fun _ => maintains_pure _) fun _ =>
    maintains_bind (reviewCandidates_keepsLog force) fun go =>
    maintains_ite (fun _ s h => ?_) fun _ => maintains_pure _
  refine keepsLog_grabPageFrame_bind h fun g t ht hg _ _ => ?_
  exact sat_bind (createLogPot_keepsLog ht hg hres) fun _ _ hu => hu

theorem addNodeToClean_keepsLog (n : ℕ) : KeepsLog cfg (addNodeToClean n) := by
  refine maintains_bind (readNode_keepsLog n) fun _ => maintains_check_bind fun _ s h => ?_
  refine sat_check_bind fun hlen => sat_when (fun _ => ?_) fun _ => h
  refine h.setCandidates ?_
  rw [List.length_append]
  exact hlen

theorem recordLocation_zero_keepsLog (oid allocCount callCount : ℕ) (type : BaseType) :
    KeepsLog cfg (recordLocation oid allocCount callCount 0 type) := fun _ h =>
  h.record oid allocCount callCount 0 type nofun

theorem logRules (cfg : Config) :
    NodeRules cfg (fun s => LogInv cfg s.logView) fun res => res.hasRequest = true where
  nodes _ _ _ _ h := h
  recordNull _ _ _ := recordLocation_zero_keepsLog _ _ _ _
  addToClean := addNodeToClean_keepsLog
  cleanAPot := cleanAPotOfNodes_keepsLog
  declare := declareDemarcationEvent_keepsLog

end Nodes

/-! ## Runs -/

section Runs

variable {cfg : Config} {s : State}

/-- The condition on an operation: a log pot is only made while there is an I/O request to write
it, and a page that is to be written and is not kernel-read-only is only cleaned into a frame of the
log that is not in use. -/
def LogStep (s : State) : Op → Prop
  | .agePageClean _ f => (s.frames f).TakesLogFrame → s.logView.Free s.logCursor
  | .ageNodeSteal res _ | .cleanAPotOfNodes res | .cleanAKRONode res => res.hasRequest = true
  | .ensureWritableNode res _ _ => ∀ k, (res k).hasRequest = true
  | _ => True

theorem exec_keepsLog (h : LogInv cfg s.logView) {op : Op} (hok : LogStep s op) :
    KeepsLogAt cfg (exec cfg op) s := by
  cases op with
  | fetchPage res oid loc => exact fetchPage_keepsLog res oid loc s h
  | fetchPot res oidOrLid loc isLog => exact fetchPot_keepsLog res oidOrLid loc isLog s h
  | createNewNullPage res oid allocCount =>
    exact sat_bind (createNewNullPage_keepsLog res oid allocCount s h) fun _ _ ht => ht
  | ensureWritable res sp f => exact ensureWritableHeld_keepsLog res sp s h
  | storePage f d => exact storePage_keepsLog d s h
  | usePage f pinned keys products => exact usePage_keepsLog pinned keys products s h
  | agePageClean res f => exact agePageClean_keepsLog h res hok
  | agePageSteal f => exact agePageSteal_keepsLog s h
  | ioComplete i torn => exact ioComplete_keepsLog i torn s h
  | doPhase1Work => exact inPhase_maintains doPhase1Work_keepsLog s h
  | cleanAKROPage res f => exact inPhase_maintains (cleanAKROPage_keepsLog res) s h
  | finishPhase2 => exact inPhase_maintains finishPhase2_keepsLog s h
  | finishPhase3 dirFrames => exact inPhase_maintains (finishPhase3_keepsLog dirFrames) s h
  | doPhase4Work avail => exact inPhase_maintains (doPhase4Work_keepsLog avail) s h
  | doPhase5Work avail => exact inPhase_maintains (doPhase5Work_keepsLog avail) s h
  | _ =>
    refine (logRules cfg).exec ?_ s h
    exact hok

theorem Initial.logInv (h : Initial cfg s) : LogInv cfg s.logView where
  frame f := by
    obtain ⟨-, hio, hfet⟩ := h.frames f
    refine ⟨fun hf => absurd (hfet.symm.trans hf) (by simp), fun hpot => ?_, fun _ => hio⟩
    simp only [State.logView] at hpot
    rcases h.types f with hf | hf | hf <;> simp [hf] at hpot
  queue :=
    { requests := by simp [State.logView, h.queue]
      nodup := by simp [State.logView, h.queue]
      enqueued := by
        intro f hf
        simp [State.logView, PageFrame.io, (h.frames f).2.1] at hf }
  range := by simp [State.logView, h.queue]
  written := by simp [State.logView, h.queue, writers]
  single := by simp [State.logView, h.queue, writers]
  secure lid hlid := by
    obtain ⟨oid, e, he, hgen, -⟩ := hlid
    exact absurd hgen (h.logDir oid e he).ne
  generation oid e he := (h.logDir oid e he).le
  aligned := h.aligned
  candidates := by simp [State.logView, h.nodesToClean]

theorem logInv_run {t : State} (hinit : Initial cfg s) (hrun : Run cfg LogStep s t) :
    LogInv cfg t.logView := by
  induction hrun with
  | refl => exact hinit.logInv
  | step _ hok hstep ih =>
    have hkeeps := exec_keepsLog ih hok
    cases hstep with
    | done hexec | yield hexec =>
      rw [KeepsLogAt, hexec] at hkeeps
      exact hkeeps

/-- In every run in which log pots are only made while there is an I/O request to write them, and
current versions are only cleaned into frames of the log that are not in use, every entry of the
working generation refers to a frame whose content is on the disk or in a request. -/
theorem noLostUpdate_run {t : State} (hinit : Initial cfg s) (hrun : Run cfg LogStep s t) :
    NoLostUpdate t := (logInv_run hinit hrun).noLostUpdate

/-! ### A pot that is not written -/

/-- A node has been written to, and a demarcation has taken place; the node is the candidate for
the next pot. -/
def candidateState : State :=
  { emptyState with
    nodes := update emptyState.nodes 0
      { inUse := true
        oid := firstPersistentOID
        nodeData := 1
        dirty := true
        cleanable := true
        kro := true }
    nodesToClean := [0]
    ckptState := .phase2
    numKRONodes := 1
    kroNodeCleanCursor := 1 }

theorem candidateState_run : Run smallConfig LogStep emptyState candidateState := by
  have hrefl : Run smallConfig LogStep emptyState emptyState := .refl
  have hcreate := hrefl.exec (.createNewNullNode 0 firstPersistentOID 0) trivial rfl
  have hstore := hcreate.exec (.storeNode 0 1 (fun _ => .void) 0) trivial rfl
  have hdeclare := hstore.exec .declareDemarcationEvent trivial rfl
  have hdemarcate := hdeclare.exec .doPhase1Work trivial rfl
  have hclean := hdemarcate.exec (.cleanAKRONode {}) rfl rfl
  simp only [State.setNode, update_idem] at hclean
  exact hclean

/-- The last pot is forced out, and starts to be written. -/
theorem noLostUpdate_run_forced :
    ∃ t, Run smallConfig LogStep emptyState t ∧
      (t.logDir firstPersistentOID).map (·.logLoc) = some mainLogStart ∧ NoLostUpdate t := by
  have hrun := candidateState_run.exec (.cleanAKRONode { alloc := some 0 }) rfl rfl
  exact ⟨_, hrun, rfl, noLostUpdate_run emptyState_initial hrun⟩

/-- The pot of the candidate. -/
def candidatePot : FrameData :=
  makePot smallConfig
    { candidateState with
      frames := update emptyState.frames 0 { obType := .newAlloc }
      logCursor := mainLogStart + 256 } [0]

/-- The pot of the candidate has been made, has not been written, and has been stolen. -/
def lostState : State :=
  { candidateState with
    frames := update emptyState.frames 0 .free
    nodes := update candidateState.nodes 0
      { inUse := true
        oid := firstPersistentOID
        nodeData := 1
        cleanable := true }
    nodesToClean := []
    logDir := update emptyState.logDir firstPersistentOID
      (some ⟨0, 0, mainLogStart, .node, 1⟩)
    logCursor := mainLogStart + 256
    logged := update emptyState.logged mainLogStart (some candidatePot)
    numKRONodes := 0 }

theorem lostState_run : Run smallConfig (fun _ _ => True) emptyState lostState := by
  have hcand : Run smallConfig (fun _ _ => True) emptyState candidateState :=
    candidateState_run.mono fun _ _ _ => trivial
  have hpot := hcand.exec (.cleanAKRONode { alloc := some 0, hasRequest := false }) trivial rfl
  have hsteal := hpot.exec (.agePageSteal 0) trivial rfl
  simp only [State.setFrame, State.setNode, update_idem] at hsteal
  exact hsteal

/-- The entry of the node refers to a frame of the log that will never be written. -/
theorem lostState_update_lost :
    Initial smallConfig emptyState ∧ Run smallConfig (fun _ _ => True) emptyState lostState ∧
      ¬NoLostUpdate lostState := by
  refine ⟨emptyState_initial, lostState_run, fun h => ?_⟩
  obtain ⟨d, hd, hdisk | ⟨r, hr, -⟩ | ⟨f, hf, -⟩⟩ := h firstPersistentOID _ rfl rfl (by decide)
  · -- the pot is not what is on the disk
    have hd : some candidatePot = some d := hd
    obtain rfl := Option.some.inj hd
    have hdisk : FrameData.page 0 = candidatePot := hdisk
    simp [candidatePot, makePot] at hdisk
  · cases hr
  · simp [lostState, emptyState, PageFrame.free] at hf

end Runs

end CapROS.ObjectCache
