import CapROS.ObjectCache.NodeRules
import CapROS.ObjectCache.PageStates

/-!
# Runs of the object cache keep the page states

Every operation of the object cache keeps the invariant of the page states, on the condition that a
demarcation finds no page that is dirty and being cleaned, that a page is not copied into an unlinked
working copy, and that no page is moved while no key is prepared to it. On the same condition, and
with enough space, no assertion fails when a page is made writeable or cleaned.

* `pageStates_run`: all runs.
-/

namespace CapROS.ObjectCache

open Yielding Counting
open Function (update update_idem update_self update_of_ne update_eq_self)

/-! ## Copy on write -/

section CopyOnWrite

variable {cfg : Config} {s : State} {f : ℕ}

variable {v : View}

theorem PageInv.io_none_of_free (h : PageInv cfg v)
    (hf : (v.frames f).obType = .freeFrame) :
    (v.frames f).io = none ∧ (v.frames f).kroDirty = false := by
  have hfr := h.frame f
  simp only [FrameInv, hf] at hfr
  exact ⟨PageFrame.io_eq_none.2 hfr.2, by simp [PageFrame.kroDirty, hfr.1]⟩

variable {fr : PageFrame}

theorem PageInv.useFree (h : PageInv cfg v) (hlt : f < cfg.nPages)
    (hf : (v.frames f).obType = .freeFrame) (hio : fr.io = none)
    (hkd : fr.kroDirty = false) (hfr : FrameInv v.ckptState fr) :
    PageInv cfg { v with frames := update v.frames f fr } := by
  obtain ⟨hio₀, hkd₀⟩ := h.io_none_of_free hf
  exact h.setFrame (hio.trans hio₀.symm) hfr (fun hge => absurd hlt (Nat.not_lt.2 hge))
    (by rw [hkd, hkd₀])

theorem pageInv_moveKROPage (h : PageInv cfg s.view) (hf : (s.frames f).obType = .dataPage)
    (hk : (s.frames f).kro = true) (hkey : (s.frames f).HasKey) {g : ℕ} (hg : g < cfg.nPages)
    (hfree : (s.frames g).obType = .freeFrame) :
    ∃ t, moveKROPage f g (s.setFrame g { obType := .newAlloc }) = .done () t ∧
      PageInv cfg t.view := by
  have hfg : f ≠ g := by
    rintro rfl
    simp [hf] at hfree
  have hpage := h.dataPage hf
  have hkro := hpage.kro hk
  have hlt : f < cfg.nPages := h.lt_nPages (by simp [State.view, hf])
  have hgo : (update s.frames g ({ obType := .newAlloc } : PageFrame)) f = s.frames f :=
    update_of_ne hfg _ _
  obtain ⟨k, ks, hring⟩ := hkey
  refine ⟨_, rfl, ?_⟩
  simp only [State.setFrame, hgo, hring, movedRings]
  -- the new frame, then the old frame, then the new frame again
  have h₁ : PageInv cfg { s.view with
      frames := update s.frames g { obType := .newAlloc } } :=
    h.useFree hg hfree rfl rfl ⟨rfl, rfl⟩
  have h₂ := h₁.setFrame (N := s.numKRODirtyPages) (f := f)
    (show ({ s.frames f with
        obType := .workingCopy, products := [], keyRing := some [] } : PageFrame).io = _ by
      simp only [hgo, PageFrame.io, hf, or_true, true_or, if_true])
    (by
      exact ⟨hk, ⟨hkro.demarcated, hkro.notFetching, hkro.dirtyOrClean, hkro.notBoth,
        hkro.cleaned⟩, rfl, rfl, hpage.nonzero⟩)
    (fun hge => absurd hlt (Nat.not_lt.2 hge))
    (by simp only [hgo, State.view, PageFrame.kroDirty])
  have h₃ := h₂.setFrame (N := s.numKRODirtyPages) (f := g)
    (show ({ obType := .dataPage
             oid := (s.frames f).oid
             allocCount := (s.frames f).allocCount
             data := (s.frames f).data
             dirty := true
             fetching := (s.frames f).fetching
             cleanable := (s.frames f).cleanable
             keyRing := some (k :: ks) } : PageFrame).io = _ by
      simp [PageFrame.io, update_of_ne hfg.symm])
    (by
      refine ⟨hpage.cleanable, fun _ => ⟨rfl, rfl, rfl⟩, ?_, ?_, fun _ _ => rfl, ?_⟩
      · intro hfet
        exact absurd (hkro.notFetching.symm.trans hfet) (by simp)
      · intro hk'
        simp at hk'
      · intro hcln
        simp [PageFrame.beingCleaned] at hcln)
    (fun hge => absurd hg (Nat.not_lt.2 hge))
    (by simp [PageFrame.kroDirty, update_of_ne hfg.symm])
  exact h₃

variable {ck : CkptState}

theorem DataPageInv.cleanable_of_kro (h : DataPageInv ck fr)
    (hk : fr.kro = true) : fr.cleanable = true := by
  cases hcl : fr.cleanable with
  | true => rfl
  | false => simp [(h.nonPersistent hcl).2.1] at hk

/-- The page in frame `f` can be written: it is a page, not being fetched and not
kernel-read-only. -/
structure Mitigated (cfg : Config) (t : State) (f : ℕ) : Prop where
  inv : PageInv cfg t.view
  type : (t.frames f).obType = .dataPage
  fetching : (t.frames f).fetching = false
  kro : (t.frames f).kro = false

/-- What `pageH_MitigateKRO` achieves: the page is no longer kernel-read-only, or the current
version is elsewhere. -/
def MitigateSat (cfg : Config) (f : ℕ) (o : Outcome Halt State ℕ) : Prop :=
  o.Sat (fun g t => PageInv cfg t.view ∧ (g = f → Mitigated cfg t f)) (fun t => PageInv cfg t.view)
    fun _ _ => False

theorem mitigateWithCopy_sat (h : PageInv cfg s.view) (hf : (s.frames f).obType = .dataPage)
    (hk : (s.frames f).kro = true) (res : Resources)
    (hmove : (s.frames f).ioreq.isSome ∨ (s.frames f).pinned) (hkey : (s.frames f).HasKey) :
    MitigateSat cfg f (mitigateWithCopy cfg res f s) := by
  refine grabPageFrame_bind_sat h fun g hg hfree => ?_
  have hfg : f ≠ g := by
    rintro rfl
    simp [hf] at hfree
  have hgo : (s.setFrame g { obType := .newAlloc }).frames f = s.frames f :=
    update_of_ne hfg _ _
  obtain ⟨t, ht, hinv⟩ := pageInv_moveKROPage h hf hk hkey hg hfree
  simp only [readFrame, bind_apply, andThen_done, hgo, if_pos hmove, ht, pure_apply]
  exact ⟨hinv, fun he => absurd he hfg.symm⟩

theorem KROInv.of_isZero (h : KROInv ck fr)
    (hnz : fr.beingCleaned → fr.dirty = false → ¬fr.data.IsZero) (hz : fr.data.IsZero) :
    fr.dirty = true ∧ fr.ioreq = none := by
  have hd : fr.dirty = true := by
    by_contra hd
    have hd' : fr.dirty = false := by simpa using hd
    rcases h.dirtyOrClean with hd | hio
    · simp [hd'] at hd
    · exact hnz (by simp [PageFrame.beingCleaned, hio, h.notFetching]) hd' hz
  refine ⟨hd, ?_⟩
  rcases hio : fr.ioreq with - | loc
  · rfl
  · have := h.notBoth (by simp [hio])
    simp [hd] at this

theorem mitigateZero_sat (h : PageInv cfg s.view) (hf : (s.frames f).obType = .dataPage)
    (hk : (s.frames f).kro = true) (res : Resources) (hz : (s.frames f).data.IsZero) :
    MitigateSat cfg f (mitigateZero cfg res f s) := by
  have hpage := h.dataPage hf
  have hkro := hpage.kro hk
  obtain ⟨hd, hidle⟩ := hkro.of_isZero hpage.nonzero hz
  have hcl : (s.frames f).cleanable = true := hpage.cleanable_of_kro hk
  have hc : CanClean s f := ⟨.inl hf, hd, hidle, fun _ => hcl, fun _ => hk⟩
  have hclear := clearDirty_apply (hc.count_pos h)
  have hrun : mitigateZero cfg res f s = .done f (s.zeroCleaned f) := by
    have hzero := cleanZeroPage_dataPage hf
    simp only [State.view] at hd hidle
    simp only [State.cleared] at hzero
    simp [mitigateZero, readFrame, kcheck, Prog.check, hd, hidle, hclear, hzero]
  rw [hrun]
  have hfr : (s.zeroCleaned f).frames f = { cleanedFrame (s.frames f) with kro := false } :=
    update_self ..
  exact ⟨pageInv_zeroCleaned h hc hf, fun _ => ⟨pageInv_zeroCleaned h hc hf, by rw [hfr]; exact hf,
    by rw [hfr]; exact hkro.notFetching, by rw [hfr]⟩⟩

theorem mitigateKRO_sat (h : PageInv cfg s.view) (hf : (s.frames f).obType = .dataPage)
    (hk : (s.frames f).kro = true) (res : Resources)
    (hmove : ¬(s.frames f).data.IsZero →
      ((s.frames f).ioreq = none → (s.frames f).pinned) ∧ (s.frames f).HasKey) :
    MitigateSat cfg f (mitigateKRO cfg res f s) := by
  have hpage := h.dataPage hf
  have hkro := hpage.kro hk
  have hcl : (s.frames f).cleanable = true := hpage.cleanable_of_kro hk
  have hfet : (s.frames f).fetching = false := hkro.notFetching
  have hrun : mitigateKRO cfg res f s =
      (if (s.frames f).data.IsZero then mitigateZero cfg res f else mitigateWithCopy cfg res f) s := by
    simp [mitigateKRO, readFrame, kcheck, Prog.check, hk, hcl, hfet, hf]
  rw [hrun]
  split
  · rename_i hz
    exact mitigateZero_sat h hf hk res hz
  · rename_i hnz
    refine mitigateWithCopy_sat h hf hk res ?_ (hmove hnz).2
    rcases hio : (s.frames f).ioreq with - | loc
    · exact .inr ((hmove hnz).1 hio)
    · exact .inl rfl

end CopyOnWrite

/-! ## Making pages writeable -/

section EnsureWritable

variable {cfg : Config} {s : State} {f : ℕ}

/-- The invariant of a frame looks at the state of the checkpoint only to see whether the
demarcation has taken place, and whether the pages have been cleaned. -/
theorem FrameInv.congr {ck ck' : CkptState} {fr : PageFrame}
    (hd : ck'.demarcated = ck.demarcated) (ha : ck'.allClean = ck.allClean) (h : FrameInv ck fr) :
    FrameInv ck' fr := by
  have hkro : KROInv ck fr → KROInv ck' fr := fun hk =>
    ⟨hd ▸ hk.demarcated, hk.notFetching, hk.dirtyOrClean, hk.notBoth, ha ▸ hk.cleaned⟩
  unfold FrameInv at *
  split
  · rename_i hf
    rw [hf] at h
    exact ⟨h.cleanable, h.nonPersistent, h.fetching, fun hk => hkro (h.kro hk), hd ▸ h.cleaning,
      h.nonzero⟩
  · rename_i hf
    rw [hf] at h
    exact ⟨h.isKRO, hkro h.kro, h.products, h.ring, h.nonzero⟩
  all_goals
    rename_i hf
    rw [hf] at h
    exact h

theorem PageInv.declare {v : View} (h : PageInv cfg v) (hck : v.ckptState = .notActive) :
    PageInv cfg { v with ckptState := .phase1 } where
  frame g := (h.frame g).congr (by rw [hck]; rfl) (by rw [hck]; rfl)
  bound := h.bound
  queue := h.queue
  sync := ⟨h.sync.count, fun _ _ => h.sync.idle (by simp [hck]) (by simp [hck]),
    fun h3 => by simp at h3, fun h4 => by simp at h4, fun h5 => by simp at h5⟩
  count := h.count
  logCursor := h.logCursor

theorem setDirtyFlag_returns (h : Mitigated cfg s f) : Returns cfg (setDirtyFlag f) s := by
  have hpage := h.inv.dataPage h.type
  have hlt : f < cfg.nPages := h.inv.lt_nPages (by simp [State.view, h.type])
  have hinv : PageInv cfg { s.view with
      frames := update s.frames f { s.frames f with dirty := true }
      numKRODirtyPages := s.numKRODirtyPages } := by
    refine h.inv.setFrame rfl ?_ (fun hge => absurd hlt (Nat.not_lt.2 hge))
      (by simp [State.view, PageFrame.kroDirty, h.kro])
    simp only [FrameInv, h.type]
    refine ⟨hpage.cleanable, fun hnc => ⟨rfl, (hpage.nonPersistent hnc).2⟩, ?_, ?_, hpage.cleaning, ?_⟩
    · intro hfet
      exact absurd (h.fetching.symm.trans hfet) (by simp)
    · intro hk
      exact absurd (h.kro.symm.trans hk) (by simp)
    · intro _ hd
      simp at hd
  exact returns_of_eq rfl hinv

/-- `objH_EnsureWritable` finds enough space. -/
def SpaceOk (s : State) (sp : Space) : Prop :=
  sp.enoughWorkingDirEnts ∧
    (s.ckptIsActive ∨ sp.low → sp.enoughNextDirEnts ∧ sp.enoughNextLog)

/-- A page that is kernel-read-only can be mitigated without copying it into an unlinked working
copy, and a key is prepared to it, so that its ring can be moved. -/
def CanMove (s : State) (f : ℕ) : Prop :=
  (s.frames f).kro → ¬(s.frames f).data.IsZero →
    ((s.frames f).ioreq = none → (s.frames f).pinned) ∧ (s.frames f).HasKey

theorem Returns.safe {α : Type} {m : Kernel α} (h : Returns cfg m s) : Safe cfg m s :=
  h.mono (fun _ _ ht => ht) (fun _ ht => ht.elim) fun _ _ ht => ht

variable {sp : Space}

theorem ensureWritableActive_safe (h : PageInv cfg s.view) (hf : (s.frames f).obType = .dataPage)
    (hfet : (s.frames f).fetching = false) (res : Resources)
    (hsp : sp.enoughWorkingDirEnts ∧ sp.enoughNextDirEnts ∧ sp.enoughNextLog) (hmove : CanMove s f) :
    Safe cfg (ensureWritableActive cfg res sp f) s := by
  have hrun : ensureWritableActive cfg res sp f s = (do
      mitigateIfKRO cfg res f
      setDirtyFlag f : Kernel Unit) s := by
    simp [ensureWritableActive, checkNextSpace, kcheck, Prog.check, hsp.1, hsp.2.1, hsp.2.2]
  unfold Safe
  rw [hrun]
  refine sat_bind (R := fun _ t => Mitigated cfg t f) ?_ fun _ t ht => (setDirtyFlag_returns ht).safe
  cases hk : (s.frames f).kro with
  | false =>
    simp only [mitigateIfKRO, readFrame, bind_apply, andThen_done, hk, Bool.false_eq_true, if_false,
      pure_apply]
    exact ⟨h, hf, hfet, hk⟩
  | true =>
    simp only [mitigateIfKRO, readFrame, bind_apply, andThen_done, hk, if_true]
    have hsat := mitigateKRO_sat h hf hk res (hmove hk)
    cases hm : mitigateKRO cfg res f s with
    | done g t =>
      rw [hm] at hsat
      rw [andThen_done]
      by_cases hg : g = f
      · rw [when_neg (not_not.2 hg)]
        exact hsat.2 hg
      · rw [when_pos hg]
        exact hsat.1
    | yield t | halt e t =>
      rw [hm] at hsat
      exact hsat

theorem ensureWritable_safe (h : PageInv cfg s.view) (hf : (s.frames f).obType = .dataPage)
    (hfet : (s.frames f).fetching = false) (res : Resources) (hsp : SpaceOk s sp)
    (hmove : CanMove s f) : Safe cfg (ensureWritable cfg res sp f) s := by
  have hpage := h.dataPage hf
  by_cases hw : (s.frames f).dirty = true ∧ ¬(s.frames f).kro = true
  · have hrun : ensureWritable cfg res sp f s = .done () s := by
      simp only [ensureWritable, readFrame, bind_apply, andThen_done, if_pos hw, pure_apply]
    exact (returns_of_eq hrun h).safe
  · have hcl : (s.frames f).cleanable = true := by
      cases hcl : (s.frames f).cleanable with
      | true => rfl
      | false =>
        have hk : (s.frames f).kro = false := (hpage.nonPersistent hcl).2.1
        exact absurd ⟨(hpage.nonPersistent hcl).1, by simp [hk]⟩ hw
    have hrun : ensureWritable cfg res sp f s =
        (if s.ckptState = .notActive then ensureWritableInactive cfg res sp f
        else ensureWritableActive cfg res sp f) s := by
      simp only [ensureWritable, readFrame, bind_apply, andThen_done, if_neg hw, kcheck, Prog.check,
        hcl, hfet, if_true, Bool.false_eq_true, not_false_eq_true, pure_apply, get_apply]
    unfold Safe
    rw [hrun]
    split
    · -- no checkpoint is active, so the page is not kernel-read-only
      rename_i hck
      have hk : (s.frames f).kro = false := by
        cases hk : (s.frames f).kro with
        | false => rfl
        | true =>
          have hdem := (hpage.kro hk).demarcated
          simp [State.view, hck, CkptState.demarcated] at hdem
      cases hlow : sp.low with
      | true =>
        have hrun' : ensureWritableInactive cfg res sp f s =
            ensureWritableActive cfg res sp f { s with ckptState := .phase1 } := by
          simp [ensureWritableInactive, readFrame, kcheck, Prog.check, hk, hlow,
            declareDemarcationEvent, hck]
        have hinv : PageInv cfg ({ s with ckptState := .phase1 } : State).view := h.declare hck
        rw [hrun']
        exact ensureWritableActive_safe hinv hf hfet res ⟨hsp.1, hsp.2 (.inr hlow)⟩ hmove
      | false =>
        have hrun' : ensureWritableInactive cfg res sp f s = setDirtyFlag f s := by
          simp [ensureWritableInactive, readFrame, kcheck, Prog.check, hk, hlow, hsp.1]
        rw [hrun']
        exact (setDirtyFlag_returns ⟨h, hf, hfet, hk⟩).safe
    · rename_i hck
      have hactive : s.ckptIsActive := by
        simpa [State.ckptIsActive] using hck
      exact ensureWritableActive_safe h hf hfet res ⟨hsp.1, hsp.2 (.inl hactive)⟩ hmove

end EnsureWritable

/-! ## The other operations on pages -/

section PageOps

variable {cfg : Config} {s : State} {f : ℕ} {α : Type}

/-- The invariant holds when the program returns or yields. -/
def Keeps (cfg : Config) (m : Kernel α) (s : State) : Prop :=
  (m s).Sat (fun _ t => PageInv cfg t.view) (fun t => PageInv cfg t.view) fun _ _ => True

theorem Safe.keeps {m : Kernel α} (h : Safe cfg m s) : Keeps cfg m s :=
  h.mono (fun _ _ ht => ht) (fun _ ht => ht) fun _ _ ht => ht.elim

variable {fr : PageFrame} {v : View}

theorem PageInv.useNew (h : PageInv cfg v) (hlt : f < cfg.nPages)
    (hf : (v.frames f).obType = .freeFrame) (hio : fr.io = none)
    (hkd : fr.kroDirty = false) (hfr : FrameInv v.ckptState fr) :
    PageInv cfg { v with frames := update (update v.frames f
      { obType := .newAlloc }) f fr } := by
  rw [update_idem]
  exact h.useFree hlt hf hio hkd hfr

theorem PageInv.startFetch (h : PageInv cfg v) (hlt : f < cfg.nPages)
    (hf : (v.frames f).obType = .freeFrame) {loc : DiskLoc} (rng : ℕ)
    (hio : fr.io = some (.readRangeLoc loc, .endReadPage)) (hkd : fr.kroDirty = false)
    (hfr : FrameInv v.ckptState fr) :
    PageInv cfg { v with
      frames := update (update v.frames f { obType := .newAlloc }) f fr
      queue := v.queue ++ [⟨rng, .readRangeLoc loc, some f, .endReadPage⟩] } := by
  obtain ⟨hio₀, hkd₀⟩ := h.io_none_of_free hf
  rw [update_idem]
  exact h.startIo hio₀ rfl hio (fun he => by simp at he) hfr
    (fun hge => absurd hlt (Nat.not_lt.2 hge)) (by rw [hkd, hkd₀])

section Fetching

variable (h : PageInv cfg s.view) (res : Resources)
include h

theorem fetchInto_keeps (loc : DiskLoc)
    (hio : fr.io = some (.readRangeLoc loc, .endReadPage)) (hkd : fr.kroDirty = false)
    (hfr : FrameInv s.ckptState fr) :
    Keeps cfg (do
      let f ← allocateIOReqAndPage cfg res
      let rng ← rangeOfLoc cfg loc
      updateFrame f fun _ => fr
      ioreqEnqueue ⟨rng, .readRangeLoc loc, some f, .endReadPage⟩
      Prog.yield : Kernel Unit) s := by
  have halloc : (allocateIOReqAndPage cfg res s).Sat
      (fun g t => g < cfg.nPages ∧ (s.frames g).obType = .freeFrame ∧
        t = s.setFrame g { obType := .newAlloc })
      (fun t => PageInv cfg t.view) fun _ _ => True := by
    refine grabPageFrame_bind_sat h fun g hg hfree => ?_
    split
    · exact ⟨hg, hfree, rfl⟩
    · have hinv : PageInv cfg ((s.setFrame g { obType := .newAlloc }).setFrame g .free).view :=
        h.useNew hg hfree rfl rfl ⟨rfl, rfl⟩
      exact hinv
  refine sat_bind halloc ?_
  rintro g t ⟨hg, hfree, rfl⟩
  rw [bind_apply]
  have hrange : ∀ rng, ((do
      updateFrame g fun _ => fr
      ioreqEnqueue ⟨rng, .readRangeLoc loc, some g, .endReadPage⟩
      Prog.yield : Kernel Unit) (s.setFrame g { obType := .newAlloc })).Sat
        (fun _ t => PageInv cfg t.view) (fun t => PageInv cfg t.view) fun _ _ => True :=
    fun rng => h.startFetch hg hfree rng hio hkd hfr
  cases loc with
  | log lid =>
    simp only [rangeOfLoc, rangeOfLid]
    cases cfg.lidToRange lid with
    | none => trivial
    | some rng => exact hrange rng
  | home rangeLoc => exact hrange _

theorem fetchPage_keeps (oid : ℕ) (loc : DiskLoc) :
    Keeps cfg (fetchPage cfg res oid loc) s := by
  unfold Keeps fetchPage kcheck
  rw [bind_apply]
  by_cases hp : oidIsPersistent oid = true
  · rw [check_pos hp, pure_apply, andThen_done]
    refine fetchInto_keeps h res loc rfl rfl ?_
    exact ⟨hp.symm, fun hc => absurd hc (by simp), fun _ => ⟨rfl, rfl⟩, fun hk => absurd hk (by simp),
      fun _ _ => rfl, fun hc => absurd hc (by simp [PageFrame.beingCleaned])⟩
  · rw [check_neg hp]
    trivial

theorem fetchPot_keeps (oidOrLid : ℕ) (loc : DiskLoc)
    (isLog : Bool) :
    Keeps cfg (fetchPot cfg res oidOrLid loc (if isLog then .logPot else .homePot)) s := by
  unfold Keeps fetchPot kcheck
  rw [bind_apply]
  by_cases hp : oidToObIndex oidOrLid = 0
  · rw [check_pos hp, pure_apply, andThen_done]
    refine fetchInto_keeps h res loc rfl rfl ?_
    cases isLog <;> rfl
  · rw [check_neg hp]
    trivial

theorem createNewNullPage_keeps (oid allocCount : ℕ) :
    Keeps cfg (createNewNullPage cfg res oid allocCount) s := by
  refine grabPageFrame_bind_sat h fun g hg hfree => ?_
  refine h.useNew hg hfree rfl rfl ?_
  exact ⟨rfl, fun _ => ⟨rfl, rfl, rfl⟩, fun hc => absurd hc (by simp), fun hk => absurd hk (by simp),
    fun _ _ => rfl, fun hc => absurd hc (by simp [PageFrame.beingCleaned])⟩

end Fetching

theorem storePage_keeps (h : PageInv cfg s.view) (d : PageData) : Keeps cfg (storePage f d) s := by
  unfold Keeps
  simp only [storePage, readFrame, bind_apply, andThen_done, Prog.when]
  split
  · rename_i hcond
    obtain ⟨hf, hd, hk⟩ := hcond
    have hpage := h.dataPage hf
    refine h.setFrame rfl ?_
      (fun hge => absurd (h.bound f hge) (by simp [State.view, hf])) (by rfl)
    simp only [FrameInv, hf]
    exact ⟨hpage.cleanable, hpage.nonPersistent, hpage.fetching,
      fun hk' => absurd hk' hk, hpage.cleaning, fun _ hd' => by simp [hd] at hd'⟩
  · exact h

theorem usePage_keeps (h : PageInv cfg s.view) (pinned : Bool) (keys products : List ℕ) :
    Keeps cfg (usePage f pinned keys products) s := by
  unfold Keeps
  simp only [usePage, readFrame, bind_apply, andThen_done, Prog.when]
  split
  · rename_i hcond
    have hpage := h.dataPage hcond.1
    refine h.setFrame rfl ?_
      (fun hge => absurd (h.bound f hge) (by simp [State.view, hcond.1])) (by rfl)
    simp only [FrameInv, hcond.1]
    refine ⟨hpage.cleanable, hpage.nonPersistent, hpage.fetching, fun hk => ?_, hpage.cleaning,
      hpage.nonzero⟩
    have hkro := hpage.kro hk
    exact ⟨hkro.demarcated, hkro.notFetching, hkro.dirtyOrClean, hkro.notBoth, hkro.cleaned⟩
  · exact h

theorem PageInv.release (h : PageInv cfg s.view) (hidle : (s.frames f).ioreq = none)
    (hd : (s.frames f).dirty = false) : PageInv cfg (s.setFrame f .free).view :=
  h.setFrame (PageFrame.io_eq_none.2 hidle).symm ⟨rfl, rfl⟩ (fun _ => rfl)
    (by simp [State.view, State.setFrame, PageFrame.kroDirty, PageFrame.free, hd])

theorem agePageSteal_safe (h : PageInv cfg s.view) : Safe cfg (agePageSteal f) s := by
  unfold Safe
  simp only [agePageSteal, readFrame, bind_apply, andThen_done]
  split
  · rename_i hcond
    rcases hio : (s.frames f).ioreq with - | loc
    · exact h.release hio (by simpa using hcond.2)
    · exact h
  · exact h

/-- Only data pages that are persistent, not pinned and not being fetched are both aged and
dirty. -/
theorem PageInv.aged_dirty (h : PageInv cfg s.view) (ha : (s.frames f).isAged = true)
    (hd : (s.frames f).dirty = true) :
    (s.frames f).obType = .dataPage ∧ (s.frames f).cleanable = true := by
  have hfr := h.frame f
  simp only [State.view, FrameInv] at hfr
  unfold PageFrame.isAged at ha
  cases hf : (s.frames f).obType <;> simp only [hf] at ha hfr
  case dataPage => exact ⟨rfl, by simp_all⟩
  case tagPot | homePot | logPot => simp [hd] at hfr
  all_goals simp at ha

theorem agePageClean_safe (h : PageInv cfg s.view) (res : Resources) :
    Safe cfg (agePageClean cfg res f) s := by
  unfold Safe
  simp only [agePageClean, readFrame, bind_apply, andThen_done, get_apply]
  split
  · rename_i hcond
    obtain ⟨ha, hd, hck⟩ := hcond
    obtain ⟨hf, hcl⟩ := h.aged_dirty ha hd
    refine sat_bind (R := fun _ t => PageInv cfg t.view) ?_ fun _ t ht =>
      (show PageInv cfg t.view from ht)
    have hsat := pageClean_sat h res (f := f) fun hio => ⟨.inl hf, hd, hio, fun _ => hcl, fun hdem => by
      by_contra hk
      refine hck ⟨?_, hk⟩
      cases hs : s.ckptState <;> simp_all [State.ckptIsActive, CkptState.demarcated]⟩
    exact hsat.mono (fun _ _ ht => ht.1) (fun _ ht => ht) fun _ _ ht => ht
  · exact h

theorem cleanAKROPage_safe (h : PageInv cfg s.view) (res : Resources) :
    Safe cfg (cleanAKROPage cfg res f) s := by
  unfold Safe
  simp only [cleanAKROPage, readFrame, bind_apply, andThen_done]
  split
  · rename_i hcond
    obtain ⟨htype, hk, hd⟩ := hcond
    have htype' : (s.frames f).obType = .dataPage ∨ (s.frames f).obType = .workingCopy := by
      rcases htype with hf | hf | hf
      · exact .inr hf
      · exact .inl hf
      · have hfr := h.frame f
        simp only [State.view, FrameInv, hf] at hfr
        simp [hd] at hfr
    have hc : (s.frames f).ioreq = none → CanClean s f := fun hio =>
      ⟨htype', hd, hio, fun hf => (h.dataPage hf).cleanable_of_kro hk, fun _ => hk⟩
    refine sat_bind (pageClean_sat h { res with isPFH := false } hc) ?_
    rintro b t ⟨ht, hb⟩
    rw [hb rfl]
    exact ht
  · exact h

end PageOps

/-! ## Completion of requests -/

section Completion

variable {cfg : Config} {s : State}

variable {r : IORequest}

theorem PageInv.io_of_mem (h : PageInv cfg s.view) (hr : r ∈ s.queue) {f : ℕ}
    (hpage : r.page = some f) : (s.frames f).io = some (r.request, r.doneFn) :=
  h.queue.io_of_mem hr hpage

theorem FrameInv.pot {ck : CkptState} {fr : PageFrame} (h : FrameInv ck fr)
    (hio : fr.ioreq ≠ none) (hd : fr.obType ≠ .dataPage) (hw : fr.obType ≠ .workingCopy) :
    fr.dirty = false ∧ (fr.obType = .logPot ∨ fr.obType = .homePot ∨ fr.obType = .tagPot) := by
  unfold FrameInv at h
  cases hf : fr.obType <;> simp_all

variable {l₁ l₂ : List IORequest}

theorem endRead_finish (h : PageInv cfg s.view) {f : ℕ}
    (hqueue : s.queue = l₁ ++ r :: l₂) (hfirst : ∀ q ∈ l₁, q.range ≠ r.range)
    (hpage : r.page = some f) (hdone : r.doneFn = .endReadPage) (d : FrameData) :
    PageInv cfg { s.view with
      frames := update s.frames f
        { s.frames f with data := d, ioreq := none, fetching := false }
      queue := l₁ ++ l₂ } := by
  have hio := h.io_of_mem (hqueue ▸ List.mem_append_right _ List.mem_cons_self) hpage
  rw [hdone] at hio
  obtain ⟨loc, hreq, hfet, -⟩ := PageFrame.of_io_endReadPage hio
  have hfr := h.frame f
  have hwc : (s.frames f).obType ≠ .workingCopy := by
    intro hf
    have := (h.workingCopy hf).kro.notFetching
    simp [State.view, hfet] at this
  have hlt : f < cfg.nPages := by
    refine h.lt_nPages fun hf => ?_
    simp only [FrameInv, hf] at hfr
    simp [State.view, hreq] at hfr
  by_cases hf : (s.frames f).obType = .dataPage
  · have hpg := h.dataPage hf
    have hd : (s.frames f).dirty = false := (hpg.fetching hfet).1
    refine h.finishIo hqueue hfirst hpage rfl ?_ (fun hge => absurd hlt (Nat.not_lt.2 hge))
      (by simp [State.view, PageFrame.kroDirty])
    simp only [FrameInv, hf]
    refine ⟨hpg.cleanable, fun hnc => absurd ((hpg.nonPersistent hnc).1.symm.trans hd) (by simp),
      fun hc => absurd hc (by simp), fun hk => ?_,
      fun _ _ => rfl, fun hc => absurd hc (by simp [PageFrame.beingCleaned])⟩
    have := (hpg.kro hk).notFetching
    simp [State.view, hfet] at this
  · obtain ⟨hd, hpot⟩ := hfr.pot (by simp [State.view, hreq]) hf hwc
    refine h.finishIo hqueue hfirst hpage rfl ?_ (fun hge => absurd hlt (Nat.not_lt.2 hge))
      (by simp [State.view, PageFrame.kroDirty])
    simp only [State.view] at hpot hd
    rcases hpot with hf | hf | hf <;> simp only [FrameInv, hf] <;> exact hd

theorem endWrite_finish (h : PageInv cfg s.view) {f : ℕ}
    (hqueue : s.queue = l₁ ++ r :: l₂) (hfirst : ∀ q ∈ l₁, q.range ≠ r.range)
    (hpage : r.page = some f) (hdone : r.doneFn = .endWrite) :
    PageInv cfg { s.view with
      frames := update s.frames f { s.frames f with ioreq := none }
      queue := l₁ ++ l₂ } := by
  have hio := h.io_of_mem (hqueue ▸ List.mem_append_right _ List.mem_cons_self) hpage
  rw [hdone] at hio
  obtain ⟨loc, hreq, -, -, hf, hwc⟩ := PageFrame.of_io_endWrite hio
  obtain ⟨hd, hpot⟩ := (h.frame f).pot (by simp [State.view, hreq]) hf hwc
  simp only [State.view] at hpot hd
  have hlt : f < cfg.nPages := by
    refine h.lt_nPages ?_
    rcases hpot with hf | hf | hf <;> simp [State.view, hf]
  refine h.finishIo hqueue hfirst hpage rfl ?_ (fun hge => absurd hlt (Nat.not_lt.2 hge))
    (by simp [State.view, PageFrame.kroDirty])
  rcases hpot with hf | hf | hf <;> simp only [FrameInv, hf] <;> exact hd

theorem ioComplete_safe (h : PageInv cfg s.view) (i : ℕ) (torn : FrameData) :
    Safe cfg (ioComplete i torn) s := by
  refine ioComplete_sat h.queue i torn h ?_ ?_ ?_ ?_
  · intro l₁ l₂ r hold hdone hnone
    exact h.finishSync hold.queue hold.first hdone hnone
  · intro l₁ l₂ r f loc hold hpage hdone _ _ _
    exact endRead_finish h hold.queue hold.first hpage hdone _
  · intro l₁ l₂ r f loc hold hpage hdone _ _ _
    exact endWrite_finish h hold.queue hold.first hpage hdone
  · intro l₁ l₂ r f loc hold hpage hdone _ _ _ _
    exact (endPageClean_returns h hold.queue hold.first hpage hdone rfl).safe

end Completion

/-! ## The demarcation -/

section Demarcation

variable {cfg : Config} {s : State} {f : ℕ}

/-- `CheckpointPage` makes the page kernel-read-only. -/
def PageFrame.toCheckpoint (fr : PageFrame) : Bool :=
  (decide (fr.obType = .dataPage) && oidIsPersistent fr.oid || decide (fr.obType = .logPot)) &&
    (fr.dirty || fr.ioreq.isSome && !fr.fetching)

/-- The header of a page after the demarcation. -/
def PageFrame.demarcated (fr : PageFrame) : PageFrame :=
  if fr.toCheckpoint then { fr with kro := true } else fr

theorem PageFrame.io_demarcated (fr : PageFrame) : fr.demarcated.io = fr.io := by
  unfold PageFrame.demarcated
  split <;> rfl

/-- Nothing but the log directory differs from `s`, and the page `f` has been demarcated. -/
def Demarcates (s : State) (f : ℕ) (t : State) : Prop :=
  t.view = { s.view with
    frames := update s.frames f (s.frames f).demarcated
    numKRODirtyPages := s.numKRODirtyPages + (s.frames f).demarcated.kroDirty.toNat }

theorem demarcates_self (hno : (s.frames f).toCheckpoint = false)
    (hkd : (s.frames f).kroDirty = false) : Demarcates s f s := by
  simp [Demarcates, PageFrame.demarcated, hno, hkd, State.view, update_eq_self]

theorem checkpointPage_sat
    (hf : (s.frames f).obType = .dataPage ∧ oidIsPersistent (s.frames f).oid ∨
      (s.frames f).obType = .logPot) :
    (checkpointPage f s).Sat (fun _ t => Demarcates s f t) (fun _ => False) fun _ _ => True := by
  cases hk : (s.frames f).kro with
  | true =>
    simp only [checkpointPage, readFrame, bind_apply, andThen_done, hk, kcheck, Prog.check]
    trivial
  | false =>
    by_cases hc : (s.frames f).dirty = true ∨ (s.frames f).ioreq.isSome = true ∧
        ¬(s.frames f).fetching = true
    · have hto : (s.frames f).toCheckpoint = true := by
        unfold PageFrame.toCheckpoint
        rcases hf with ⟨h₁, h₂⟩ | h₁ <;> rcases hc with h₃ | ⟨h₃, h₄⟩ <;> simp_all
      cases hd : (s.frames f).dirty with
      | true =>
        simp only [checkpointPage, readFrame, bind_apply, andThen_done, hk, kcheck, Prog.check,
          Bool.false_eq_true, not_false_eq_true, if_true, pure_apply, when_pos hc, makeKRO,
          updateFrame, modify_apply, State.setFrame, update_self, hd]
        simp [Outcome.Sat, Demarcates, PageFrame.demarcated, hto, State.view, PageFrame.kroDirty, hd]
      | false =>
        have hio : ∃ loc, (s.frames f).ioreq = some loc := by
          rw [hd] at hc
          exact Option.isSome_iff_exists.1 (hc.resolve_left (by simp)).1
        obtain ⟨loc, hio⟩ := hio
        simp only [checkpointPage, readFrame, bind_apply, andThen_done, hk, kcheck, Prog.check,
          Bool.false_eq_true, not_false_eq_true, if_true, pure_apply, when_pos hc, makeKRO,
          updateFrame, modify_apply, State.setFrame, update_self, hd, if_false,
          createLogDirEntryForNonzeroPage, hio, recordLocation]
        simp [Outcome.Sat, Demarcates, PageFrame.demarcated, hto, State.view, PageFrame.kroDirty, hd,
          hio]
    · have hto : (s.frames f).toCheckpoint = false := by
        unfold PageFrame.toCheckpoint
        rw [not_or, not_and, not_not] at hc
        cases hio : (s.frames f).ioreq.isSome <;> simp_all
      simp only [checkpointPage, readFrame, bind_apply, andThen_done, hk, kcheck, Prog.check,
        Bool.false_eq_true, not_false_eq_true, if_true, pure_apply, when_neg hc]
      exact demarcates_self hto (by simp [PageFrame.kroDirty, hk])

theorem demarcatePage_sat (hkd : (s.frames f).kroDirty = false) :
    (demarcatePage f s).Sat (fun _ t => Demarcates s f t) (fun _ => False) fun _ _ => True := by
  simp only [demarcatePage, readFrame, bind_apply, andThen_done]
  have hnot : (s.frames f).obType ≠ .dataPage → (s.frames f).obType ≠ .logPot →
      (s.frames f).toCheckpoint = false := by
    intro h₁ h₂
    simp [PageFrame.toCheckpoint, h₁, h₂]
  cases hf : (s.frames f).obType
  case dataPage =>
    by_cases hp : oidIsPersistent (s.frames f).oid = true
    · simp only [when_pos hp]
      exact checkpointPage_sat (.inl ⟨hf, hp⟩)
    · simp only [when_neg hp]
      refine demarcates_self ?_ hkd
      simp [PageFrame.toCheckpoint, hf, hp]
  case logPot => exact checkpointPage_sat (.inr hf)
  case tagPot | homePot =>
    simp only [kcheck, Prog.check]
    rw [bind_apply]
    split
    · rw [pure_apply, andThen_done]
      split
      · exact demarcates_self (hnot (by simp [hf]) (by simp [hf])) hkd
      · trivial
    · trivial
  all_goals exact demarcates_self (hnot (by simp [hf]) (by simp [hf])) hkd

theorem demarcatePages_sat (l : List ℕ) (hl : l.Nodup)
    (hkd : ∀ f ∈ l, (s.frames f).kroDirty = false) :
    (Prog.forEach demarcatePage l s).Sat
      (fun _ t => t.view = { s.view with
        frames := fun f => if f ∈ l then (s.frames f).demarcated else s.frames f
        numKRODirtyPages :=
          s.numKRODirtyPages + (l.countP fun f => (s.frames f).demarcated.kroDirty : ℕ) })
      (fun _ => False) fun _ _ => True := by
  induction l generalizing s with
  | nil => simp [Prog.forEach, Outcome.Sat, State.view]
  | cons f l ih =>
    obtain ⟨hfl, hl⟩ := List.nodup_cons.1 hl
    refine sat_bind (demarcatePage_sat (hkd f List.mem_cons_self)) ?_
    intro _ t ht
    have hframes : t.frames = update s.frames f (s.frames f).demarcated :=
      congrArg View.frames ht
    have hnum : t.numKRODirtyPages =
        s.numKRODirtyPages + (s.frames f).demarcated.kroDirty.toNat :=
      congrArg View.numKRODirtyPages ht
    have hsame : ∀ g ∈ l, t.frames g = s.frames g := by
      intro g hg
      rw [hframes, update_of_ne]
      rintro rfl
      exact hfl hg
    have hrest := ih hl fun g hg => by
      rw [hsame g hg]
      exact hkd g (List.mem_cons_of_mem _ hg)
    cases hm : Prog.forEach demarcatePage l t with
    | done a u =>
      rw [hm] at hrest
      have hfun : (fun g => if g ∈ l then (t.frames g).demarcated else t.frames g) =
          fun g => if g ∈ f :: l then (s.frames g).demarcated else s.frames g := by
        funext g
        by_cases hg : g ∈ l
        · rw [if_pos hg, if_pos (List.mem_cons_of_mem _ hg), hsame g hg]
        · rw [if_neg hg]
          rcases eq_or_ne g f with rfl | hne
          · rw [if_pos List.mem_cons_self, hframes, update_self]
          · rw [if_neg (by simp [hne, hg]), hframes, update_of_ne hne]
      have hcount : t.numKRODirtyPages +
            (l.countP fun g => (t.frames g).demarcated.kroDirty : ℕ) =
          s.numKRODirtyPages + ((f :: l).countP fun g => (s.frames g).demarcated.kroDirty : ℕ) := by
        have hcongr : (l.countP fun g => (t.frames g).demarcated.kroDirty) =
            l.countP fun g => (s.frames g).demarcated.kroDirty :=
          List.countP_congr fun g hg => by rw [hsame g hg]
        rw [hnum, hcongr, List.countP_cons]
        cases (s.frames f).demarcated.kroDirty <;> simp
        omega
      rw [hfun, hcount, ht] at hrest
      exact hrest
    | yield u =>
      rw [hm] at hrest
      exact hrest
    | halt e u => trivial

/-- No page that is to be demarcated is both dirty and being cleaned. -/
def NoneRedirtied (s : State) : Prop :=
  ∀ f, (s.frames f).obType = .dataPage → oidIsPersistent (s.frames f).oid →
    (s.frames f).dirty → (s.frames f).ioreq = none

variable {v : View}

theorem PageInv.kroDirty_eq_false (h : PageInv cfg v)
    (hck : v.ckptState.demarcated = false) (f : ℕ) : (v.frames f).kroDirty = false := by
  have hfr := h.frame f
  unfold FrameInv at hfr
  cases hf : (v.frames f).obType <;> simp only [hf] at hfr
  case dataPage =>
    cases hk : (v.frames f).kro with
    | false => simp [PageFrame.kroDirty, hk]
    | true => simp [(hfr.kro hk).demarcated] at hck
  case workingCopy => simp [hfr.kro.demarcated] at hck
  all_goals simp_all [PageFrame.kroDirty]

theorem frameInv_demarcated {fr : PageFrame} (h : FrameInv .phase1 fr)
    (hno : fr.obType = .dataPage → oidIsPersistent fr.oid → fr.dirty → fr.ioreq = none) :
    FrameInv .phase2 fr.demarcated := by
  cases hf : fr.obType
  case dataPage =>
    have hpage : DataPageInv .phase1 fr := by
      simpa only [FrameInv, hf] using h
    have hk : fr.kro = false := by
      cases hk : fr.kro with
      | false => rfl
      | true => simpa [CkptState.demarcated] using (hpage.kro hk).demarcated
    cases hto : fr.toCheckpoint with
    | true =>
      have hpers : oidIsPersistent fr.oid = true := by
        simp only [PageFrame.toCheckpoint, hf] at hto
        simp_all
      have hfet : fr.fetching = false := by
        cases hfet : fr.fetching with
        | false => rfl
        | true =>
          have := hpage.fetching hfet
          simp [PageFrame.toCheckpoint, hfet, this.1] at hto
      simp only [PageFrame.demarcated, hto, if_true, FrameInv, hf]
      refine ⟨hpage.cleanable, ?_, hpage.fetching, fun _ => ?_, fun _ hk' => absurd hk' (by simp),
        hpage.nonzero⟩
      · intro hnc
        simp [hpage.cleanable, hpers] at hnc
      · refine ⟨rfl, hfet, ?_, ?_, fun hall => absurd hall (by simp [CkptState.allClean])⟩
        · simp only [PageFrame.toCheckpoint, Bool.and_eq_true, Bool.or_eq_true] at hto
          exact hto.2.imp id fun hio => hio.1
        · intro hio
          cases hd : fr.dirty with
          | false => rfl
          | true => simp [hno hf hpers hd] at hio
    | false =>
      simp only [PageFrame.demarcated, hto, Bool.false_eq_true, if_false, FrameInv, hf]
      refine ⟨hpage.cleanable, hpage.nonPersistent, hpage.fetching,
        fun hk' => absurd (hk.symm.trans hk') (by simp), fun _ _ => ?_, hpage.nonzero⟩
      cases hp : oidIsPersistent fr.oid with
      | true =>
        simp only [PageFrame.toCheckpoint, hf, hp] at hto
        simp_all [PageFrame.beingCleaned]
      | false =>
        have := (hpage.nonPersistent (hpage.cleanable.trans hp)).2.2
        simp [PageFrame.beingCleaned, this]
  case workingCopy =>
    simp only [FrameInv, hf] at h
    simpa [CkptState.demarcated] using h.kro.demarcated
  case logPot =>
    unfold PageFrame.demarcated
    split <;> simpa only [FrameInv, hf] using h
  all_goals
    have hto : fr.toCheckpoint = false := by
      simp [PageFrame.toCheckpoint, hf]
    simp only [PageFrame.demarcated, hto, Bool.false_eq_true, if_false]
    simp only [FrameInv, hf] at h ⊢
    exact h

theorem PageInv.demarcate (h : PageInv cfg v) (hck : v.ckptState = .phase1)
    (hno : ∀ f, (v.frames f).obType = .dataPage → oidIsPersistent (v.frames f).oid →
      (v.frames f).dirty → (v.frames f).ioreq = none) :
    PageInv cfg { v with
      frames := fun f => (v.frames f).demarcated
      ckptState := .phase2
      numKRODirtyPages := v.numKRODirtyPages +
        ((List.range cfg.nPages).countP fun f => (v.frames f).demarcated.kroDirty : ℕ) } where
  frame f := frameInv_demarcated (hck ▸ h.frame f) (hno f)
  bound f hf := by
    have hfree := h.bound f hf
    have hto : (v.frames f).toCheckpoint = false := by
      simp [PageFrame.toCheckpoint, hfree]
    simpa [PageFrame.demarcated, hto] using hfree
  queue :=
    { requests := by
        intro r hr
        rcases h.queue.requests r hr with hsync | ⟨g, hg, hio, hrange⟩
        · exact .inl hsync
        · exact .inr ⟨g, hg, (PageFrame.io_demarcated _).trans hio, hrange⟩
      nodup := h.queue.nodup
      enqueued := by
        intro f hf
        rw [PageFrame.io_demarcated] at hf
        exact h.queue.enqueued f hf }
  sync := ⟨h.sync.count, fun _ _ => h.sync.idle (by simp [hck]) (by simp [hck]),
    fun h3 => by simp at h3, fun h4 => by simp at h4, fun h5 => by simp at h5⟩
  count := by
    have hzero : countBelow PageFrame.kroDirty v.frames cfg.nPages = 0 :=
      countBelow_eq_zero (h.kroDirty_eq_false (by simp [hck, CkptState.demarcated]))
    rw [h.count, hzero]
    simp [countBelow]
  logCursor := h.logCursor

end Demarcation

/-! ## The checkpoint thread -/

section CheckpointThread

variable {cfg : Config} {s : State}

theorem untouched_readNode (n : ℕ) : Untouched State.view (readNode n) := fun _ => rfl

theorem untouched_updateNode (n : ℕ) (g : NodeFrame → NodeFrame) :
    Untouched State.view (updateNode n g) := fun _ => rfl

theorem untouched_demarcateNode (n : ℕ) : Untouched State.view (demarcateNode n) := by
  refine untouched_bind (untouched_readNode n) fun nd => ?_
  split
  · exact untouched_bind (untouched_check _ _) fun _ =>
      untouched_bind (untouched_modify fun _ => rfl) fun _ => untouched_updateNode n _
  · exact untouched_pure ()

theorem doPhase1Work_keeps (h : PageInv cfg s.view) (hck : s.ckptState = .phase1)
    (hno : NoneRedirtied s) : Keeps cfg (doPhase1Work cfg) s := by
  unfold Keeps doPhase1Work
  refine Untouched.sat_bind (g := State.view) (untouched_modify fun _ => rfl)
    (fun t ht => by rw [ht]; exact h) (fun _ _ _ => trivial) fun _ t ht => ?_
  refine Untouched.sat_bind (untouched_forEach untouched_demarcateNode _)
    (fun u hu => by rw [hu, ht]; exact h) (fun _ _ _ => trivial) fun _ u hu => ?_
  have hview : u.view = s.view := hu.trans ht
  have hframes : u.frames = s.frames := congrArg View.frames hview
  have hkd : ∀ f, (u.frames f).kroDirty = false := by
    intro f
    rw [hframes]
    exact h.kroDirty_eq_false (by simp [State.view, hck, CkptState.demarcated]) f
  have hsat := demarcatePages_sat (List.range cfg.nPages) List.nodup_range fun f _ => hkd f
  refine sat_bind (hsat.mono (fun _ _ hw => hw) (fun _ hw => hw.elim) fun _ _ _ => trivial) ?_
  intro _ w hw
  have hfun : (fun f => if f ∈ List.range cfg.nPages then (u.frames f).demarcated else u.frames f) =
      fun f => (u.frames f).demarcated := by
    funext f
    by_cases hf : f ∈ List.range cfg.nPages
    · exact if_pos hf
    · -- a frame beyond the table is free, and stays so
      have hfree : (u.frames f).obType = .freeFrame := by
        rw [hframes]
        exact h.bound f (Nat.not_lt.1 fun hlt => hf (List.mem_range.2 hlt))
      have hto : (u.frames f).toCheckpoint = false := by
        simp [PageFrame.toCheckpoint, hfree]
      rw [if_neg hf, PageFrame.demarcated, hto]
      rfl
  rw [hfun] at hw
  have hinv : PageInv cfg { u.view with
      frames := fun f => (u.view.frames f).demarcated
      ckptState := .phase2
      numKRODirtyPages := u.view.numKRODirtyPages +
        ((List.range cfg.nPages).countP fun f => (u.view.frames f).demarcated.kroDirty : ℕ) } :=
    PageInv.demarcate (hview ▸ h) (by rw [hview]; exact hck) (by rw [hview]; exact hno)
  have hend : (({ w with ckptState := .phase2 } : State)).view = { w.view with ckptState := .phase2 } :=
    rfl
  simp only [modify_apply, Outcome.Sat, hend, hw]
  exact hinv

variable {v : View}

theorem PageInv.finishPhase2 (h : PageInv cfg v) (hck : v.ckptState = .phase2)
    (hnum : v.numKRODirtyPages = 0) :
    PageInv cfg { v with nextRangeToSync := 0, rangesSynced := 0, ckptState := .phase3 } where
  frame f := by
    have hkd : (v.frames f).kro = true → (v.frames f).obType ≠ .freeFrame →
        (v.frames f).dirty = false := by
      intro hk hf
      cases hd : (v.frames f).dirty with
      | false => rfl
      | true =>
        have := h.count_pos hf (by simp [PageFrame.kroDirty, hk, hd])
        omega
    have hkro : KROInv v.ckptState (v.frames f) → (v.frames f).kro = true →
        (v.frames f).obType ≠ .freeFrame → KROInv .phase3 (v.frames f) := fun hk hk' hf =>
      ⟨rfl, hk.notFetching, hk.dirtyOrClean, hk.notBoth, fun _ => hkd hk' hf⟩
    have hfr := h.frame f
    unfold FrameInv at *
    cases hf : (v.frames f).obType <;> simp only [hf] at hfr ⊢
    case dataPage =>
      exact ⟨hfr.cleanable, hfr.nonPersistent, hfr.fetching,
        fun hk => hkro (hfr.kro hk) hk (by simp [hf]), fun _ => hfr.cleaning (by rw [hck]; rfl),
        hfr.nonzero⟩
    case workingCopy =>
      exact ⟨hfr.isKRO, hkro hfr.kro hfr.isKRO (by simp [hf]), hfr.products, hfr.ring, hfr.nonzero⟩
    all_goals exact hfr
  bound := h.bound
  queue := h.queue
  sync := by
    have hcount := h.sync.count
    have hidle := h.sync.idle (by simp [hck]) (by simp [hck])
    exact ⟨by simp only; omega, fun _ _ => rfl, fun _ => rfl, fun h4 => by simp at h4,
      fun h5 => by simp at h5⟩
  count := h.count
  logCursor := h.logCursor

theorem barrier_zero (l : List IORequest) : Barrier 0 l := by
  induction l with
  | nil => trivial
  | cons r l ih => exact ⟨fun _ hr => absurd hr (Nat.not_lt_zero _), ih⟩

variable {lid : ℕ}

theorem iterate_incrementLID_lt (n : ℕ) :
    (incrementLID cfg.logWrapPoint)^[n + 1] lid < cfg.logWrapPoint := by
  rw [Function.iterate_succ_apply']
  exact incrementLID_lt cfg.mainLog

theorem PageInv.finishPhase3 (h : PageInv cfg v) (hck : v.ckptState = .phase3)
    (hlid : lid < cfg.logWrapPoint) :
    PageInv cfg { v with logCursor := lid, ckptState := .phase4 } where
  frame f := (h.frame f).congr (by rw [hck]; rfl) (by rw [hck]; rfl)
  bound := h.bound
  queue := h.queue
  sync := ⟨h.sync.count, fun h4 => absurd rfl h4, fun h3 => by simp at h3,
    fun _ => by simp only [h.sync.start hck]; exact barrier_zero _, fun h5 => by simp at h5⟩
  count := h.count
  logCursor := hlid

theorem Barrier.no_endPageClean {n : ℕ} {l : List IORequest} (h : Barrier n l)
    (hsync : ∀ q ∈ l, q.doneFn ≠ .endSync)
    (hrange : ∀ r ∈ l, r.doneFn = .endPageClean → r.range < n) :
    ∀ r ∈ l, r.doneFn ≠ .endPageClean := by
  induction l with
  | nil => exact fun r hr => absurd hr List.not_mem_nil
  | cons q l ih =>
    intro r hr hclean
    rcases List.mem_cons.1 hr with rfl | hr'
    · obtain ⟨p, hp, hps, -⟩ := h.1 hclean (hrange _ List.mem_cons_self hclean)
      exact hsync p (List.mem_cons_of_mem _ hp) hps
    · exact ih h.2 (fun p hp => hsync p (List.mem_cons_of_mem _ hp))
        (fun p hp => hrange p (List.mem_cons_of_mem _ hp)) r hr' hclean

/-- All synchronizations have been enqueued and are done. -/
structure Synced (cfg : Config) (v : View) : Prop where
  inv : PageInv cfg v
  all : cfg.nLidRanges ≤ v.nextRangeToSync
  done : v.nextRangeToSync ≤ v.rangesSynced

theorem Synced.no_endSync (h : Synced cfg v) : ∀ q ∈ v.queue, q.doneFn ≠ .endSync := by
  intro q hq hqs
  have hcount := h.inv.sync.count
  have hpos : 0 < pendingSyncs v.queue := List.countP_pos_iff.2 ⟨q, hq, by simp [hqs]⟩
  have := h.done
  omega

theorem Synced.finishPhase4 (h : Synced cfg v) (hck : v.ckptState = .phase4) :
    PageInv cfg { v with nextRangeToSync := 0, rangesSynced := 0, ckptState := .phase5 } where
  frame f := (h.inv.frame f).congr (by rw [hck]; rfl) (by rw [hck]; rfl)
  bound := h.inv.bound
  queue := h.inv.queue
  sync := by
    have hcount := h.inv.sync.count
    have hdone := h.done
    refine ⟨by simp only; omega, fun _ h5 => absurd rfl h5, fun h3 => by simp at h3,
      fun h4 => by simp at h4, fun _ => ?_⟩
    refine (h.inv.sync.barrier hck).no_endPageClean h.no_endSync fun r hr hclean => ?_
    rcases h.inv.queue.requests r hr with ⟨hs, -⟩ | ⟨f, -, -, hrange⟩
    · simp [hs] at hclean
    · exact Nat.lt_of_lt_of_le (hrange hclean) h.all
  count := h.inv.count
  logCursor := h.inv.logCursor

theorem PageInv.kro_eq_false (h : PageInv cfg v) (hck : v.ckptState = .phase5) {f : ℕ}
    (hf : (v.frames f).obType = .dataPage ∨ (v.frames f).obType = .workingCopy) :
    (v.frames f).kro = false := by
  cases hk : (v.frames f).kro with
  | false => rfl
  | true =>
    have hkro := h.kroInv hf hk
    have hd := hkro.cleaned (by rw [hck]; rfl)
    obtain ⟨loc, hio⟩ := Option.isSome_iff_exists.1 (hkro.dirtyOrClean.resolve_left (by simp [hd]))
    have hfio : (v.frames f).io = some (.writeRangeLoc loc, .endPageClean) := by
      simp [PageFrame.io, hio, hkro.notFetching, hf]
    obtain ⟨r, hr, hpage⟩ := h.queue.enqueued f (by simp [hfio])
    rcases h.queue.requests r hr with ⟨-, hnone⟩ | ⟨g, hg, hreq, -⟩
    · simp [hpage] at hnone
    · obtain rfl : f = g := Option.some.inj (hpage.symm.trans hg)
      rw [hfio] at hreq
      exact absurd (Prod.mk.inj (Option.some.inj hreq)).2.symm (h.sync.done hck r hr)

theorem Synced.finishPhase5 (h : Synced cfg v) (hck : v.ckptState = .phase5) :
    PageInv cfg { v with ckptState := .notActive } where
  frame f := by
    have hkro := @PageInv.kro_eq_false cfg v h.inv hck f
    have hfr := h.inv.frame f
    unfold FrameInv at *
    cases hf : (v.frames f).obType <;> simp only [hf] at hfr hkro ⊢
    case dataPage =>
      exact ⟨hfr.cleanable, hfr.nonPersistent, hfr.fetching,
        fun hk => absurd (hkro (.inl trivial)) (by simp [hk]), fun hd => absurd hd (by simp
          [CkptState.demarcated]), hfr.nonzero⟩
    case workingCopy => exact absurd (hkro (.inr trivial)) (by simp [hfr.isKRO])
    all_goals exact hfr
  bound := h.inv.bound
  queue := h.inv.queue
  sync := by
    have hcount := h.inv.sync.count
    have hdone := h.done
    exact ⟨hcount, fun _ _ => by simp only; omega, fun h3 => by simp at h3, fun h4 => by simp at h4,
      fun h5 => by simp at h5⟩
  count := h.inv.count
  logCursor := h.inv.logCursor

theorem enqueueSyncs_sat (h : PageInv cfg s.view)
    (hck : s.ckptState = .phase4 ∨ s.ckptState = .phase5) (avail : ℕ) :
    (enqueueSyncs cfg avail s).Sat
      (fun _ t => PageInv cfg t.view ∧ t.ckptState = s.ckptState ∧
        cfg.nLidRanges ≤ t.nextRangeToSync)
      (fun t => PageInv cfg t.view) fun _ _ => False := by
  induction avail generalizing s with
  | zero =>
    simp only [enqueueSyncs]
    split
    · exact h
    · rename_i hge
      exact ⟨h, rfl, Nat.not_lt.1 hge⟩
  | succ avail ih =>
    simp only [enqueueSyncs]
    split
    · exact ih (h.enqueueSync hck) hck
    · rename_i hge
      exact ⟨h, rfl, Nat.not_lt.1 hge⟩

theorem doSync_sat (h : PageInv cfg s.view)
    (hck : s.ckptState = .phase4 ∨ s.ckptState = .phase5) (avail : ℕ) :
    (doSync cfg avail s).Sat (fun _ t => Synced cfg t.view ∧ t.ckptState = s.ckptState)
      (fun t => PageInv cfg t.view) fun _ _ => False := by
  refine sat_bind (enqueueSyncs_sat h hck avail) ?_
  rintro _ t ⟨hinv, hsame, hall⟩
  simp only [bind_apply, get_apply, andThen_done]
  split
  · exact hinv
  · rename_i hdone
    exact ⟨⟨hinv, hall, Nat.not_lt.1 hdone⟩, hsame⟩

theorem doPhase4Work_safe (h : PageInv cfg s.view) (hck : s.ckptState = .phase4) (avail : ℕ) :
    Safe cfg (doPhase4Work cfg avail) s := by
  refine sat_bind (doSync_sat h (.inl hck) avail) ?_
  rintro _ t ⟨hsync, hsame⟩
  exact hsync.finishPhase4 (hsame.trans hck)

theorem doPhase5Work_safe (h : PageInv cfg s.view) (hck : s.ckptState = .phase5) (avail : ℕ) :
    Safe cfg (doPhase5Work cfg avail) s := by
  refine sat_bind (doSync_sat h (.inr hck) avail) ?_
  rintro _ t ⟨hsync, hsame⟩
  exact hsync.finishPhase5 (hsame.trans hck)

end CheckpointThread

/-! ## Operations on nodes -/

section NodeOps

variable {cfg : Config} {s : State}

/-- The invariant, as one of the state. -/
abbrev KeepsPages (cfg : Config) {α : Type} (m : Kernel α) : Prop :=
  Preserves (fun s => PageInv cfg s.view) m

theorem untouched_recordLocation (oid allocCount callCount logLoc : ℕ) (type : BaseType) :
    Untouched State.view (recordLocation oid allocCount callCount logLoc type) := fun _ => rfl

theorem untouched_noteLogged (lid : ℕ) (d : FrameData) :
    Untouched State.view (noteLogged lid d) := fun _ => rfl

theorem untouched_nodeClearDirty (n : ℕ) : Untouched State.view (nodeClearDirty n) := by
  refine untouched_bind (untouched_readNode n) fun nd => ?_
  refine untouched_bind (untouched_when ?_) fun _ => untouched_updateNode n _
  refine untouched_bind (untouched_modify fun _ => rfl) fun _ => untouched_get_bind fun t => ?_
  exact untouched_bind (untouched_check _ _) fun _ => untouched_updateNode n _

theorem untouched_recordNode (n logLoc : ℕ) : Untouched State.view (recordNode n logLoc) :=
  untouched_bind (untouched_nodeClearDirty n) fun _ =>
    untouched_bind (untouched_readNode n) fun _ => untouched_recordLocation _ _ _ _ _

theorem untouched_addNodeToClean (n : ℕ) : Untouched State.view (addNodeToClean n) := by
  refine untouched_bind (untouched_readNode n) fun nd => untouched_bind (untouched_check _ _) fun _ => ?_
  refine untouched_get_bind fun t => untouched_bind (untouched_check _ _) fun _ => ?_
  exact untouched_when (untouched_modify fun _ => rfl)

theorem untouched_reviewCandidates (force : Bool) :
    Untouched State.view (reviewCandidates force) := fun _ => rfl

theorem cleanLogPot_keeps (h : PageInv cfg s.view) {f : ℕ} (hlt : f < cfg.nPages)
    (hf : (s.frames f).obType = .logPot) (hidle : (s.frames f).ioreq = none)
    (hfet : (s.frames f).fetching = false) : PageInv cfg (cleanLogPot cfg f s).state.view := by
  have hd : (s.frames f).dirty = false := by
    have hfr := h.frame f
    simpa only [State.view, FrameInv, hf] using hfr
  simp only [cleanLogPot, readFrame, rangeOfLid, bind_apply, andThen_done]
  cases cfg.lidToRange (s.frames f).oid with
  | none => exact h
  | some rng =>
    refine h.startIo (f := f) (PageFrame.io_eq_none.2 hidle) rfl ?_ (fun he => by simp at he) ?_
      (fun hge => absurd hlt (Nat.not_lt.2 hge)) (by rfl)
    · simp [PageFrame.io, hfet, hf]
    · simpa only [FrameInv, hf] using hd

theorem createLogPot_keeps (h : PageInv cfg s.view) (res : Resources) {f : ℕ} (hlt : f < cfg.nPages)
    (hf : (s.frames f).obType = .newAlloc) : PageInv cfg (createLogPot cfg res f s).state.view := by
  have hnew : (s.frames f).io = none ∧ (s.frames f).kroDirty = false := by
    have hfr := h.frame f
    simp only [State.view, FrameInv, hf] at hfr
    exact ⟨PageFrame.io_eq_none.2 hfr.2, by simp [PageFrame.kroDirty, hfr.1]⟩
  have hcursor : PageInv cfg { s.view with
      logCursor := incrementLID cfg.logWrapPoint s.logCursor } :=
    h.setLogCursor (incrementLID_lt cfg.mainLog)
  refine (Outcome.sat_state (I := fun t : State => PageInv cfg t.view)).1 ?_
  unfold createLogPot
  simp only [nextLogLoc, bind_apply, andThen_done, get_apply]
  -- the entries of the nodes do not touch the pages
  rw [← bind_apply]
  set s₁ : State := { s with logCursor := incrementLID cfg.logWrapPoint s.logCursor } with hs₁
  have hkeep : ∀ t : State, t.view = s₁.view → PageInv cfg t.view := fun t ht => by
    rw [ht]
    exact hcursor
  refine Untouched.sat_bind (untouched_noteLogged _ _) (fun t ht => hkeep t ht)
    (fun _ t ht => hkeep t ht) fun _ t ht => ?_
  refine Untouched.sat_bind (untouched_forEach (fun _ => untouched_recordNode _ _) _)
    (fun u hu => hkeep u (hu.trans ht)) (fun _ u hu => hkeep u (hu.trans ht)) fun _ u hu => ?_
  simp only [modify_apply, bind_apply, andThen_done, updateFrame, Prog.when]
  have hu' : u.view = s₁.view := hu.trans ht
  have hframes : u.frames = s.frames := congrArg View.frames hu'
  have hinv := hkeep u hu'
  have hpot : PageInv cfg { u.view with
      frames := update u.frames f
        { obType := .logPot
          oid := s.logCursor
          data := makePot cfg s₁ s₁.nodesToClean
          keyRing := some [] }
      numKRODirtyPages := u.numKRODirtyPages } := by
    refine hinv.setFrame ?_ rfl (fun hge => absurd hlt (Nat.not_lt.2 hge)) ?_
    · simp only [State.view, hframes]
      rw [hnew.1]
      rfl
    · simp only [State.view, hframes]
      rw [hnew.2]
      rfl
  split
  · set w : State := State.setFrame { u with nodesToClean := [] } f _ with hw
    have hwf : w.frames f = { obType := .logPot
                              oid := s.logCursor
                              data := makePot cfg s₁ s₁.nodesToClean
                              keyRing := some [] } := update_self ..
    have hwv : PageInv cfg w.view := hpot
    exact Outcome.sat_state.2
      (cleanLogPot_keeps hwv hlt (by rw [hwf]) (by rw [hwf]) (by rw [hwf]))
  · exact hpot

theorem cleanAPotOfNodes_keeps (res : Resources) (force : Bool) :
    KeepsPages cfg (cleanAPotOfNodes cfg res force) := by
  refine preserves_get_bind fun t => ?_
  split
  · exact preserves_pure _
  · refine preserves_bind (untouched_reviewCandidates force).preserves fun go => ?_
    split
    swap
    · exact preserves_pure _
    intro s h
    refine (Outcome.sat_state (I := fun t : State => PageInv cfg t.view)).1
      (grabPageFrame_bind_sat h fun f hf hfree => ?_)
    have hnew : PageInv cfg (s.setFrame f { obType := .newAlloc }).view :=
      h.useFree hf hfree rfl rfl ⟨rfl, rfl⟩
    have hpot := createLogPot_keeps hnew res hf
      (show ((s.setFrame f { obType := .newAlloc }).frames f).obType = .newAlloc by
        simp [State.setFrame])
    exact sat_bind (Outcome.sat_state.2 hpot) fun _ t ht => ht

theorem declareDemarcationEvent_keeps : KeepsPages cfg declareDemarcationEvent := by
  intro s h
  simp only [declareDemarcationEvent, bind_apply, get_apply, andThen_done, kcheck, Prog.check]
  split
  · rename_i hck
    exact h.declare hck
  · exact h

theorem pageRules (cfg : Config) : NodeRules cfg (fun s => PageInv cfg s.view) fun _ => True where
  nodes _ _ _ _ h := h
  recordNull _ _ _ := (untouched_recordLocation _ _ _ _ _).preserves.maintains
  addToClean n := (untouched_addNodeToClean n).preserves.maintains
  cleanAPot _ force := (cleanAPotOfNodes_keeps _ force).maintains
  declare := declareDemarcationEvent_keeps.maintains

end NodeOps

/-! ## Runs -/

section Runs

variable {cfg : Config} {s : State}

/-- The condition on an operation: a demarcation finds no page that is dirty and being cleaned; and
a page is made writeable only if there is space, and it need not be copied into an unlinked working
copy, nor be moved without a key. -/
def PageStep (s : State) : Op → Prop
  | .doPhase1Work => s.ckptState = .phase1 → NoneRedirtied s
  | .ensureWritable _ sp f => (s.frames f).obType = .dataPage → SpaceOk s sp ∧ CanMove s f
  | _ => True

/-- The operations in which pages are made writeable, cleaned, or found to be cleaned. -/
def IsPageOp : Op → Prop
  | .ensureWritable _ _ _ | .agePageClean _ _ | .agePageSteal _ | .cleanAKROPage _ _
  | .ioComplete _ _ => True
  | _ => False

variable {m : Kernel Unit} {p : CkptState}

theorem inPhase_keeps (h : PageInv cfg s.view)
    (hm : s.ckptState = p → Keeps cfg m s) : Keeps cfg (inPhase p m) s := by
  unfold Keeps
  simp only [inPhase, bind_apply, get_apply, andThen_done, Prog.when]
  split
  · rename_i hp
    exact hm hp
  · exact h

theorem inPhase_safe (h : PageInv cfg s.view)
    (hm : s.ckptState = p → Safe cfg m s) : Safe cfg (inPhase p m) s := by
  unfold Safe
  simp only [inPhase, bind_apply, get_apply, andThen_done, Prog.when]
  split
  · rename_i hp
    exact hm hp
  · exact h

theorem ensureWritableHeld_safe (h : PageInv cfg s.view) (res : Resources) {sp : Space} {f : ℕ}
    (hok : (s.frames f).obType = .dataPage → SpaceOk s sp ∧ CanMove s f) :
    Safe cfg (ensureWritableHeld cfg res sp f) s := by
  unfold Safe
  simp only [ensureWritableHeld, readFrame, bind_apply, andThen_done, Prog.when]
  split
  · rename_i hf
    exact ensureWritable_safe h hf.1 (by simpa using hf.2) res (hok hf.1).1 (hok hf.1).2
  · exact h

variable {op : Op}

theorem exec_safe (h : PageInv cfg s.view) (hop : IsPageOp op) (hok : PageStep s op) :
    Safe cfg (exec cfg op) s := by
  cases op with
  | ensureWritable res sp f => exact ensureWritableHeld_safe h res hok
  | agePageClean res f => exact agePageClean_safe h res
  | agePageSteal f => exact agePageSteal_safe h
  | cleanAKROPage res f => exact inPhase_safe h fun _ => cleanAKROPage_safe h res
  | ioComplete i torn => exact ioComplete_safe h i torn
  | _ => exact hop.elim

theorem exec_keeps (h : PageInv cfg s.view) (hok : PageStep s op) :
    Keeps cfg (exec cfg op) s := by
  cases op with
  | fetchPage res oid loc => exact fetchPage_keeps h res oid loc
  | fetchPot res oidOrLid loc isLog => exact fetchPot_keeps h res oidOrLid loc isLog
  | createNewNullPage res oid allocCount =>
    exact sat_bind (createNewNullPage_keeps h res oid allocCount) fun _ _ ht => ht
  | storePage f d => exact storePage_keeps h d
  | usePage f pinned keys products => exact usePage_keeps h pinned keys products
  | doPhase1Work => exact inPhase_keeps h fun hck => doPhase1Work_keeps h hck (hok hck)
  | finishPhase2 =>
    refine inPhase_keeps h fun hck => ?_
    unfold Keeps
    simp only [finishPhase2, bind_apply, get_apply, andThen_done, Prog.when]
    split
    · rename_i hnum
      exact h.finishPhase2 hck hnum.2
    · exact h
  | finishPhase3 dirFrames =>
    exact inPhase_keeps h fun hck => h.finishPhase3 hck (iterate_incrementLID_lt dirFrames)
  | doPhase4Work avail => exact inPhase_keeps h fun hck => (doPhase4Work_safe h hck avail).keeps
  | doPhase5Work avail => exact inPhase_keeps h fun hck => (doPhase5Work_safe h hck avail).keeps
  | ensureWritable res sp f => exact (ensureWritableHeld_safe h res hok).keeps
  | agePageClean res f => exact (agePageClean_safe h res).keeps
  | agePageSteal f => exact (agePageSteal_safe h).keeps
  | cleanAKROPage res => exact inPhase_keeps h fun _ => (cleanAKROPage_safe h res).keeps
  | ioComplete i torn => exact (ioComplete_safe h i torn).keeps
  | ensureWritableNode res sp n =>
    refine (pageRules cfg).exec ?_ s h
    exact fun _ => trivial
  | _ =>
    refine (pageRules cfg).exec ?_ s h
    trivial

variable {t : State}

theorem pageInv_step (h : PageInv cfg s.view) (hok : PageStep s op)
    (hstep : Step cfg s op t) : PageInv cfg t.view := by
  have hkeeps := exec_keeps h hok
  unfold Keeps at hkeeps
  cases hstep with
  | done hrun | yield hrun =>
    rw [hrun] at hkeeps
    exact hkeeps

theorem Initial.pageInv (h : Initial cfg s) : PageInv cfg s.view where
  frame f := by
    obtain ⟨hk, hio, hfet⟩ := h.frames f
    unfold FrameInv
    rcases h.types f with hf | hf | hf <;> simp only [State.view, hf]
    · exact ⟨hk, hio⟩
    · exact ⟨hk, hio⟩
    · obtain ⟨hcl, hnp⟩ := h.pages f hf
      refine ⟨hcl, fun hnc => ⟨hnp (hcl.symm.trans hnc), hk, hio⟩, ?_, ?_, ?_, ?_⟩
      · simp [hfet]
      · simp [hk]
      · simp [PageFrame.beingCleaned, hio]
      · simp [PageFrame.beingCleaned, hio]
  bound := h.bound
  queue :=
    { requests := by simp [State.view, h.queue]
      nodup := by simp [State.view, h.queue]
      enqueued := by
        intro f hf
        simp [State.view, PageFrame.io, (h.frames f).2.1] at hf }
  sync := by
    refine ⟨?_, fun _ _ => h.synced, ?_, ?_, ?_⟩
    · simp [State.view, pendingSyncs, h.queue, h.synced]
    all_goals simp [State.view, h.ckptState]
  count := by
    have hzero : countBelow PageFrame.kroDirty s.frames cfg.nPages = 0 :=
      countBelow_eq_zero fun f => by simp [PageFrame.kroDirty, (h.frames f).1]
    simp [State.view, h.numKRODirtyPages, hzero]
  logCursor := h.logCursor

theorem pageInv_run (hinit : Initial cfg s) (hrun : Run cfg PageStep s t) :
    PageInv cfg t.view := by
  induction hrun with
  | refl => exact hinit.pageInv
  | step _ hok hstep ih => exact pageInv_step ih hok hstep

/-- In every run in which no demarcation finds a page that is dirty and being cleaned, no page is
copied into an unlinked working copy or moved without a key and there is always enough space, the
pages are in states of the table, and no assertion fails in making pages writeable or in cleaning
them. -/
theorem pageStates_run {t : State} (hinit : Initial cfg s) (hrun : Run cfg PageStep s t) :
    TableHolds t ∧ ∀ op, IsPageOp op → PageStep t op → ¬Halts cfg t op := by
  have h := pageInv_run hinit hrun
  refine ⟨h.tableHolds, fun op hop hok => ?_⟩
  rintro ⟨e, u, hhalt⟩
  have hsafe := exec_safe h hop hok
  unfold Safe at hsafe
  rw [hhalt] at hsafe
  exact hsafe

/-! ### A page that is dirtied while it is being cleaned -/

/-- A page that is not zero. -/
def onesPage : PageData := fun _ => 1

theorem onesPage_not_isZero : ¬(FrameData.page onesPage).IsZero := by
  intro h
  have h0 := congrFun (FrameData.page.inj h) 0
  exact absurd h0 (by decide)

/-- A page with ones in it, in the frame 0. -/
def withOnesPage (s : State) (dirty kro : Bool) (ioreq : Option DiskLoc) : State :=
  s.setFrame 0
    { obType := .dataPage
      oid := firstPersistentOID
      data := .page onesPage
      dirty
      kro
      cleanable := true
      keyRing := some []
      ioreq }

/-- A page has been created, and written to. -/
def writtenState : State := withOnesPage emptyState true false none

/-- The log after the page has been put at its first location. -/
def firstWrite : State :=
  { emptyState with
    logCursor := mainLogStart + 256
    logged := update emptyState.logged mainLogStart (some (.page onesPage))
    queue := [⟨0, .writeRangeLoc (.log mainLogStart), some 0, .endPageClean⟩] }

theorem writtenState_run : Run smallConfig PageStep emptyState writtenState := by
  have hrefl : Run smallConfig PageStep emptyState emptyState := .refl
  have hcreate := hrefl.exec (.createNewNullPage { alloc := some 0 } firstPersistentOID 0) trivial rfl
  have hstore := hcreate.exec (.storePage 0 onesPage) trivial rfl
  simp only [State.setFrame, update_idem] at hstore
  exact hstore

theorem agePageClean_writtenState :
    exec smallConfig (.agePageClean {} 0) writtenState =
      .done () (withOnesPage firstWrite false false (some (.log mainLogStart))) := by
  simp [exec, agePageClean, readFrame, writtenState, withOnesPage, State.setFrame,
    PageFrame.isAged, State.ckptIsActive, emptyState, pageClean, cleanDataPage, clearDirty,
    updateFrame, Prog.when, startPageWrite, onesPage_not_isZero, nextLogLoc, rangeOfLid,
    smallConfig, noteLogged, ioreqEnqueue, firstWrite, incrementLID, mainLogStart, frameToOID,
    erosObjectsPerFrame]

/-- A page is created, written, and cleaned; the states on the way are in the table. -/
theorem pageStates_run_cleaned :
    TableHolds (withOnesPage firstWrite false false (some (.log mainLogStart))) ∧
      ¬Halts smallConfig (withOnesPage firstWrite false false (some (.log mainLogStart)))
        (.ioComplete 0 (.page 0)) := by
  have hrun := writtenState_run.exec (.agePageClean {} 0) trivial agePageClean_writtenState
  have h := pageStates_run emptyState_initial hrun
  exact ⟨h.1, h.2 (.ioComplete 0 (.page 0)) trivial trivial⟩

/-- A page is dirtied again while it is being cleaned, and a demarcation takes place: then an
assertion fails when the page has been written. -/
theorem endPageClean_halts_of_redirtied :
    ∃ t, Initial smallConfig emptyState ∧ Run smallConfig (fun _ _ => True) emptyState t ∧
      IsPageOp (.ioComplete 0 (.page 0)) ∧ Halts smallConfig t (.ioComplete 0 (.page 0)) := by
  have hwritten : Run smallConfig (fun _ _ => True) emptyState writtenState :=
    writtenState_run.mono fun _ _ _ => trivial
  have hclean := hwritten.exec (.agePageClean {} 0) trivial agePageClean_writtenState
  have hdirty := hclean.exec (.ensureWritable {} {} 0) trivial rfl
  have hdeclare := hdirty.exec .declareDemarcationEvent trivial rfl
  have hdemarcate := hdeclare.exec .doPhase1Work trivial rfl
  exact ⟨_, emptyState_initial, hdemarcate, trivial, _, _, rfl⟩

end Runs

end CapROS.ObjectCache
