import CapROS.ProcessCache.Flushing

/-!
# Preparing a process

The parts of `proc_DoPrepare` move state from the nodes to the cache. Each keeps the invariant, and
leaves what the slots hold but for what is named.
-/

namespace CapROS.ProcessCache

variable {s s' : System} {p r k n : ℕ} {i : Fin 32} {proc : Process} {root keysNode : Node}

/-! ## What preparing keeps -/

/-- What preparing the process `p` with the root `r` keeps: of what the slots hold, only the slots for
the fault code and the processor status, and the slot of key register 0, can change. -/
structure Prepares (s s' : System) (p r : ℕ) : Prop where
  wellFormed : s'.WellFormed
  root : (s'.proc p).procRoot = some r
  held : ∀ n i, s'.held n i = s.held n i ∨ (n = r ∧ (i = 8 ∨ i = 14)) ∨
    (i = 0 ∧ (s'.node n).obType = .keyRegs p ∧ s'.held n i = .void)
  keys : ∀ n, (s.node n).obType = .keyRegs p → (s'.node n).obType = .keyRegs p

theorem Prepares.trans {s₁ s₂ s₃ : System} (h : Prepares s₁ s₂ p r) (h' : Prepares s₂ s₃ p r) :
    Prepares s₁ s₃ p r := by
  refine ⟨h'.wellFormed, h'.root, fun n i => ?_, fun n hn => h'.keys n (h.keys n hn)⟩
  rcases h'.held n i with heq | hroot | hvoid
  · rcases h.held n i with heq' | hroot' | ⟨hi, hob, hvoid'⟩
    · exact Or.inl (heq.trans heq')
    · exact Or.inr (Or.inl hroot')
    · exact Or.inr (Or.inr ⟨hi, h'.keys n hob, heq.trans hvoid'⟩)
  · exact Or.inr (Or.inl hroot)
  · exact Or.inr (Or.inr hvoid)

/-! ## The fixed registers -/

/-- The root of a process can be loaded: the register slots are Number keys, the fault code goes with
its flag, and a process that is running has an activity. -/
structure Loadable (proc : Process) (root : Node) (activityFound : Bool) : Prop where
  number : ∀ i, procFirstRootRegSlot ≤ i → (root.slot i).key.keyType = .number
  fault : Op.FaultFlagged (loadRegs fun i => words (root.slot i).key)
  activity : (loadRegs fun i => words (root.slot i).key).runState = rsRunning →
    proc.hasActivity = true ∨ activityFound = true

theorem allNumbers_spec {l : List (Fin 32)}
    (h : ∀ i ∈ l, (root.slot i).key.keyType = .number ∧ (root.slot i).hazards = (false, false)) :
    allNumbers root l = .ok true := by
  induction l with
  | nil => rfl
  | cons i l ih =>
    obtain ⟨hnumber, hhaz⟩ := h i (List.mem_cons_self ..)
    rw [allNumbers, if_neg (not_not.2 hnumber), assertThat_pos (isHazard_eq_false.2 hhaz)]
    exact ih fun j hj => h j (List.mem_cons_of_mem _ hj)

theorem allNumbers_eq_false {l : List (Fin 32)} (h : ∃ i ∈ l, (root.slot i).key.keyType ≠ .number)
    (hhaz : ∀ i ∈ l, (root.slot i).hazards = (false, false)) : allNumbers root l = .ok false := by
  induction l with
  | nil =>
    obtain ⟨i, hi, -⟩ := h
    cases hi
  | cons i l ih =>
    rw [allNumbers]
    by_cases hnumber : (root.slot i).key.keyType = .number
    · rw [if_neg (not_not.2 hnumber),
        assertThat_pos (isHazard_eq_false.2 (hhaz i (List.mem_cons_self ..)))]
      refine ih ?_ fun j hj => hhaz j (List.mem_cons_of_mem _ hj)
      obtain ⟨j, hj, hne⟩ := h
      rcases List.mem_cons.1 hj with rfl | hj
      · exact absurd hnumber hne
      · exact ⟨j, hj, hne⟩
    · rw [if_pos hnumber]

theorem prepareFixRegs_noKeeper {choices : Choices} (h : s.WellFormed)
    (hr : (s.proc p).procRoot = some r) (hdom : (s.proc p).hazards.domRoot = true)
    (hbad : ∃ i, procFirstRootRegSlot ≤ i ∧ ((s.node r).slot i).key.keyType ≠ .number)
    (hkeeper : ((s.node r).slot procKeeper).key.keyType ≠ .start) :
    s.prepareFixRegs p r choices = .error .noKeeper := by
  have hok := h.root p r hr
  have hnumbers : allNumbers { s.node r with dirty := true } rootRegSlots = .ok false := by
    refine allNumbers_eq_false ?_ fun i hi => ?_
    · obtain ⟨i, hi, hne⟩ := hbad
      exact ⟨i, by simpa [rootRegSlots] using hi, hne⟩
    · have hle : procFirstRootRegSlot ≤ i := by simpa [rootRegSlots] using hi
      show ((s.node r).slot i).hazards = (false, false)
      rw [hok.hazards, rootHazards_regSlot hle, hdom]
      rfl
  unfold System.prepareFixRegs loadFixRegs setMalformed
  rw [if_pos hdom, assertThat_pos hdom, ok_bind, hnumbers, ok_bind, if_neg Bool.false_ne_true,
    if_neg hkeeper]
  rfl

/-- The root after the fixed registers have been loaded. -/
def loadedRoot (root : Node) : Node :=
  ({ root with slot := fun k =>
      if procFirstRootRegSlot ≤ k then (root.slot k).setRwHazard else root.slot k } : Node).modifySlot
    procIoSpace Slot.setWrHazard

theorem loadFixRegs_spec (h : RootOk proc root) (hdom : proc.hazards.domRoot = true)
    (hnumber : ∀ i, procFirstRootRegSlot ≤ i → (root.slot i).key.keyType = .number) :
    loadFixRegs proc root =
      .ok ({ proc with regs := loadRegs fun i => words (root.slot i).key }, loadedRoot root) := by
  have hnumbers : allNumbers root rootRegSlots = .ok true := by
    refine allNumbers_spec fun i hi => ?_
    have hle : procFirstRootRegSlot ≤ i := by simpa [rootRegSlots] using hi
    refine ⟨hnumber i hle, ?_⟩
    rw [h.hazards, rootHazards_regSlot hle, hdom]
    rfl
  unfold loadFixRegs
  rw [assertThat_pos hdom, hnumbers]
  rfl

theorem findActivity_spec (proc : Process) {activityFound : Bool}
    (h : proc.regs.runState = rsRunning → proc.hasActivity = true ∨ activityFound = true) :
    ∃ hasActivity, findActivity proc activityFound = .ok { proc with hasActivity } := by
  unfold findActivity
  split
  · exact ⟨_, rfl⟩
  · split
    · exact ⟨_, rfl⟩
    · split
      · exact ⟨_, rfl⟩
      · rename_i hno _ hnot
        have hrun : proc.regs.runState ≠ rsRunning := fun hc => (h hc).elim hno hnot
        rw [assertThat_pos hrun]
        exact ⟨_, rfl⟩

theorem loadedRoot_slot (root : Node) (i : Fin 32) :
    ((loadedRoot root).slot i).toProperKey = (root.slot i).toProperKey := by
  unfold loadedRoot
  rw [modifySlot_slot]
  dsimp only
  split_ifs <;> rfl

theorem loadedRoot_hazards {proc' : Process} (h : ∀ i, (root.slot i).hazards = rootHazards proc i)
    (hdom : proc.hazards.domRoot = true)
    (hz : proc'.hazards = { proc.hazards with domRoot := false })
    (hmapped : proc'.mapped = proc.mapped) (i : Fin 32) :
    ((loadedRoot root).slot i).hazards = rootHazards proc' i := by
  have hi := h i
  unfold rootHazards at hi ⊢
  unfold loadedRoot
  rw [modifySlot_slot]
  simp only [hz, hmapped, hdom] at hi ⊢
  by_cases hle : procFirstRootRegSlot ≤ i
  · have hne : i ≠ procIoSpace := by
      rintro rfl
      exact absurd hle (by decide)
    simp only [if_pos hle, if_neg hne]
    rfl
  · simp only [if_neg hle] at hi ⊢
    by_cases hio : i = procIoSpace
    · subst hio
      have hrd : (root.slot procIoSpace).rdHazard = false := (Prod.mk.inj hi).1
      simp only [if_true, Slot.setWrHazard, Slot.hazards, hrd]
      rfl
    · simp only [if_neg hio] at hi ⊢
      exact hi

theorem prepareFixRegs_spec {choices : Choices} (h : s.WellFormed)
    (hr : (s.proc p).procRoot = some r)
    (hload : (s.proc p).hazards.domRoot = true →
      Loadable (s.proc p) (s.node r) choices.activityFound) :
    ∃ s', s.prepareFixRegs p r choices = .ok s' ∧ Prepares s s' p r ∧
      (s'.proc p).hazards = { (s.proc p).hazards with domRoot := false } := by
  unfold System.prepareFixRegs
  by_cases hdom : (s.proc p).hazards.domRoot = true
  · have hobr := (h.root_iff p r).1 hr
    have hok := h.root p r hr
    obtain ⟨hnumber, hfault, hactivity⟩ := hload hdom
    set root₁ : Node := { s.node r with dirty := true } with hroot₁
    have hok₁ : RootOk (s.proc p) root₁ :=
      ⟨hok.hazards, fun _ => rfl, hok.number, hok.schedule, hok.fault⟩
    set proc₁ : Process :=
      { s.proc p with regs := loadRegs fun i => words (root₁.slot i).key } with hproc₁
    obtain ⟨hasActivity, hfind⟩ := findActivity_spec proc₁ hactivity
    set proc₂ : Process := { { proc₁ with hasActivity } with
      hazards := { proc₁.hazards with domRoot := false } } with hproc₂
    have hnumber₂ (i : Fin 32) (hi : procFirstRootRegSlot ≤ i) :
        ((loadedRoot root₁).slot i).key.keyType = .number := by
      rw [loadedRoot_slot]
      exact hnumber i hi
    obtain ⟨hwf, hheld⟩ := setRoot_keeps proc₂ (loadedRoot root₁) h hr hr rfl rfl rfl
      hobr ⟨loadedRoot_hazards hok.hazards hdom rfl rfl, fun _ => rfl, fun _ => hnumber₂,
        fun hc => (nomatch hc), fun _ => hfault⟩
    refine ⟨s.setRoot p r proc₂ (loadedRoot root₁), ?_, ⟨hwf, ?_, fun n i => Or.inl ?_, fun n hn => ?_⟩, ?_⟩
    · rw [if_pos hdom, loadFixRegs_spec hok₁ hdom hnumber]
      simp only [ok_bind, hfind, ← hproc₁]
      rfl
    · simpa [System.setRoot] using hr
    · rw [hheld]
      split
      case isTrue hn =>
        -- What is unloaded is what was loaded.
        have hkey : rootKey proc₂ (loadedRoot root₁) i = rootKey (s.proc p) (s.node r) i := by
          simp only [rootKey, hproc₂, hdom, if_true, Bool.false_eq_true, if_false, loadedRoot_slot]
          exact unloadKey_loadRegs (fun j => (root₁.slot j).toProperKey) (hnumber i)
        rw [hkey, hn, held_root h hr]
      case isFalse => rfl
    · have hnr : n ≠ r := by
        rintro rfl
        rw [hobr] at hn
        cases hn
      simpa [System.setRoot, System.setNode_of_ne hnr] using hn
    · simp [System.setRoot, hproc₂, hproc₁]
  · rw [if_neg hdom]
    refine ⟨s, rfl, ⟨h, hr, fun _ _ => Or.inl rfl, fun _ => id⟩, ?_⟩
    rw [Bool.not_eq_true] at hdom
    rw [← hdom]

/-! ## A malformed process -/

theorem prepareKey_cases (currentCount : KeyType → ℕ → Option ℕ) (k : Key) :
    (∃ oid, prepareKey currentCount k = { k with body := .prep oid }) ∨
      prepareKey currentCount k = .void ∨ prepareKey currentCount k = k := by
  unfold prepareKey
  split
  · split_ifs
    · exact Or.inl ⟨_, rfl⟩
    · exact Or.inr (Or.inl rfl)
    · exact Or.inr (Or.inr rfl)
  · exact Or.inr (Or.inr rfl)

theorem prepareKey_idem (currentCount : KeyType → ℕ → Option ℕ) (k : Key) :
    prepareKey currentCount (prepareKey currentCount k) = prepareKey currentCount k := by
  rcases prepareKey_cases currentCount k with ⟨oid, hk⟩ | hk | hk
  · rw [hk]
    rfl
  · rw [hk]
    rfl
  · rw [hk, hk]

theorem prepareKey_number (currentCount : KeyType → ℕ → Option ℕ) {k : ProperKey}
    (h : k.key.keyType = .number) : prepareKey currentCount k.key = k.key := by
  obtain ⟨w0, w1, w2, hbody⟩ := k.number h
  simp only [prepareKey, hbody]

theorem unloadKey_congr {regs regs' : FixRegs} {key : ProperKey}
    (h : ∀ old, unloadRegs regs i old = unloadRegs regs' i old) :
    unloadKey regs i key = unloadKey regs' i key := by
  unfold unloadKey
  rw [h]

theorem unloadRegs_fault (regs : FixRegs) (faultCode faultInfo : ℕ) (processFlags : BitVec 8)
    (hi : i ≠ 8) (old : Fin 3 → ℕ) :
    unloadRegs { regs with faultCode, faultInfo, processFlags } i old = unloadRegs regs i old := by
  unfold unloadRegs
  split
  · exact absurd rfl hi
  all_goals rfl

theorem unloadRegs_cpsr (regs : FixRegs) (cpsr : ℕ) (hi : i ≠ 14) (old : Fin 3 → ℕ) :
    unloadRegs { regs with cpsr } i old = unloadRegs regs i old := by
  unfold unloadRegs
  split
  case h_7 => exact absurd rfl hi
  all_goals rfl

theorem faultToKeeper_setFault (regs : FixRegs) (faultCode faultInfo : ℕ) :
    ({ regs with
      faultCode, faultInfo
      processFlags := regs.processFlags ||| pfFaultToProcessKeeper } : FixRegs).faultToKeeper =
      true := by
  unfold FixRegs.faultToKeeper
  rw [decide_eq_true_iff]
  generalize regs.processFlags = flags
  unfold pfFaultToProcessKeeper
  intro h
  have hbit := congrArg (fun v : BitVec 8 => v.getLsbD 0) h
  simp at hbit

theorem setMalformed_spec (h : s.WellFormed) (hr : (s.proc p).procRoot = some r)
    (hdom : (s.proc p).hazards.domRoot = false) :
    s.setMalformed p r = .error .noKeeper ∨
    ∃ s', s.setMalformed p r = .ok s' ∧ s'.WellFormed ∧
      (∀ n i, ¬(n = r ∧ i = 8) → s'.held n i = s.held n i) ∧
      (s'.proc p).procRoot = some r ∧ (s'.proc p).regs.faultCode = fcMalformedProcess ∧
      (s'.proc p).regs.faultToKeeper = true := by
  unfold System.setMalformed setMalformed
  by_cases hkeeper : ((s.node r).slot procKeeper).key.keyType = .start
  · rw [if_pos hkeeper]
    have hok := h.root p r hr
    set regs' : FixRegs := { (s.proc p).regs with
      faultCode := fcMalformedProcess
      faultInfo := 0
      processFlags := (s.proc p).regs.processFlags ||| pfFaultToProcessKeeper } with hregs'
    set proc' : Process := { s.proc p with
      regs := regs'
      hazards := { (s.proc p).hazards with malformed := true } } with hproc'
    have hflag : regs'.faultToKeeper = true := faultToKeeper_setFault (s.proc p).regs _ _
    have hkeeps := setRoot_keeps proc' (s.node r) h hr hr rfl rfl rfl
      ((h.root_iff p r).1 hr) ⟨hok.hazards, hok.dirty, hok.number, hok.schedule, fun _ _ => hflag⟩
    right
    refine ⟨s.setRoot p r proc' (s.node r), ?_, hkeeps.1, fun n i hi => ?_, ?_, ?_, ?_⟩
    · rw [← setProc_eq_setRoot]
      rfl
    · rw [hkeeps.2]
      split
      case isTrue hn =>
        have hkey : rootKey proc' (s.node r) i = rootKey (s.proc p) (s.node r) i := by
          simp only [rootKey, hproc', hdom, Bool.false_eq_true, if_false]
          exact unloadKey_congr fun old => unloadRegs_fault _ _ _ _ (fun hc => hi ⟨hn, hc⟩) old
        rw [hkey, hn, held_root h hr]
      case isFalse => rfl
    · simpa [System.setRoot] using hr
    · simp [System.setRoot, hproc', hregs']
    · simpa [System.setRoot, hproc'] using hflag
  · rw [if_neg hkeeper]
    exact Or.inl rfl

theorem isMalformed_spec (h : s.WellFormed) (hr : (s.proc p).procRoot = some r)
    (hdom : (s.proc p).hazards.domRoot = false) :
    s.isMalformed p = .ok (decide ((s.proc p).regs.faultCode = fcMalformedProcess)) := by
  unfold System.isMalformed
  by_cases hcode : (s.proc p).regs.faultCode = fcMalformedProcess
  · rw [if_pos hcode, assertThat_pos ((h.root p r hr).fault hdom hcode), decide_eq_true hcode]
    rfl
  · rw [if_neg hcode, decide_eq_false hcode]

/-! ## The key registers -/

theorem setNode_eq_setRoot (s : System) (p r : ℕ) (root : Node) :
    s.setNode r root = s.setRoot p r (s.proc p) root := by
  unfold System.setRoot System.setProc
  rw [Function.update_eq_self]

theorem prepareGenKeys_spec (h : s.WellFormed) (hr : (s.proc p).procRoot = some r)
    {key : ProperKey} (hkey : key = ((s.node r).slot procGenKeys).prepare s.currentCount)
    (hs' : s' = s.setNode r ((s.node r).modifySlot procGenKeys fun slot => slot.setKey key)) :
    s'.WellFormed ∧ (∀ n i, s'.held n i = s.held n i) ∧ s'.proc = s.proc ∧
      ∀ n, (s'.node n).obType = (s.node n).obType := by
  have hob := (h.root_iff p r).1 hr
  have hok := h.root p r hr
  set root' := (s.node r).modifySlot procGenKeys fun slot => slot.setKey key with hroot'
  have hslot {i : Fin 32} (hi : i ≠ procGenKeys) : root'.slot i = (s.node r).slot i := by
    rw [hroot', modifySlot_slot, if_neg hi]
  have hgen : root'.slot procGenKeys = ((s.node r).slot procGenKeys).setKey key := by
    rw [hroot', modifySlot_slot, if_pos rfl]
  have hok' : RootOk (s.proc p) root' := by
    refine ⟨fun i => ?_, hok.dirty, fun hd i hi => ?_, hok.schedule, hok.fault⟩
    · by_cases hi : i = procGenKeys
      · subst hi
        rw [hgen]
        exact hok.hazards procGenKeys
      · rw [hslot hi]
        exact hok.hazards i
    · rw [hslot (by rintro rfl; exact absurd hi (by decide))]
      exact hok.number hd i hi
  rw [setNode_eq_setRoot s p r] at hs'
  obtain ⟨hwf, hheld⟩ := setRoot_keeps (s.proc p) root' h hr hr rfl rfl rfl hob hok'
  subst hs'
  refine ⟨hwf, fun n i => ?_, ?_, fun n => ?_⟩
  · rw [hheld]
    split
    case isTrue hn =>
      rw [hn, held_root h hr]
      by_cases hi : i = procGenKeys
      · subst hi
        -- The slot is not one of those for registers.
        have hroot (root : Node) : rootKey (s.proc p) root procGenKeys =
            (root.slot procGenKeys).toProperKey := by
          unfold rootKey unloadKey
          split_ifs with _ hreg
          · rfl
          · exact absurd hreg (by decide)
          · rfl
        rw [hroot, hroot, hgen, hkey]
        exact prepareKey_idem _ _
      · unfold rootKey
        rw [hslot hi]
    case isFalse => rfl
  · simp only [System.setRoot, System.setNode_proc, System.setProc]
    exact Function.update_eq_self ..
  · by_cases hn : n = r
    · subst hn
      simp [System.setRoot, hroot', Node.modifySlot]
    · simp [System.setRoot, System.setNode_of_ne hn]

theorem loadSlots_spec {keyReg : Fin 32 → ProperKey} {slot : Fin 32 → Slot}
    (hkeyReg : ∀ i, keyReg i = .void) (hslot : ∀ i, (slot i).hazards = (false, false)) :
    loadSlots keyReg slot = .ok fun i =>
      ((if i = 0 then .void else (slot i).toProperKey), ⟨.void, true, true⟩) := by
  unfold loadSlots
  rw [SlotLoop.run_eq_ok_iff]
  intro i
  have hdest : (keyReg i).isPrepared = false := by
    rw [hkeyReg]
    rfl
  have hsrc : (if i = 0 then (slot i).setKey .void else slot i).isHazard = false := by
    split <;> exact isHazard_eq_false.2 (hslot i)
  simp only [moveFromSlot, assertThat_pos hsrc, assertThat_pos hdest, ok_bind]
  split <;> rfl

/-- The process after its key registers have been loaded. -/
def loadedKeys (proc : Process) (kn : ℕ) (keysNode : Node) : Process :=
  { proc with
    keyReg := fun i => if i = 0 then .void else (keysNode.slot i).toProperKey
    keysNode := some kn
    hazards := { proc.hazards with keyRegs := false } }

theorem load_prepares {kn : ℕ} (h : s.WellFormed) (hr : (s.proc p).procRoot = some r)
    (hnone : (s.proc p).keysNode = none) (hobk : (s.node kn).obType = .unprepared)
    (hs' : s' = ((s.setNode kn ⟨fun _ => ⟨.void, true, true⟩, .keyRegs p, true⟩).setProc p
      (loadedKeys (s.proc p) kn (s.node kn))).setNode r
        ((s.node r).modifySlot procGenKeys Slot.setWrHazard)) :
    Prepares s s' p r ∧ s'.proc p = loadedKeys (s.proc p) kn (s.node kn) := by
  have hobr := (h.root_iff p r).1 hr
  have hok := h.root p r hr
  have hrk : kn ≠ r := by
    rintro rfl
    rw [hobr] at hobk
    cases hobk
  set root' := (s.node r).modifySlot procGenKeys Slot.setWrHazard with hroot'
  have hproc : s'.proc p = loadedKeys (s.proc p) kn (s.node kn) := by simp [hs']
  have hprocq {q : ℕ} (hq : q ≠ p) : s'.proc q = s.proc q := by simp [hs', System.setProc_of_ne hq]
  have hnoder : s'.node r = root' := by simp [hs']
  have hnodek : s'.node kn = ⟨fun _ => ⟨.void, true, true⟩, .keyRegs p, true⟩ := by
    simp [hs', System.setNode_of_ne hrk]
  have hnode {n : ℕ} (hn : ¬(n = r ∨ n = kn)) : s'.node n = s.node n := by
    rw [not_or] at hn
    simp [hs', System.setNode_of_ne hn.1, System.setNode_of_ne hn.2]
  have hobr' : root'.obType = .processRoot p := hobr
  have hslotKey (i : Fin 32) : (root'.slot i).toProperKey = ((s.node r).slot i).toProperKey :=
    modifySlot_key (f := Slot.setWrHazard) (fun _ => rfl) i
  have hhaz (i : Fin 32) : (root'.slot i).hazards = rootHazards (loadedKeys (s.proc p) kn (s.node kn)) i :=
    modifySlot_hazards hok.hazards (congrArg (fun hz => (hz.1, true)) (hok.hazards procGenKeys))
      (fun i hi => by simp only [rootHazards, loadedKeys, if_neg hi]) i
  have hr' : (s'.proc p).procRoot = some r := by rw [hproc, loadedKeys, hr]
  have hk' : (s'.proc p).keysNode = some kn := by rw [hproc, loadedKeys]
  have hc : s.Changes s' p (fun n => n = r ∨ n = kn) := by
    refine ⟨fun q hq => hprocq hq, fun n hn => hnode hn, ?_, fun n hn => .inl ?_,
      fun n hn => absurd (hnone.symm.trans hn) (by simp)⟩
    · rintro n (rfl | rfl)
      · rw [hnoder]
        exact ⟨Or.inr (Or.inl hobr), Or.inr (Or.inl hobr')⟩
      · rw [hnodek]
        exact ⟨Or.inl hobk, Or.inr (Or.inr rfl)⟩
    · exact Option.some.inj (hn.symm.trans hr)
  have hwf : s'.WellFormed := by
    refine h.change hc (fun n hn => .inl ?_) (fun n hn => .inr ?_) ?_ ?_ ?_ ?_ ?_ ?_
    · exact Option.some.inj (hn.symm.trans hr')
    · exact Option.some.inj (hn.symm.trans hk')
    · rintro n (rfl | rfl)
      · exact ⟨fun _ => by rw [hnoder, hobr'], fun _ => hr'⟩
      · rw [hnodek]
        exact ⟨fun hn => absurd (Option.some.inj (hn.symm.trans hr')) hrk, fun hn => by cases hn⟩
    · rintro n (rfl | rfl)
      · rw [hnoder, hobr']
        exact ⟨fun hn => absurd (Option.some.inj (hk'.symm.trans hn)) hrk, fun hn => by cases hn⟩
      · exact ⟨fun _ => by rw [hnodek], fun _ => hk'⟩
    · refine ⟨⟨fun _ => ⟨by rw [hr']; rfl, by rw [hproc]; rfl⟩, fun _ => by rw [hk']; rfl⟩, fun hn => ?_, ?_⟩
      · rw [hk'] at hn
        cases hn
      · rw [hproc]
        rfl
    · intro n hn
      obtain rfl := Option.some.inj (hr'.symm.trans hn)
      rw [hproc, hnoder]
      refine ⟨hhaz, hok.dirty, fun hdom i hi => ?_, hok.schedule, hok.fault⟩
      rw [hslotKey]
      exact hok.number hdom i hi
    · intro n hn
      obtain rfl := Option.some.inj (hk'.symm.trans hn)
      rw [hnodek]
      exact ⟨fun _ => rfl, fun _ => rfl, rfl⟩
    · rintro n (rfl | rfl) hn i
      · rw [hnoder, hobr'] at hn
        cases hn
      · rw [hnodek] at hn
        cases hn
  refine ⟨⟨hwf, hr', fun n i => ?_, fun n hn => ?_⟩, hproc⟩
  · by_cases hnk : n = kn
    · subst hnk
      have hheld : s'.held n i = prepareKey s'.currentCount
          (if i = 0 then ProperKey.void else ((s.node n).slot i).toProperKey).key := by
        unfold System.held System.keyAt
        simp only [hnodek, hproc]
        rfl
      by_cases hi : i = 0
      · right
        right
        refine ⟨hi, by rw [hnodek], ?_⟩
        rw [hheld, if_pos hi]
        rfl
      · left
        rw [hheld, if_neg hi]
        unfold System.held System.keyAt
        rw [hobk, hs']
        rfl
    · left
      have hcount : s'.currentCount = s.currentCount := by
        rw [hs']
        rfl
      unfold System.held
      rw [hcount]
      refine congrArg (fun k : ProperKey => prepareKey s.currentCount k.key) ?_
      by_cases hnr : n = r
      · subst hnr
        unfold System.keyAt
        simp only [hnoder, hobr', hobr, hproc, rootKey, hslotKey]
        rfl
      · exact hc.keyAt h (by tauto) i
  · rw [(h.keys_iff p n).2 hn] at hnone
    cases hnone

/-- The process turned out to be malformed, and will fault to its keeper. -/
def Process.Faulted (proc : Process) : Prop :=
  proc.regs.faultCode = fcMalformedProcess ∧ proc.regs.faultToKeeper = true

section Loading

variable (h : s.WellFormed) (hr : (s.proc p).procRoot = some r)

include h hr

theorem setMalformed_prepares (hdom : (s.proc p).hazards.domRoot = false) :
    s.setMalformed p r = .error .noKeeper ∨
    ∃ s', s.setMalformed p r = .ok s' ∧ Prepares s s' p r ∧ (s'.proc p).Faulted ∧
      (s'.proc p).hazards.domRoot = false := by
  rcases setMalformed_spec h hr hdom with herr | ⟨s', hrun, hwf, hheld, hroot, hcode, hflag⟩
  · exact Or.inl herr
  · right
    have hproc : ∃ proc, s' = s.setProc p proc ∧ proc.hazards.domRoot = false := by
      unfold System.setMalformed setMalformed at hrun
      split at hrun
      · cases hrun
        exact ⟨_, rfl, hdom⟩
      · cases hrun
    obtain ⟨proc, rfl, hdom'⟩ := hproc
    refine ⟨_, hrun, ⟨hwf, hroot, fun n i => ?_, fun n hn => hn⟩, ⟨hcode, hflag⟩, ?_⟩
    · by_cases hi : n = r ∧ i = 8
      · exact Or.inr (Or.inl ⟨hi.1, Or.inl hi.2⟩)
      · exact Or.inl (hheld n i hi)
    · rw [System.setProc_proc]
      exact hdom'

theorem loadKeyRegs_spec (hdom : (s.proc p).hazards.domRoot = false) (hkeyRegs : (s.proc p).hazards.keyRegs = true)
    (choices : Choices) :
    s.loadKeyRegs p r choices = .error .noKeeper ∨
    ∃ s' yielded, s.loadKeyRegs p r choices = .ok (s', yielded) ∧ Prepares s s' p r ∧
      (s'.proc p).hazards.domRoot = false ∧
      (yielded = false → (s'.proc p).hazards.keyRegs = false ∨ (s'.proc p).Faulted) := by
  have hgen : ((s.node r).slot procGenKeys).isHazard = false := by
    rw [isHazard_eq_false, (h.root p r hr).hazards]
    simp [rootHazards, hkeyRegs, procGenKeys, procFirstRootRegSlot, procSched, procAddrSpace]
  unfold System.loadKeyRegs
  rw [assertThat_pos hkeyRegs, ok_bind, assertThat_pos hgen, ok_bind]
  split
  case isTrue =>
    exact Or.inr ⟨s, true, rfl, ⟨h, hr, fun _ _ => Or.inl rfl, fun _ => id⟩, hdom, fun hc => by cases hc⟩
  case isFalse =>
    -- The key to the keys node is prepared.
    set key := ((s.node r).slot procGenKeys).prepare s.currentCount with hkey
    set s₁ := s.setNode r ((s.node r).modifySlot procGenKeys fun slot => slot.setKey key) with hs₁
    obtain ⟨hwf₁, hheld₁, hproc₁, hob₁⟩ := prepareGenKeys_spec h hr hkey hs₁
    have hprep₁ : Prepares s s₁ p r :=
      ⟨hwf₁, by rw [hproc₁]; exact hr, fun n i => Or.inl (hheld₁ n i), fun n hn => by rwa [hob₁]⟩
    have hr₁ := hprep₁.root
    have hdom₁ : (s₁.proc p).hazards.domRoot = false := by rwa [hproc₁]
    dsimp only
    split
    case isTrue =>
      rcases setMalformed_prepares hwf₁ hr₁ hdom₁ with herr | ⟨s₂, hrun₂, hprep₂, hfault, hdom₂⟩
      · rw [herr]
        exact Or.inl rfl
      · rw [hrun₂]
        exact Or.inr ⟨s₂, false, rfl, hprep₁.trans hprep₂, hdom₂, fun _ => Or.inr hfault⟩
    case isFalse hnode =>
      simp only [not_or, not_not] at hnode
      obtain ⟨-, hobk, hrk⟩ := hnode
      split
      case isTrue =>
        exact Or.inr ⟨s₁, true, rfl, hprep₁, hdom₁, fun hc => by cases hc⟩
      case isFalse =>
        have hkeyRegs₁ : (s₁.proc p).hazards.keyRegs = true := by rwa [hproc₁]
        have hnone : (s₁.proc p).keysNode = none := by
          by_contra hc
          have := ((hwf₁.keyRegs p).keysNode.1 (Option.ne_none_iff_isSome.1 hc)).2
          rw [hkeyRegs₁] at this
          cases this
        rw [loadSlots_spec ((hwf₁.keyRegs p).unloaded hnone) (hwf₁.unprepared _ hobk), ok_bind]
        obtain ⟨hprep₂, hproc₂⟩ := load_prepares hwf₁ hr₁ hnone hobk rfl
        refine Or.inr ⟨_, false, ?_, hprep₁.trans hprep₂, ?_, fun _ => Or.inl ?_⟩
        · simp only [System.setNode_of_ne (Ne.symm hrk), System.setNode_proc, System.setProc_node]
          rfl
        · rw [hproc₂]
          exact hdom₁
        · rw [hproc₂]
          rfl

/-! ## The schedule key and the end -/

theorem prepareSchedule_spec (hdom : (s.proc p).hazards.domRoot = false) (hkeyRegs : (s.proc p).hazards.keyRegs = false)
    (choices : Choices) :
    ∃ s', s.prepareSchedule p r choices = .ok s' ∧ Prepares s s' p r := by
  have hok := h.root p r hr
  have hobr := (h.root_iff p r).1 hr
  -- The schedule key.
  have hsched : ∃ proc root, (if (s.proc p).hazards.schedule then
        loadSchedule (s.proc p) (s.node r) choices.nextReserve else .ok (s.proc p, s.node r)) =
      .ok (proc, root) ∧ RootOk proc root ∧ root.obType = .processRoot p ∧
      proc.procRoot = some r ∧ proc.keysNode = (s.proc p).keysNode ∧
      proc.keyReg = (s.proc p).keyReg ∧ proc.regs = (s.proc p).regs ∧
      proc.hazards.keyRegs = false ∧ proc.hazards.domRoot = false ∧
      ∀ i, (root.slot i).toProperKey = ((s.node r).slot i).toProperKey := by
    by_cases hs : (s.proc p).hazards.schedule = true
    · have hhaz : ((s.node r).slot procSched).hazards = (false, false) := by
        rw [hok.hazards]
        simp [rootHazards, hs, procSched, procFirstRootRegSlot]
      refine ⟨{ s.proc p with
          readyQ := readyQueueOf ((s.node r).slot procSched).key choices.nextReserve
          hazards := { (s.proc p).hazards with schedule := false } },
        (s.node r).modifySlot procSched Slot.setWrHazard, ?_, ?_, hobr, hr, rfl, rfl, rfl, hkeyRegs,
        hdom, fun i => ?_⟩
      · rw [if_pos hs, loadSchedule, assertThat_pos (isHazard_eq_false.2 hhaz), ok_bind]
      · refine ⟨modifySlot_hazards hok.hazards (congrArg (fun hz => (hz.1, true)) (hok.hazards procSched))
          fun i hi => by simp only [rootHazards, if_neg hi], hok.dirty, fun hd i hi => ?_, fun hc => ?_, hok.fault⟩
        · rw [modifySlot_slot, if_neg (by rintro rfl; exact absurd hi (by decide))]
          exact hok.number hd i hi
        · exact absurd (hdom.symm.trans hc) (by decide)
      · exact modifySlot_key (f := Slot.setWrHazard) (fun _ => rfl) i
    · exact ⟨s.proc p, s.node r, if_neg hs, hok, hobr, hr, rfl, rfl, rfl, hkeyRegs, hdom, fun _ => rfl⟩
  obtain ⟨proc, root, hrun, hok', hob, hroot, hkeysNode, hkeyReg, hregs, hkeys', hdom', hslot⟩ := hsched
  -- Only the processor status can change.
  have hvalid : ∃ ioPriv cpsr, validateRegValues proc root =
      .ok { proc with ioPriv, regs := { proc.regs with cpsr } } := by
    unfold validateRegValues
    split
    · exact ⟨proc.ioPriv, proc.regs.cpsr, rfl⟩
    · rw [assertThat_pos hdom', assertThat_pos hkeys']
      exact ⟨_, _, rfl⟩
  obtain ⟨ioPriv, cpsr, hvalid⟩ := hvalid
  set proc' : Process := { proc with ioPriv, regs := { proc.regs with cpsr } } with hproc'
  obtain ⟨hwf, hheld⟩ := setRoot_keeps proc' root h hr hroot hkeysNode hkeyReg
    (hkeys'.trans hkeyRegs.symm) hob
    ⟨hok'.hazards, hok'.dirty, hok'.number, hok'.schedule, hok'.fault⟩
  refine ⟨s.setRoot p r proc' root, ?_, hwf, ?_, fun n i => ?_, fun n hn => ?_⟩
  · unfold System.prepareSchedule
    simp only [hrun, ok_bind, hvalid]
    rfl
  · simpa [System.setRoot] using hroot
  · rw [hheld]
    split
    case isTrue hn =>
      by_cases hi : i = 14
      · exact Or.inr (Or.inl ⟨hn, Or.inr hi⟩)
      · left
        have hkey : rootKey proc' root i = rootKey (s.proc p) (s.node r) i := by
          simp only [rootKey, hproc', hdom, hdom', Bool.false_eq_true, if_false, hslot, hregs]
          exact unloadKey_congr fun old => unloadRegs_cpsr _ _ hi old
        rw [hkey, hn, held_root h hr]
    case isFalse => exact Or.inl rfl
  · have hnr : n ≠ r := by
      rintro rfl
      rw [hobr] at hn
      cases hn
    simpa [System.setRoot, System.setNode_of_ne hnr] using hn

theorem keysNode_ne_root :
    some r ≠ (s.proc p).keysNode := by
  intro hk
  have hob := (h.keys_iff p r).1 hk.symm
  rw [(h.root_iff p r).1 hr] at hob
  cases hob

/-- A register slot is malformed, and the process has no keeper. -/
def Helpless (root : Node) : Prop :=
  (∃ i, procFirstRootRegSlot ≤ i ∧ (root.slot i).key.keyType ≠ .number) ∧
    (root.slot procKeeper).key.keyType ≠ .start

theorem doPrepare_spec (choices : Choices)
    (hload : (s.proc p).hazards.domRoot = true → choices.rootYields = false →
      Loadable (s.proc p) (s.node r) choices.activityFound ∨ Helpless (s.node r)) :
    s.doPrepare p choices = .error .noKeeper ∨
      ∃ s', s.doPrepare p choices = .ok s' ∧ Prepares s s' p r := by
  have hok := h.root p r hr
  set proc₀ : Process :=
    { s.proc p with hazards := { (s.proc p).hazards with malformed := false } } with hproc₀
  set s₀ := s.setProc p proc₀ with hs₀
  have hproc : s₀.proc p = proc₀ := by simp [hs₀]
  -- `hz_Malformed` is cleared.
  have hprep₀ : Prepares s s₀ p r := by
    have hclears : Clears s s₀ := by
      rw [hs₀, setProc_eq_setRoot s p r]
      exact clears_setRoot proc₀ (s.node r) h hr hr rfl rfl rfl ((h.root_iff p r).1 hr)
        ⟨hok.hazards, hok.dirty, hok.number, hok.schedule, hok.fault⟩ (fun _ => rfl) fun _ => id
    exact ⟨hclears.wellFormed, by rw [hproc]; exact hr, fun n i => Or.inl (hclears.held n i),
      fun _ => id⟩
  unfold System.doPrepare
  split
  case h_1 hnone => exact absurd (hr.symm.trans hnone) (by simp)
  case h_2 r' hr' =>
  obtain rfl : r = r' := Option.some.inj (hr.symm.trans hr')
  dsimp only
  rw [← hproc₀, ← hs₀]
  split
  case isTrue => exact Or.inr ⟨s₀, rfl, hprep₀⟩
  case isFalse hyield =>
    have hload₀ : s₀.prepareFixRegs p r choices = .error .noKeeper ∨
        ((s₀.proc p).hazards.domRoot = true →
          Loadable (s₀.proc p) (s₀.node r) choices.activityFound) := by
      by_cases hd : (s.proc p).hazards.domRoot = true
      · rw [hd, Bool.true_and, Bool.not_eq_true] at hyield
        rcases hload hd hyield with ⟨hnumber, hfault, hactivity⟩ | ⟨hbad, hkeeper⟩
        · rw [hproc]
          exact Or.inr fun _ => ⟨hnumber, hfault, hactivity⟩
        · have hd₀ : (s₀.proc p).hazards.domRoot = true := by
            rw [hproc]
            exact hd
          exact Or.inl (prepareFixRegs_noKeeper hprep₀.wellFormed hprep₀.root hd₀ hbad hkeeper)
      · rw [hproc]
        exact Or.inr fun hc => absurd hc hd
    rcases hload₀ with herr | hload₀
    · rw [herr]
      exact Or.inl rfl
    obtain ⟨s₁, hrun₁, hprep₁, hhaz₁⟩ := prepareFixRegs_spec hprep₀.wellFormed hprep₀.root hload₀
    have hprep₁ := hprep₀.trans hprep₁
    have hdom₁ : (s₁.proc p).hazards.domRoot = false := by rw [hhaz₁]
    rw [hrun₁, ok_bind, isMalformed_spec hprep₁.wellFormed hprep₁.root hdom₁, ok_bind]
    split
    case isTrue => exact Or.inr ⟨s₁, rfl, hprep₁⟩
    case isFalse =>
      -- The key registers are loaded if they are not.
      have hkeys : (if (s₁.proc p).hazards.keyRegs then s₁.loadKeyRegs p r choices
            else .ok (s₁, false)) = .error .noKeeper ∨
          ∃ s₂ yielded, (if (s₁.proc p).hazards.keyRegs then s₁.loadKeyRegs p r choices
            else .ok (s₁, false)) = .ok (s₂, yielded) ∧ Prepares s₁ s₂ p r ∧
            (s₂.proc p).hazards.domRoot = false ∧
            (yielded = false → (s₂.proc p).hazards.keyRegs = false ∨ (s₂.proc p).Faulted) := by
        by_cases hkeyRegs : (s₁.proc p).hazards.keyRegs = true
        · rw [if_pos hkeyRegs]
          exact loadKeyRegs_spec hprep₁.wellFormed hprep₁.root hdom₁ hkeyRegs choices
        · refine Or.inr ⟨s₁, false, if_neg hkeyRegs, ⟨hprep₁.wellFormed, hprep₁.root,
            fun _ _ => Or.inl rfl, fun _ => id⟩, hdom₁, fun _ => Or.inl (by simpa using hkeyRegs)⟩
      rcases hkeys with herr | ⟨s₂, yielded, hrun₂, hprep₂, hdom₂, hkeyRegs₂⟩
      · rw [herr]
        exact Or.inl rfl
      · have hprep₂ := hprep₁.trans hprep₂
        rw [hrun₂, ok_bind]
        split
        case isTrue => exact Or.inr ⟨s₂, rfl, hprep₂⟩
        case isFalse hyielded =>
          have hne := keysNode_ne_root hprep₂.wellFormed hprep₂.root
          rw [if_neg (fun hc => hne hc.2), ok_bind,
            isMalformed_spec hprep₂.wellFormed hprep₂.root hdom₂, ok_bind]
          split
          case isTrue => exact Or.inr ⟨s₂, rfl, hprep₂⟩
          case isFalse hcode =>
            have hkeys₂ : (s₂.proc p).hazards.keyRegs = false := by
              rcases hkeyRegs₂ (by simpa using hyielded) with hk | hfault
              · exact hk
              · exact absurd (decide_eq_true hfault.1) hcode
            obtain ⟨s₃, hrun₃, hprep₃⟩ := prepareSchedule_spec hprep₂.wellFormed hprep₂.root hdom₂
              hkeys₂ choices
            exact Or.inr ⟨s₃, hrun₃, hprep₂.trans hprep₃⟩

end Loading

end CapROS.ProcessCache
