import CapROS.ProcessCache.Preparing

/-!
# Coherence of the process cache

A run is coherent while the roots that are loaded can be loaded, and registers are set only where
there are registers.

* `Op.Careful`: the condition on a step. `CarefulReach`: the runs that meet it.
* `coherence_run`: the coherence of the cache.
* `coherence_fails`: without the condition an assertion fails.
-/

namespace CapROS.ProcessCache

variable {s s' s₀ : System} {p r k n : ℕ} {i : Fin 32} {proc : Process} {node root : Node}

/-! ## Storing a key -/

theorem keyAt_unhazarded (h : s.WellFormed) (hhaz : ((s.node n).slot i).hazards = (false, false)) :
    s.keyAt n i = ((s.node n).slot i).toProperKey := by
  have hloaded := h.hazards n i
  rw [hhaz] at hloaded
  unfold System.keyAt
  unfold System.hazardsOf at hloaded
  cases hob : (s.node n).obType with
  | unprepared => rfl
  | processRoot p =>
    rw [hob] at hloaded
    dsimp only at hloaded ⊢
    unfold rootKey unloadKey
    split
    · rfl
    case isFalse hdom =>
      -- The registers are loaded, and so the slot is not theirs.
      split
      case isTrue hreg =>
        rw [rootHazards_regSlot hreg.1] at hloaded
        simp [hdom] at hloaded
      case isFalse => rfl
  | keyRegs p =>
    rw [hob] at hloaded
    cases hloaded

theorem storeSlot_spec (h : s.WellFormed) (hhaz : ((s.node n).slot i).hazards = (false, false))
    (key : ProperKey)
    (hs' : s' = s.setNode n ((s.node n).modifySlot i fun _ => ⟨key, false, false⟩)) :
    s'.WellFormed ∧ ∀ m j, s'.held m j =
      if m = n ∧ j = i then prepareKey s.currentCount key.key else s.held m j := by
  set node := (s.node n).modifySlot i fun _ => ⟨key, false, false⟩ with hnode
  have hslot {j : Fin 32} (hj : j ≠ i) : node.slot j = (s.node n).slot j := by
    rw [hnode, modifySlot_slot, if_neg hj]
  have hsloti : node.slot i = ⟨key, false, false⟩ := by rw [hnode, modifySlot_slot, if_pos rfl]
  have hhazards (j : Fin 32) : (node.slot j).hazards = ((s.node n).slot j).hazards := by
    by_cases hj : j = i
    · subst hj
      rw [hsloti, hhaz]
      rfl
    · rw [hslot hj]
  have hob : node.obType = (s.node n).obType := rfl
  have hwf : s'.WellFormed := by
    rw [hs']
    refine setNode_wellFormed h hob (fun p hp => ?_) (fun p hp => ?_) fun hu j => ?_
    · have hok := h.root p n ((h.root_iff p n).2 (hob ▸ hp))
      refine ⟨fun j => (hhazards j).trans (hok.hazards j), hok.dirty, fun hd j hj => ?_, hok.schedule,
        hok.fault⟩
      have hji : j ≠ i := by
        rintro rfl
        rw [hok.hazards, rootHazards_regSlot hj, hd] at hhaz
        cases hhaz
      rw [hslot hji]
      exact hok.number hd j hj
    · have hok := h.keys p n ((h.keys_iff p n).2 (hob ▸ hp))
      rw [hok.hazards] at hhaz
      cases hhaz
    · rw [hhazards]
      exact h.unprepared n (hob ▸ hu) j
  refine ⟨hwf, fun m j => ?_⟩
  have hcount : s'.currentCount = s.currentCount := by
    rw [hs']
    rfl
  unfold System.held
  rw [hcount]
  by_cases hm : m = n
  · subst hm
    by_cases hj : j = i
    · subst hj
      rw [if_pos ⟨rfl, rfl⟩]
      have hkey : s'.keyAt m j = ((s'.node m).slot j).toProperKey := by
        refine keyAt_unhazarded hwf ?_
        rw [hs', System.setNode_node, hsloti]
        rfl
      rw [hkey, hs', System.setNode_node, hsloti]
    · rw [if_neg fun hc => hj hc.2]
      have hkey : s'.keyAt m j = s.keyAt m j := by
        unfold System.keyAt rootKey
        rw [hs']
        simp only [System.setNode_node, hob, hslot hj, System.setNode_proc]
      rw [hkey]
  · rw [if_neg fun hc => hm hc.1]
    have hkey : s'.keyAt m j = s.keyAt m j := by
      unfold System.keyAt
      rw [hs']
      simp only [System.setNode_of_ne hm, System.setNode_proc]
    rw [hkey]

theorem setSlot_spec (h : s.WellFormed) (n : ℕ) (i : Fin 32) (key : ProperKey) :
    ∃ s', (Op.setSlot n i key).run s = .ok s' ∧ s'.WellFormed ∧ ∀ m j, s'.held m j =
      if m = n ∧ j = i then prepareKey s.currentCount key.key else s.held m j := by
  have hclears₁ := setDirty_clears h n
  obtain ⟨s₂, hrun₂, hclears₂, hhaz₂⟩ := clearHazard_clears hclears₁.wellFormed n i
  have hclears := hclears₁.trans hclears₂
  obtain ⟨hwf, hheld⟩ := storeSlot_spec hclears.wellFormed hhaz₂ key rfl
  refine ⟨_, ?_, hwf, fun m j => ?_⟩
  · simp only [Op.run, hrun₂, ok_bind]
  · rw [hheld, hclears.held, hclears.currentCount]

theorem clean_spec (h : s.WellFormed) (n : ℕ) :
    ∃ s', (Op.clean n).run s = .ok s' ∧ s'.WellFormed ∧ ∀ m j, s'.held m j = s.held m j := by
  obtain ⟨s₁, hrun, hclears, hall⟩ := clearAllHazards_clears h n
  have hwf₁ := hclears.wellFormed
  set node := { s₁.node n with dirty := false } with hnode
  have hob : node.obType = (s₁.node n).obType := rfl
  -- Registers are loaded only where there are hazards.
  have hwf : (s₁.setNode n node).WellFormed := by
    refine setNode_wellFormed hwf₁ hob (fun p hp => ?_) (fun p hp => ?_) (hwf₁.unprepared n)
    · have hok := hwf₁.root p n ((hwf₁.root_iff p n).2 (hob ▸ hp))
      refine ⟨hok.hazards, fun hd => ?_, hok.number, hok.schedule, hok.fault⟩
      have h8 := hall 8
      rw [hok.hazards, rootHazards_regSlot (by decide), hd] at h8
      cases h8
    · have hok := hwf₁.keys p n ((hwf₁.keys_iff p n).2 (hob ▸ hp))
      have h0 := hall 0
      rw [hok.hazards] at h0
      cases h0
  refine ⟨s₁.setNode n node, ?_, hwf, fun m j => ?_⟩
  · simp only [Op.run, hrun, ok_bind]
    rfl
  · rw [← hclears.held]
    refine congrArg (fun k : ProperKey => prepareKey s₁.currentCount k.key) ?_
    unfold System.keyAt rootKey
    by_cases hm : m = n
    · subst hm
      simp only [System.setNode_node, System.setNode_proc, hnode]
    · simp only [System.setNode_of_ne hm, System.setNode_proc]

/-! ## Changing a process -/

/-- Store the registers that a slot of a root is for in the key that it holds. -/
def storeRegs (regs : FixRegs) (i : Fin 32) (k : Key) : Key :=
  if 8 ≤ i ∧ i ≤ 14 then setWords k (unloadRegs regs i (words k)) else k

section Registers

variable (h : s.WellFormed) (hr : (s.proc p).procRoot = some r)

include h hr

theorem setRegs_spec (hhaz : (s.proc p).hazards = .none) {regs : FixRegs} (hfault : Op.FaultFlagged regs)
    (ioPriv : Bool) (hs' : s' = s.setProc p { s.proc p with ioPriv, regs }) :
    s'.WellFormed ∧ ∀ m j, s'.held m j =
      if (s.proc p).procRoot = some m then storeRegs regs j (s.held m j) else s.held m j := by
  have hok := h.root p r hr
  have hdom : (s.proc p).hazards.domRoot = false := by
    rw [hhaz]
    rfl
  set proc' : Process := { s.proc p with ioPriv, regs } with hproc'
  rw [setProc_eq_setRoot s p r] at hs'
  obtain ⟨hwf, hheld⟩ := setRoot_keeps proc' (s.node r) h hr hr rfl rfl rfl
    ((h.root_iff p r).1 hr)
    ⟨hok.hazards, hok.dirty, hok.number, hok.schedule, fun _ => hfault⟩
  subst hs'
  refine ⟨hwf, fun m j => ?_⟩
  rw [hheld, hr]
  by_cases hm : m = r
  · subst hm
    rw [if_pos rfl, if_pos rfl, held_root h hr]
    have hkey : rootKey proc' (s.node m) j = unloadKey regs j (rootKey (s.proc p) (s.node m) j) := by
      simp only [rootKey, hproc', hdom, Bool.false_eq_true, if_false]
      exact (unloadKey_unloadKey _ _ _).symm
    rw [hkey]
    unfold storeRegs
    by_cases hj : 8 ≤ j ∧ j ≤ 14
    · have hnumber : (rootKey (s.proc p) (s.node m) j).key.keyType = .number := by
        simp only [rootKey, hdom, Bool.false_eq_true, if_false, unloadKey, if_pos hj]
        exact hok.number hdom j hj.1
      rw [if_pos hj, prepareKey_number _ hnumber, unloadKey, if_pos hj]
      rfl
    · rw [if_neg hj, unloadKey, if_neg hj]
  · rw [if_neg hm, if_neg fun hc => hm (Option.some.inj hc).symm]

theorem setRegs32_spec (hhaz : (s.proc p).hazards = .none) {regs : FixRegs} (hfault : Op.FaultFlagged regs) :
    ∃ s', Op.setRegs s p regs = .ok s' ∧ s'.WellFormed ∧ ∀ m j, s'.held m j =
      if (s.proc p).procRoot = some m then storeRegs (s'.proc p).regs j (s.held m j)
      else s.held m j := by
  set regs₁ : FixRegs := if regs.faultCode = fcNoFault then
      { regs with
        faultInfo := 0
        processFlags := regs.processFlags &&& ~~~pfFaultToProcessKeeper }
    else regs with hregs₁
  set regs₂ : FixRegs := { regs₁ with runState := (s.proc p).regs.runState } with hregs₂
  have hfault₂ : Op.FaultFlagged regs₂ := by
    intro hcode
    have hcode₁ : regs₁.faultCode = fcMalformedProcess := hcode
    show regs₁.faultToKeeper = true
    rw [hregs₁] at hcode₁ ⊢
    split at hcode₁
    case isTrue hno => exact absurd (hno.symm.trans hcode₁) (by decide)
    case isFalse hno =>
      rw [if_neg hno]
      exact hfault hcode₁
  -- The processor status is made valid.
  have hvalid : ∃ ioPriv cpsr, validateRegValues { s.proc p with regs := regs₂ } (s.node r) =
      .ok { s.proc p with ioPriv, regs := { regs₂ with cpsr } } := by
    unfold validateRegValues
    split
    · exact ⟨(s.proc p).ioPriv, regs₂.cpsr, rfl⟩
    · have hdom : (s.proc p).hazards.domRoot = false := by
        rw [hhaz]
        rfl
      have hkeys : (s.proc p).hazards.keyRegs = false := by
        rw [hhaz]
        rfl
      rw [assertThat_pos hdom, assertThat_pos hkeys]
      exact ⟨_, _, rfl⟩
  obtain ⟨ioPriv, cpsr, hvalid⟩ := hvalid
  have hfault₃ : Op.FaultFlagged { regs₂ with cpsr } := hfault₂
  obtain ⟨hwf, hheld⟩ := setRegs_spec h hr hhaz hfault₃ ioPriv rfl
  refine ⟨_, ?_, hwf, fun m j => ?_⟩
  · unfold Op.setRegs
    split
    case h_1 hnone => exact absurd (hr.symm.trans hnone) (by simp)
    case h_2 r' hr' =>
    obtain rfl : r = r' := Option.some.inj (hr.symm.trans hr')
    rw [assertThat_pos hhaz, ok_bind]
    dsimp only
    rw [← hregs₁, ← hregs₂, hvalid]
    rfl
  · rw [hheld, System.setProc_proc]

theorem setKeyReg_spec {slot : Fin 32} (hkeyRegs : (s.proc p).hazards.keyRegs = false) (hslot : slot ≠ 0) (key : ProperKey)
    (hs' : s' = s.setProc p
      { s.proc p with keyReg := Function.update (s.proc p).keyReg slot key }) :
    s'.WellFormed ∧ ∀ m j, s'.held m j =
      if (s.proc p).keysNode = some m ∧ j = slot then prepareKey s.currentCount key.key
      else s.held m j := by
  have hok := h.root p r hr
  obtain ⟨k, hk⟩ := Option.isSome_iff_exists.1
    ((h.keyRegs p).keysNode.2 ⟨by rw [hr]; rfl, hkeyRegs⟩)
  have hobk := (h.keys_iff p k).1 hk
  set proc' : Process :=
    { s.proc p with keyReg := Function.update (s.proc p).keyReg slot key } with hproc'
  have hwf : s'.WellFormed := by
    rw [hs', setProc_eq_setRoot s p r]
    refine h.setRoot proc' (s.node r) hr hr rfl ((h.root_iff p r).1 hr)
      ⟨(h.keyRegs p).keysNode, fun hc => ?_, ?_⟩
      ⟨hok.hazards, hok.dirty, hok.number, hok.schedule, hok.fault⟩
    · exact absurd (hk.symm.trans hc) (by simp)
    · exact (Function.update_of_ne (Ne.symm hslot) ..).trans (h.keyRegs p).void
  refine ⟨hwf, fun m j => ?_⟩
  have hcount : s'.currentCount = s.currentCount := by
    rw [hs']
    rfl
  have hproc : s'.proc p = proc' := by simp [hs']
  have hprocq {q : ℕ} (hq : q ≠ p) : s'.proc q = s.proc q := by simp [hs', System.setProc_of_ne hq]
  have hnode : s'.node = s.node := by simp [hs']
  unfold System.held
  rw [hcount]
  by_cases hm : m = k
  · subst hm
    have hkey : s'.keyAt m j = Function.update (s.proc p).keyReg slot key j := by
      unfold System.keyAt
      simp only [hnode, hobk, hproc, hproc']
    have hkey' : s.keyAt m j = (s.proc p).keyReg j := by
      unfold System.keyAt
      simp only [hobk]
    rw [hkey, hkey', hk]
    by_cases hj : j = slot
    · subst hj
      rw [if_pos ⟨rfl, rfl⟩, Function.update_self]
    · rw [if_neg fun hc => hj hc.2, Function.update_of_ne hj]
  · rw [if_neg fun hc => hm (Option.some.inj (hc.1.symm.trans hk))]
    refine congrArg (fun k : ProperKey => prepareKey s.currentCount k.key) ?_
    unfold System.keyAt
    rw [hnode]
    cases hob : (s.node m).obType with
    | unprepared => rfl
    | processRoot q =>
      by_cases hq : q = p
      · subst hq
        simp only [hproc]
        rfl
      · simp only [hprocq hq]
    | keyRegs q =>
      have hq : q ≠ p := by
        rintro rfl
        exact hm (Option.some.inj (((h.keys_iff q m).2 hob).symm.trans hk))
      simp only [hprocq hq]

theorem mapAddrSpace_spec (hs' : s' = (s.setProc p { s.proc p with mapped := true }).setNode r
      ((s.node r).modifySlot procAddrSpace Slot.setWrHazard)) :
    s'.WellFormed ∧ ∀ m j, s'.held m j = s.held m j := by
  have hok := h.root p r hr
  set root' := (s.node r).modifySlot procAddrSpace Slot.setWrHazard with hroot'
  set proc' : Process := { s.proc p with mapped := true } with hproc'
  have hkey (i : Fin 32) : (root'.slot i).toProperKey = ((s.node r).slot i).toProperKey :=
    modifySlot_key (f := Slot.setWrHazard) (fun _ => rfl) i
  have hok' : RootOk proc' root' := by
    refine ⟨modifySlot_hazards hok.hazards (congrArg (fun hz => (hz.1, true)) (hok.hazards procAddrSpace))
      fun i hi => by simp only [rootHazards, hproc', if_neg hi], hok.dirty, fun hd i hi => ?_, hok.schedule,
      hok.fault⟩
    rw [hkey]
    exact hok.number hd i hi
  obtain ⟨hwf, hheld⟩ := setRoot_keeps proc' root' h hr hr rfl rfl rfl
    ((h.root_iff p r).1 hr) hok'
  subst hs'
  refine ⟨hwf, fun m j => ?_⟩
  refine (hheld m j).trans ?_
  split
  case isTrue hm =>
    rw [hm, held_root h hr]
    unfold rootKey
    rw [hkey]
  case isFalse => rfl

end Registers

/-! ## Runs -/

/-- The condition for a step to be coherent. -/
def Op.Careful (s : System) : Op → Prop
  -- A root is loaded only if it can be, or if the kernel stops at once.
  | doPrepare p choices => ∀ r, (s.proc p).procRoot = some r → (s.proc p).hazards.domRoot = true →
      choices.rootYields = false →
      Loadable (s.proc p) (s.node r) choices.activityFound ∨ Helpless (s.node r)
  -- Registers are set only where there are registers, and the fault code goes with its flag.
  | setRegs32 p regs => (s.proc p).hazards = .none ∧ FaultFlagged regs
  -- A key register is set only where there are key registers.
  | setKeyReg p slot _ => slot ≠ 0 → (s.proc p).hazards.keyRegs = false
  | _ => True

/-- What a step does to what the slots hold. -/
def Op.Effect (s s' : System) : Op → Prop
  -- Only the fault code, the processor status and key register 0 can change.
  | doPrepare p _ => ∀ n i, s'.held n i = s.held n i ∨
      ((s.proc p).procRoot = some n ∧ (i = 8 ∨ i = 14)) ∨
      (i = 0 ∧ (s'.proc p).keysNode = some n ∧ s'.held n i = .void)
  | setSlot n i k => ∀ m j, s'.held m j =
      if m = n ∧ j = i then prepareKey s.currentCount k.key else s.held m j
  | execute p regs => ∀ m j, s'.held m j =
      if (s.proc p).procRoot = some m then storeRegs regs j (s.held m j) else s.held m j
  | setRegs32 p _ => ∀ m j, s'.held m j =
      if (s.proc p).procRoot = some m then storeRegs (s'.proc p).regs j (s.held m j) else s.held m j
  | setKeyReg p slot k => ∀ m j, s'.held m j =
      if (s.proc p).keysNode = some m ∧ j = slot ∧ slot ≠ 0 then prepareKey s.currentCount k.key
      else s.held m j
  | _ => ∀ m j, s'.held m j = s.held m j

theorem step_spec (h : s.WellFormed) (op : Op) (hallowed : op.Allowed s) (hcareful : op.Careful s) :
    op.run s = .error .noKeeper ∨
      ∃ s', op.run s = .ok s' ∧ s'.WellFormed ∧ op.Effect s s' := by
  cases op with
  | getProcess n p => exact Or.inr (getProcess_spec h hallowed p)
  | doPrepare p choices =>
    obtain ⟨r, hr⟩ := Option.isSome_iff_exists.1 hallowed
    rcases doPrepare_spec h hr choices (hcareful r hr) with herr | ⟨s', hrun, hprep⟩
    · exact Or.inl herr
    · refine Or.inr ⟨s', hrun, hprep.wellFormed, fun n i => ?_⟩
      rcases hprep.held n i with heq | ⟨hn, hi⟩ | ⟨hi, hob, hvoid⟩
      · exact Or.inl heq
      · exact Or.inr (Or.inl ⟨by rw [hn, hr], hi⟩)
      · exact Or.inr (Or.inr ⟨hi, (hprep.wellFormed.keys_iff p n).2 hob, hvoid⟩)
  | clearHazard n i =>
    obtain ⟨s', hrun, hclears, -⟩ := clearHazard_clears h n i
    exact Or.inr ⟨s', hrun, hclears.wellFormed, hclears.held⟩
  | setSlot n i k => exact Or.inr (setSlot_spec h n i k)
  | clean n => exact Or.inr (clean_spec h n)
  | execute p regs =>
    obtain ⟨hsome, hhaz, hfault⟩ := hallowed
    obtain ⟨r, hr⟩ := Option.isSome_iff_exists.1 hsome
    exact Or.inr ⟨_, rfl, setRegs_spec h hr hhaz hfault (s.proc p).ioPriv rfl⟩
  | setRegs32 p regs =>
    obtain ⟨r, hr⟩ := Option.isSome_iff_exists.1 hallowed.1
    exact Or.inr (setRegs32_spec h hr hcareful.1 hcareful.2)
  | setKeyReg p slot k =>
    obtain ⟨r, hr⟩ := Option.isSome_iff_exists.1 hallowed.1
    right
    by_cases hslot : slot = 0
    · refine ⟨s, ?_, h, fun m j => ?_⟩
      · simp only [Op.run, hslot, ne_eq, not_true_eq_false, if_false]
      · rw [if_neg fun hc => hc.2.2 hslot]
    · obtain ⟨hwf, hheld⟩ := setKeyReg_spec h hr (hcareful hslot) hslot k rfl
      refine ⟨_, if_pos hslot, hwf, fun m j => ?_⟩
      rw [hheld]
      exact if_congr ⟨fun hc => ⟨hc.1, hc.2, hslot⟩, fun hc => ⟨hc.1, hc.2.1⟩⟩ rfl rfl
  | mapAddrSpace p =>
    obtain ⟨r, hr⟩ := Option.isSome_iff_exists.1 hallowed.1
    refine Or.inr ⟨_, ?_, mapAddrSpace_spec h hr rfl⟩
    simp only [Op.run]
    rw [hr]
  | setActivity p hasActivity =>
    obtain ⟨r, hr⟩ := Option.isSome_iff_exists.1 hallowed
    have hclears := setActivity_clears h hr hasActivity
    exact Or.inr ⟨_, rfl, hclears.wellFormed, hclears.held⟩
  | unload p =>
    obtain ⟨r, hr⟩ := Option.isSome_iff_exists.1 hallowed
    obtain ⟨s', hrun, hclears, -, -⟩ := unload_clears h hr
    exact Or.inr ⟨s', hrun, hclears.wellFormed, hclears.held⟩
  | unprepare n =>
    obtain ⟨s', hrun, hclears, -⟩ := unprepare_clears h n
    exact Or.inr ⟨s', hrun, hclears.wellFormed, hclears.held⟩

/-- The states that runs of careful steps reach from `s₀`. -/
inductive CarefulReach (s₀ : System) : System → Prop where
  | init : CarefulReach s₀ s₀
  | step {s s' : System} (op : Op) : CarefulReach s₀ s → op.Allowed s → op.Careful s →
      op.run s = .ok s' → CarefulReach s₀ s'

theorem System.IsInit.wellFormed (h : s₀.IsInit) : s₀.WellFormed where
  root_iff p r := by
    rw [(h.free p).1, h.unprepared r]
    exact ⟨fun hc => (nomatch hc), fun hc => nomatch hc⟩
  keys_iff p k := by
    rw [(h.free p).2, h.unprepared k]
    exact ⟨fun hc => (nomatch hc), fun hc => nomatch hc⟩
  keyRegs p := by
    refine ⟨?_, fun _ => h.keyReg p, h.keyReg p 0⟩
    rw [(h.free p).1, (h.free p).2]
    exact ⟨fun hc => (nomatch hc), fun hc => nomatch hc.1⟩
  root p r hr := by
    rw [(h.free p).1] at hr
    cases hr
  keys p k hk := by
    rw [(h.free p).2] at hk
    cases hk
  unprepared n _ := h.unhazarded n

theorem CarefulReach.wellFormed (h₀ : s₀.IsInit) (h : CarefulReach s₀ s) : s.WellFormed := by
  induction h with
  | init => exact h₀.wellFormed
  | @step s s' op _ hallowed hcareful hrun ih =>
    rcases step_spec ih op hallowed hcareful with herr | ⟨s₁, hrun₁, hwf, -⟩
    · rw [herr] at hrun
      cases hrun
    · rw [hrun₁] at hrun
      cases hrun
      exact hwf

/-- The process cache is coherent: in every state that a run of careful steps reaches, the slots are
hazarded exactly as their contents are loaded, no assertion fails in a next step, which changes only
what it is to change, and unloading a process leaves its registers and keys in its nodes. -/
theorem coherence_run (h₀ : s₀.IsInit) (h : CarefulReach s₀ s) :
    (∀ n i, ((s.node n).slot i).hazards = s.hazardsOf n i) ∧
    (∀ op : Op, op.Allowed s → op.Careful s →
      op.run s = .error .noKeeper ∨ ∃ s', op.run s = .ok s' ∧ op.Effect s s') ∧
    ∀ p r, (s.proc p).procRoot = some r → ∃ s', s.unload p = .ok s' ∧
      (s'.node r).obType = .unprepared ∧
      (∀ i, prepareKey s.currentCount ((s'.node r).slot i).key =
        prepareKey s.currentCount (rootKey (s.proc p) (s.node r) i).key) ∧
      ∀ k, (s.proc p).keysNode = some k → (s'.node k).obType = .unprepared ∧
        (s.proc p).keyReg 0 = .void ∧ ∀ i, prepareKey s.currentCount ((s'.node k).slot i).key =
          prepareKey s.currentCount ((s.proc p).keyReg i).key := by
  have hwf := h.wellFormed h₀
  refine ⟨hwf.hazards, fun op hallowed hcareful => ?_, fun p r hr => ?_⟩
  · rcases step_spec hwf op hallowed hcareful with herr | ⟨s', hrun, -, heffect⟩
    · exact Or.inl herr
    · exact Or.inr ⟨s', hrun, heffect⟩
  · obtain ⟨s', hrun, hclears, hroot, hkeys⟩ := unload_clears hwf hr
    have hslot {n : ℕ} (hob : (s'.node n).obType = .unprepared) (i : Fin 32) :
        prepareKey s.currentCount ((s'.node n).slot i).key = s.held n i := by
      rw [← hclears.held]
      unfold System.held System.keyAt
      rw [hclears.currentCount, hob]
    have hobr := hclears.left hroot hkeys (Or.inr (Or.inl ((hwf.root_iff p r).1 hr)))
    refine ⟨s', hrun, hobr, fun i => ?_, fun k hk => ?_⟩
    · rw [hslot hobr, held_root hwf hr]
    · have hobk := (hwf.keys_iff p k).1 hk
      have hobk' := hclears.left hroot hkeys (Or.inr (Or.inr hobk))
      refine ⟨hobk', (hwf.keyRegs p).void, fun i => ?_⟩
      rw [hslot hobk']
      unfold System.held System.keyAt
      rw [hobk]

/-! ## Single runs -/

/-- A Number key. -/
def numberKey (w0 w1 w2 : ℕ) : ProperKey := ⟨⟨.number, 0, 0, .words w0 w1 w2⟩, fun _ => ⟨_, _, _, rfl⟩⟩

/-- The key to the node 1. -/
def nodeKey : ProperKey := ⟨⟨.node, 0, 0, .unprep 1 0⟩, fun h => nomatch h⟩

/-- A root with a keeper, this key to the keys node and these registers. -/
def rootSlot (genKeys : ProperKey) (register : Fin 32 → ProperKey) (i : Fin 32) : ProperKey :=
  if procFirstRootRegSlot ≤ i then register i
  else if i = procKeeper then ⟨⟨.start, 0, 0, .unprep 2 0⟩, fun h => nomatch h⟩
  else if i = procGenKeys then genKeys
  else .void

/-- A process that is not in use. -/
def idleProcess : Process where
  procRoot := none
  keysNode := none
  hazards := .none
  regs := ⟨0, 0, 0, 0, 0, 0⟩
  keyReg _ := .void
  hasActivity := false
  readyQ := .prio 0
  ioPriv := false
  mapped := false

/-- Node 0 is such a root. -/
def idleSystem (genKeys : ProperKey) (register : Fin 32 → ProperKey) : System where
  node n :=
    ⟨fun i => ⟨if n = 0 then rootSlot genKeys register i else .void, false, false⟩, .unprepared, false⟩
  proc _ := idleProcess
  currentCount _ _ := some 0

theorem idleSystem_isInit (genKeys : ProperKey) (register : Fin 32 → ProperKey) :
    (idleSystem genKeys register).IsInit :=
  ⟨fun _ => rfl, fun _ _ => rfl, fun _ => ⟨rfl, rfl⟩, fun _ _ => rfl⟩

/-- Nothing yields. -/
def noYield : Choices := ⟨false, false, false, false, 0⟩

/-- The process of a well-formed root is prepared, runs, gets a key, and its schedule slot is written. -/
theorem coherence_run_idle : ∃ s : System, CarefulReach (idleSystem nodeKey fun _ => numberKey 0 0 0) s ∧
    (s.proc 0).procRoot = some 0 ∧ (s.proc 0).keysNode = some 1 ∧ (s.proc 0).regs.r 3 = 7 ∧
    s.hazardsOf 0 10 = (true, true) ∧ s.hazardsOf 0 0 = (false, false) ∧
    ((s.node 0).slot 10).hazards = s.hazardsOf 0 10 ∧
    ((s.node 0).slot 0).hazards = s.hazardsOf 0 0 := by
  have hinit := idleSystem_isInit nodeKey fun _ => numberKey 0 0 0
  have hloadable : Loadable
      { idleProcess with hazards := ⟨false, true, true, true⟩, procRoot := some 0 }
      ⟨fun i => ⟨rootSlot nodeKey (fun _ => numberKey 0 0 0) i, false, false⟩, .processRoot 0, true⟩
      false := by
    refine ⟨fun i hi => ?_, fun hc => absurd hc (by decide), fun hc => absurd hc (by decide)⟩
    simp only [rootSlot, if_pos hi]
    rfl
  have h₁ : CarefulReach (idleSystem nodeKey fun _ => numberKey 0 0 0) _ :=
    .step (.getProcess 0 0) .init (fun _ hp => by cases hp) trivial rfl
  have h₂ : CarefulReach (idleSystem nodeKey fun _ => numberKey 0 0 0) _ :=
    .step (.doPrepare 0 noYield) h₁ rfl
      (fun r hr _ _ => by
        cases hr
        exact Or.inl hloadable) rfl
  have h₃ : CarefulReach (idleSystem nodeKey fun _ => numberKey 0 0 0) _ :=
    .step (.execute 0 ⟨fun i => if i = 3 then 7 else 0, 0, 0, 0, 0, 0⟩) h₂
      ⟨rfl, rfl, fun hc => absurd hc (by decide)⟩ trivial rfl
  have h₄ : CarefulReach (idleSystem nodeKey fun _ => numberKey 0 0 0) _ :=
    .step (.setKeyReg 0 5 (numberKey 1 2 3)) h₃ ⟨rfl, Or.inl rfl⟩ (fun _ => rfl) rfl
  have h₅ : CarefulReach (idleSystem nodeKey fun _ => numberKey 0 0 0) _ :=
    .step (.setSlot 0 0 (numberKey 1 2 3)) h₄ trivial trivial rfl
  obtain ⟨hhaz, -⟩ := coherence_run hinit h₅
  exact ⟨_, h₅, rfl, rfl, rfl, rfl, rfl, hhaz 0 10, hhaz 0 0⟩

/-- The process of a root with a malformed register slot is prepared and unloaded. The slots were not
hazarded, but the flags of the process say that the registers are loaded. -/
theorem coherence_fails : ∃ s : System, (idleSystem nodeKey fun _ => .void).IsInit ∧
    Reach (idleSystem nodeKey fun _ => .void) s ∧
    (Op.unload 0).Allowed s ∧ (Op.unload 0).run s = .error (.halt .assertion) := by
  have h₁ : Reach (idleSystem nodeKey fun _ => .void) _ :=
    .step (.getProcess 0 0) .init (fun p hp => nomatch hp) rfl
  have h₂ : Reach (idleSystem nodeKey fun _ => .void) _ := .step (.doPrepare 0 noYield) h₁ rfl rfl
  exact ⟨_, idleSystem_isInit _ _, h₂, rfl, rfl⟩

theorem coherence_fails_running : ∃ s : System,
    Reach (idleSystem nodeKey fun i => numberKey 0 0 (if i = 8 then 1 else 0)) s ∧
    (Op.doPrepare 0 noYield).Allowed s ∧
    (Op.doPrepare 0 noYield).run s = .error (.halt .assertion) := by
  have h₁ : Reach (idleSystem nodeKey fun i => numberKey 0 0 (if i = 8 then 1 else 0)) _ :=
    .step (.getProcess 0 0) .init (fun p hp => nomatch hp) rfl
  exact ⟨_, h₁, rfl, rfl⟩

theorem coherence_fails_setRegs : ∃ s : System,
    Reach (idleSystem nodeKey fun _ => numberKey 0 0 0) s ∧ (Op.doPrepare 0 noYield).Allowed s ∧
    (Op.doPrepare 0 noYield).run s = .error (.halt .assertion) := by
  have h₁ : Reach (idleSystem nodeKey fun _ => numberKey 0 0 0) _ :=
    .step (.getProcess 0 0) .init (fun p hp => nomatch hp) rfl
  have h₂ : Reach (idleSystem nodeKey fun _ => numberKey 0 0 0) _ :=
    .step (.doPrepare 0 noYield) h₁ rfl rfl
  have h₃ : Reach (idleSystem nodeKey fun _ => numberKey 0 0 0) _ :=
    .step (.setRegs32 0 ⟨0, 0, 50, 0, 0, 0⟩) h₂ ⟨rfl, Or.inl rfl⟩ rfl
  exact ⟨_, h₃, rfl, rfl⟩

/-- A prepared key is put in a key register of a process that has none. When the process has key
registers, they cannot be loaded. -/
theorem coherence_fails_setKeyReg : ∃ s : System,
    Reach (idleSystem .void fun _ => numberKey 0 0 0) s ∧ (Op.doPrepare 0 noYield).Allowed s ∧
    (Op.doPrepare 0 noYield).run s = .error (.halt .assertion) := by
  have h₁ : Reach (idleSystem .void fun _ => numberKey 0 0 0) _ :=
    .step (.getProcess 0 0) .init (fun p hp => nomatch hp) rfl
  have h₂ : Reach (idleSystem .void fun _ => numberKey 0 0 0) _ :=
    .step (.doPrepare 0 noYield) h₁ rfl rfl
  have h₃ : Reach (idleSystem .void fun _ => numberKey 0 0 0) _ :=
    .step (.setKeyReg 0 5 ⟨⟨.page, 0, 0, .prep 7⟩, fun h => nomatch h⟩) h₂ ⟨rfl, Or.inr ⟨rfl, rfl⟩⟩ rfl
  have h₄ : Reach (idleSystem .void fun _ => numberKey 0 0 0) _ := .step (.unload 0) h₃ rfl rfl
  have h₅ : Reach (idleSystem .void fun _ => numberKey 0 0 0) _ :=
    .step (.setSlot 0 procGenKeys nodeKey) h₄ trivial rfl
  have h₆ : Reach (idleSystem .void fun _ => numberKey 0 0 0) _ :=
    .step (.setSlot 0 8 (numberKey 0 0 0)) h₅ trivial rfl
  have h₇ : Reach (idleSystem .void fun _ => numberKey 0 0 0) _ :=
    .step (.getProcess 0 0) h₆ (fun p hp => nomatch hp) rfl
  exact ⟨_, h₇, rfl, rfl⟩

end CapROS.ProcessCache
