import CapROS.ProcessCache.Basic

/-!
# Moving state out of the process cache

The invariant, and the operations that move state from the cache to the nodes: they succeed in every
well-formed state, and what the slots hold stays.

* `Clears`: what clearing hazards does. `clearHazard_clears`, `clearAllHazards_clears`,
  `unload_clears`, `unprepare_clears`.
-/

namespace CapROS.ProcessCache

variable {s s' : System} {p r k n : ℕ} {i : Fin 32} {proc : Process} {root keysNode : Node}

/-! ## Assertions -/

@[simp]
theorem assertThat_pos {p : Prop} [Decidable p] (h : p) : assertThat p = .ok () := if_pos h

/-! ## Registers -/

theorem words_ext {w w' : Fin 3 → ℕ} (h0 : w 0 = w' 0) (h1 : w 1 = w' 1) (h2 : w 2 = w' 2) :
    w = w' :=
  funext fun j => match j with
    | 0 => h0
    | 1 => h1
    | 2 => h2

theorem unloadRegs_loadRegs (w : Fin 32 → Fin 3 → ℕ) (i : Fin 32) :
    unloadRegs (loadRegs w) i (w i) = w i := by
  have h8 : w 8 2 / 65536 * 65536 + w 8 2 / 256 % 256 * 256 + w 8 2 % 256 = w 8 2 := by omega
  unfold unloadRegs
  split <;> apply words_ext <;> simp [loadRegs, h8]

theorem unloadRegs_unloadRegs (regs regs' : FixRegs) (i : Fin 32) (old : Fin 3 → ℕ) :
    unloadRegs regs i (unloadRegs regs' i old) = unloadRegs regs i old := by
  have h8 : (old 2 / 65536 * 65536 + regs'.processFlags.toNat * 256 + regs'.runState.toNat) / 65536 =
      old 2 / 65536 := by omega
  unfold unloadRegs
  split <;> apply words_ext <;> simp [h8]

theorem words_setWords (k : Key) (w : Fin 3 → ℕ) : words (setWords k w) = w := by
  apply words_ext <;> rfl

theorem ProperKey.ext' {k k' : ProperKey} (h : k.key = k'.key) : k = k' := by
  cases k
  cases k'
  cases h
  rfl

theorem storeWords_words {k : ProperKey} (h : k.key.keyType = .number) :
    k.storeWords (words k.key) = k := by
  obtain ⟨w0, w1, w2, hbody⟩ := k.number h
  refine ProperKey.ext' ?_
  obtain ⟨⟨keyType, keyPerms, keyData, body⟩, hnumber⟩ := k
  simp only at hbody
  subst hbody
  rfl

theorem unloadKey_loadRegs (slot : Fin 32 → ProperKey)
    (h : procFirstRootRegSlot ≤ i → (slot i).key.keyType = .number) :
    unloadKey (loadRegs fun j => words (slot j).key) i (slot i) = slot i := by
  unfold unloadKey
  split
  case isTrue hi =>
    rw [unloadRegs_loadRegs fun j => words (slot j).key]
    exact storeWords_words (h hi.1)
  case isFalse => rfl

theorem unloadKey_unloadKey (regs regs' : FixRegs) (k : ProperKey) :
    unloadKey regs i (unloadKey regs' i k) = unloadKey regs i k := by
  unfold unloadKey
  split
  · refine ProperKey.ext' ?_
    simp only [ProperKey.storeWords, words_setWords, unloadRegs_unloadRegs]
    rfl
  · rfl

/-! ## Slots -/

theorem modifySlot_slot (node : Node) (j : Fin 32) (f : Slot → Slot) (i : Fin 32) :
    (node.modifySlot j f).slot i = if i = j then f (node.slot i) else node.slot i := by
  by_cases hi : i = j
  · subst hi
    rw [if_pos rfl]
    exact Function.update_self ..
  · rw [if_neg hi]
    exact Function.update_of_ne hi ..

variable {f : Slot → Slot} {j : Fin 32} {node : Node}

theorem modifySlot_key (hf : ∀ slot, (f slot).toProperKey = slot.toProperKey) (i : Fin 32) :
    ((node.modifySlot j f).slot i).toProperKey = (node.slot i).toProperKey := by
  rw [modifySlot_slot]
  split
  · exact hf _
  · rfl

theorem modifySlot_hazards {hz hz' : Fin 32 → Bool × Bool}
    (h : ∀ i, (node.slot i).hazards = hz i) (hj : (f (node.slot j)).hazards = hz' j)
    (hne : ∀ i, i ≠ j → hz' i = hz i) (i : Fin 32) : ((node.modifySlot j f).slot i).hazards = hz' i := by
  rw [modifySlot_slot]
  by_cases hi : i = j
  · rw [if_pos hi, hi, hj]
  · rw [if_neg hi, h, hne i hi]

/-! ## What is loaded -/

/-- The hazard bits that a slot of a root should have: what of it is loaded in the `Process`. -/
def rootHazards (proc : Process) (i : Fin 32) : Bool × Bool :=
  if procFirstRootRegSlot ≤ i then (!proc.hazards.domRoot, !proc.hazards.domRoot)
  else if i = procSched then (false, !proc.hazards.schedule)
  else if i = procAddrSpace then (false, proc.mapped)
  else if i = procGenKeys then (false, !proc.hazards.keyRegs)
  else if i = procIoSpace then (false, !proc.hazards.domRoot)
  else (false, false)

/-- The hazard bits that a slot should have. -/
def System.hazardsOf (s : System) (n : ℕ) (i : Fin 32) : Bool × Bool :=
  match (s.node n).obType with
  | .unprepared => (false, false)
  | .processRoot p => rootHazards (s.proc p) i
  | .keyRegs _ => (true, true)

/-- The key that a slot of a root holds, in the node or in the `Process`. -/
def rootKey (proc : Process) (root : Node) (i : Fin 32) : ProperKey :=
  if proc.hazards.domRoot then (root.slot i).toProperKey
  else unloadKey proc.regs i (root.slot i).toProperKey

/-- The key that a slot holds, in the node or in the `Process`. -/
def System.keyAt (s : System) (n : ℕ) (i : Fin 32) : ProperKey :=
  match (s.node n).obType with
  | .unprepared => ((s.node n).slot i).toProperKey
  | .processRoot p => rootKey (s.proc p) (s.node n) i
  | .keyRegs p => (s.proc p).keyReg i

/-- What a slot holds: whether a key is prepared makes no difference. -/
def System.held (s : System) (n : ℕ) (i : Fin 32) : Key :=
  prepareKey s.currentCount (s.keyAt n i).key

structure RootOk (proc : Process) (root : Node) : Prop where
  hazards : ∀ i, (root.slot i).hazards = rootHazards proc i
  dirty : proc.hazards.domRoot = false → root.dirty = true
  number : proc.hazards.domRoot = false → ∀ i, procFirstRootRegSlot ≤ i →
    (root.slot i).key.keyType = .number
  schedule : proc.hazards.domRoot = true → proc.hazards.schedule = true
  fault : proc.hazards.domRoot = false → Op.FaultFlagged proc.regs

structure KeysOk (keysNode : Node) : Prop where
  hazards : ∀ i, (keysNode.slot i).hazards = (true, true)
  void : ∀ i, (keysNode.slot i).toProperKey = .void
  dirty : keysNode.dirty = true

structure KeyRegsOk (proc : Process) : Prop where
  keysNode : proc.keysNode.isSome = true ↔
    proc.procRoot.isSome = true ∧ proc.hazards.keyRegs = false
  unloaded : proc.keysNode = none → ∀ i, proc.keyReg i = .void
  void : proc.keyReg 0 = .void

structure System.WellFormed (s : System) : Prop where
  root_iff : ∀ p r, (s.proc p).procRoot = some r ↔ (s.node r).obType = .processRoot p
  keys_iff : ∀ p k, (s.proc p).keysNode = some k ↔ (s.node k).obType = .keyRegs p
  keyRegs : ∀ p, KeyRegsOk (s.proc p)
  root : ∀ p r, (s.proc p).procRoot = some r → RootOk (s.proc p) (s.node r)
  keys : ∀ p k, (s.proc p).keysNode = some k → KeysOk (s.node k)
  unprepared : ∀ n, (s.node n).obType = .unprepared → ∀ i, ((s.node n).slot i).hazards = (false, false)

theorem System.WellFormed.hazards (h : s.WellFormed) (n : ℕ) (i : Fin 32) :
    ((s.node n).slot i).hazards = s.hazardsOf n i := by
  unfold System.hazardsOf
  cases hob : (s.node n).obType with
  | unprepared => exact h.unprepared n hob i
  | processRoot p => exact (h.root p n ((h.root_iff p n).2 hob)).hazards i
  | keyRegs p => exact (h.keys p n ((h.keys_iff p n).2 hob)).hazards i

/-! ## Changing a process and its nodes -/

namespace System

@[simp] theorem setNode_proc (s : System) (n : ℕ) (node : Node) : (s.setNode n node).proc = s.proc := rfl

@[simp] theorem setProc_node (s : System) (p : ℕ) (proc : Process) : (s.setProc p proc).node = s.node := rfl

@[simp] theorem setNode_node (s : System) (n : ℕ) (node : Node) : (s.setNode n node).node n = node :=
  Function.update_self ..

@[simp] theorem setProc_proc (s : System) (p : ℕ) (proc : Process) : (s.setProc p proc).proc p = proc :=
  Function.update_self ..

theorem setNode_of_ne {m : ℕ} {node : Node} (h : m ≠ n) : (s.setNode n node).node m = s.node m :=
  Function.update_of_ne h ..

theorem setProc_of_ne {q : ℕ} (h : q ≠ p) : (s.setProc p proc).proc q = s.proc q :=
  Function.update_of_ne h ..

def setRoot (s : System) (p r : ℕ) (proc : Process) (root : Node) : System :=
  (s.setProc p proc).setNode r root

end System

/-- The node is in use by no process but `p`. -/
def Node.UsedBy (node : Node) (p : ℕ) : Prop :=
  node.obType = .unprepared ∨ node.obType = .processRoot p ∨ node.obType = .keyRegs p

/-- A change of a process and of nodes. Those that the process used are among them, and no other process uses
them. -/
structure System.Changes (s s' : System) (p : ℕ) (changed : ℕ → Prop) : Prop where
  proc : ∀ q, q ≠ p → s'.proc q = s.proc q
  node : ∀ n, ¬changed n → s'.node n = s.node n
  used : ∀ n, changed n → (s.node n).UsedBy p ∧ (s'.node n).UsedBy p
  root : ∀ n, (s.proc p).procRoot = some n → changed n
  keysNode : ∀ n, (s.proc p).keysNode = some n → changed n

section Changes

variable {changed : ℕ → Prop}

theorem System.Changes.other {q : ℕ} (hc : s.Changes s' p changed) (hq : q ≠ p)
    (hob : ((s.node n).obType = .processRoot q ∨ (s.node n).obType = .keyRegs q) ∨
      (s'.node n).obType = .processRoot q ∨ (s'.node n).obType = .keyRegs q) : s'.node n = s.node n := by
  refine hc.node n fun hn => ?_
  obtain ⟨hu, hu'⟩ := hc.used n hn
  rcases hob with hob | hob
  · rcases hu with hu | hu | hu <;> rcases hob with hob | hob <;> rw [hu] at hob <;> cases hob <;> exact hq rfl
  · rcases hu' with hu | hu | hu <;> rcases hob with hob | hob <;> rw [hu] at hob <;> cases hob <;> exact hq rfl

theorem System.WellFormed.change (h : s.WellFormed) (hc : s.Changes s' p changed)
    (hroot : ∀ n, (s'.proc p).procRoot = some n → changed n)
    (hkeysNode : ∀ n, (s'.proc p).keysNode = some n → changed n)
    (hroot_iff : ∀ n, changed n → ((s'.proc p).procRoot = some n ↔ (s'.node n).obType = .processRoot p))
    (hkeys_iff : ∀ n, changed n → ((s'.proc p).keysNode = some n ↔ (s'.node n).obType = .keyRegs p))
    (hkeyRegs : KeyRegsOk (s'.proc p))
    (hrootOk : ∀ r, (s'.proc p).procRoot = some r → RootOk (s'.proc p) (s'.node r))
    (hkeysOk : ∀ k, (s'.proc p).keysNode = some k → KeysOk (s'.node k))
    (hunprepared : ∀ n, changed n → (s'.node n).obType = .unprepared →
      ∀ i, ((s'.node n).slot i).hazards = (false, false)) : s'.WellFormed := by
  constructor
  case root_iff =>
    intro q n
    by_cases hq : q = p
    · subst hq
      by_cases hn : changed n
      · exact hroot_iff n hn
      · rw [hc.node n hn]
        exact ⟨fun hr => absurd (hroot n hr) hn, fun hob => absurd (hc.root n ((h.root_iff q n).2 hob)) hn⟩
    · rw [hc.proc q hq, h.root_iff q n]
      refine ⟨fun hob => ?_, fun hob => ?_⟩
      · rwa [hc.other hq (.inl (.inl hob))]
      · rwa [← hc.other hq (.inr (.inl hob))]
  case keys_iff =>
    intro q n
    by_cases hq : q = p
    · subst hq
      by_cases hn : changed n
      · exact hkeys_iff n hn
      · rw [hc.node n hn]
        exact ⟨fun hk => absurd (hkeysNode n hk) hn,
          fun hob => absurd (hc.keysNode n ((h.keys_iff q n).2 hob)) hn⟩
    · rw [hc.proc q hq, h.keys_iff q n]
      refine ⟨fun hob => ?_, fun hob => ?_⟩
      · rwa [hc.other hq (.inl (.inr hob))]
      · rwa [← hc.other hq (.inr (.inr hob))]
  case keyRegs =>
    intro q
    by_cases hq : q = p
    · subst hq
      exact hkeyRegs
    · rw [hc.proc q hq]
      exact h.keyRegs q
  case root =>
    intro q n hn
    by_cases hq : q = p
    · subst hq
      exact hrootOk n hn
    · rw [hc.proc q hq] at hn ⊢
      rw [hc.other hq (.inl (.inl ((h.root_iff q n).1 hn)))]
      exact h.root q n hn
  case keys =>
    intro q n hn
    by_cases hq : q = p
    · subst hq
      exact hkeysOk n hn
    · rw [hc.proc q hq] at hn
      rw [hc.other hq (.inl (.inr ((h.keys_iff q n).1 hn)))]
      exact h.keys q n hn
  case unprepared =>
    intro n hn
    by_cases hch : changed n
    · exact hunprepared n hch hn
    · rw [hc.node n hch] at hn ⊢
      exact h.unprepared n hn

theorem System.Changes.keyAt (hc : s.Changes s' p changed) (h : s.WellFormed) (hn : ¬changed n) (i : Fin 32) :
    s'.keyAt n i = s.keyAt n i := by
  unfold System.keyAt
  rw [hc.node n hn]
  cases hob : (s.node n).obType with
  | unprepared => rfl
  | processRoot q =>
    have hq : q ≠ p := by
      rintro rfl
      exact hn (hc.root n ((h.root_iff q n).2 hob))
    simp only [hc.proc q hq]
  | keyRegs q =>
    have hq : q ≠ p := by
      rintro rfl
      exact hn (hc.keysNode n ((h.keys_iff q n).2 hob))
    simp only [hc.proc q hq]

end Changes

theorem System.WellFormed.sameTypes (h : s.WellFormed) (hob : ∀ n, (s'.node n).obType = (s.node n).obType)
    (hprocRoot : ∀ q, (s'.proc q).procRoot = (s.proc q).procRoot)
    (hkeysNode : ∀ q, (s'.proc q).keysNode = (s.proc q).keysNode) (hkeyRegs : ∀ q, KeyRegsOk (s'.proc q))
    (hroot : ∀ q r, (s.proc q).procRoot = some r → RootOk (s'.proc q) (s'.node r))
    (hkeys : ∀ q k, (s.proc q).keysNode = some k → KeysOk (s'.node k))
    (hunprepared : ∀ n, (s.node n).obType = .unprepared → ∀ i, ((s'.node n).slot i).hazards = (false, false)) :
    s'.WellFormed where
  root_iff q r := by rw [hob, hprocRoot, h.root_iff]
  keys_iff q k := by rw [hob, hkeysNode, h.keys_iff]
  keyRegs := hkeyRegs
  root q r hr := hroot q r (hprocRoot q ▸ hr)
  keys q k hk := hkeys q k (hkeysNode q ▸ hk)
  unprepared n hn := hunprepared n (hob n ▸ hn)

theorem System.WellFormed.setRoot (proc : Process) (root : Node) (h : s.WellFormed)
    (hr : (s.proc p).procRoot = some r)
    (hroot : proc.procRoot = some r) (hkeysNode : proc.keysNode = (s.proc p).keysNode)
    (hob : root.obType = .processRoot p) (hkeyRegs : KeyRegsOk proc) (hok : RootOk proc root) :
    (s.setRoot p r proc root).WellFormed := by
  have hobr : (s.node r).obType = .processRoot p := (h.root_iff p r).1 hr
  have hproc : (s.setRoot p r proc root).proc p = proc := by simp [System.setRoot]
  have hprocq {q : ℕ} (hq : q ≠ p) : (s.setRoot p r proc root).proc q = s.proc q := by
    simp [System.setRoot, System.setProc_of_ne hq]
  have hnode : (s.setRoot p r proc root).node r = root := by simp [System.setRoot]
  have hne {n : ℕ} (hn : (s.node n).obType ≠ .processRoot p) : (s.setRoot p r proc root).node n = s.node n := by
    have hnr : n ≠ r := fun he => hn (he ▸ hobr)
    simp [System.setRoot, System.setNode_of_ne hnr]
  refine h.sameTypes (fun n => ?_) (fun q => ?_) (fun q => ?_) (fun q => ?_) (fun q n hn => ?_)
    (fun q k hk => ?_) fun n hn => ?_
  · by_cases hn : (s.node n).obType = .processRoot p
    · obtain rfl : r = n := Option.some.inj (hr.symm.trans ((h.root_iff p n).2 hn))
      rw [hnode, hob, hobr]
    · rw [hne hn]
  · by_cases hq : q = p
    · rw [hq, hproc, hroot, hr]
    · rw [hprocq hq]
  · by_cases hq : q = p
    · rw [hq, hproc, hkeysNode]
    · rw [hprocq hq]
  · by_cases hq : q = p
    · rwa [hq, hproc]
    · rw [hprocq hq]
      exact h.keyRegs q
  · by_cases hq : q = p
    · subst hq
      obtain rfl : r = n := Option.some.inj (hr.symm.trans hn)
      rwa [hproc, hnode]
    · rw [hprocq hq, hne (by rw [(h.root_iff q n).1 hn]; simpa using hq)]
      exact h.root q n hn
  · rw [hne (by rw [(h.keys_iff q k).1 hk]; simp)]
    exact h.keys q k hk
  · rw [hne (by rw [hn]; simp)]
    exact h.unprepared n hn

theorem setNode_wellFormed (h : s.WellFormed) (hob : node.obType = (s.node n).obType)
    (hroot : ∀ p, node.obType = .processRoot p → RootOk (s.proc p) node)
    (hkeys : ∀ p, node.obType = .keyRegs p → KeysOk node)
    (hunprepared : node.obType = .unprepared → ∀ i, (node.slot i).hazards = (false, false)) :
    (s.setNode n node).WellFormed := by
  have hnode (m : ℕ) : (s.setNode n node).node m = if m = n then node else s.node m :=
    Function.update_apply ..
  refine h.sameTypes (fun m => ?_) (fun _ => rfl) (fun _ => rfl) h.keyRegs (fun q r hr => ?_) (fun q k hk => ?_)
    fun m hm => ?_
  · rw [hnode]
    split
    · rw [hob, ‹m = n›]
    · rfl
  · rw [hnode]
    split
    · exact hroot q (hob.trans (‹r = n› ▸ (h.root_iff q r).1 hr))
    · exact h.root q r hr
  · rw [hnode]
    split
    · exact hkeys q (hob.trans (‹k = n› ▸ (h.keys_iff q k).1 hk))
    · exact h.keys q k hk
  · rw [hnode]
    split
    · exact hunprepared (hob.trans (‹m = n› ▸ hm))
    · exact h.unprepared m hm

theorem keyAt_setRoot (h : s.WellFormed) (hr : (s.proc p).procRoot = some r)
    (hob : root.obType = .processRoot p) (hkeyReg : proc.keyReg = (s.proc p).keyReg) (n : ℕ)
    (i : Fin 32) :
    (s.setRoot p r proc root).keyAt n i = if n = r then rootKey proc root i else s.keyAt n i := by
  unfold System.keyAt System.setRoot
  by_cases hn : n = r
  · subst hn
    rw [if_pos rfl]
    simp only [System.setNode_node, hob, System.setNode_proc, System.setProc_proc]
  · rw [if_neg hn]
    simp only [System.setNode_of_ne hn, System.setProc_node, System.setNode_proc]
    cases hob' : (s.node n).obType with
    | unprepared => rfl
    | processRoot q =>
      have hq : q ≠ p := by
        rintro rfl
        exact hn (Option.some.inj (((h.root_iff q n).2 hob').symm.trans hr))
      simp only [System.setProc_of_ne hq]
    | keyRegs q =>
      by_cases hq : q = p
      · subst hq
        simp only [System.setProc_proc, hkeyReg]
      · simp only [System.setProc_of_ne hq]

/-! ## Clearing hazards -/

/-- State is moved from the cache to the nodes: what the slots hold stays, and there are no new
hazards. -/
structure Clears (s s' : System) : Prop where
  wellFormed : s'.WellFormed
  held : ∀ n i, s'.held n i = s.held n i
  unhazarded : ∀ n i, ((s.node n).slot i).hazards = (false, false) →
    ((s'.node n).slot i).hazards = (false, false)
  obType : ∀ n, (s'.node n).obType = (s.node n).obType ∨ (s'.node n).obType = .unprepared
  currentCount : s'.currentCount = s.currentCount

theorem Clears.refl (h : s.WellFormed) : Clears s s :=
  ⟨h, fun _ _ => rfl, fun _ _ => id, fun _ => Or.inl rfl, rfl⟩

theorem Clears.trans {s₁ s₂ s₃ : System} (h : Clears s₁ s₂) (h' : Clears s₂ s₃) : Clears s₁ s₃ := by
  refine ⟨h'.wellFormed, fun n i => (h'.held n i).trans (h.held n i),
    fun n i hu => h'.unhazarded n i (h.unhazarded n i hu), fun n => ?_,
    h'.currentCount.trans h.currentCount⟩
  rcases h'.obType n with hob' | hob'
  · rw [hob']
    exact h.obType n
  · exact Or.inr hob'

theorem Clears.left (h : Clears s s') (hroot : (s'.proc p).procRoot = none)
    (hkeys : (s'.proc p).keysNode = none) (hused : (s.node n).UsedBy p) :
    (s'.node n).obType = .unprepared := by
  rcases h.obType n with hob | hob
  · rcases hused with hu | hu | hu
    · exact hob.trans hu
    · rw [(h.wellFormed.root_iff p n).2 (hob.trans hu)] at hroot
      cases hroot
    · rw [(h.wellFormed.keys_iff p n).2 (hob.trans hu)] at hkeys
      cases hkeys
  · exact hob

theorem isHazard_eq_false {slot : Slot} : slot.isHazard = false ↔ slot.hazards = (false, false) := by
  simp [Slot.isHazard, Slot.hazards]

theorem held_root (h : s.WellFormed) (hr : (s.proc p).procRoot = some r) (i : Fin 32) :
    s.held r i = prepareKey s.currentCount (rootKey (s.proc p) (s.node r) i).key := by
  unfold System.held System.keyAt
  rw [(h.root_iff p r).1 hr]

section SetRoot

variable (proc : Process) (root : Node) (h : s.WellFormed) (hr : (s.proc p).procRoot = some r)
  (hroot : proc.procRoot = some r) (hkeysNode : proc.keysNode = (s.proc p).keysNode)
  (hkeyReg : proc.keyReg = (s.proc p).keyReg)
  (hkeyRegs : proc.hazards.keyRegs = (s.proc p).hazards.keyRegs)
  (hob : root.obType = .processRoot p) (hok : RootOk proc root)

include h hr hroot hkeysNode hkeyReg hkeyRegs hob hok

theorem setRoot_keeps :
    (s.setRoot p r proc root).WellFormed ∧ ∀ n i, (s.setRoot p r proc root).held n i =
      if n = r then prepareKey s.currentCount (rootKey proc root i).key else s.held n i := by
  have hregs := h.keyRegs p
  refine ⟨h.setRoot proc root hr hroot hkeysNode hob ⟨?_, ?_, ?_⟩ hok, fun n i => ?_⟩
  · rw [hkeysNode, hroot, ← hr, hkeyRegs]
    exact hregs.keysNode
  · rw [hkeysNode, hkeyReg]
    exact hregs.unloaded
  · rw [hkeyReg]
    exact hregs.void
  · unfold System.held
    rw [keyAt_setRoot h hr hob hkeyReg]
    split <;> rfl

theorem clears_setRoot (hkey : ∀ i, rootKey proc root i = rootKey (s.proc p) (s.node r) i)
    (hunhazarded : ∀ i, ((s.node r).slot i).hazards = (false, false) →
      (root.slot i).hazards = (false, false)) :
    Clears s (s.setRoot p r proc root) := by
  have hobr : (s.node r).obType = .processRoot p := (h.root_iff p r).1 hr
  obtain ⟨hwf, hheld⟩ := setRoot_keeps proc root h hr hroot hkeysNode hkeyReg hkeyRegs hob hok
  refine ⟨hwf, fun n i => ?_, fun n i hu => ?_, fun n => Or.inl ?_, rfl⟩
  · rw [hheld]
    split
    case isTrue hn => rw [hn, hkey, held_root h hr]
    case isFalse => rfl
  · by_cases hn : n = r
    · subst hn
      simpa [System.setRoot] using hunhazarded i hu
    · simpa [System.setRoot, System.setNode_of_ne hn] using hu
  · by_cases hn : n = r
    · subst hn
      simp [System.setRoot, hob, hobr]
    · simp [System.setRoot, System.setNode_of_ne hn]

end SetRoot

/-! ### Flushing the fixed registers -/

theorem rootHazards_regSlot (hi : procFirstRootRegSlot ≤ i) :
    rootHazards proc i = (!proc.hazards.domRoot, !proc.hazards.domRoot) := if_pos hi

/-- The process after its fixed registers have been flushed. -/
def flushedFix (proc : Process) : Process :=
  { proc with hazards := { proc.hazards with domRoot := true, schedule := true } }

theorem flushFixRegs_spec (h : RootOk proc root) (hdom : proc.hazards.domRoot = false) :
    ∃ root', flushFixRegs proc root = .ok (flushedFix proc, root') ∧
      root'.obType = root.obType ∧ root'.dirty = root.dirty ∧
      (∀ i, (root'.slot i).toProperKey = unloadKey proc.regs i (root.slot i).toProperKey) ∧
      ∀ i, (root'.slot i).hazards = rootHazards (flushedFix proc) i := by
  have hslots : SlotLoop.run (fun k (slot : Slot) =>
      if procFirstRootRegSlot ≤ k then do
        assertThat (slot.rdHazard = true)
        assertThat (slot.wrHazard = true)
        .ok slot.unHazard
      else .ok slot) root.slot =
      .ok fun k => if procFirstRootRegSlot ≤ k then (root.slot k).unHazard else root.slot k := by
    rw [SlotLoop.run_eq_ok_iff]
    intro k
    split
    case isTrue hk =>
      have hhaz := h.hazards k
      rw [rootHazards_regSlot hk, hdom] at hhaz
      have hrd : (root.slot k).rdHazard = true := (Prod.mk.inj hhaz).1
      have hwr : (root.slot k).wrHazard = true := (Prod.mk.inj hhaz).2
      rw [assertThat_pos hrd, assertThat_pos hwr]
      rfl
    case isFalse => rfl
  have hio : (root.slot procIoSpace).wrHazard = true := by
    have hhaz := h.hazards procIoSpace
    simp only [rootHazards, hdom] at hhaz
    exact (Prod.mk.inj hhaz).2
  unfold flushFixRegs
  rw [assertThat_pos hdom, assertThat_pos (h.dirty hdom), hslots]
  simp only [ok_bind, if_neg (show ¬procFirstRootRegSlot ≤ procIoSpace by decide), assertThat_pos hio]
  refine ⟨_, rfl, rfl, rfl, fun i => ?_, fun i => ?_⟩
  · simp only [modifySlot_slot, Slot.setKey]
    split_ifs <;> rfl
  · have hhaz := h.hazards i
    unfold rootHazards at hhaz ⊢
    simp only [modifySlot_slot, Slot.setKey, flushedFix]
    by_cases hi : procFirstRootRegSlot ≤ i
    · have hne : i ≠ procSched ∧ i ≠ procIoSpace := by
        constructor <;> rintro rfl <;> exact absurd hi (by decide)
      simp only [if_pos hi, if_neg hne.1, if_neg hne.2]
      rfl
    · simp only [if_neg hi] at hhaz ⊢
      by_cases hio : i = procIoSpace
      · subst hio
        rfl
      · simp only [if_neg hio] at hhaz ⊢
        split_ifs at hhaz ⊢ <;> first | rfl | exact hhaz

theorem rootOk_of_domRoot (hdom : proc.hazards.domRoot = true) (hsched : proc.hazards.schedule = true)
    (hhaz : ∀ i, (root.slot i).hazards = rootHazards proc i) : RootOk proc root := by
  refine ⟨hhaz, ?_, ?_, fun _ => hsched, ?_⟩ <;> intro h <;> rw [hdom] at h <;> cases h

theorem flushFixRegs_clears (h : s.WellFormed) (hr : (s.proc p).procRoot = some r)
    (hdom : (s.proc p).hazards.domRoot = false) :
    ∃ root', s.flushFixRegs p = .ok (s.setRoot p r (flushedFix (s.proc p)) root') ∧
      root'.obType = .processRoot p ∧ Clears s (s.setRoot p r (flushedFix (s.proc p)) root') := by
  have hok := h.root p r hr
  have hobr : (s.node r).obType = .processRoot p := (h.root_iff p r).1 hr
  obtain ⟨root', hflush, hob, -, hkey, hhaz⟩ := flushFixRegs_spec hok hdom
  have hob' : root'.obType = .processRoot p := hob.trans hobr
  refine ⟨root', ?_, hob', ?_⟩
  · unfold System.flushFixRegs
    simp only [hr, hflush, ok_bind]
    rfl
  · refine clears_setRoot (flushedFix (s.proc p)) root' h hr hr rfl rfl rfl hob'
      (rootOk_of_domRoot rfl rfl hhaz) (fun i => ?_) fun i hu => ?_
    · unfold rootKey
      rw [hdom]
      exact hkey i
    · rw [hok.hazards] at hu
      rw [hhaz]
      -- What was not loaded is not loaded now.
      unfold rootHazards at hu ⊢
      split_ifs at hu ⊢ <;> first | rfl | exact hu

/-! ### Flushing the key registers -/

/-- The process after its key registers have been flushed. -/
def flushedKeys (proc : Process) : Process :=
  { proc with
    keyReg := fun _ => .void
    keysNode := none
    hazards := { proc.hazards with keyRegs := true } }

/-- The keys node after the key registers have been flushed. -/
def flushedKeysNode (proc : Process) (keysNode : Node) : Node :=
  { keysNode with slot := fun k => ⟨proc.keyReg k, false, false⟩, obType := .unprepared }

theorem flushKeyRegs_spec (h : KeysOk keysNode) (hkeyRegs : proc.hazards.keyRegs = false) :
    flushKeyRegs proc root keysNode = .ok (flushedKeys proc,
      root.modifySlot procGenKeys Slot.unHazard, flushedKeysNode proc keysNode) := by
  have hslots : SlotLoop.run (fun _ (x : Slot × ProperKey) => moveToSlot x.1.unHazard x.2)
      (fun k => (keysNode.slot k, proc.keyReg k)) =
      .ok fun k => ((⟨proc.keyReg k, false, false⟩ : Slot), ProperKey.void) := by
    rw [SlotLoop.run_eq_ok_iff]
    intro k
    -- The slot has been left void.
    have hvoid : (keysNode.slot k).unHazard.isPrepared = false := by
      rw [show (keysNode.slot k).unHazard.toProperKey = .void from h.void k]
      rfl
    simp only [moveToSlot, assertThat_pos hvoid]
    rfl
  unfold flushKeyRegs
  rw [assertThat_pos hkeyRegs, assertThat_pos h.dirty, hslots]
  rfl

theorem flushKeyRegs_clears (h : s.WellFormed) (hr : (s.proc p).procRoot = some r)
    (hk : (s.proc p).keysNode = some k) :
    ∃ s', s.flushKeyRegs p = .ok s' ∧ Clears s s' ∧ s'.proc p = flushedKeys (s.proc p) ∧
      (s'.node r).obType = .processRoot p ∧ (s'.node k).obType = .unprepared := by
  have hobr : (s.node r).obType = .processRoot p := (h.root_iff p r).1 hr
  have hobk : (s.node k).obType = .keyRegs p := (h.keys_iff p k).1 hk
  have hrk : r ≠ k := by
    rintro rfl
    rw [hobr] at hobk
    cases hobk
  have hkeyRegs : (s.proc p).hazards.keyRegs = false :=
    ((h.keyRegs p).keysNode.1 (by rw [hk]; rfl)).2
  have hok := h.root p r hr
  set root' := (s.node r).modifySlot procGenKeys Slot.unHazard with hroot'
  set keysNode' := flushedKeysNode (s.proc p) (s.node k) with hkeys'
  set s' := ((s.setProc p (flushedKeys (s.proc p))).setNode r root').setNode k keysNode' with hs'
  have hproc : s'.proc p = flushedKeys (s.proc p) := by simp [hs']
  have hnoder : s'.node r = root' := by simp [hs', System.setNode_of_ne hrk]
  have hnodek : s'.node k = keysNode' := by simp [hs']
  have hnode {n : ℕ} (hn : ¬(n = r ∨ n = k)) : s'.node n = s.node n := by
    rw [not_or] at hn
    simp [hs', System.setNode_of_ne hn.1, System.setNode_of_ne hn.2]
  have hprocq {q : ℕ} (hq : q ≠ p) : s'.proc q = s.proc q := by simp [hs', System.setProc_of_ne hq]
  have hhaz (i : Fin 32) : (root'.slot i).hazards = rootHazards (flushedKeys (s.proc p)) i :=
    modifySlot_hazards hok.hazards rfl (fun i hi => by simp only [rootHazards, flushedKeys, if_neg hi]) i
  have hslotKey (i : Fin 32) : (root'.slot i).toProperKey = ((s.node r).slot i).toProperKey :=
    modifySlot_key (f := Slot.unHazard) (fun _ => rfl) i
  have hobr' : root'.obType = .processRoot p := hobr
  have hr' : (s'.proc p).procRoot = some r := by rw [hproc, flushedKeys, hr]
  have hk' (n : ℕ) : (s'.proc p).keysNode ≠ some n := by simp [hproc, flushedKeys]
  have hc : s.Changes s' p (fun n => n = r ∨ n = k) := by
    refine ⟨fun q hq => hprocq hq, fun n hn => hnode hn, ?_, fun n hn => .inl ?_, fun n hn => .inr ?_⟩
    · rintro n (rfl | rfl)
      · rw [hnoder]
        exact ⟨Or.inr (Or.inl hobr), Or.inr (Or.inl hobr')⟩
      · rw [hnodek]
        exact ⟨Or.inr (Or.inr hobk), Or.inl rfl⟩
    · exact Option.some.inj (hn.symm.trans hr)
    · exact Option.some.inj (hn.symm.trans hk)
  have hwf : s'.WellFormed := by
    refine h.change hc (fun n hn => .inl ?_) (fun n hn => absurd hn (hk' n)) ?_ ?_ ?_ ?_ ?_ ?_
    · exact Option.some.inj (hn.symm.trans hr')
    · rintro n (rfl | rfl)
      · exact ⟨fun _ => by rw [hnoder, hobr'], fun _ => hr'⟩
      · rw [hnodek]
        exact ⟨fun hn => absurd (Option.some.inj (hr'.symm.trans hn)) hrk, fun hn => by cases hn⟩
    · rintro n (rfl | rfl)
      · rw [hnoder, hobr']
        exact ⟨fun hn => absurd hn (hk' n), fun hn => by cases hn⟩
      · rw [hnodek]
        exact ⟨fun hn => absurd hn (hk' n), fun hn => by cases hn⟩
    · rw [hproc]
      refine ⟨⟨fun hn => (nomatch hn), fun hn => ?_⟩, fun _ _ => rfl, rfl⟩
      exact absurd hn.2 (by simp [flushedKeys])
    · intro n hn
      obtain rfl := Option.some.inj (hr'.symm.trans hn)
      rw [hproc, hnoder]
      refine ⟨hhaz, hok.dirty, fun hdom i hi => ?_, hok.schedule, hok.fault⟩
      rw [hslotKey]
      exact hok.number hdom i hi
    · exact fun n hn => absurd hn (hk' n)
    · rintro n (rfl | rfl) hn i
      · rw [hnoder, hobr'] at hn
        cases hn
      · rw [hnodek]
        rfl
  refine ⟨s', ?_, ⟨hwf, fun n i => ?_, fun n i hu => ?_, fun n => ?_, rfl⟩, hproc,
    by rw [hnoder, hobr'], by rw [hnodek]; rfl⟩
  · unfold System.flushKeyRegs
    simp only [hr, hk, flushKeyRegs_spec (h.keys p k hk) hkeyRegs, ok_bind]
    rfl
  · refine congrArg (fun k : ProperKey => prepareKey s.currentCount k.key) ?_
    by_cases hn : n = r ∨ n = k
    · unfold System.keyAt
      rcases hn with rfl | rfl
      · rw [hnoder, hobr', hobr]
        simp only [hproc, rootKey, hslotKey]
        rfl
      · rw [hnodek, hobk]
        rfl
    · exact hc.keyAt h hn i
  · by_cases hnr : n = r
    · subst hnr
      rw [hnoder, hroot', modifySlot_slot]
      split
      · rfl
      · exact hu
    · by_cases hnk : n = k
      · subst hnk
        rw [hnodek]
        rfl
      · rwa [hnode (by tauto)]
  · by_cases hnr : n = r
    · subst hnr
      rw [hnoder]
      exact Or.inl (hobr'.trans hobr.symm)
    · by_cases hnk : n = k
      · subst hnk
        rw [hnodek]
        exact Or.inr rfl
      · rw [hnode (by tauto)]
        exact Or.inl rfl

/-! ### Clearing the hazard of a slot -/

theorem unHazard_clears (h : s.WellFormed) (hr : (s.proc p).procRoot = some r)
    (hroot : proc.procRoot = some r) (hkeysNode : proc.keysNode = (s.proc p).keysNode)
    (hkeyReg : proc.keyReg = (s.proc p).keyReg) (hregs : proc.regs = (s.proc p).regs)
    (hkeyRegs : proc.hazards.keyRegs = (s.proc p).hazards.keyRegs)
    (hdom : proc.hazards.domRoot = (s.proc p).hazards.domRoot)
    (hsched : (s.proc p).hazards.schedule = true → proc.hazards.schedule = true)
    (hhaz : ∀ i, rootHazards proc i = if i = j then (false, false) else rootHazards (s.proc p) i) :
    Clears s (s.setRoot p r proc ((s.node r).modifySlot j Slot.unHazard)) := by
  have hok := h.root p r hr
  have hslotKey (i : Fin 32) : (((s.node r).modifySlot j Slot.unHazard).slot i).toProperKey =
      ((s.node r).slot i).toProperKey := modifySlot_key (f := Slot.unHazard) (fun _ => rfl) i
  have hhaz' (i : Fin 32) : (((s.node r).modifySlot j Slot.unHazard).slot i).hazards =
      if i = j then (false, false) else ((s.node r).slot i).hazards := by
    rw [modifySlot_slot]
    split <;> rfl
  refine clears_setRoot proc _ h hr hroot hkeysNode hkeyReg hkeyRegs ((h.root_iff p r).1 hr) ?_ ?_ ?_
  · refine ⟨fun i => ?_, fun hd => hok.dirty (hdom ▸ hd), fun hd i hi => ?_, fun hd => ?_, fun hd => ?_⟩
    · rw [hhaz', hhaz, hok.hazards]
    · rw [hslotKey]
      exact hok.number (hdom ▸ hd) i hi
    · exact hsched (hok.schedule (hdom ▸ hd))
    · rw [hregs]
      exact hok.fault (hdom ▸ hd)
  · intro i
    unfold rootKey
    rw [hdom, hslotKey, hregs]
  · intro i hu
    rw [hhaz']
    split
    · rfl
    · exact hu

theorem invalidateAddrSpace_clears (h : s.WellFormed) (hr : (s.proc p).procRoot = some r) :
    Clears s (s.invalidateAddrSpace p r) := by
  refine unHazard_clears (j := procAddrSpace) h hr hr rfl rfl rfl rfl rfl id fun i => ?_
  by_cases hi : i = procAddrSpace
  · subst hi
    rfl
  · unfold rootHazards
    simp only [if_neg hi]

theorem flushProcessSlot_clears (h : s.WellFormed) (hob : (s.node n).obType = .processRoot p)
    (hhaz : ((s.node n).slot i).hazards ≠ (false, false)) :
    ∃ s', s.flushProcessSlot p n i = .ok s' ∧ Clears s s' ∧
      ((s'.node n).slot i).hazards = (false, false) := by
  have hr : (s.proc p).procRoot = some n := (h.root_iff p n).2 hob
  rw [(h.root p n hr).hazards] at hhaz
  unfold System.flushProcessSlot
  by_cases hgen : i = procGenKeys
  · subst hgen
    have hkeyRegs : (s.proc p).hazards.keyRegs = false := by
      by_contra hc
      rw [Bool.not_eq_false] at hc
      exact hhaz (by simp [rootHazards, hc, procGenKeys, procFirstRootRegSlot, procSched,
        procAddrSpace])
    obtain ⟨k, hk⟩ := Option.isSome_iff_exists.1
      ((h.keyRegs p).keysNode.2 ⟨by rw [hr]; rfl, hkeyRegs⟩)
    obtain ⟨s', hrun, hclears, hproc, hob', -⟩ := flushKeyRegs_clears h hr hk
    refine ⟨s', by rw [if_pos rfl]; exact hrun, hclears, ?_⟩
    rw [hclears.wellFormed.hazards]
    unfold System.hazardsOf
    rw [hob']
    simp only [hproc]
    rfl
  · rw [if_neg hgen]
    by_cases hspace : i = procAddrSpace
    · subst hspace
      refine ⟨_, if_pos rfl, invalidateAddrSpace_clears h hr, ?_⟩
      rw [System.invalidateAddrSpace, System.setNode_node, modifySlot_slot, if_pos rfl]
      rfl
    · rw [if_neg hspace]
      by_cases hsched : i = procSched
      · subst hsched
        refine ⟨_, if_pos rfl, unHazard_clears (j := procSched) h hr hr rfl rfl rfl rfl rfl
          (fun _ => rfl) fun i => ?_, ?_⟩
        · by_cases hi : i = procSched
          · subst hi
            rfl
          · unfold rootHazards
            simp only [if_neg hi]
        · rw [System.setNode_node, modifySlot_slot, if_pos rfl]
          rfl
      · rw [if_neg hsched]
        -- Of the other slots those are hazarded that go with the fixed registers.
        have hdom : (s.proc p).hazards.domRoot = false := by
          by_contra hc
          rw [Bool.not_eq_false] at hc
          exact hhaz (by simp [rootHazards, hc, hgen, hspace, hsched])
        obtain ⟨root', hrun, hob', hclears⟩ := flushFixRegs_clears h hr hdom
        refine ⟨_, hrun, hclears, ?_⟩
        have hrun' : (s.setRoot p n (flushedFix (s.proc p)) root').node n = root' := by
          simp [System.setRoot]
        rw [hclears.wellFormed.hazards]
        unfold System.hazardsOf
        rw [hrun', hob']
        simp [rootHazards, System.setRoot, flushedFix, hgen, hspace, hsched]

/-- Clearing the hazard of a slot. -/
theorem clearHazard_clears (h : s.WellFormed) (n : ℕ) (i : Fin 32) :
    ∃ s', s.clearHazard n i = .ok s' ∧ Clears s s' ∧
      ((s'.node n).slot i).hazards = (false, false) := by
  unfold System.clearHazard
  by_cases hhaz : ((s.node n).slot i).hazards = (false, false)
  · rw [if_pos (isHazard_eq_false.2 hhaz)]
    exact ⟨s, rfl, Clears.refl h, hhaz⟩
  · rw [if_neg fun hc => hhaz (isHazard_eq_false.1 hc)]
    have hflush : ∃ s', s.flushSlot n i = .ok s' ∧ Clears s s' ∧
        ((s'.node n).slot i).hazards = (false, false) := by
      unfold System.flushSlot
      cases hob : (s.node n).obType with
      | unprepared => exact absurd (h.unprepared n hob i) hhaz
      | processRoot p => exact flushProcessSlot_clears h hob hhaz
      | keyRegs p =>
        have hk := (h.keys_iff p n).2 hob
        have hroot := ((h.keyRegs p).keysNode.1 (by rw [hk]; rfl)).1
        obtain ⟨r, hr⟩ := Option.isSome_iff_exists.1 hroot
        obtain ⟨s', hrun, hclears, -, -, hob'⟩ := flushKeyRegs_clears h hr hk
        exact ⟨s', hrun, hclears, hclears.wellFormed.unprepared n hob' i⟩
    obtain ⟨s', hrun, hclears, hclear⟩ := hflush
    refine ⟨s', ?_, hclears, hclear⟩
    rw [hrun]
    simp only [ok_bind, assertThat_pos (isHazard_eq_false.2 hclear)]

/-- Clearing all hazards of a node. -/
theorem clearAllHazards_clears (h : s.WellFormed) (n : ℕ) :
    ∃ s', s.clearAllHazards n = .ok s' ∧ Clears s s' ∧
      ∀ i, ((s'.node n).slot i).hazards = (false, false) := by
  have hloop (l : List (Fin 32)) : ∀ s : System, s.WellFormed →
      ∃ s', l.foldlM (fun s i => s.clearHazard n i) s = .ok s' ∧ Clears s s' ∧
        ∀ i ∈ l, ((s'.node n).slot i).hazards = (false, false) := by
    induction l with
    | nil => exact fun s h => ⟨s, rfl, Clears.refl h, fun i hi => nomatch hi⟩
    | cons i l ih =>
      intro s h
      obtain ⟨s₁, hrun₁, hclears₁, hi₁⟩ := clearHazard_clears h n i
      obtain ⟨s₂, hrun₂, hclears₂, hl⟩ := ih s₁ hclears₁.wellFormed
      refine ⟨s₂, ?_, hclears₁.trans hclears₂, fun j hj => ?_⟩
      · rw [List.foldlM_cons, hrun₁]
        exact hrun₂
      · rcases List.mem_cons.1 hj with rfl | hj
        · exact hclears₂.unhazarded n j hi₁
        · exact hl j hj
  obtain ⟨s', hrun, hclears, hall⟩ := hloop (List.finRange 32) s h
  exact ⟨s', hrun, hclears, fun i => hall i (List.mem_finRange i)⟩

/-! ### Unloading -/

theorem setProc_eq_setRoot (s : System) (p r : ℕ) (proc : Process) :
    s.setProc p proc = s.setRoot p r proc (s.node r) := by
  unfold System.setRoot System.setNode System.setProc
  rw [Function.update_eq_self]

section Unloading

variable (h : s.WellFormed) (hr : (s.proc p).procRoot = some r)

include h hr

theorem setActivity_clears (hasActivity : Bool) : Clears s (s.setProc p { s.proc p with hasActivity }) := by
  rw [setProc_eq_setRoot s p r]
  have hok := h.root p r hr
  exact clears_setRoot { s.proc p with hasActivity } (s.node r) h hr hr rfl rfl rfl
    ((h.root_iff p r).1 hr) ⟨hok.hazards, hok.dirty, hok.number, hok.schedule, hok.fault⟩
    (fun _ => rfl) fun _ => id

theorem release_clears (hkeysNode : (s.proc p).keysNode = none) (hdom : (s.proc p).hazards.domRoot = true)
    (hmapped : (s.proc p).mapped = false) :
    Clears s ((s.setNode r { s.node r with obType := .unprepared }).setProc p
      { s.proc p with hazards := .none, procRoot := none }) := by
  have hobr : (s.node r).obType = .processRoot p := (h.root_iff p r).1 hr
  have hok := h.root p r hr
  have hkeyRegs : (s.proc p).hazards.keyRegs = true := by
    by_contra hc
    rw [Bool.not_eq_true] at hc
    have := (h.keyRegs p).keysNode.2 ⟨by rw [hr]; rfl, hc⟩
    rw [hkeysNode] at this
    cases this
  have hunhazarded (i : Fin 32) : ((s.node r).slot i).hazards = (false, false) := by
    rw [hok.hazards]
    simp [rootHazards, hdom, hok.schedule hdom, hkeyRegs, hmapped]
  set s' := (s.setNode r { s.node r with obType := .unprepared }).setProc p
    { s.proc p with hazards := .none, procRoot := none } with hs'
  have hproc : s'.proc p = { s.proc p with hazards := .none, procRoot := none } := by simp [hs']
  have hprocq {q : ℕ} (hq : q ≠ p) : s'.proc q = s.proc q := by
    simp [hs', System.setProc_of_ne hq]
  have hnoder : s'.node r = { s.node r with obType := .unprepared } := by simp [hs']
  have hnode {n : ℕ} (hn : n ≠ r) : s'.node n = s.node n := by
    simp [hs', System.setNode_of_ne hn]
  have hr' (n : ℕ) : (s'.proc p).procRoot ≠ some n := by simp [hproc]
  have hk' (n : ℕ) : (s'.proc p).keysNode ≠ some n := by simp [hproc, hkeysNode]
  have hc : s.Changes s' p (· = r) := by
    refine ⟨fun q hq => hprocq hq, fun n hn => hnode hn, ?_, fun n hn => Option.some.inj (hn.symm.trans hr),
      fun n hn => absurd (hkeysNode.symm.trans hn) (by simp)⟩
    rintro n rfl
    rw [hnoder]
    exact ⟨Or.inr (Or.inl hobr), Or.inl rfl⟩
  have hwf : s'.WellFormed := by
    refine h.change hc (fun n hn => absurd hn (hr' n)) (fun n hn => absurd hn (hk' n)) ?_ ?_ ?_
      (fun n hn => absurd hn (hr' n)) (fun n hn => absurd hn (hk' n)) ?_
    · rintro n rfl
      rw [hnoder]
      exact ⟨fun hn => absurd hn (hr' n), fun hn => by cases hn⟩
    · rintro n rfl
      rw [hnoder]
      exact ⟨fun hn => absurd hn (hk' n), fun hn => by cases hn⟩
    · refine ⟨?_, ?_, ?_⟩
      · simp [hproc, hkeysNode]
      · rw [hproc]
        exact (h.keyRegs p).unloaded
      · rw [hproc]
        exact (h.keyRegs p).void
    · rintro n rfl - i
      rw [hnoder]
      exact hunhazarded i
  refine ⟨hwf, fun n i => ?_, fun n i hu => ?_, fun n => ?_, rfl⟩
  · refine congrArg (fun k : ProperKey => prepareKey s.currentCount k.key) ?_
    by_cases hnr : n = r
    · subst hnr
      unfold System.keyAt
      rw [hnoder, hobr]
      simp only [rootKey, hdom, if_true]
    · exact hc.keyAt h hnr i
  · by_cases hnr : n = r
    · subst hnr
      rw [hnoder]
      exact hu
    · rwa [hnode hnr]
  · by_cases hnr : n = r
    · subst hnr
      rw [hnoder]
      exact Or.inr rfl
    · rw [hnode hnr]
      exact Or.inl rfl

theorem unloadKeys_clears :
    ∃ s', (if (s.proc p).hazards.keyRegs = false then s.flushKeyRegs p else .ok s) = .ok s' ∧
      Clears s s' ∧ (s'.proc p).procRoot = some r ∧ (s'.proc p).keysNode = none := by
  by_cases hkeyRegs : (s.proc p).hazards.keyRegs = false
  · obtain ⟨k, hk⟩ := Option.isSome_iff_exists.1
      ((h.keyRegs p).keysNode.2 ⟨by rw [hr]; rfl, hkeyRegs⟩)
    obtain ⟨s', hrun, hclears, hproc, -, -⟩ := flushKeyRegs_clears h hr hk
    refine ⟨s', by rw [if_pos hkeyRegs]; exact hrun, hclears, ?_, ?_⟩
    · rw [hproc]
      exact hr
    · rw [hproc]
      rfl
  · refine ⟨s, if_neg hkeyRegs, Clears.refl h, hr, ?_⟩
    by_contra hc
    exact hkeyRegs ((h.keyRegs p).keysNode.1 (Option.ne_none_iff_isSome.1 hc)).2

theorem unloadFix_clears :
    ∃ s', (if (s.proc p).hazards.domRoot = false then s.flushFixRegs p else .ok s) = .ok s' ∧
      Clears s s' ∧ (s'.proc p).procRoot = some r ∧
      (s'.proc p).keysNode = (s.proc p).keysNode ∧ (s'.proc p).hazards.domRoot = true := by
  by_cases hdom : (s.proc p).hazards.domRoot = false
  · obtain ⟨root', hrun, -, hclears⟩ := flushFixRegs_clears h hr hdom
    have hproc : (s.setRoot p r (flushedFix (s.proc p)) root').proc p = flushedFix (s.proc p) := by
      simp [System.setRoot]
    refine ⟨_, by rw [if_pos hdom]; exact hrun, hclears, ?_⟩
    rw [hproc]
    exact ⟨hr, rfl, rfl⟩
  · exact ⟨s, if_neg hdom, Clears.refl h, hr, rfl, by simpa using hdom⟩

/-- Unloading a process. -/
theorem unload_clears :
    ∃ s', s.unload p = .ok s' ∧ Clears s s' ∧ (s'.proc p).procRoot = none ∧
      (s'.proc p).keysNode = none := by
  set s₁ := s.setProc p { s.proc p with hasActivity := false } with hs₁
  have hclears₁ : Clears s s₁ := setActivity_clears h hr false
  have hr₁ : (s₁.proc p).procRoot = some r := by
    rw [hs₁, System.setProc_proc]
    exact hr
  obtain ⟨s₂, hrun₂, hclears₂, hr₂, hkeys₂⟩ := unloadKeys_clears hclears₁.wellFormed hr₁
  obtain ⟨s₃, hrun₃, hclears₃, hr₃, hkeys₃, hdom₃⟩ := unloadFix_clears hclears₂.wellFormed hr₂
  -- If the address space slot is not hazarded there is no mapping table.
  have hspace : ∃ s₄, (if ((s₃.node r).slot procAddrSpace).isHazard then s₃.invalidateAddrSpace p r
      else s₃) = s₄ ∧ Clears s₃ s₄ ∧ (s₄.proc p).procRoot = some r ∧ (s₄.proc p).keysNode = none ∧
      (s₄.proc p).hazards.domRoot = true ∧ (s₄.proc p).mapped = false := by
    by_cases hhaz : ((s₃.node r).slot procAddrSpace).isHazard = true
    · have hproc : (s₃.invalidateAddrSpace p r).proc p = { s₃.proc p with mapped := false } := by
        simp [System.invalidateAddrSpace]
      refine ⟨_, if_pos hhaz, invalidateAddrSpace_clears hclears₃.wellFormed hr₃, ?_⟩
      rw [hproc]
      exact ⟨hr₃, hkeys₃.trans hkeys₂, hdom₃, rfl⟩
    · refine ⟨_, if_neg hhaz, Clears.refl hclears₃.wellFormed, hr₃, hkeys₃.trans hkeys₂, hdom₃, ?_⟩
      rw [Bool.not_eq_true, isHazard_eq_false,
        (hclears₃.wellFormed.root p r hr₃).hazards] at hhaz
      exact (Prod.mk.inj hhaz).2
  obtain ⟨s₄, hrun₄, hclears₄, hr₄, hkeys₄, hdom₄, hmapped₄⟩ := hspace
  refine ⟨_, ?_, (((hclears₁.trans hclears₂).trans hclears₃).trans hclears₄).trans
    (release_clears hclears₄.wellFormed hr₄ hkeys₄ hdom₄ hmapped₄), ?_, ?_⟩
  · unfold System.unload
    simp only [← hs₁, hrun₂, hrun₃, ok_bind, hr₃, hrun₄]
  · rw [System.setProc_proc]
  · rw [System.setProc_proc]
    exact hkeys₄

end Unloading

/-- Unpreparing a node. -/
theorem unprepare_clears (h : s.WellFormed) (n : ℕ) :
    ∃ s', s.unprepare n = .ok s' ∧ Clears s s' ∧ (s'.node n).obType = .unprepared := by
  have hunload {p r : ℕ} (hr : (s.proc p).procRoot = some r) (hused : (s.node n).UsedBy p) :
      ∃ s', (s.unload p >>= fun s => assertThat ((s.node n).obType = .unprepared) >>= fun _ =>
        .ok s) = .ok s' ∧ Clears s s' ∧ (s'.node n).obType = .unprepared := by
    obtain ⟨s', hrun, hclears, hroot, hkeys⟩ := unload_clears h hr
    have hob := hclears.left hroot hkeys hused
    refine ⟨s', ?_, hclears, hob⟩
    rw [hrun, ok_bind, assertThat_pos hob]
    rfl
  unfold System.unprepare
  cases hob : (s.node n).obType with
  | unprepared => exact ⟨s, rfl, Clears.refl h, hob⟩
  | processRoot p => exact hunload ((h.root_iff p n).2 hob) (Or.inr (Or.inl hob))
  | keyRegs p =>
    have hk := (h.keys_iff p n).2 hob
    obtain ⟨r, hr⟩ := Option.isSome_iff_exists.1 ((h.keyRegs p).keysNode.1 (by rw [hk]; rfl)).1
    exact hunload hr (Or.inr (Or.inr hob))

/-! ## Allocating a process -/

theorem setDirty_clears (h : s.WellFormed) (n : ℕ) :
    Clears s (s.setNode n { s.node n with dirty := true }) := by
  set s' := s.setNode n { s.node n with dirty := true } with hs'
  have hob (m : ℕ) : (s'.node m).obType = (s.node m).obType := by
    by_cases hm : m = n
    · subst hm
      simp [hs']
    · simp [hs', System.setNode_of_ne hm]
  have hslot (m : ℕ) : (s'.node m).slot = (s.node m).slot := by
    by_cases hm : m = n
    · subst hm
      simp [hs']
    · simp [hs', System.setNode_of_ne hm]
  have hwf : s'.WellFormed := by
    refine setNode_wellFormed h rfl (fun p hp => ?_) (fun p hp => ?_) (h.unprepared n)
    · have hok := h.root p n ((h.root_iff p n).2 hp)
      exact ⟨hok.hazards, fun _ => rfl, hok.number, hok.schedule, hok.fault⟩
    · have hok := h.keys p n ((h.keys_iff p n).2 hp)
      exact ⟨hok.hazards, hok.void, rfl⟩
  refine ⟨hwf, fun m i => ?_, fun m i hu => by rwa [hslot], fun m => Or.inl (hob m), rfl⟩
  refine congrArg (fun k : ProperKey => prepareKey s.currentCount k.key) ?_
  simp only [System.keyAt, rootKey, hob, hslot]
  rfl

theorem attach_wellFormed (proc : Process) (h : s.WellFormed) (hroot : (s.proc p).procRoot = none)
    (hkeysNode : (s.proc p).keysNode = none) (hob : (s.node n).obType = .unprepared)
    (hprocRoot : proc.procRoot = some n) (hkeys : proc.keysNode = none)
    (hkeyReg : proc.keyReg = (s.proc p).keyReg) (hhaz : proc.hazards = ⟨false, true, true, true⟩)
    (hmapped : proc.mapped = false) :
    (s.setRoot p n proc { s.node n with obType := .processRoot p }).WellFormed ∧
      ∀ m i, (s.setRoot p n proc { s.node n with obType := .processRoot p }).held m i = s.held m i := by
  set s' := s.setRoot p n proc { s.node n with obType := .processRoot p } with hs'
  have hproc : s'.proc p = proc := by simp [hs', System.setRoot]
  have hprocq {q : ℕ} (hq : q ≠ p) : s'.proc q = s.proc q := by
    simp [hs', System.setRoot, System.setProc_of_ne hq]
  have hnoden : s'.node n = { s.node n with obType := .processRoot p } := by
    simp [hs', System.setRoot]
  have hnode {m : ℕ} (hm : m ≠ n) : s'.node m = s.node m := by
    simp [hs', System.setRoot, System.setNode_of_ne hm]
  have hr' : (s'.proc p).procRoot = some n := by rw [hproc, hprocRoot]
  have hk' (m : ℕ) : (s'.proc p).keysNode ≠ some m := by simp [hproc, hkeys]
  have hc : s.Changes s' p (· = n) := by
    refine ⟨fun q hq => hprocq hq, fun m hm => hnode hm, ?_, fun m hm => absurd (hroot.symm.trans hm) (by simp),
      fun m hm => absurd (hkeysNode.symm.trans hm) (by simp)⟩
    rintro m rfl
    rw [hnoden]
    exact ⟨Or.inl hob, Or.inr (Or.inl rfl)⟩
  constructor
  · refine h.change hc (fun m hm => Option.some.inj (hm.symm.trans hr')) (fun m hm => absurd hm (hk' m)) ?_ ?_ ?_ ?_
      (fun m hm => absurd hm (hk' m)) ?_
    · rintro m rfl
      exact ⟨fun _ => by rw [hnoden], fun _ => hr'⟩
    · rintro m rfl
      rw [hnoden]
      exact ⟨fun hm => absurd hm (hk' m), fun hm => by cases hm⟩
    · rw [hproc]
      refine ⟨?_, fun _ => ?_, ?_⟩
      · rw [hkeys, hhaz]
        exact ⟨fun hc => (nomatch hc), fun hc => nomatch hc.2⟩
      · rw [hkeyReg]
        exact (h.keyRegs p).unloaded hkeysNode
      · rw [hkeyReg]
        exact (h.keyRegs p).void
    · intro m hm
      obtain rfl := Option.some.inj (hr'.symm.trans hm)
      rw [hproc, hnoden]
      refine rootOk_of_domRoot (by rw [hhaz]) (by rw [hhaz]) fun i => ?_
      rw [show rootHazards proc i = (false, false) by simp [rootHazards, hhaz, hmapped]]
      exact h.unprepared n hob i
    · rintro m rfl hm
      rw [hnoden] at hm
      cases hm
  · intro m i
    refine congrArg (fun k : ProperKey => prepareKey s.currentCount k.key) ?_
    by_cases hm : m = n
    · subst hm
      unfold System.keyAt
      rw [hnoden, hob]
      simp only [hproc, rootKey, hhaz, if_true]
    · exact hc.keyAt h hm i

theorem getProcess_spec (h : s.WellFormed) (hn : ∀ p, (s.node n).obType ≠ .keyRegs p) (p : ℕ) :
    ∃ s', s.getProcess n p = .ok s' ∧ s'.WellFormed ∧ ∀ m i, s'.held m i = s.held m i := by
  unfold System.getProcess
  cases hob : (s.node n).obType with
  | keyRegs q => exact absurd hob (hn q)
  | processRoot q => exact ⟨s, rfl, h, fun _ _ => rfl⟩
  | unprepared =>
    have hclears₁ := setDirty_clears h n
    set s₁ := s.setNode n { s.node n with dirty := true } with hs₁
    -- The process that was there is unloaded.
    have hfree : ∃ s₂, (if (s₁.proc p).procRoot.isSome then s₁.unload p else .ok s₁) = .ok s₂ ∧
        Clears s₁ s₂ ∧ (s₂.proc p).procRoot = none ∧ (s₂.proc p).keysNode = none := by
      by_cases hsome : (s₁.proc p).procRoot.isSome = true
      · obtain ⟨r, hr⟩ := Option.isSome_iff_exists.1 hsome
        obtain ⟨s₂, hrun, hclears, hroot, hkeys⟩ := unload_clears hclears₁.wellFormed hr
        exact ⟨s₂, by rw [if_pos hsome]; exact hrun, hclears, hroot, hkeys⟩
      · refine ⟨s₁, if_neg hsome, Clears.refl hclears₁.wellFormed, by simpa using hsome, ?_⟩
        by_contra hc
        exact hsome ((hclears₁.wellFormed.keyRegs p).keysNode.1 (Option.ne_none_iff_isSome.1 hc)).1
    obtain ⟨s₂, hrun₂, hclears₂, hroot₂, hkeys₂⟩ := hfree
    have hclears := hclears₁.trans hclears₂
    have hob₂ : (s₂.node n).obType = .unprepared := by
      rcases hclears.obType n with hc | hc
      · exact hc.trans hob
      · exact hc
    set proc : Process := { s₂.proc p with
      regs := { (s₂.proc p).regs with faultCode := fcNoFault, faultInfo := 0, processFlags := 0 }
      ioPriv := false
      hazards := ⟨false, true, true, true⟩
      mapped := false
      procRoot := some n } with hproc
    obtain ⟨hwf, hheld⟩ := attach_wellFormed proc hclears₂.wellFormed hroot₂ hkeys₂ hob₂
      rfl hkeys₂ rfl rfl rfl
    refine ⟨_, ?_, hwf, fun m i => (hheld m i).trans (hclears.held m i)⟩
    simp only [System.allocate, assertThat_pos, ok_bind, hrun₂]
    simp [System.setRoot, System.setProc, System.setNode, hproc]

end CapROS.ProcessCache
