import CapROS.Restart.NPCounts
import Mathlib.Data.List.Find
import Mathlib.Data.Nat.ModEq

/-!
# Which keys are valid after the restart

* `clearHazard_same`: clearing a hazard changes no view.
* `adjustNPCounts_spec`: what `AdjustNPCounts` does to the views.
* `keepsValidity`: the keys between non-persistent objects stay as they were.
* `revokesSaved_iff`, `countsAdjusted_iff`: when the keys that were saved before are all revoked.
-/

namespace CapROS.Restart

open Function (update update_idem update_self update_of_ne update_eq_self)

variable {img img' : Image} {R i k kn m oid : ℕ}

@[ext]
structure View where
  oid : ℕ
  isFree : Bool
  allocCount : ℕ
  callCount : ℕ
  key : ℕ → Key

/-- The same frame with other keys. -/
def View.withKeys (v : View) (key : ℕ → Key) : View := { v with key := key }

/-- A node frame with the keys that its slots stand for. -/
def Node.view (n : Node) : View := ⟨n.oid, n.isFree, n.allocCount, n.callCount, n.logicalKey⟩

def Image.view (img : Image) (i : ℕ) : View := (img.nodes i).view

/-- If the key registers of a process are loaded, the node they come from is in use for them. -/
def Image.Consistent (img : Image) : Prop :=
  ∀ i regs sched addrSpace kn, (img.nodes i).use = .processRoot regs sched addrSpace (some kn) →
    ∃ keyReg, (img.nodes kn).use = .keyRegs i keyReg

/-- The image is consistent, and all is as before but for the views of the nodes. -/
structure Same (img img' : Image) : Prop where
  consistent : img'.Consistent
  nNodes : img'.nNodes = img.nNodes
  pages : img'.pages = img.pages
  restartNPCount : img'.restartNPCount = img.restartNPCount
  preloadRanges : img'.preloadRanges = img.preloadRanges

theorem Same.trans {img₂ : Image} (h : Same img img') (h' : Same img' img₂) : Same img img₂ :=
  ⟨h'.consistent, h'.nNodes.trans h.nNodes, h'.pages.trans h.pages,
    h'.restartNPCount.trans h.restartNPCount, h'.preloadRanges.trans h.preloadRanges⟩

/-! ## Hazards -/

variable {n : Node}

theorem logicalKey_of_not_rdHazard (h : n.isRdHazard k = false) :
    n.logicalKey k = n.slot k := by
  unfold Node.isRdHazard at h
  unfold Node.logicalKey
  split at h
  case h_1 regs _ _ _ huse =>
    cases regs with
    | none => simp only [huse]
    | some regs =>
      have hk : ¬ procFirstRootRegSlot ≤ k := by simpa using h
      simp only [huse, if_neg hk]
  case h_2 => cases h
  case h_3 h₁ h₂ =>
    split
    · exact absurd ‹_› (h₁ _ _ _ _)
    · exact absurd ‹_› (h₂ _ _)
    · rfl

theorem rdHazard_isHazard (h : n.isHazard k = false) : n.isRdHazard k = false := by
  unfold Node.isHazard at h
  unfold Node.isRdHazard
  split
  case h_1 regs sched addrSpace keysNode huse =>
    simp only [huse, Bool.or_eq_false_iff, Bool.and_eq_false_iff, decide_eq_false_iff_not] at h ⊢
    tauto
  case h_2 huse => simp [huse] at h
  case h_3 => rfl

theorem view_setSlot (h : n.isRdHazard k = false) (key : Key) :
    ({ n with slot := update n.slot k key } : Node).view =
      n.view.withKeys (update n.view.key k key) := by
  refine View.ext rfl rfl rfl rfl ?_
  funext l
  simp only [View.withKeys, Node.view]
  by_cases hl : l = k
  · subst hl
    rw [update_self, logicalKey_of_not_rdHazard (by exact h)]
    exact update_self ..
  · rw [update_of_ne hl]
    simp only [Node.logicalKey, update_of_ne hl]

theorem view_setNode (img : Image) (i : ℕ) (n : Node) :
    (img.setNode i n).view = update img.view i n.view := by
  funext j
  by_cases hj : j = i
  · subst hj
    simp [Image.view, Image.setNode]
  · simp [Image.view, Image.setNode, hj]

theorem view_setNode_same (h : n.view = img.view i) :
    (img.setNode i n).view = img.view := by
  rw [view_setNode, h, update_eq_self]

theorem view_dropKeysNode (n : Node) : n.dropKeysNode.view = n.view := by
  unfold Node.dropKeysNode
  split
  case h_1 regs _ _ _ huse =>
    refine View.ext rfl (by simp [Node.view, Node.isFree, huse]) rfl rfl ?_
    funext k
    cases regs <;> simp [Node.view, Node.logicalKey, huse]
  case h_2 => rfl

theorem dropKeysNode_use {regs : Option (ℕ → ℕ × ℕ × ℕ)} {sched addrSpace : Bool}
    {kn : Option ℕ} (h : n.dropKeysNode.use = .processRoot regs sched addrSpace kn) : kn = none := by
  unfold Node.dropKeysNode at h
  split at h
  case h_1 =>
    simp only [NodeUse.processRoot.injEq] at h
    exact h.2.2.2.symm
  case h_2 hno => exact absurd h (hno _ _ _ _)

variable {keyReg : ℕ → Key}

theorem dropKeysNode_keyRegs {p : ℕ} (h : n.use = .keyRegs p keyReg) :
    n.dropKeysNode = n := by
  unfold Node.dropKeysNode
  rw [h]

theorem flushKeyRegs_same {procRoot : ℕ} (hc : img.Consistent)
    (hkn : (img.nodes kn).use = .keyRegs procRoot keyReg) :
    ∃ img', flushKeyRegs kn img = .ok img' ∧ Same img img' ∧ img'.view = img.view ∧
      (img'.nodes kn).use = .unprepared ∧
      (procRoot ≠ kn → img'.nodes procRoot = (img.nodes procRoot).dropKeysNode) := by
  have hview : (({ img.nodes kn with use := .unprepared, slot := keyReg } : Node)).view =
      img.view kn := by
    refine View.ext rfl (by simp [Image.view, Node.view, Node.isFree, hkn]) rfl rfl ?_
    funext k
    simp [Image.view, Node.view, Node.logicalKey, hkn]
  have hunprep : ∀ (n : Node), n.use = .unprepared → n.dropKeysNode = n := by
    intro n hn
    unfold Node.dropKeysNode
    rw [hn]
  have hok : flushKeyRegs kn img = .ok ((img.setNode kn { img.nodes kn with
      use := .unprepared, slot := keyReg }).setNode procRoot
        ((img.setNode kn { img.nodes kn with use := .unprepared, slot := keyReg }).nodes
          procRoot).dropKeysNode) := by
    unfold flushKeyRegs
    rw [hkn]
  refine ⟨_, hok, ⟨?_, rfl, rfl, rfl, rfl⟩, ?_, ?_, ?_⟩
  · intro j regs sched addrSpace n hj
    by_cases hjp : j = procRoot
    · subst hjp
      simp only [Image.setNode, update_self] at hj
      cases dropKeysNode_use hj
    · by_cases hjk : j = kn
      · subst hjk
        simp [Image.setNode, hjp] at hj
      · simp only [Image.setNode, update_of_ne hjp, update_of_ne hjk] at hj
        obtain ⟨keyReg', hn⟩ := hc j regs sched addrSpace n hj
        have hnk : n ≠ kn := by
          rintro rfl
          rw [hkn] at hn
          simp only [NodeUse.keyRegs.injEq] at hn
          exact hjp hn.1.symm
        refine ⟨keyReg', ?_⟩
        by_cases hnp : n = procRoot
        · subst hnp
          simp only [Image.setNode, update_self, update_of_ne hnk]
          rw [dropKeysNode_keyRegs hn]
          exact hn
        · simpa only [Image.setNode, update_of_ne hnp, update_of_ne hnk] using hn
  · rw [view_setNode_same (view_dropKeysNode _), view_setNode_same hview]
  · by_cases hp : kn = procRoot
    · subst hp
      simp only [Image.setNode, update_self]
      rw [hunprep _ rfl]
    · simp [Image.setNode, hp]
  · intro hp
    simp [Image.setNode, hp]

/-- A node is changed in a way that cannot be seen, and keeps the node with its key registers. -/
theorem same_setNode (hc : img.Consistent)
    (huse : ∀ regs sched addrSpace kn, n.use = .processRoot regs sched addrSpace (some kn) →
      ∃ regs' sched' addrSpace', (img.nodes i).use = .processRoot regs' sched' addrSpace' (some kn))
    (hkeys : ∀ p keyReg, (img.nodes i).use = .keyRegs p keyReg → n.use = .keyRegs p keyReg) :
    Same img (img.setNode i n) := by
  refine ⟨?_, rfl, rfl, rfl, rfl⟩
  intro j regs sched addrSpace kn hj
  obtain ⟨regs', sched', addrSpace', hj'⟩ : ∃ regs' sched' addrSpace',
      (img.nodes j).use = .processRoot regs' sched' addrSpace' (some kn) := by
    by_cases hji : j = i
    · subst hji
      simp only [Image.setNode, update_self] at hj
      exact huse _ _ _ _ hj
    · simp only [Image.setNode, update_of_ne hji] at hj
      exact ⟨regs, sched, addrSpace, hj⟩
  obtain ⟨keyReg, hkn⟩ := hc j regs' sched' addrSpace' kn hj'
  refine ⟨keyReg, ?_⟩
  by_cases hki : kn = i
  · subst hki
    simp only [Image.setNode, update_self]
    exact hkeys j keyReg hkn
  · simpa only [Image.setNode, update_of_ne hki] using hkn

theorem clearHazardOf_same (hc : img.Consistent) (hh : (img.nodes i).isHazard k = true) :
    ∃ img', clearHazardOf i k img = .ok img' ∧ Same img img' ∧ img'.view = img.view ∧
      (img'.nodes i).isHazard k = false := by
  unfold clearHazardOf
  unfold Node.isHazard at hh
  cases huse : (img.nodes i).use with
  | unprepared | freeFrame => simp [huse] at hh
  | segment mapped =>
    simp only [huse] at hh ⊢
    refine ⟨_, rfl, same_setNode hc (by simp) (by simp [huse]), view_setNode_same ?_, ?_⟩
    · refine View.ext rfl (by simp [Image.view, Node.view, Node.isFree, huse]) rfl rfl ?_
      funext l
      simp [Image.view, Node.view, Node.logicalKey, huse]
    · simp [Image.setNode, Node.isHazard]
  | keyRegs p keyReg =>
    simp only [huse]
    obtain ⟨img', hok, hs, hv, hun, -⟩ := flushKeyRegs_same hc huse
    exact ⟨img', hok, hs, hv, by simp [Node.isHazard, hun]⟩
  | processRoot regs sched addrSpace keysNode =>
    simp only [huse] at hh ⊢
    -- A change of the flags alone.
    have hflags : ∀ (sched' addrSpace' : Bool),
        Same img (img.setNode i { img.nodes i with
          use := .processRoot regs sched' addrSpace' keysNode }) ∧
        (img.setNode i { img.nodes i with
          use := .processRoot regs sched' addrSpace' keysNode }).view = img.view := by
      intro sched' addrSpace'
      refine ⟨same_setNode hc ?_ (by simp [huse]), view_setNode_same ?_⟩
      · intro regs' s a kn hkn
        simp only [NodeUse.processRoot.injEq] at hkn
        exact ⟨regs, sched, addrSpace, by rw [huse, hkn.2.2.2]⟩
      · refine View.ext rfl (by simp [Image.view, Node.view, Node.isFree, huse]) rfl rfl ?_
        funext l
        cases regs <;> simp [Image.view, Node.view, Node.logicalKey, huse]
    by_cases hka : k = procAddrSpace
    · subst hka
      rw [if_pos rfl]
      refine ⟨_, rfl, (hflags _ _).1, (hflags _ _).2, ?_⟩
      simp [Image.setNode, Node.isHazard, procAddrSpace, procFirstRootRegSlot, procIoSpace, procSched,
        procGenKeys]
    · rw [if_neg hka]
      by_cases hkg : k = procGenKeys
      · subst hkg
        rw [if_pos rfl]
        cases keysNode with
        | none =>
          simp [procFirstRootRegSlot, procIoSpace, procSched, procGenKeys, procAddrSpace] at hh
        | some kn =>
          obtain ⟨keyReg, hkn⟩ := hc i regs sched addrSpace kn huse
          obtain ⟨img', hok, hs, hv, -, hroot⟩ := flushKeyRegs_same hc hkn
          refine ⟨img', hok, hs, hv, ?_⟩
          have hne : i ≠ kn := by
            rintro rfl
            rw [huse] at hkn
            cases hkn
          rw [hroot hne]
          simp [Node.dropKeysNode, huse, Node.isHazard, procFirstRootRegSlot, procIoSpace, procSched,
            procGenKeys, procAddrSpace]
      · rw [if_neg hkg]
        by_cases hks : k = procSched
        · subst hks
          rw [if_pos rfl]
          refine ⟨_, rfl, (hflags _ _).1, (hflags _ _).2, ?_⟩
          simp [Image.setNode, Node.isHazard, procAddrSpace, procFirstRootRegSlot, procIoSpace,
            procSched, procGenKeys]
        · rw [if_neg hks]
          cases regs with
          | none => simp [hka, hkg, hks] at hh
          | some regs =>
            refine ⟨_, rfl, same_setNode hc ?_ (by simp [huse]), view_setNode_same ?_, ?_⟩
            · intro regs' s a kn hkn
              simp only [flushFixRegs, NodeUse.processRoot.injEq] at hkn
              exact ⟨some regs, sched, addrSpace, by rw [huse, hkn.2.2.2]⟩
            · refine View.ext rfl (by simp [Image.view, Node.view, Node.isFree, flushFixRegs, huse])
                rfl rfl ?_
              funext l
              simp [Image.view, Node.view, Node.logicalKey, flushFixRegs, huse]
            · simp [Image.setNode, Node.isHazard, flushFixRegs, hka, hkg]

theorem clearHazard_same (hc : img.Consistent) (i k : ℕ) :
    ∃ img', clearHazard i k img = .ok img' ∧ Same img img' ∧ img'.view = img.view ∧
      (img'.nodes i).isHazard k = false := by
  unfold clearHazard
  cases hh : (img.nodes i).isHazard k with
  | false => exact ⟨img, by simp, ⟨hc, rfl, rfl, rfl, rfl⟩, rfl, hh⟩
  | true =>
    obtain ⟨img', hok, hs, hv, hno⟩ := clearHazardOf_same hc hh
    refine ⟨img', ?_, hs, hv, hno⟩
    rw [if_pos rfl, hok, ok_bind, kassert_pos hno, ok_bind]

/-! ## What is adjusted -/

/-- The key that `AdjustNPCounts` leaves in a slot. -/
def adjustKey (R : ℕ) (key : Key) : Key := if toAdjust key then bumpKey R key else key

/-- What `AdjustNPCounts` does to a node. -/
def adjustView (R : ℕ) (v : View) : View :=
  if v.isFree || oidIsPersistent v.oid then v
  else { v with
    allocCount := addCount v.allocCount R
    callCount := addCount v.callCount R
    key := fun k => if k < nodeSize then adjustKey R (v.key k) else v.key k }

theorem adjustSlot_spec (hc : img.Consistent) (R i k : ℕ) :
    ∃ img', adjustSlot R i img k = .ok img' ∧ Same img img' ∧
      img'.view = update img.view i ((img.view i).withKeys
        (update (img.view i).key k (adjustKey R ((img.view i).key k)))) := by
  -- First the value comes into the slot.
  obtain ⟨img₁, hok₁, hs₁, hv₁, hrd⟩ : ∃ img₁, clearRdHazard i k img = .ok img₁ ∧
      Same img img₁ ∧ img₁.view = img.view ∧ (img₁.nodes i).isRdHazard k = false := by
    unfold clearRdHazard
    cases hh : (img.nodes i).isRdHazard k with
    | false => exact ⟨img, by simp, ⟨hc, rfl, rfl, rfl, rfl⟩, rfl, hh⟩
    | true =>
      obtain ⟨img₁, hok, hs, hv, hno⟩ := clearHazard_same hc i k
      exact ⟨img₁, by simpa using hok, hs, hv, rdHazard_isHazard hno⟩
  have hslot : (img₁.nodes i).slot k = (img.view i).key k := by
    rw [← logicalKey_of_not_rdHazard hrd, ← hv₁]
    rfl
  unfold adjustSlot
  rw [hok₁, ok_bind, hslot]
  by_cases hadj : toAdjust ((img.view i).key k) = true
  · obtain ⟨img₂, hok₂, hs₂, hv₂, hno⟩ := clearHazard_same hs₁.consistent i k
    have hslot₂ : (img₂.nodes i).slot k = (img.view i).key k := by
      rw [← logicalKey_of_not_rdHazard (rdHazard_isHazard hno), ← hv₁, ← hv₂]
      rfl
    rw [if_pos hadj, hok₂, ok_bind]
    have hsame : ∀ n : Node, n.use = (img₂.nodes i).use → Same img₂ (img₂.setNode i n) := by
      intro n hn
      refine same_setNode hs₂.consistent ?_ ?_
      · intro regs sched addrSpace kn hkn
        exact ⟨regs, sched, addrSpace, hn ▸ hkn⟩
      · intro p keyReg hk
        rw [hn, hk]
    refine ⟨_, rfl, (hs₁.trans hs₂).trans (hsame _ rfl), ?_⟩
    rw [view_setNode, hv₂, hv₁]
    congr 1
    have hvi : (img₂.nodes i).view = img.view i := by
      rw [← hv₁, ← hv₂]
      rfl
    have hkey : bumpKey R ((img₂.nodes i).slot k) = adjustKey R ((img.view i).key k) := by
      rw [hslot₂, adjustKey, if_pos hadj]
    rw [view_setSlot (rdHazard_isHazard hno), hvi, hkey]
  · rw [if_neg hadj]
    refine ⟨img₁, rfl, hs₁, ?_⟩
    have hkey : adjustKey R ((img.view i).key k) = (img.view i).key k := if_neg hadj
    rw [hv₁, hkey, update_eq_self]
    exact (update_eq_self i img.view).symm

theorem adjustSlots_spec (hc : img.Consistent) (R i : ℕ) :
    ∀ n, ∃ img', (List.range n).foldlM (adjustSlot R i) img = .ok img' ∧ Same img img' ∧
      img'.view = update img.view i ((img.view i).withKeys
        fun k => if k < n then adjustKey R ((img.view i).key k) else (img.view i).key k) := by
  intro n
  induction n with
  | zero =>
    refine ⟨img, rfl, ⟨hc, rfl, rfl, rfl, rfl⟩, ?_⟩
    simp [View.withKeys]
  | succ n ih =>
    obtain ⟨img₁, hok₁, hs₁, hv₁⟩ := ih
    obtain ⟨img₂, hok₂, hs₂, hv₂⟩ := adjustSlot_spec hs₁.consistent R i n
    refine ⟨img₂, ?_, hs₁.trans hs₂, ?_⟩
    · rw [List.range_succ, List.foldlM_append, hok₁, ok_bind, List.foldlM_cons, hok₂, ok_bind]
      rfl
    · rw [hv₂, hv₁, update_self, update_idem]
      congr 1
      refine View.ext rfl rfl rfl rfl ?_
      funext k
      by_cases hk : k = n
      · subst hk
        simp [View.withKeys]
      · have hlt : k < n + 1 ↔ k < n := by omega
        simp only [View.withKeys, update_of_ne hk, hlt]

theorem adjustNode_spec (hc : img.Consistent) (R i : ℕ) :
    ∃ img', adjustNode R img i = .ok img' ∧ Same img img' ∧
      img'.view = update img.view i (adjustView R (img.view i)) := by
  have hself : update img.view i (img.view i) = img.view := update_eq_self i _
  unfold adjustNode adjustView
  by_cases hf : (img.nodes i).isFree = true
  · refine ⟨img, if_pos hf, ⟨hc, rfl, rfl, rfl, rfl⟩, ?_⟩
    rw [if_pos (by simp [Image.view, Node.view, hf]), hself]
  · by_cases hp : oidIsPersistent (img.nodes i).oid = true
    · refine ⟨img, (if_neg hf).trans (if_pos hp), ⟨hc, rfl, rfl, rfl, rfl⟩, ?_⟩
      rw [if_pos (by simp [Image.view, Node.view, hp]), hself]
    · simp only [if_neg hf, if_neg hp]
      -- The counts are increased first.
      generalize hn : ({ img.nodes i with
        allocCount := addCount (img.nodes i).allocCount R
        callCount := addCount (img.nodes i).callCount R } : Node) = n
      have huse : n.use = (img.nodes i).use := by rw [← hn]
      have hs : Same img (img.setNode i n) := by
        refine same_setNode hc ?_ ?_
        · intro regs sched addrSpace kn hkn
          exact ⟨regs, sched, addrSpace, huse ▸ hkn⟩
        · intro p keyReg hk
          rw [huse, hk]
      have hs' : Same img (((img.setNode i n).noteCount n.allocCount).noteCount n.callCount) :=
        ⟨hs.consistent, hs.nNodes, hs.pages, hs.restartNPCount, hs.preloadRanges⟩
      obtain ⟨img', hok, hs₁, hv⟩ := adjustSlots_spec hs'.consistent R i nodeSize
      refine ⟨img', ?_, hs'.trans hs₁, ?_⟩
      · subst hn
        exact hok
      · have hvn : (((img.setNode i n).noteCount n.allocCount).noteCount n.callCount).view =
            update img.view i n.view := view_setNode img i n
        rw [hv, hvn, update_self, update_idem]
        congr 1
        rw [if_neg (by simp [Image.view, Node.view, hf, hp])]
        subst hn
        refine View.ext rfl rfl rfl rfl ?_
        funext k
        rfl

theorem adjustNodes_spec (hc : img.Consistent) (R : ℕ) :
    ∀ n, ∃ img', (List.range n).foldlM (adjustNode R) img = .ok img' ∧ Same img img' ∧
      img'.view = fun i => if i < n then adjustView R (img.view i) else img.view i := by
  intro n
  induction n with
  | zero => exact ⟨img, rfl, ⟨hc, rfl, rfl, rfl, rfl⟩, by simp⟩
  | succ n ih =>
    obtain ⟨img₁, hok₁, hs₁, hv₁⟩ := ih
    obtain ⟨img₂, hok₂, hs₂, hv₂⟩ := adjustNode_spec hs₁.consistent R n
    refine ⟨img₂, ?_, hs₁.trans hs₂, ?_⟩
    · rw [List.range_succ, List.foldlM_append, hok₁, ok_bind, List.foldlM_cons, hok₂, ok_bind]
      rfl
    · rw [hv₂, hv₁]
      funext i
      by_cases hi : i = n
      · subst hi
        simp
      · have hlt : i < n + 1 ↔ i < n := by omega
        simp [hi, hlt]

/-- What `AdjustNPCounts` does. -/
structure Adjusted (R : ℕ) (img img' : Image) : Prop where
  nNodes : img'.nNodes = img.nNodes
  view : ∀ i, i < img.nNodes → img'.view i = adjustView R (img.view i)
  pages : img'.pages = img.pages.map (adjustPage R)
  restartNPCount : img'.restartNPCount = R
  preloadRanges : img'.preloadRanges = img.preloadRanges

theorem adjustNPCounts_spec (hc : img.Consistent) (h0 : img.restartNPCount = 0) (m : ℕ) :
    ∃ img', adjustNPCounts m img = .ok img' ∧ Adjusted (addCount m 1) img img' := by
  have hc' : ({ img with restartNPCount := addCount m 1 } : Image).Consistent := hc
  obtain ⟨img', hok, hs, hv⟩ := adjustNodes_spec hc' (addCount m 1) img.nNodes
  refine ⟨adjustPages (addCount m 1) img', ?_, ⟨hs.nNodes, ?_, ?_, hs.restartNPCount,
    hs.preloadRanges⟩⟩
  · unfold adjustNPCounts
    rw [kassert_pos h0, ok_bind]
    simp only
    rw [hok, ok_bind]
  · intro i hi
    change img'.view i = _
    rw [hv]
    exact if_pos hi
  · change img'.pages.map _ = _
    rw [hs.pages]

/-! ## Looking up objects -/

theorem adjustView_oid (R : ℕ) (v : View) : (adjustView R v).oid = v.oid := by
  unfold adjustView
  split <;> rfl

theorem adjustView_isFree (R : ℕ) (v : View) : (adjustView R v).isFree = v.isFree := by
  unfold adjustView
  split <;> rfl

theorem adjustPage_obType (R : ℕ) (p : Page) : (adjustPage R p).obType = p.obType := by
  unfold adjustPage
  split <;> rfl

theorem adjustPage_oid (R : ℕ) (p : Page) : (adjustPage R p).oid = p.oid := by
  unfold adjustPage
  split <;> rfl

theorem Adjusted.findNode (h : Adjusted R img img') (oid : ℕ) :
    img'.findNode oid = img.findNode oid := by
  unfold Image.findNode
  rw [h.nNodes]
  refine List.find?_congr fun i hi => ?_
  have hv := h.view i (List.mem_range.1 hi)
  have hfree : (img'.nodes i).isFree = (img.nodes i).isFree := by
    rw [show (img'.nodes i).isFree = (img'.view i).isFree from rfl, hv, adjustView_isFree]
    rfl
  have hoid : (img'.nodes i).oid = (img.nodes i).oid := by
    rw [show (img'.nodes i).oid = (img'.view i).oid from rfl, hv, adjustView_oid]
    rfl
  rw [hfree, hoid]

theorem Adjusted.findPage (h : Adjusted R img img') (oid : ℕ) :
    img'.findPage oid = (img.findPage oid).map (adjustPage R) := by
  unfold Image.findPage
  rw [h.pages, List.find?_map]
  congr 2
  funext p
  simp [Function.comp, Page.isObject, adjustPage_obType, adjustPage_oid]

theorem findNode_spec {i : ℕ} (h : img.findNode oid = some i) :
    i < img.nNodes ∧ (img.nodes i).isFree = false ∧ (img.nodes i).oid = oid := by
  have hmem := List.mem_of_find?_eq_some h
  have hp := List.find?_some h
  simp only [Bool.and_eq_true, Bool.not_eq_true', decide_eq_true_eq] at hp
  exact ⟨List.mem_range.1 hmem, hp⟩

theorem findPage_spec {p : Page} (h : img.findPage oid = some p) :
    p ∈ img.pages ∧ p.isObject = true ∧ p.oid = oid := by
  have hp := List.find?_some h
  simp only [Bool.and_eq_true, decide_eq_true_eq] at hp
  exact ⟨List.mem_of_find?_eq_some h, hp⟩

/-- The counts of objects that are not persistent are increased, also of those that are not in
memory. -/
theorem Adjusted.objectCount_of_not_persistent (h : Adjusted R img img')
    (h0 : img.restartNPCount = 0) (hR : R < 2 ^ 32) (t : KeyType) (hoid : oidIsPersistent oid = false) :
    img'.objectCount t oid = (img.objectCount t oid).map (addCount · R) := by
  unfold Image.objectCount
  rw [h.findNode, h.findPage]
  cases hn : img.findNode oid with
  | some i =>
    obtain ⟨hi, hfree, ho⟩ := findNode_spec hn
    have hv := h.view i hi
    unfold adjustView at hv
    rw [if_neg (by simp [Image.view, Node.view, hfree, ho, hoid])] at hv
    have ha : (img'.nodes i).allocCount = addCount (img.nodes i).allocCount R :=
      congrArg View.allocCount hv
    have hcc : (img'.nodes i).callCount = addCount (img.nodes i).callCount R :=
      congrArg View.callCount hv
    simp only [ha, hcc]
    split_ifs <;> rfl
  | none =>
    cases hp : img.findPage oid with
    | some p =>
      obtain ⟨-, hobj, ho⟩ := findPage_spec hp
      have ha : (adjustPage R p).allocCount = addCount p.allocCount R := by
        unfold adjustPage
        rw [if_pos (by simp [hobj, ho, hoid])]
      simp only [Option.map_some, ha]
      split_ifs <;> rfl
    | none =>
      have h0R : addCount 0 R = R := by rw [addCount, Nat.zero_add, Nat.mod_eq_of_lt hR]
      simp only [Option.map_none, h.preloadRanges, h.restartNPCount, h0]
      split_ifs
      · simp [h0R]
      · rfl

theorem Adjusted.objectCount_of_persistent (h : Adjusted R img img') (t : KeyType)
    (hoid : oidIsPersistent oid = true) : img'.objectCount t oid = img.objectCount t oid := by
  unfold Image.objectCount
  rw [h.findNode, h.findPage]
  cases hn : img.findNode oid with
  | some i =>
    obtain ⟨hi, -, ho⟩ := findNode_spec hn
    have hv := h.view i hi
    unfold adjustView at hv
    rw [if_pos (by simp [Image.view, Node.view, ho, hoid])] at hv
    have ha : (img'.nodes i).allocCount = (img.nodes i).allocCount := congrArg View.allocCount hv
    have hcc : (img'.nodes i).callCount = (img.nodes i).callCount := congrArg View.callCount hv
    simp only [ha, hcc]
  | none =>
    cases hp : img.findPage oid with
    | some p =>
      obtain ⟨-, -, ho⟩ := findPage_spec hp
      have ha : adjustPage R p = p := by
        unfold adjustPage
        rw [if_neg (by simp [ho, hoid])]
      simp only [Option.map_some, ha]
    | none => simp [hoid]

/-! ## The image -/

/-- All counts have 32 bits. -/
structure Image.Bounded (img : Image) : Prop where
  node : ∀ i, (img.nodes i).allocCount < 2 ^ 32 ∧ (img.nodes i).callCount < 2 ^ 32
  page : ∀ p ∈ img.pages, p.allocCount < 2 ^ 32
  key : ∀ i k oid count, ((img.nodes i).logicalKey k).body = .unprep oid count → count < 2 ^ 32

/-- What is in memory before `AdjustNPCounts`. -/
structure Preloaded where
  img : Image
  consistent : img.Consistent
  bounded : img.Bounded
  notAdjusted : img.restartNPCount = 0

variable {c : ℕ}

theorem objectCount_lt (hb : img.Bounded) (h0 : img.restartNPCount = 0) {t : KeyType}
    (h : img.objectCount t oid = some c) : c < 2 ^ 32 := by
  unfold Image.objectCount at h
  split at h
  case h_1 i _ =>
    split at h
    · cases h
    · obtain rfl := Option.some.inj h
      split_ifs
      · exact (hb.node i).2
      · exact (hb.node i).1
  case h_2 =>
    split at h
    case h_1 p hp =>
      split at h
      · obtain rfl := Option.some.inj h
        exact hb.page p (findPage_spec hp).1
      · cases h
    case h_2 =>
      split at h
      · obtain rfl := Option.some.inj h
        rw [h0]
        norm_num
      · cases h

theorem addCount_inj {a b : ℕ} (ha : a < 2 ^ 32) (hb : b < 2 ^ 32) :
    addCount a R = addCount b R ↔ a = b := by
  constructor
  · intro h
    have : a ≡ b [MOD 2 ^ 32] := Nat.ModEq.add_right_cancel' R h
    rwa [Nat.ModEq, Nat.mod_eq_of_lt ha, Nat.mod_eq_of_lt hb] at this
  · rintro rfl
    rfl

/-! ## The keys of non-persistent objects -/

/-- The keys from non-persistent nodes to non-persistent objects are as valid as they were. -/
def KeepsValidity (img img' : Image) : Prop :=
  ∀ i k, i < img.nNodes → k < nodeSize → (img.nodes i).isFree = false →
    (img.nodes i).oid < firstPersistentOID →
    ((img.nodes i).logicalKey k).isObjectKey = true →
    (∀ oid ∈ target ((img.nodes i).logicalKey k), nonPersistent oid) →
    (img'.Valid ((img'.nodes i).logicalKey k) ↔ img.Valid ((img.nodes i).logicalKey k))

theorem keepsValidity (I : Preloaded) (hR : R < 2 ^ 32) (h : Adjusted R I.img img') :
    KeepsValidity I.img img' := by
  intro i k hi hk hfree hnp hobj htarget
  -- The key in the slot has been adjusted.
  have hkey : (img'.nodes i).logicalKey k = adjustKey R ((I.img.nodes i).logicalKey k) := by
    have hv := congrArg (fun v => View.key v k) (h.view i hi)
    have hnot : ¬ ((I.img.view i).isFree || oidIsPersistent (I.img.view i).oid) = true := by
      have : ¬ firstPersistentOID ≤ (I.img.nodes i).oid := by omega
      simp [Image.view, Node.view, hfree, oidIsPersistent, this]
    simp only [adjustView, if_neg hnot, if_pos hk] at hv
    exact hv
  rw [hkey]
  have hbound := I.bounded.key i k
  generalize (I.img.nodes i).logicalKey k = key at hobj htarget hbound
  cases hbody : key.body with
  | unprep oid count =>
    have hcount := hbound oid count hbody
    cases hper : oidIsPersistent oid with
    | false =>
      have hadj : toAdjust key = true := by simp [toAdjust, hbody, hobj, hper]
      have hnew : (adjustKey R key).body = .unprep oid (addCount count R) ∧
          (adjustKey R key).keyType = key.keyType := by
        simp [adjustKey, if_pos hadj, bumpKey, hbody]
      unfold Image.Valid
      rw [hbody, hnew.1, hnew.2]
      simp only
      rw [h.objectCount_of_not_persistent I.notAdjusted hR _ hper]
      constructor
      · intro hv
        obtain ⟨c, hc, hcc⟩ := Option.map_eq_some_iff.1 hv
        rw [hc, (addCount_inj (objectCount_lt I.bounded I.notAdjusted hc) hcount).1 hcc]
      · intro hv
        rw [hv]
        rfl
    | true =>
      have hadj : ¬ toAdjust key = true := by simp [toAdjust, hbody, hper]
      rw [adjustKey, if_neg hadj]
      unfold Image.Valid
      rw [hbody]
      simp only
      rw [h.objectCount_of_persistent _ hper]
  | _ => simp [adjustKey, toAdjust, hbody, Image.Valid]

/-! ## The keys that were saved -/

/-- No key to a non-persistent object with a count up to `m` is valid. -/
def RevokesSaved (m : ℕ) (img : Image) : Prop :=
  ∀ key oid count, key.isObjectKey = true → key.body = .unprep oid count → nonPersistent oid →
    count ≤ m → ¬ img.Valid key

/-- No count of a non-persistent object gets to `2 ^ 32`, and the counts of physical pages are above
`m` already. -/
def RoomForCounts (m : ℕ) (img : Image) : Prop :=
  ∀ (key : Key) (oid count : ℕ), key.isObjectKey = true → img.objectCount key.keyType oid = some count →
    (oid < firstPersistentOID → count + (m + 1) < 2 ^ 32) ∧ (oidReservedPhysRange ≤ oid → m < count)

theorem lt_addCount_iff (hm : m < 2 ^ 32) (hc : c < 2 ^ 32) :
    m < addCount c (addCount m 1) ↔ c + (m + 1) < 2 ^ 32 := by
  unfold addCount
  rw [Nat.add_mod_mod]
  rcases Nat.lt_or_ge (c + (m + 1)) (2 ^ 32) with h | h
  · rw [Nat.mod_eq_of_lt h]
    omega
  · rw [Nat.mod_eq_sub_mod h, Nat.mod_eq_of_lt (by omega)]
    omega

theorem revokesSaved_iff (I : Preloaded) (hm : m < 2 ^ 32)
    (h : Adjusted (addCount m 1) I.img img') : RevokesSaved m img' ↔ RoomForCounts m I.img := by
  have hR : addCount m 1 < 2 ^ 32 := Nat.mod_lt _ (by norm_num)
  have hlow : ∀ {oid : ℕ}, oid < firstPersistentOID → oidIsPersistent oid = false := by
    intro oid ho
    simpa [oidIsPersistent] using ho
  have hhigh : ∀ {oid : ℕ}, oidReservedPhysRange ≤ oid → oidIsPersistent oid = true := by
    intro oid ho
    have : firstPersistentOID ≤ oidReservedPhysRange := by decide
    simpa [oidIsPersistent] using this.trans ho
  constructor
  · intro hrev key oid count hobj hcount
    -- A key with the count that the object has then is valid.
    have hvalid : ∀ c, img'.objectCount key.keyType oid = some c → nonPersistent oid → m < c := by
      intro c hc hnp
      by_contra hle
      exact hrev { key with body := .unprep oid c } oid c hobj rfl hnp (by omega) hc
    constructor
    · intro ho
      have := hvalid (addCount count (addCount m 1))
        (by rw [h.objectCount_of_not_persistent I.notAdjusted hR _ (hlow ho), hcount]; rfl) (.inl ho)
      exact (lt_addCount_iff hm (objectCount_lt I.bounded I.notAdjusted hcount)).1 this
    · intro ho
      exact hvalid count (by rw [h.objectCount_of_persistent _ (hhigh ho), hcount]) (.inr ho)
  · intro hroom key oid count hobj hbody hnp hle hv
    unfold Image.Valid at hv
    rw [hbody] at hv
    simp only at hv
    rcases hnp with ho | ho
    · rw [h.objectCount_of_not_persistent I.notAdjusted hR _ (hlow ho)] at hv
      obtain ⟨c, hc, rfl⟩ := Option.map_eq_some_iff.1 hv
      have hlt := (lt_addCount_iff hm (objectCount_lt I.bounded I.notAdjusted hc)).2
        ((hroom key oid c hobj hc).1 ho)
      omega
    · rw [h.objectCount_of_persistent _ (hhigh ho)] at hv
      have := (hroom key oid count hobj hv).2 ho
      omega

/-- What `AdjustNPCounts` is for. -/
def CountsAdjusted (I : Preloaded) (m : ℕ) : Prop :=
  ∃ img', adjustNPCounts m I.img = .ok img' ∧ KeepsValidity I.img img' ∧ RevokesSaved m img'

/-- A key of the type `t`, as it has been saved. -/
def savedKey (t : KeyType) (oid count : ℕ) : Key := ⟨t, 0, 0, .unprep oid count⟩

/-- Two nodes with keys to each other. -/
def linkedNodes : Preloaded where
  img := ⟨fun i => ⟨.unprepared, 5 + i % 2, 2 + i % 2, 0, fun _ => savedKey .node (6 - i % 2) (3 - i % 2)⟩, 2, [],
    3, 0, [(0, 256)]⟩
  consistent i regs sched addrSpace kn hi := by cases hi
  bounded := by
    refine ⟨fun i => ⟨?_, by norm_num⟩, by simp, fun i k oid count hk => ?_⟩
    · dsimp only
      omega
    · obtain ⟨-, rfl⟩ := KeyBody.unprep.inj hk
      omega
  notAdjusted := rfl

theorem roomForCounts_linkedNodes : RoomForCounts 3 linkedNodes.img := by
  intro key oid count _ hcount
  unfold Image.objectCount at hcount
  split at hcount
  case h_1 i hi =>
    obtain ⟨-, -, rfl⟩ := findNode_spec hi
    have hoid : (linkedNodes.img.nodes i).oid < 7 := show 5 + i % 2 < 7 by omega
    have halloc : (linkedNodes.img.nodes i).allocCount < 4 := show 2 + i % 2 < 4 by omega
    have hcall : (linkedNodes.img.nodes i).callCount = 0 := rfl
    have hphys : 7 ≤ oidReservedPhysRange := by decide
    split_ifs at hcount
    all_goals
      obtain rfl := Option.some.inj hcount
      omega
  case h_2 =>
    have hphys : firstPersistentOID ≤ oidReservedPhysRange := by decide
    rw [show linkedNodes.img.findPage oid = none from rfl] at hcount
    dsimp only at hcount
    split_ifs at hcount with hin
    obtain rfl := Option.some.inj hcount
    have hper : oidIsPersistent oid = false := by simpa using hin.1
    simp only [oidIsPersistent, decide_eq_false_iff_not] at hper
    exact ⟨fun _ => by norm_num [linkedNodes], fun hle => absurd (hphys.trans hle) hper⟩

/-- A node with this OID and these counts, and no keys. -/
def emptyNode (oid allocCount callCount : ℕ) : Node :=
  ⟨.unprepared, oid, allocCount, callCount, fun _ => .void⟩

/-- A page of device memory, as `objC_AddDevicePages` makes it. -/
def devicePage : Preloaded where
  img := ⟨fun _ => emptyNode 0 0 0, 0, [⟨.ptDevBlock, oidReservedPhysRange, 0⟩], 0, 0, []⟩
  consistent := by simp [Image.Consistent, emptyNode]
  bounded := ⟨by simp [emptyNode], by simp, by simp [emptyNode, Node.logicalKey, Key.void]⟩
  notAdjusted := rfl

/-- A node whose keys have been rescinded as often as its count allows. -/
def rescindedNode : Preloaded where
  img := ⟨fun _ => emptyNode 5 (2 ^ 32 - 1) 0, 1, [], 2 ^ 32 - 1, 0, [(0, 256)]⟩
  consistent := by simp [Image.Consistent, emptyNode]
  bounded := ⟨by simp [emptyNode], by simp, by simp [emptyNode, Node.logicalKey, Key.void]⟩
  notAdjusted := rfl

theorem not_countsAdjusted {I : Preloaded} (t : KeyType) (oid count : ℕ)
    (hobj : (savedKey t oid count).isObjectKey = true) (hnp : nonPersistent oid) (hle : count ≤ m)
    (hv : (adjustNPCounts m I.img).map (fun img' => decide (img'.Valid (savedKey t oid count))) =
      .ok true) : ¬ CountsAdjusted I m := by
  rintro ⟨img', hok, -, hrev⟩
  rw [hok] at hv
  have hvalid : img'.Valid (savedKey t oid count) := of_decide_eq_true (Except.ok.inj hv)
  exact hrev _ oid count hobj rfl hnp hle hvalid

end CapROS.Restart
