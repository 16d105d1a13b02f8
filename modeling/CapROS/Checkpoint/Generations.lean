import CapROS.Checkpoint.Basic

/-!
# The ring of generation headers

`unmigratedGenHdrLid` is a ring with the locations of the generation headers. From the working slot
on it has those of the generations before the working one, the newest first, back to the newest
migrated generation. A new header goes into the slot before the working one, which becomes the
working slot when the checkpoint is stabilized; the root gets the part of the ring from the new slot
on, and a restart copies it back to the beginning of the ring.

* `Admitted`: at most `MaxUnmigratedGenerations` generations are unmigrated when a header is written.
* `ringOk_run`: the slots of the ring, the roots, and `GetOldestNonRetiredGenLid`.
-/

namespace CapROS.Checkpoint

open LogDirectory
open ObjectCache (CkptState)

/-- When a generation header is written, at most `MaxUnmigratedGenerations` generations are
unmigrated, with the one that is being saved. -/
def Admitted (s : State) : Op → Prop
  | .checkpointStep _ _ => s.ckptState = .phase3 →
      s.workingGenerationNumber - s.migratedGeneration ≤ maxUnmigratedGenerations
  | _ => True

instance (s : State) : (op : Op) → Decidable (Admitted s op)
  | .checkpointStep _ _ => inferInstanceAs (Decidable (_ → _))
  | .record _ | .takeLog _ | .tick _ | .migrated _ | .declareDemarcationEvent | .ensureCheckpoint _
  | .endCkptRootWrite | .crash _ _ | .replay _ | .nextHeader => inferInstanceAs (Decidable True)

/-- The slot so many places after the working slot. -/
def slot (s : State) (k : ℕ) : ℕ := s.unmigratedGenHdrLid ((s.wkgUGHL + k) % ringSize)

/-- The first location of a generation. -/
def firstLidOf (s : State) (generation : ℕ) : ℕ :=
  if generation < s.workingGenerationNumber then (s.headers generation).firstLid
  else s.workingGenFirstLid

/-- The root has the locations of the headers of the unmigrated generations, the newest first, and of
the newest migrated one. -/
structure RootOk (headers : ℕ → GenerationHdr) (r : CkptRoot) : Prop where
  num_pos : 0 < r.numUnmigratedGenerations
  num_le : r.numUnmigratedGenerations ≤ maxUnmigratedGenerations
  num_lt : r.numUnmigratedGenerations < r.mostRecentGenerationNumber
  lids : ∀ i ≤ r.numUnmigratedGenerations,
    r.generations i = (headers (r.mostRecentGenerationNumber - i)).lastLid

/-- Each of the generations up to `n` begins after the header of the one before it. -/
def Consecutive (logWrapPoint : ℕ) (headers : ℕ → GenerationHdr) (n : ℕ) : Prop :=
  ∀ g, 1 ≤ g → g < n → (headers (g + 1)).firstLid = incrementLID logWrapPoint (headers g).lastLid

/-- The newest generation that is retired after the checkpoint, as far as is known. -/
def lowest (s : State) : ℕ :=
  if s.ckptState = .phase5 then s.nextRetiredGeneration else s.migratedGeneration

/-- What holds once the header of the working generation has been written. -/
structure HeaderWritten (logWrapPoint : ℕ) (s : State) : Prop where
  num_le : s.workingGenerationNumber - lowest s ≤ maxUnmigratedGenerations
  nextWkgUGHL : s.nextWkgUGHL = (s.wkgUGHL + maxUnmigratedGenerations) % ringSize
  header : s.unmigratedGenHdrLid s.nextWkgUGHL = (s.headers s.workingGenerationNumber).lastLid
  logCursor : s.logCursor = incrementLID logWrapPoint (s.headers s.workingGenerationNumber).lastLid
  firstLid : (s.headers s.workingGenerationNumber).firstLid = s.workingGenFirstLid

/-- The invariant after the restart. -/
structure Running (logWrapPoint : ℕ) (s : State) : Prop where
  wkg_lt : s.wkgUGHL < ringSize
  lowest_pos : 1 ≤ lowest s
  lowest_le : lowest s ≤ s.migratedGeneration
  migrated_lt : s.migratedGeneration < s.workingGenerationNumber
  num_le : s.workingGenerationNumber - 1 - lowest s ≤ maxUnmigratedGenerations
  slots : ∀ k ≤ s.workingGenerationNumber - 1 - lowest s,
    slot s k = (s.headers (s.workingGenerationNumber - 1 - k)).lastLid
  retired_le : s.retiredGeneration ≤ lowest s
  oldest : s.oldestNonRetiredGenLid = firstLidOf s (s.retiredGeneration + 1)
  first : s.workingGenFirstLid =
    incrementLID logWrapPoint (s.headers (s.workingGenerationNumber - 1)).lastLid
  consecutive : Consecutive logWrapPoint s.headers (s.workingGenerationNumber - 1)
  written : s.ckptState = .phase4 ∨ s.ckptState = .phase5 → HeaderWritten logWrapPoint s
  roots : ∀ b r, s.roots b = some r → r = formattedRoot ∨
    RootOk s.headers r ∧ r.mostRecentGenerationNumber < s.workingGenerationNumber ∨
    RootOk s.headers r ∧ r.mostRecentGenerationNumber = s.workingGenerationNumber ∧
      s.ckptState = .phase5
  inFlight : ∀ r, s.rootWrite = some r → s.ckptState = .phase5 ∧ RootOk s.headers r ∧
    r.mostRecentGenerationNumber = s.workingGenerationNumber ∧
    r.numUnmigratedGenerations = s.workingGenerationNumber - s.nextRetiredGeneration
  nextRetired : s.ckptState ≠ .notActive → s.ckptState ≠ .phase5 → s.nextRetiredGeneration = 0

/-- The invariant during the restart. -/
structure Replaying (logWrapPoint : ℕ) (s : State) : Prop where
  ckptState : s.ckptState = .notActive
  wkg : s.wkgUGHL = 0
  root : RootOk s.headers s.curRoot
  working : s.workingGenerationNumber = s.curRoot.mostRecentGenerationNumber
  consecutive : Consecutive logWrapPoint s.headers s.workingGenerationNumber
  roots : ∀ b r, s.roots b = some r → r = formattedRoot ∨
    RootOk s.headers r ∧ r.mostRecentGenerationNumber ≤ s.workingGenerationNumber
  noWrite : s.rootWrite = none

def Inv (logWrapPoint : ℕ) (s : State) : Prop :=
  if s.running then Running logWrapPoint s else Replaying logWrapPoint s

variable {logWrapPoint numLogDirEntries : ℕ} {s s' : State} {op : Op}

/-! ## The ring -/

variable {n stale : ℕ}

theorem wrapCircularIndex_eq {a : ℕ} (h : a < n + n) : wrapCircularIndex a n = a % n := by
  unfold wrapCircularIndex
  split_ifs with hle
  · rw [Nat.mod_eq_sub_mod hle, Nat.mod_eq_of_lt (by omega)]
  · rw [Nat.mod_eq_of_lt (by omega)]

theorem iterate_wrapCircularIndex {c : ℕ} (hc : c < n) (i : ℕ) :
    (fun c => wrapCircularIndex (c + 1) n)^[i] c = (c + i) % n := by
  induction i with
  | zero => rw [Function.iterate_zero_apply, Nat.add_zero, Nat.mod_eq_of_lt hc]
  | succ i ih =>
    have hlt := Nat.mod_lt (c + i) (Nat.zero_lt_of_lt hc)
    rw [Function.iterate_succ_apply', ih, wrapCircularIndex_eq (by omega), Nat.mod_add_mod,
      Nat.add_assoc]

theorem HeaderWritten.next_slot (h : HeaderWritten logWrapPoint s) (k : ℕ) :
    s.unmigratedGenHdrLid ((s.nextWkgUGHL + (k + 1)) % ringSize) = slot s k := by
  rw [slot, h.nextWkgUGHL, Nat.mod_add_mod]
  congr 1
  rw [show s.wkgUGHL + maxUnmigratedGenerations + (k + 1) = s.wkgUGHL + k + ringSize by
    rw [ringSize]; omega, Nat.add_mod_right]

theorem HeaderWritten.next_lt (h : HeaderWritten logWrapPoint s) : s.nextWkgUGHL < ringSize := by
  rw [h.nextWkgUGHL]
  exact Nat.mod_lt _ (by decide)

theorem Running.next_slots (h : Running logWrapPoint s) (hw : HeaderWritten logWrapPoint s) {k : ℕ}
    (hk : k ≤ s.workingGenerationNumber - lowest s) :
    s.unmigratedGenHdrLid ((s.nextWkgUGHL + k) % ringSize) =
      (s.headers (s.workingGenerationNumber - k)).lastLid := by
  cases k with
  | zero => rw [Nat.add_zero, Nat.mod_eq_of_lt hw.next_lt, hw.header, Nat.sub_zero]
  | succ k =>
    rw [hw.next_slot, h.slots k (by omega), Nat.sub_sub, Nat.add_comm 1 k]

theorem Running.oldest_eq (h : Running logWrapPoint s) {r : ℕ} (hr : lowest s ≤ r)
    (hlt : r < s.workingGenerationNumber) :
    getOldestNonRetiredGenLid logWrapPoint s r = firstLidOf s (r + 1) := by
  have hpos := h.lowest_pos
  have hnum := h.num_le
  have hwkg := h.wkg_lt
  have hslot := h.slots (s.workingGenerationNumber - 1 - r) (by omega)
  rw [slot] at hslot
  simp only [getOldestNonRetiredGenLid]
  rw [wrapCircularIndex_eq (by rw [ringSize] at *; omega), hslot,
    show s.workingGenerationNumber - 1 - (s.workingGenerationNumber - 1 - r) = r by omega, firstLidOf]
  split_ifs with hlt'
  · rw [h.consecutive r (by omega) (by omega)]
  · rw [h.first, show s.workingGenerationNumber - 1 = r by omega]

/-! ## The end of a checkpoint or a restart -/

theorem call_ok {α : Type} {x : Except Failure α} {a : α} (h : call x = .ok a) : x = .ok a := by
  cases x with
  | ok b =>
    cases h
    rfl
  | error f => cases h

variable {p : Prop}

theorem check_pos [Decidable p] (h : p) : check p = .ok () := if_pos h

theorem check_neg [Decidable p] (h : ¬p) : check p = .error (.halt .assertion) := if_neg h

theorem postCheckpointProcessing_ok (h : postCheckpointProcessing logWrapPoint s = .ok s') :
    s.nextRetiredGeneration ≠ 0 ∧ ∃ dir, generationRetired s.dir s.nextRetiredGeneration = .ok dir ∧
      s' = { s with
        dir := dir
        retiredGeneration := s.nextRetiredGeneration
        workingGenerationNumber := s.workingGenerationNumber + 1
        oldestNonRetiredGenLid := incrementLID logWrapPoint (s.unmigratedGenHdrLid
          (wrapCircularIndex (s.wkgUGHL + (s.workingGenerationNumber - s.nextRetiredGeneration))
            ringSize))
        workingGenFirstLid := s.logCursor } := by
  unfold postCheckpointProcessing at h
  by_cases h0 : s.nextRetiredGeneration ≠ 0
  · rw [check_pos h0, ok_bind] at h
    simp only at h
    cases hdir : generationRetired s.dir s.nextRetiredGeneration with
    | error f =>
      rw [hdir] at h
      cases h
    | ok dir =>
      rw [hdir] at h
      cases h
      refine ⟨h0, dir, rfl, ?_⟩
      simp [getOldestNonRetiredGenLid, getNextRetiredGeneration, h0]
  · rw [check_neg h0] at h
    cases h

theorem running_post (h : postCheckpointProcessing logWrapPoint s = .ok s') (hwkg : s.wkgUGHL < ringSize)
    (hle : s.nextRetiredGeneration ≤ s.migratedGeneration)
    (hlt : s.migratedGeneration ≤ s.workingGenerationNumber)
    (hnum : s.workingGenerationNumber - s.nextRetiredGeneration ≤ maxUnmigratedGenerations)
    (hslots : ∀ k ≤ s.workingGenerationNumber - s.nextRetiredGeneration,
      slot s k = (s.headers (s.workingGenerationNumber - k)).lastLid)
    (hcursor : s.logCursor =
      incrementLID logWrapPoint (s.headers s.workingGenerationNumber).lastLid)
    (hcons : Consecutive logWrapPoint s.headers s.workingGenerationNumber)
    (hroots : ∀ b r, s.roots b = some r → r = formattedRoot ∨
      RootOk s.headers r ∧ r.mostRecentGenerationNumber ≤ s.workingGenerationNumber)
    (hwrite : s.rootWrite = none) (p : RestartPhase) :
    Running logWrapPoint { s' with ckptState := .notActive, restartPhase := p } := by
  obtain ⟨h0, dir, -, rfl⟩ := postCheckpointProcessing_ok h
  have hlast := hslots (s.workingGenerationNumber - s.nextRetiredGeneration) le_rfl
  rw [slot] at hlast
  refine ⟨hwkg, ?_, ?_, ?_, ?_, ?_, ?_, ?_, ?_, ?_, ?_, ?_, ?_, fun hc => absurd rfl hc⟩
  · show 1 ≤ s.migratedGeneration
    omega
  · exact le_rfl
  · show s.migratedGeneration < s.workingGenerationNumber + 1
    omega
  · show s.workingGenerationNumber + 1 - 1 - s.migratedGeneration ≤ maxUnmigratedGenerations
    omega
  · intro k hk
    have hk : k ≤ s.workingGenerationNumber + 1 - 1 - s.migratedGeneration := hk
    exact hslots k (by omega)
  · exact hle
  · -- the last slot has the header of the newest retired generation
    simp only [firstLidOf]
    rw [wrapCircularIndex_eq (by rw [ringSize] at *; omega), hlast,
      show s.workingGenerationNumber - (s.workingGenerationNumber - s.nextRetiredGeneration) =
        s.nextRetiredGeneration by omega]
    split_ifs with hlt'
    · rw [hcons s.nextRetiredGeneration (by omega) (by omega)]
    · rw [hcursor, show s.nextRetiredGeneration = s.workingGenerationNumber by omega]
  · exact hcursor
  · exact hcons
  · rintro (hc | hc) <;> cases hc
  · intro b r hr
    rcases hroots b r hr with hf | ⟨hok, hle⟩
    · exact .inl hf
    · exact .inr (.inl ⟨hok, Nat.lt_succ_of_le hle⟩)
  · intro r hr
    have hr : s.rootWrite = some r := hr
    rw [hwrite] at hr
    cases hr

theorem running_finishRestart (h : finishRestart logWrapPoint s = .ok s')
    (hck : s.ckptState = .notActive) (hwkg : s.wkgUGHL = 0)
    (hlt : s.migratedGeneration ≤ s.workingGenerationNumber)
    (hnum : s.workingGenerationNumber - s.migratedGeneration ≤ maxUnmigratedGenerations)
    (hlids : ∀ k ≤ s.workingGenerationNumber - s.migratedGeneration,
      s.curRoot.generations k = (s.headers (s.workingGenerationNumber - k)).lastLid)
    (hcons : Consecutive logWrapPoint s.headers s.workingGenerationNumber)
    (hroots : ∀ b r, s.roots b = some r → r = formattedRoot ∨
      RootOk s.headers r ∧ r.mostRecentGenerationNumber ≤ s.workingGenerationNumber)
    (hwrite : s.rootWrite = none) : s'.running = true ∧ Running logWrapPoint s' := by
  obtain ⟨s₁, hpost, h⟩ := of_bind_ok h
  cases h
  have hck₁ : s₁.ckptState = .notActive := by
    obtain ⟨-, dir, -, rfl⟩ := postCheckpointProcessing_ok hpost
    exact hck
  refine ⟨rfl, ?_⟩
  have hrun := running_post hpost (by simp only [hwkg]; decide) le_rfl hlt hnum
    (fun k hk => ?_) (by simp only [hlids 0 (Nat.zero_le _), Nat.sub_zero]) hcons hroots hwrite .done
  · rw [← hck₁] at hrun
    exact hrun
  · have hk : k ≤ s.workingGenerationNumber - s.migratedGeneration := hk
    simp only [slot, hwkg, Nat.zero_add]
    rw [Nat.mod_eq_of_lt (by rw [ringSize]; omega)]
    exact hlids k hk

theorem inv_of_running (hr : s.running = true) (h : Running logWrapPoint s) : Inv logWrapPoint s := by
  rw [Inv, if_pos hr]
  exact h

theorem inv_of_replaying (hr : s.running = false) (h : Replaying logWrapPoint s) :
    Inv logWrapPoint s := by
  rw [Inv, if_neg (by rw [hr]; exact Bool.false_ne_true)]
  exact h

theorem restartPhase_done (hr : s.running = true) : s.restartPhase = .done := by
  unfold State.running at hr
  split at hr
  · assumption
  · cases hr

theorem Running.still (hs : Running logWrapPoint s) (dir : Directory) (now : ℕ) :
    Running logWrapPoint { s with dir := dir, now := now } := by
  refine ⟨hs.wkg_lt, hs.lowest_pos, hs.lowest_le, hs.migrated_lt, hs.num_le, hs.slots, hs.retired_le,
    hs.oldest, hs.first, hs.consecutive, fun hc => ?_, hs.roots, hs.inFlight, hs.nextRetired⟩
  have hw := hs.written hc
  exact ⟨hw.num_le, hw.nextWkgUGHL, hw.header, hw.logCursor, hw.firstLid⟩

theorem inv_start (h : finishRestart logWrapPoint (preloaded numLogDirEntries) = .ok s) :
    Inv logWrapPoint s := by
  have hlids : ∀ k ≤ 1 - 1, (preloaded numLogDirEntries).curRoot.generations k =
      ((preloaded numLogDirEntries).headers (1 - k)).lastLid := by
    intro k hk
    obtain rfl : k = 0 := Nat.le_zero.1 hk
    rfl
  have hcons : Consecutive logWrapPoint (preloaded numLogDirEntries).headers 1 :=
    fun g hg hlt => absurd hlt (Nat.not_lt.2 hg)
  obtain ⟨hrun, hs⟩ := running_finishRestart h rfl rfl le_rfl (by show 1 - 1 ≤ 20; decide) hlids hcons
    (fun b r hr => .inl (Option.some.inj hr).symm) rfl
  exact inv_of_running hrun hs

/-! ## The restart -/

variable {b : Bool} {r : CkptRoot}

theorem findRoot_ok {roots : Bool → Option CkptRoot}
    (h : findRoot roots = .ok (b, r)) : roots b = some r ∧ ∀ b' r', roots b' = some r' →
      r'.mostRecentGenerationNumber ≤ r.mostRecentGenerationNumber := by
  unfold findRoot at h
  split at h
  · cases h
  · rename_i h₀ h₁
    cases h
    refine ⟨h₁, fun b' r' hr' => ?_⟩
    cases b' with
    | false =>
      rw [h₀] at hr'
      cases hr'
    | true =>
      rw [h₁] at hr'
      cases hr'
      exact le_rfl
  · rename_i h₀ h₁
    cases h
    refine ⟨h₀, fun b' r' hr' => ?_⟩
    cases b' with
    | false =>
      rw [h₀] at hr'
      cases hr'
      exact le_rfl
    | true =>
      rw [h₁] at hr'
      cases hr'
  · rename_i r₀ r₁ h₀ h₁
    split_ifs at h with hlt
    · cases h
      refine ⟨h₀, fun b' r' hr' => ?_⟩
      cases b' with
      | false =>
        rw [h₀] at hr'
        cases hr'
        exact le_rfl
      | true =>
        rw [h₁] at hr'
        cases hr'
        exact hlt.le
    · cases h
      refine ⟨h₁, fun b' r' hr' => ?_⟩
      cases b' with
      | false =>
        rw [h₀] at hr'
        cases hr'
        exact Nat.not_lt.1 hlt
      | true =>
        rw [h₁] at hr'
        cases hr'
        exact le_rfl

variable {fate : Fate}

/-- The roots on the disk after a crash are those there were, and the one that was being written. -/
theorem rootsAfter_mem (h : rootsAfter fate s b = some r) :
    s.roots b = some r ∨ s.rootWrite = some r := by
  cases hw : s.rootWrite with
  | none =>
    have hroots : rootsAfter fate s = s.roots := by
      unfold rootsAfter
      rw [hw]
      cases fate <;> rfl
    rw [hroots] at h
    exact .inl h
  | some r' =>
    unfold rootsAfter at h
    rw [hw] at h
    by_cases hb : b = s.currentRoot
    · subst hb
      cases fate with
      | lost => exact .inl h
      | torn => simp at h
      | written => exact .inr (by simpa using h)
    · cases fate <;> simp [hb] at h <;> exact .inl h

theorem Inv.roots (h : Inv logWrapPoint s)
    (hr : rootsAfter fate s b = some r) :
    r = formattedRoot ∨
      RootOk s.headers r ∧ Consecutive logWrapPoint s.headers r.mostRecentGenerationNumber := by
  unfold Inv at h
  split_ifs at h with hrun
  · have hnew : s.ckptState = .phase5 →
        Consecutive logWrapPoint s.headers s.workingGenerationNumber := by
      intro hck g hg hlt
      have hw := h.written (.inr hck)
      by_cases hg' : g + 1 = s.workingGenerationNumber
      · rw [hg', hw.firstLid, h.first, show s.workingGenerationNumber - 1 = g by omega]
      · exact h.consecutive g hg (by omega)
    rcases rootsAfter_mem hr with hr | hr
    · rcases h.roots b r hr with hf | ⟨hok, hlt⟩ | ⟨hok, heq, hck⟩
      · exact .inl hf
      · exact .inr ⟨hok, fun g hg hlt' => h.consecutive g hg (by omega)⟩
      · rw [heq]
        exact .inr ⟨hok, hnew hck⟩
    · obtain ⟨hck, hok, heq, -⟩ := h.inFlight r hr
      rw [heq]
      exact .inr ⟨hok, hnew hck⟩
  · rcases rootsAfter_mem hr with hr | hr
    · rcases h.roots b r hr with hf | ⟨hok, hle⟩
      · exact .inl hf
      · exact .inr ⟨hok, fun g hg hlt => h.consecutive g hg (by omega)⟩
    · rw [h.noWrite] at hr
      cases hr

theorem replay_ok {i : ℕ} (h : Checkpoint.replay i s = .ok s') :
    s' = s ∨ ∃ genIndex left od dir, s.restartPhase = .replaying genIndex left ∧
      recordLocation s.dir od (s.workingGenerationNumber - genIndex) = .ok dir ∧
      s' = { s with dir := dir, restartPhase := .replaying genIndex (left.eraseIdx i) } := by
  unfold Checkpoint.replay at h
  split at h
  · cases h
    exact .inl rfl
  · rename_i genIndex left hphase
    split at h
    · cases h
      exact .inl rfl
    · rename_i od _
      obtain ⟨dir, hcall, h⟩ := of_bind_ok h
      cases h
      exact .inr ⟨genIndex, left, od, dir, hphase, call_ok hcall, rfl⟩

theorem readGenHdr_ok {genIndex : ℕ} (h : readGenHdr genIndex s = .ok s') :
    s' = { s with
      restartPhase := .replaying genIndex (s.headers (s.workingGenerationNumber - genIndex)).objectDir } := by
  unfold readGenHdr at h
  simp only at h
  by_cases h₁ : s.curRoot.generations genIndex ≠ unusedLid
  · rw [check_pos h₁, ok_bind] at h
    by_cases h₂ : (s.headers (s.workingGenerationNumber - genIndex)).lastLid =
        s.curRoot.generations genIndex
    · rw [check_pos h₂, ok_bind] at h
      cases h
      rfl
    · rw [check_neg h₂] at h
      cases h
  · rw [check_neg h₁] at h
    cases h

theorem replaying_crash (hinv : Inv logWrapPoint s)
    (h : crash fate n s = .ok s') : s'.running = false ∧ Replaying logWrapPoint s' := by
  unfold crash at h
  simp only at h
  obtain ⟨⟨b, r⟩, hroot, h⟩ := of_bind_ok h
  simp only at h
  obtain ⟨hb, hmax⟩ := findRoot_ok hroot
  by_cases hnum : 0 < r.numUnmigratedGenerations ∧
      r.numUnmigratedGenerations ≤ maxUnmigratedGenerations
  · rw [check_pos hnum, ok_bind] at h
    obtain rfl := readGenHdr_ok h
    rcases hinv.roots hb with rfl | ⟨hok, hcons⟩
    · exact absurd hnum.1 (by decide)
    · refine ⟨rfl, rfl, rfl, hok, rfl, hcons, fun b' r' hr' => ?_, rfl⟩
      rcases hinv.roots hr' with hf | ⟨hok', -⟩
      · exact .inl hf
      · exact .inr ⟨hok', hmax b' r' hr'⟩
  · rw [check_neg hnum] at h
    cases h

theorem inv_nextHeader (hr : s.running = false) (h : Replaying logWrapPoint s)
    (hrun : nextHeader logWrapPoint s = .ok s') : Inv logWrapPoint s' := by
  unfold nextHeader at hrun
  split at hrun
  · obtain rfl := readGenHdr_ok hrun
    exact inv_of_replaying rfl
      ⟨h.ckptState, h.wkg, h.root, h.working, h.consecutive, h.roots, h.noWrite⟩
  · have hnum := h.root.num_lt
    have hsub : s.workingGenerationNumber -
        (s.curRoot.mostRecentGenerationNumber - s.curRoot.numUnmigratedGenerations) =
          s.curRoot.numUnmigratedGenerations := by
      rw [h.working]
      omega
    obtain ⟨hrun', hs⟩ := running_finishRestart hrun h.ckptState h.wkg
      (by simp only [h.working]; omega) (by simp only [hsub]; exact h.root.num_le)
      (by simp only [hsub]; rw [h.working]; exact h.root.lids) h.consecutive h.roots h.noWrite
    exact inv_of_running hrun' hs
  · cases hrun
    exact inv_of_replaying hr h

/-! ## The phases of a checkpoint -/

theorem Running.lowest_eq (hck : s.ckptState ≠ .phase5) : lowest s = s.migratedGeneration := if_neg hck

/-- Before the header is written, a phase of the checkpoint changes nothing that the invariant is
about. -/
theorem Running.early (h : Running logWrapPoint s) (hck : s.ckptState ≠ .phase5) {c : CkptState}
    (hc : c ≠ .phase4 ∧ c ≠ .phase5) (dir : Directory) (ods : List ObjectDescriptor)
    (t t' : ℕ) (hn : n = 0) :
    Running logWrapPoint { s with
      dir := dir, genHdrObjectDir := ods, nextRetiredGeneration := n, monotonicTimeOfLastDemarc := t
      genHdrTime := t', ckptState := c } := by
  have hlow : lowest { s with
      dir := dir, genHdrObjectDir := ods, nextRetiredGeneration := n, monotonicTimeOfLastDemarc := t
      genHdrTime := t', ckptState := c } = lowest s := by
    rw [Running.lowest_eq hck, Running.lowest_eq hc.2]
  refine ⟨h.wkg_lt, ?_, ?_, h.migrated_lt, ?_, ?_, ?_, h.oldest, h.first, h.consecutive, ?_, ?_, ?_,
    fun _ _ => hn⟩
  · rw [hlow]
    exact h.lowest_pos
  · rw [hlow]
    exact h.lowest_le
  · rw [hlow]
    exact h.num_le
  · rw [hlow]
    exact h.slots
  · rw [hlow]
    exact h.retired_le
  · rintro (he | he)
    · exact absurd he hc.1
    · exact absurd he hc.2
  · intro b r hr
    rcases h.roots b r hr with hf | hlt | ⟨-, -, he⟩
    · exact .inl hf
    · exact .inr (.inl hlt)
    · exact absurd he hck
  · intro r hr
    exact absurd (h.inFlight r hr).1 hck

section Running

variable (h : Running logWrapPoint s)
include h

theorem Running.phase3 (hck : s.ckptState = .phase3) (dirFrames : ℕ)
    (hadm : s.workingGenerationNumber - s.migratedGeneration ≤ maxUnmigratedGenerations) :
    Running logWrapPoint (doPhase3Work logWrapPoint dirFrames s) := by
  have h5 : s.ckptState ≠ .phase5 := by rw [hck]; decide
  have hlow : lowest s = s.migratedGeneration := Running.lowest_eq h5
  have hmig := h.migrated_lt
  have hwkg := h.wkg_lt
  have hnext : (if s.wkgUGHL = 0 then ringSize else s.wkgUGHL) - 1 =
      (s.wkgUGHL + maxUnmigratedGenerations) % ringSize := by
    split_ifs with h0
    · rw [h0]
      decide
    · rw [show s.wkgUGHL + maxUnmigratedGenerations = s.wkgUGHL - 1 + ringSize by
        rw [ringSize]; omega, Nat.add_mod_right, Nat.mod_eq_of_lt (by omega)]
  -- the slot that is overwritten is none of those in use
  have hslot : ∀ k, k < maxUnmigratedGenerations →
      (s.wkgUGHL + k) % ringSize ≠ (s.wkgUGHL + maxUnmigratedGenerations) % ringSize := by
    intro k hk he
    rw [ringSize, maxUnmigratedGenerations] at *
    omega
  have hhdr : ∀ g, g < s.workingGenerationNumber →
      (doPhase3Work logWrapPoint dirFrames s).headers g = s.headers g := by
    intro g hg
    simp [doPhase3Work, hg.ne]
  have hroot : ∀ r, RootOk s.headers r → r.mostRecentGenerationNumber < s.workingGenerationNumber →
      RootOk (doPhase3Work logWrapPoint dirFrames s).headers r := by
    intro r hr hlt
    refine ⟨hr.num_pos, hr.num_le, hr.num_lt, fun i hi => ?_⟩
    rw [hhdr _ (by omega)]
    exact hr.lids i hi
  have hlow' : lowest (doPhase3Work logWrapPoint dirFrames s) = s.migratedGeneration :=
    if_neg (by simp [doPhase3Work])
  refine ⟨hwkg, ?_, ?_, hmig, ?_, ?_, ?_, ?_, ?_, ?_, ?_, ?_, ?_,
    fun _ _ => h.nextRetired (by rw [hck]; decide) h5⟩
  · rw [hlow', ← hlow]
    exact h.lowest_pos
  · rw [hlow']
    exact le_rfl
  · rw [hlow']
    show s.workingGenerationNumber - 1 - s.migratedGeneration ≤ maxUnmigratedGenerations
    omega
  · intro k hk
    have hk : k ≤ s.workingGenerationNumber - 1 - s.migratedGeneration := hk
    have hold := h.slots k (by rw [hlow]; exact hk)
    show slot (doPhase3Work logWrapPoint dirFrames s) k =
      ((doPhase3Work logWrapPoint dirFrames s).headers (s.workingGenerationNumber - 1 - k)).lastLid
    rw [hhdr _ (by omega), ← hold]
    simp only [slot, doPhase3Work, hnext]
    rw [Function.update_of_ne (hslot k (by omega))]
  · rw [hlow', ← hlow]
    exact h.retired_le
  · have := h.retired_le
    have hold := h.oldest
    simp only [firstLidOf] at hold ⊢
    show s.oldestNonRetiredGenLid = if s.retiredGeneration + 1 < s.workingGenerationNumber then
      ((doPhase3Work logWrapPoint dirFrames s).headers (s.retiredGeneration + 1)).firstLid
      else s.workingGenFirstLid
    rw [hold]
    split_ifs with hlt
    · rw [hhdr _ hlt]
    · rfl
  · show s.workingGenFirstLid = incrementLID logWrapPoint
      ((doPhase3Work logWrapPoint dirFrames s).headers (s.workingGenerationNumber - 1)).lastLid
    rw [hhdr _ (by omega)]
    exact h.first
  · intro g hg hlt
    have hlt : g < s.workingGenerationNumber - 1 := hlt
    rw [hhdr _ (by omega), hhdr _ (by omega)]
    exact h.consecutive g hg hlt
  · intro _
    refine ⟨?_, hnext, ?_, ?_, ?_⟩
    · rw [hlow']
      exact hadm
    · simp [doPhase3Work]
    · simp [doPhase3Work]
    · simp [doPhase3Work]
  · intro b r hr
    rcases h.roots b r hr with hf | ⟨hok, hlt⟩ | ⟨-, -, he⟩
    · exact .inl hf
    · exact .inr (.inl ⟨hroot r hok hlt, hlt⟩)
    · exact absurd he h5
  · intro r hr
    exact absurd (h.inFlight r hr).1 h5

theorem Running.phase4 (hck : s.ckptState = .phase4)
    (hrun : doPhase4Work stale s = .ok s') : Running logWrapPoint s' := by
  have h5 : s.ckptState ≠ .phase5 := by rw [hck]; decide
  have hlow : lowest s = s.migratedGeneration := Running.lowest_eq h5
  have hw := h.written (.inl hck)
  have hmig := h.migrated_lt
  have hpos := h.lowest_pos
  have hnum := hw.num_le
  rw [hlow] at hpos hnum
  unfold doPhase4Work at hrun
  simp only at hrun
  rw [if_neg (by rw [ringSize]; omega)] at hrun
  cases hrun
  refine ⟨h.wkg_lt, hpos, le_rfl, hmig, ?_, ?_, ?_, h.oldest, h.first, h.consecutive, ?_, ?_, ?_,
    fun _ hc => absurd rfl hc⟩
  · show s.workingGenerationNumber - 1 - s.migratedGeneration ≤ maxUnmigratedGenerations
    omega
  · intro k hk
    have hk : k ≤ s.workingGenerationNumber - 1 - s.migratedGeneration := hk
    exact h.slots k (by rw [hlow]; exact hk)
  · have hret := h.retired_le
    rw [hlow] at hret
    exact hret
  · intro _
    exact ⟨hnum, hw.nextWkgUGHL, hw.header, hw.logCursor, hw.firstLid⟩
  · intro b r hr
    rcases h.roots b r hr with hf | hlt | ⟨-, -, he⟩
    · exact .inl hf
    · exact .inr (.inl hlt)
    · exact absurd he h5
  · intro r hr
    obtain rfl := Option.some.inj hr
    refine ⟨rfl, ⟨?_, hnum, ?_, ?_⟩, rfl, rfl⟩
    · show 0 < s.workingGenerationNumber - s.migratedGeneration
      omega
    · show s.workingGenerationNumber - s.migratedGeneration < s.workingGenerationNumber
      omega
    · intro i hi
      have hi : i ≤ s.workingGenerationNumber - s.migratedGeneration := hi
      simp only [rootGenerations]
      rw [if_pos (by omega), iterate_wrapCircularIndex hw.next_lt, h.next_slots hw (by rw [hlow]; exact hi)]

theorem Running.endCkptRootWrite :
    Running logWrapPoint (endCkptRootWrite s) := by
  unfold Checkpoint.endCkptRootWrite
  split
  · exact h
  · rename_i r hr
    obtain ⟨hck, hok, heq, -⟩ := h.inFlight r hr
    refine ⟨h.wkg_lt, h.lowest_pos, h.lowest_le, h.migrated_lt, h.num_le, h.slots, h.retired_le,
      h.oldest, h.first, h.consecutive, ?_, ?_, ?_, h.nextRetired⟩
    · intro hc
      have hw := h.written hc
      exact ⟨hw.num_le, hw.nextWkgUGHL, hw.header, hw.logCursor, hw.firstLid⟩
    · intro b r' hr'
      by_cases hb : b = s.currentRoot
      · have hr' : Function.update s.roots s.currentRoot (some r) b = some r' := hr'
        rw [hb, Function.update_self] at hr'
        obtain rfl := Option.some.inj hr'
        exact .inr (.inr ⟨hok, heq, hck⟩)
      · have hr' : Function.update s.roots s.currentRoot (some r) b = some r' := hr'
        rw [Function.update_of_ne hb] at hr'
        exact h.roots b r' hr'
    · intro r' hr'
      cases hr'

theorem Running.phase5 (hrunning : s.running = true)
    (hck : s.ckptState = .phase5) (hrun : doPhase5Work logWrapPoint s = .ok s') :
    s'.running = true ∧ Running logWrapPoint s' := by
  unfold doPhase5Work at hrun
  split at hrun
  · cases hrun
    exact ⟨hrunning, h⟩
  · rename_i hnone
    have hw := h.written (.inr hck)
    have hlow : lowest s = s.nextRetiredGeneration := if_pos hck
    have hmig := h.migrated_lt
    have hle := h.lowest_le
    have hnum := hw.num_le
    rw [hlow] at hle hnum
    obtain ⟨s₁, hpost, hrun⟩ := of_bind_ok hrun
    cases hrun
    have hphase : s₁.restartPhase = s.restartPhase := by
      obtain ⟨-, dir, -, rfl⟩ := postCheckpointProcessing_ok hpost
      rfl
    refine ⟨?_, ?_⟩
    · have : ({ s₁ with ckptState := CkptState.notActive } : State).running = s.running := by
        simp only [State.running, hphase]
      rw [this, hrunning]
    · refine running_post hpost hw.next_lt hle hmig.le hnum (fun k hk => ?_) hw.logCursor ?_ ?_
        hnone s₁.restartPhase
      · exact h.next_slots hw (by rw [hlow]; exact hk)
      · intro g hg hlt
        have hlt : g < s.workingGenerationNumber := hlt
        by_cases hg' : g + 1 = s.workingGenerationNumber
        · show (s.headers (g + 1)).firstLid = _
          rw [hg', hw.firstLid, h.first, show s.workingGenerationNumber - 1 = g by omega]
        · exact h.consecutive g hg (by omega)
      · intro b r hr
        rcases h.roots b r hr with hf | ⟨hok, hlt⟩ | ⟨hok, heq, -⟩
        · exact .inl hf
        · exact .inr ⟨hok, hlt.le⟩
        · exact .inr ⟨hok, heq.le⟩

theorem Running.checkpointStep (hrunning : s.running = true)
    {dirFrames : ℕ} (hadm : Admitted s (.checkpointStep dirFrames stale))
    (hrun : checkpointStep logWrapPoint dirFrames stale s = .ok s') :
    s'.running = true ∧ Running logWrapPoint s' := by
  unfold Checkpoint.checkpointStep at hrun
  split at hrun
  · cases hrun
    exact ⟨hrunning, h⟩
  · rename_i hck
    cases hrun
    exact ⟨hrunning, h.early (by rw [hck]; decide) (by decide) _ _ _ _
      (h.nextRetired (by rw [hck]; decide) (by rw [hck]; decide))⟩
  · rename_i hck
    obtain ⟨r, hcall, hrun⟩ := of_bind_ok hrun
    cases hrun
    exact ⟨hrunning, h.early (by rw [hck]; decide) (by decide) _ _ _ _
      (h.nextRetired (by rw [hck]; decide) (by rw [hck]; decide))⟩
  · rename_i hck
    cases hrun
    exact ⟨hrunning, h.phase3 hck dirFrames (hadm hck)⟩
  · rename_i hck
    refine ⟨?_, h.phase4 hck hrun⟩
    unfold doPhase4Work at hrun
    simp only at hrun
    split_ifs at hrun
    cases hrun
    exact hrunning
  · rename_i hck
    exact h.phase5 hrunning hck hrun

theorem Running.migrated {g : ℕ} (hle : s.migratedGeneration ≤ g)
    (hlt : g < s.workingGenerationNumber) :
    Running logWrapPoint { s with migratedGeneration := g } := by
  have hlow : lowest s ≤ lowest { s with migratedGeneration := g } := by
    unfold lowest
    split_ifs
    · exact le_rfl
    · exact hle
  have hpos := h.lowest_pos
  have hnum := h.num_le
  have hret := h.retired_le
  refine ⟨h.wkg_lt, hpos.trans hlow, ?_, hlt, ?_, ?_, hret.trans hlow, h.oldest, h.first,
    h.consecutive, ?_, h.roots, h.inFlight, h.nextRetired⟩
  · have := h.lowest_le
    unfold lowest at this ⊢
    split_ifs at this ⊢
    · exact this.trans hle
    · exact le_rfl
  · simp only
    omega
  · intro k hk
    simp only at hk
    exact h.slots k (by omega)
  · intro hc
    have hw := h.written hc
    have := hw.num_le
    exact ⟨by simp only; omega, hw.nextWkgUGHL, hw.header, hw.logCursor, hw.firstLid⟩

end Running

theorem Inv.run (h : Inv logWrapPoint s) (hadm : Admitted s op)
    (hrun : op.run logWrapPoint s = .ok s') : Inv logWrapPoint s' := by
  cases hr : s.running with
  | false =>
    have hs : Replaying logWrapPoint s := by
      rw [Inv, hr] at h
      exact h
    cases op with
    | crash fate n =>
      obtain ⟨hr', h'⟩ := replaying_crash h hrun
      exact inv_of_replaying hr' h'
    | replay i =>
      obtain rfl | ⟨genIndex, left, od, dir, -, -, rfl⟩ := replay_ok hrun
      · exact h
      · exact inv_of_replaying rfl
          ⟨hs.ckptState, hs.wkg, hs.root, hs.working, hs.consecutive, hs.roots, hs.noWrite⟩
    | nextHeader => exact inv_nextHeader hr hs hrun
    | tick d =>
      cases hrun
      exact inv_of_replaying hr
        ⟨hs.ckptState, hs.wkg, hs.root, hs.working, hs.consecutive, hs.roots, hs.noWrite⟩
    | endCkptRootWrite =>
      have hrun : Except.ok (Checkpoint.endCkptRootWrite s) = Except.ok s' := hrun
      rw [Checkpoint.endCkptRootWrite, hs.noWrite] at hrun
      cases hrun
      exact h
    | record _ | takeLog _ | migrated _ | declareDemarcationEvent | ensureCheckpoint _
    | checkpointStep _ _ =>
      simp only [Op.run, hr, Bool.false_eq_true, if_false, false_and] at hrun
      cases hrun
      exact h
  | true =>
    have hs : Running logWrapPoint s := by
      rw [Inv, hr] at h
      exact h
    cases op with
    | crash fate n =>
      obtain ⟨hr', h'⟩ := replaying_crash h hrun
      exact inv_of_replaying hr' h'
    | replay i =>
      have hrun : Checkpoint.replay i s = .ok s' := hrun
      rw [Checkpoint.replay, restartPhase_done hr] at hrun
      cases hrun
      exact h
    | nextHeader =>
      have hrun : Checkpoint.nextHeader logWrapPoint s = .ok s' := hrun
      rw [Checkpoint.nextHeader, restartPhase_done hr] at hrun
      cases hrun
      exact h
    | tick d =>
      cases hrun
      exact inv_of_running hr (hs.still s.dir _)
    | endCkptRootWrite =>
      cases hrun
      refine inv_of_running ?_ hs.endCkptRootWrite
      unfold Checkpoint.endCkptRootWrite
      split <;> exact hr
    | record od =>
      simp only [Op.run, hr, if_true] at hrun
      obtain ⟨dir, hcall, hrun⟩ := of_bind_ok hrun
      cases hrun
      exact inv_of_running hr (hs.still dir s.now)
    | takeLog frames =>
      simp only [Op.run, hr, true_and] at hrun
      split_ifs at hrun with hcl
      · cases hrun
        refine inv_of_running hr ⟨hs.wkg_lt, hs.lowest_pos, hs.lowest_le, hs.migrated_lt, hs.num_le,
          hs.slots, hs.retired_le, hs.oldest, hs.first, hs.consecutive, fun hc => ?_, hs.roots,
          hs.inFlight, hs.nextRetired⟩
        -- no location is taken once the header has one
        have hc : s.ckptState = .phase4 ∨ s.ckptState = .phase5 := hc
        unfold State.cleaning at hcl
        rcases hc with hc | hc <;> simp [hc] at hcl
      · cases hrun
        exact h
    | migrated g =>
      simp only [Op.run, hr, true_and] at hrun
      split_ifs at hrun with hg
      · cases hrun
        exact inv_of_running hr (hs.migrated hg.1 hg.2)
      · cases hrun
        exact h
    | declareDemarcationEvent =>
      simp only [Op.run, hr, true_and] at hrun
      split_ifs at hrun with hck
      · rw [Checkpoint.declareDemarcationEvent, check_pos hck, ok_bind] at hrun
        cases hrun
        exact inv_of_running hr (hs.early (by rw [hck]; decide) (by decide) _ _ _ _ rfl)
      · cases hrun
        exact h
    | ensureCheckpoint t =>
      simp only [Op.run, hr, if_true] at hrun
      cases hrun
      unfold Checkpoint.ensureCheckpoint
      split_ifs with h₁ h₂ hck
      · exact h
      · exact h
      · exact inv_of_running hr (hs.early (by rw [hck]; decide) (by decide) _ _ _ _ rfl)
      · exact h
    | checkpointStep dirFrames stale =>
      simp only [Op.run, hr, if_true] at hrun
      obtain ⟨hr', h'⟩ := hs.checkpointStep hr hadm hrun
      exact inv_of_running hr' h'

theorem Reach.inv (h : Reach logWrapPoint Admitted numLogDirEntries s) : Inv logWrapPoint s := by
  induction h with
  | start h => exact inv_start h
  | step _ hop hrun ih => exact ih.run hop hrun

/-- What the ring, the roots and `GetOldestNonRetiredGenLid` say about the generation headers. -/
structure RingOk (logWrapPoint : ℕ) (s : State) : Prop where
  slots : s.running → ∀ k < s.workingGenerationNumber - 1 - s.migratedGeneration,
    slot s k = (s.headers (s.workingGenerationNumber - 1 - k)).lastLid
  /-- The root that is being written lists the unmigrated generations. -/
  rootWrite : ∀ r, s.rootWrite = some r →
    r.mostRecentGenerationNumber = s.workingGenerationNumber ∧
    r.numUnmigratedGenerations = s.workingGenerationNumber - s.nextRetiredGeneration ∧
    RootOk s.headers r
  roots : ∀ b r, s.roots b = some r → r = formattedRoot ∨ RootOk s.headers r
  oldest : s.running → s.oldestNonRetiredGenLid = firstLidOf s (s.retiredGeneration + 1)
  /-- The argument is the newest generation that will be retired, or a later one. -/
  getOldest : s.running → s.ckptState ≠ .notActive → ∀ r, getNextRetiredGeneration s ≤ r →
    r < s.workingGenerationNumber → getOldestNonRetiredGenLid logWrapPoint s r = firstLidOf s (r + 1)

/-- In every run of checkpoints and restarts with at most `MaxUnmigratedGenerations` unmigrated
generations the ring has the locations of the headers of the unmigrated generations. -/
theorem ringOk_run (h : Reach logWrapPoint Admitted numLogDirEntries s) : RingOk logWrapPoint s := by
  have hinv := h.inv
  cases hr : s.running with
  | false =>
    have hs : Replaying logWrapPoint s := by
      rw [Inv, hr] at hinv
      exact hinv
    have hno : ¬s.running = true := by rw [hr]; exact Bool.false_ne_true
    refine ⟨fun h => absurd h hno, fun r hw => ?_, fun b r hb => ?_, fun h => absurd h hno,
      fun h => absurd h hno⟩
    · rw [hs.noWrite] at hw
      cases hw
    · exact (hs.roots b r hb).imp id fun h => h.1
  | true =>
    have hs : Running logWrapPoint s := by
      rw [Inv, hr] at hinv
      exact hinv
    have hle := hs.lowest_le
    refine ⟨fun _ k hk => hs.slots k (by omega), fun r hw => ?_, fun b r hb => ?_, fun _ => hs.oldest,
      fun _ hact r hle hlt => hs.oldest_eq ?_ hlt⟩
    · obtain ⟨-, hok, heq, hnum⟩ := hs.inFlight r hw
      exact ⟨heq, hnum, hok⟩
    · rcases hs.roots b r hb with hf | ⟨hok, -⟩ | ⟨hok, -⟩
      · exact .inl hf
      · exact .inr hok
      · exact .inr hok
    · refine le_trans ?_ hle
      unfold lowest getNextRetiredGeneration
      have hpos := hs.lowest_pos
      split_ifs at hpos ⊢ with h5 h0 h0
      · exact le_rfl
      · omega
      · exact absurd (hs.nextRetired hact h5) h0
      · exact le_rfl

/-- A checkpoint, and a restart from it. -/
theorem ringOk_run_restart :
    ∃ s, Reach (frameToOID 100) Admitted 2 s ∧ s.workingGenerationNumber = 3 ∧
      slot s 0 = frameToOID 4 ∧ RingOk (frameToOID 100) s := by
  have hrun : (runFrom (frameToOID 100) Admitted 2
      [.record ⟨7, 0, 0, 600, 0⟩, .takeLog 1, .declareDemarcationEvent, .checkpointStep 0 0,
        .checkpointStep 0 0, .checkpointStep 1 0, .checkpointStep 0 0, .endCkptRootWrite,
        .checkpointStep 0 0, .crash .lost 2, .replay 0, .nextHeader]).map
      (fun s => (s.workingGenerationNumber, slot s 0)) = some (3, frameToOID 4) := by decide +kernel
  obtain ⟨s, hs, he⟩ := Option.map_eq_some_iff.1 hrun
  have h := reach_of_runFrom _ hs
  exact ⟨s, h, congrArg Prod.fst he, congrArg Prod.snd he, ringOk_run h⟩

end CapROS.Checkpoint
