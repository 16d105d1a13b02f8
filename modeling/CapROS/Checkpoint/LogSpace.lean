import CapROS.Kernel.Types

/-!
# The space in the log

The log is used circularly, and `objH_EnsureWritable` computes from two locations how many frames lie between them.
Locations and numbers of frames have 64 bits.
-/

namespace CapROS.Checkpoint

/-- What `objH_EnsureWritable` knows of the log. -/
structure LogState where
  logCursor : BitVec 64
  logWrapPoint : BitVec 64
  oldestNonRetiredGenLid : BitVec 64
  workingGenFirstLid : BitVec 64
  /-- `GetOldestNonNextRetiredGenLid()`. -/
  oldestNonNextRetiredGenLid : BitVec 64
  logSizeLimited : BitVec 64

/-- The frames from one location to another one, in 64 bits: `OIDToFrame` of the difference, and the size of the main
log if the other one is lower. -/
def framesTo (logWrapPoint start lid : BitVec 64) : BitVec 64 :=
  if lid < start then (lid - start) / 256 + (logWrapPoint - BitVec.ofNat 64 mainLogStart) / 256
  else (lid - start) / 256

namespace LogState

variable (log : LogState)

/-- `retGenFrames` when no checkpoint is active. -/
def retGenFrames : BitVec 64 := framesTo log.logWrapPoint log.logCursor log.oldestNonRetiredGenLid

def wkgSpace : BitVec 64 := framesTo log.logWrapPoint log.workingGenFirstLid log.logCursor

/-- `retGenFrames` when a checkpoint is active. -/
def nextRetGenFrames : BitVec 64 := framesTo log.logWrapPoint log.logCursor log.oldestNonNextRetiredGenLid

end LogState

/-- `tentRes > retGenFrames`: there is not enough space in the log. -/
def notEnoughLog (tentRes : BitVec 32) (retGenFrames : BitVec 64) : Bool := retGenFrames < tentRes.setWidth 64

/-! ## The distance -/

/-- The location of a frame of the main log. -/
structure InLog (logWrapPoint lid : ℕ) : Prop where
  aligned : oidToObIndex lid = 0
  start_le : mainLogStart ≤ lid
  lt_wrap : lid < logWrapPoint

/-- So many frames are between the locations: the first one has to be incremented so often to come to the other one. -/
structure IsForward (logWrapPoint start lid n : ℕ) : Prop where
  iterate : (incrementLID logWrapPoint)^[n] start = lid
  least : ∀ m < n, (incrementLID logWrapPoint)^[m] start ≠ lid

variable {wrap start lid n : ℕ}

theorem incrementLID_of_lt (h : start + 256 < wrap) : incrementLID wrap start = start + 256 := by
  have hframe : frameToOID 1 = 256 := by decide
  rw [incrementLID, hframe, if_neg (by omega)]

theorem iterate_of_lt (h : start + n * 256 < wrap) : (incrementLID wrap)^[n] start = start + n * 256 := by
  induction n with
  | zero => rfl
  | succ n ih =>
    rw [Nat.succ_mul, ← Nat.add_assoc] at h ⊢
    rw [Function.iterate_succ_apply', ih (by omega), incrementLID_of_lt h]

theorem iterate_of_wrap (hn : start + n * 256 < wrap) (hwrap : wrap ≤ start + n * 256 + 256) {m : ℕ}
    (hm : mainLogStart + m * 256 < wrap) : (incrementLID wrap)^[m + (n + 1)] start = mainLogStart + m * 256 := by
  have hframe : frameToOID 1 = 256 := by decide
  have hbegin : (incrementLID wrap)^[n + 1] start = mainLogStart := by
    rw [Function.iterate_succ_apply', iterate_of_lt hn, incrementLID, hframe, if_pos hwrap]
  rw [Function.iterate_add_apply, hbegin, iterate_of_lt hm]

theorem isForward_of_le (hstart : InLog wrap start) (hlid : InLog wrap lid) (h : start ≤ lid) :
    IsForward wrap start lid ((lid - start) / 256) := by
  have haligned := hstart.aligned
  have haligned' := hlid.aligned
  have hlt := hlid.lt_wrap
  simp only [oidToObIndex, erosObjectsPerFrame] at haligned haligned'
  have hn : start + (lid - start) / 256 * 256 = lid := by omega
  refine ⟨?_, fun m hm => ?_⟩
  · rw [iterate_of_lt (by omega), hn]
  · rw [iterate_of_lt (by omega)]
    omega

/-- A lower location: first come the frames up to the end of the log, then those from its beginning. -/
theorem isForward_of_gt (hstart : InLog wrap start) (hlid : InLog wrap lid) (h : lid < start) :
    IsForward wrap start lid ((lid - mainLogStart) / 256 + ((wrap - start - 1) / 256 + 1)) := by
  have haligned := hstart.aligned
  have haligned' := hlid.aligned
  have hlt := hstart.lt_wrap
  have hlt' := hlid.lt_wrap
  have hle := hlid.start_le
  have hmain : mainLogStart = 512 := by decide
  simp only [oidToObIndex, erosObjectsPerFrame] at haligned haligned'
  obtain ⟨k, hk⟩ : ∃ k, k = (wrap - start - 1) / 256 := ⟨_, rfl⟩
  have hkw : start + k * 256 < wrap := by omega
  have hkw' : wrap ≤ start + k * 256 + 256 := by omega
  have hm : mainLogStart + (lid - mainLogStart) / 256 * 256 = lid := by
    rw [hmain]
    omega
  rw [← hk]
  refine ⟨?_, fun m hm' => ?_⟩
  · rw [iterate_of_wrap hkw hkw' (by rwa [hm]), hm]
  · by_cases hmk : m ≤ k
    · have hmk' : m * 256 ≤ k * 256 := Nat.mul_le_mul_right _ hmk
      rw [iterate_of_lt ((Nat.add_le_add_left hmk' _).trans_lt hkw)]
      exact (h.trans_le (Nat.le_add_right _ _)).ne'
    · -- The frames after the end of the log are below the location.
      obtain ⟨j, rfl⟩ : ∃ j, m = j + (k + 1) := ⟨m - (k + 1), by omega⟩
      have hj : mainLogStart + j * 256 < lid := by
        omega
      rw [iterate_of_wrap hkw hkw' (hj.trans hlt')]
      exact hj.ne

/-! ## The computation -/

/-- The number of frames is right, and with it the decision on any demand. -/
def FramesCorrect (logWrapPoint start lid frames : BitVec 64) : Prop :=
  ∃ n, IsForward logWrapPoint.toNat start.toNat lid.toNat n ∧ frames.toNat = n ∧
    ∀ tentRes, notEnoughLog tentRes frames = false ↔ tentRes.toNat ≤ n

theorem IsForward.unique {m : ℕ} (hn : IsForward wrap start lid n) (hm : IsForward wrap start lid m) : n = m := by
  by_contra hne
  obtain hlt | hlt := Nat.lt_or_gt_of_ne hne
  · exact hm.least n hlt hn.iterate
  · exact hn.least m hlt hm.iterate

theorem notEnoughLog_eq_false (tentRes : BitVec 32) (frames : BitVec 64) :
    notEnoughLog tentRes frames = false ↔ tentRes.toNat ≤ frames.toNat := by
  have hlt : tentRes.toNat < 2 ^ 64 := by have := tentRes.isLt; omega
  rw [notEnoughLog, decide_eq_false_iff_not, BitVec.lt_def, BitVec.toNat_setWidth, Nat.mod_eq_of_lt hlt, not_lt]

/-- The quotient of the difference has no more than 56 bits, so that adding the size of the log does not wrap around. -/
theorem toNat_framesTo_of_lt {w s l : BitVec 64} (hs : InLog w.toNat s.toNat) (hl : InLog w.toNat l.toNat)
    (h : l < s) : 2 ^ 56 ≤ (framesTo w s l).toNat := by
  have hmain : (BitVec.ofNat 64 mainLogStart).toNat = 512 := by decide
  have hstart : 512 ≤ l.toNat := hl.start_le
  have hwrap := hs.lt_wrap
  have haligned := hs.aligned
  have haligned' := hl.aligned
  have hlt := BitVec.lt_def.1 h
  simp only [oidToObIndex, erosObjectsPerFrame] at haligned haligned'
  have h256 : (256 : BitVec 64).toNat = 256 := by decide
  rw [framesTo, if_pos h, BitVec.toNat_add, BitVec.toNat_udiv, BitVec.toNat_udiv, BitVec.toNat_sub, BitVec.toNat_sub, hmain,
    h256]
  omega

theorem toNat_framesTo_of_le {w s l : BitVec 64} (h : s ≤ l) :
    (framesTo w s l).toNat = (l.toNat - s.toNat) / 256 := by
  have hle := BitVec.le_def.1 h
  have h256 : (256 : BitVec 64).toNat = 256 := by decide
  rw [framesTo, if_neg (BitVec.not_lt.2 h), BitVec.toNat_udiv, BitVec.toNat_sub, h256]
  omega

/-- The computation is right exactly if the location is not lower than the one from which it starts. -/
theorem framesTo_correct_iff {w s l : BitVec 64} (hs : InLog w.toNat s.toNat) (hl : InLog w.toNat l.toNat) :
    FramesCorrect w s l (framesTo w s l) ↔ s ≤ l := by
  constructor
  · rintro ⟨n, hn, hframes, -⟩
    by_contra hlt
    rw [BitVec.not_le] at hlt
    have hn' := isForward_of_gt hs hl (BitVec.lt_def.1 hlt)
    have hge := toNat_framesTo_of_lt hs hl hlt
    have hlt' := BitVec.lt_def.1 hlt
    have hstart : 512 ≤ l.toNat := hl.start_le
    have hmain : mainLogStart = 512 := by decide
    rw [hframes, hn.unique hn', hmain] at hge
    omega
  · intro hle
    have hframes := toNat_framesTo_of_le (w := w) hle
    refine ⟨_, isForward_of_le hs hl (BitVec.le_def.1 hle), hframes, fun tentRes => ?_⟩
    rw [notEnoughLog_eq_false, hframes]

/-- The locations that `objH_EnsureWritable` uses are those of frames of the main log. -/
structure LogState.Valid (log : LogState) : Prop where
  logCursor : InLog log.logWrapPoint.toNat log.logCursor.toNat
  oldestNonRetiredGenLid : InLog log.logWrapPoint.toNat log.oldestNonRetiredGenLid.toNat
  workingGenFirstLid : InLog log.logWrapPoint.toNat log.workingGenFirstLid.toNat
  oldestNonNextRetiredGenLid : InLog log.logWrapPoint.toNat log.oldestNonNextRetiredGenLid.toNat

/-- Each of the three numbers of frames is right exactly if the log does not wrap between the two locations. -/
theorem logSpace_iff {log : LogState} (h : log.Valid) :
    (FramesCorrect log.logWrapPoint log.logCursor log.oldestNonRetiredGenLid log.retGenFrames ↔
      log.logCursor ≤ log.oldestNonRetiredGenLid) ∧
    (FramesCorrect log.logWrapPoint log.workingGenFirstLid log.logCursor log.wkgSpace ↔
      log.workingGenFirstLid ≤ log.logCursor) ∧
    (FramesCorrect log.logWrapPoint log.logCursor log.oldestNonNextRetiredGenLid log.nextRetGenFrames ↔
      log.logCursor ≤ log.oldestNonNextRetiredGenLid) :=
  ⟨framesTo_correct_iff h.logCursor h.oldestNonRetiredGenLid,
    framesTo_correct_iff h.workingGenFirstLid h.logCursor,
    framesTo_correct_iff h.logCursor h.oldestNonNextRetiredGenLid⟩

/-- A log with six frames, whose first two frames are retired. The working generation has the third one. -/
def smallLog : LogState where
  logCursor := 1280
  logWrapPoint := 2048
  oldestNonRetiredGenLid := 1024
  workingGenFirstLid := 1024
  oldestNonNextRetiredGenLid := 1280
  logSizeLimited := 4

theorem smallLog_valid : smallLog.Valid :=
  ⟨⟨by decide, by decide, by decide⟩, ⟨by decide, by decide, by decide⟩, ⟨by decide, by decide, by decide⟩,
    ⟨by decide, by decide, by decide⟩⟩

/-- The frames of the working generation are counted right, those up to the retired generation are not. -/
theorem logSpace_smallLog : ¬FramesCorrect smallLog.logWrapPoint smallLog.logCursor smallLog.oldestNonRetiredGenLid
      smallLog.retGenFrames ∧
    FramesCorrect smallLog.logWrapPoint smallLog.workingGenFirstLid smallLog.logCursor smallLog.wkgSpace :=
  have h := logSpace_iff smallLog_valid
  ⟨fun hframes => absurd (h.1.1 hframes) (by decide), h.2.1.2 (by decide)⟩

/-- The cursor is past the location, and the number of frames is 72057594037927941 instead of 5. -/
theorem logSpace_wrapped : ¬∀ log : LogState, log.Valid →
    FramesCorrect log.logWrapPoint log.logCursor log.oldestNonRetiredGenLid log.retGenFrames ∧
      FramesCorrect log.logWrapPoint log.workingGenFirstLid log.logCursor log.wkgSpace ∧
      FramesCorrect log.logWrapPoint log.logCursor log.oldestNonNextRetiredGenLid log.nextRetGenFrames := by
  intro h
  obtain ⟨n, hn, hframes, -⟩ := (h smallLog smallLog_valid).1
  have hforward : IsForward 2048 1280 1024 5 := ⟨by decide, by decide⟩
  rw [hn.unique hforward] at hframes
  exact absurd hframes (by decide)

end CapROS.Checkpoint
