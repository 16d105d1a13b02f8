import CapROS.Depend.Basic
import Mathlib.Tactic.Ring

/-!
# The dependency table is sound

What is registered as depending on a key slot is covered by some entry in use with the tag of the
slot, whatever was merged and evicted since. So the invalidation of a key slot zaps every mapping
table entry that was built from it.

* `EntryOk`: what the entries in use are. A range never leaves its mapping table, so that its length
  fits in the 12 bits of `pteCount`.
* `Inv`: the invariant, kept by each operation (`Inv.run`).
* `registered_covered`: the main result.
-/

namespace CapROS.Depend

open Function (update update_self update_of_ne)

variable {L : Layout} {s s' : State} {kde : KeyDependEntry} {d : Dependence}

/-- What an entry in use refers to: a process, a range of user descriptors, or a range within a coarse
page table whose page may be in other use by now. -/
inductive EntryOk (L : Layout) (kde : KeyDependEntry) : Prop where
  | process (count : kde.pteCount = 0) (start : L.isProcess kde.start = true)
  | first (j : ℕ) (pos : 0 < kde.pteCount) (start : kde.start = L.flptFCSE + 4 * j)
      (fits : j + kde.pteCount ≤ userDescriptors)
  | second (pos : 0 < kde.pteCount) (aligned : 4 ∣ kde.start)
      (fits : kde.start % cptSize + 4 * kde.pteCount ≤ cptSize)
      (header : L.hasHeader (kde.start / erosPageSize) = true)

/-- The entry is in use, has the tag of the key slot, and includes the mapping table entry. -/
structure Covers (kde : KeyDependEntry) (d : Dependence) : Prop where
  inUse : kde.InUse
  tag : kde.slotTag = slotTagOf d.key
  range : if d.mapLevel = .process then kde.pteCount = 0 ∧ kde.start = d.mte
    else kde.pteCount ≠ 0 ∧ kde.start ≤ d.mte ∧ d.mte < kde.start + 4 * kde.pteCount

/-- The mapping table entry maps nothing. -/
def Zapped (L : Layout) (s : State) (d : Dependence) : Prop :=
  if d.mapLevel = .process then s.md d.mte = ProcMD.reset L else s.word d.mte = pteZapped

structure Inv (L : Layout) (s : State) : Prop where
  entries : ∀ bucket i, (s.table bucket i).InUse → EntryOk L (s.table bucket i)
  lru : ∀ bucket, s.lru bucket < keyBucketSize
  legal : ∀ d ∈ s.registered, Legal L s d.mte d.mapLevel
  hazarded : ∀ d ∈ s.registered, s.wrHazard d.key = true
  covered : ∀ d ∈ s.registered, ∃ i < keyBucketSize, Covers (s.table (keyBucketNdx L d.key) i) d

/-! ## Addresses -/

variable {mapLevel : MapLevel} {mte a j i start bucket b key : ℕ}

theorem Legal.physMap (h : Legal L s mte mapLevel)
    (hlevel : mapLevel ≠ .process) : physMapVA ≤ mte ∧ mte < physMapEnd := by
  cases mapLevel with
  | process => exact absurd rfl hlevel
  | first =>
    obtain ⟨j, hj, rfl⟩ := h
    have hlow := L.flptFCSE_low
    have hhigh := L.flptFCSE_high
    simp only [userDescriptors] at hj
    omega
  | second =>
    obtain ⟨-, hh, -⟩ := h
    have hpg := L.hasHeader_physMap _ hh
    simp only [erosPageSize, physMapVA, physMapEnd] at *
    omega

theorem descriptor_table (hj : j < userDescriptors) (ha : a = L.flptFCSE + 4 * j) :
    a / 0x4000 = L.flptFCSE / 0x4000 := by
  obtain ⟨q, hq⟩ := L.flptFCSE_aligned
  simp only [userDescriptors] at hj
  omega

theorem EntryOk.physMap (h : EntryOk L kde) (hcount : kde.pteCount ≠ 0) :
    physMapVA ≤ kde.start ∧ kde.start + 4 * kde.pteCount ≤ physMapEnd := by
  cases h with
  | process count start => exact absurd count hcount
  | first j pos start fits =>
    have hlow := L.flptFCSE_low
    have hhigh := L.flptFCSE_high
    simp only [userDescriptors] at fits
    omega
  | second pos aligned fits header =>
    have hpg := L.hasHeader_physMap _ header
    simp only [erosPageSize, physMapVA, physMapEnd, cptSize] at *
    omega

theorem EntryOk.ptrAdd (h : EntryOk L kde) (hcount : kde.pteCount ≠ 0) (hi : i ≤ kde.pteCount) :
    ptrAdd kde.start i = kde.start + 4 * i := by
  have hp := h.physMap hcount
  simp only [physMapVA, physMapEnd] at hp
  exact Nat.mod_eq_of_lt (by omega)

theorem ptrDiff_eq {p q : ℕ} (hle : q ≤ p) (hlt : p - q < 2 ^ 32) : ptrDiff p q = (p - q) / 4 := by
  unfold ptrDiff
  have hsub : p + 2 ^ 32 - q = (p - q) + 2 ^ 32 := by omega
  rw [hsub, Nat.add_mod_right, Nat.mod_eq_of_lt hlt]

theorem EntryOk.obTypeOf (h : EntryOk L kde) (hcount : kde.pteCount ≠ 0) (s : State) :
    Depend.obTypeOf L s kde.start = .ok .ptMappingPage1 ∧ kde.start / 0x4000 = L.flptFCSE / 0x4000 ∨
      Depend.obTypeOf L s kde.start = .ok (s.obType (kde.start / erosPageSize)) ∧
        L.hasHeader (kde.start / erosPageSize) = true := by
  cases h with
  | process count start => exact absurd count hcount
  | first j pos start fits =>
    left
    have htable := descriptor_table (by omega) start
    have hstatic := L.flptFCSE_static _ htable
    obtain ⟨q, hq⟩ := L.flptFCSE_aligned
    have hlow := L.flptFCSE_low
    refine ⟨?_, htable⟩
    unfold Depend.obTypeOf
    rw [if_neg (by simp [hstatic]), if_neg, if_pos]
    · omega
    · unfold Layout.flptNull
      omega
  | second pos aligned fits header =>
    right
    exact ⟨if_pos header, header⟩

/-- An entry for a process covers no other mapping table entry, and the ranges cover only what is in
their table. -/
theorem Covers.sameTable (hc : Covers kde d) (hok : EntryOk L kde) (hlevel : d.mapLevel ≠ .process) :
    kde.start / 0x4000 = d.mte / 0x4000 ∧
      (L.hasHeader (kde.start / erosPageSize) = true → kde.start / erosPageSize = d.mte / erosPageSize) := by
  have hr := hc.range
  rw [if_neg hlevel] at hr
  obtain ⟨hcount, hlow, hhigh⟩ := hr
  cases hok with
  | process count start => exact absurd count hcount
  | first j pos start fits =>
    obtain ⟨q, hq⟩ := L.flptFCSE_aligned
    have htable := descriptor_table (by omega) start
    refine ⟨?_, fun hh => ?_⟩
    · simp only [userDescriptors] at fits
      omega
    · rw [L.flptFCSE_static _ htable] at hh
      cases hh
  | second pos aligned fits header =>
    simp only [cptSize, erosPageSize] at *
    constructor
    · omega
    · intro _
      omega

theorem Covers.exists_ptrAdd (hc : Covers kde d) (hok : EntryOk L kde) (hl : Legal L s d.mte d.mapLevel)
    (hlevel : d.mapLevel ≠ .process) : ∃ i < kde.pteCount, ptrAdd kde.start i = d.mte := by
  have hr := hc.range
  rw [if_neg hlevel] at hr
  obtain ⟨hcount, hlow, hhigh⟩ := hr
  have hmte : 4 ∣ d.mte := by
    cases hm : d.mapLevel with
    | process => exact absurd hm hlevel
    | first =>
      rw [hm] at hl
      obtain ⟨j, -, hj⟩ := hl
      have halign := L.flptFCSE_aligned
      omega
    | second =>
      rw [hm] at hl
      exact hl.1
  have hstart : 4 ∣ kde.start := by
    cases hok with
    | process count start => exact absurd count hcount
    | first j pos start fits =>
      have halign := L.flptFCSE_aligned
      omega
    | second pos aligned fits header => exact aligned
  refine ⟨(d.mte - kde.start) / 4, by omega, ?_⟩
  rw [hok.ptrAdd hcount (by omega)]
  omega

/-! ## One visit -/

/-- What a visit to an entry leaves of the rest. -/
structure Frame (s s' : State) : Prop where
  lru : s'.lru = s.lru
  wrHazard : s'.wrHazard = s.wrHazard
  obType : s'.obType = s.obType
  registered : s'.registered ⊆ s.registered

theorem Frame.refl (s : State) : Frame s s := ⟨rfl, rfl, rfl, fun _ h => h⟩

variable {s₁ s₂ s₃ : State}

theorem Frame.trans (h : Frame s₁ s₂) (h' : Frame s₂ s₃) : Frame s₁ s₃ :=
  ⟨h'.lru.trans h.lru, h'.wrHazard.trans h.wrHazard, h'.obType.trans h.obType,
    fun _ hd => h.registered (h'.registered hd)⟩

theorem legal_congr (h : s'.obType = s.obType) :
    Legal L s' mte mapLevel ↔ Legal L s mte mapLevel := by
  cases mapLevel <;> simp [Legal, h]

/-- What is no longer registered was zapped, and what was zapped stays so. -/
structure Forgets (L : Layout) (s s' : State) : Prop where
  kept : ∀ d ∈ s.registered, d ∈ s'.registered ∨ Zapped L s' d
  zapped : ∀ d, Zapped L s d → Zapped L s' d

theorem Forgets.refl (s : State) : Forgets L s s := ⟨fun _ h => .inl h, fun _ h => h⟩

theorem Forgets.trans (h : Forgets L s₁ s₂) (h' : Forgets L s₂ s₃) :
    Forgets L s₁ s₃ where
  kept d hd := by
    obtain hd | hz := h.kept d hd
    · exact h'.kept d hd
    · exact .inr (h'.zapped d hz)
  zapped d hz := h'.zapped d (h.zapped d hz)

theorem frame_setEntry (s : State) (mte val : ℕ) : Frame s (s.setEntry mte val) := by
  refine ⟨rfl, rfl, rfl, ?_⟩
  intro d hd
  unfold State.setEntry at hd
  split at hd
  · exact List.mem_of_mem_filter hd
  · exact hd

theorem setEntry_kept (s : State) (mte val : ℕ) (hd : d ∈ s.registered) :
    d ∈ (s.setEntry mte val).registered ∨ Zapped L (s.setEntry mte val) d := by
  by_cases hval : val = pteZapped
  · by_cases hm : d.mapLevel = .process ∨ d.mte ≠ mte
    · left
      simp only [State.setEntry, if_pos hval, List.mem_filter]
      exact ⟨hd, decide_eq_true hm⟩
    · right
      push Not at hm
      simp [Zapped, State.setEntry, hm.1, hm.2, hval]
  · left
    simpa only [State.setEntry, if_neg hval] using hd

theorem forgets_setEntry {s : State} {val : ℕ} (h : s.word mte = pteZapped → val = pteZapped) :
    Forgets L s (s.setEntry mte val) := by
  refine ⟨fun d hd => setEntry_kept s mte _ hd, ?_⟩
  intro d hz
  unfold Zapped at hz ⊢
  split
  · rename_i hm
    rw [if_pos hm] at hz
    exact hz
  · rename_i hm
    rw [if_neg hm] at hz
    by_cases he : d.mte = mte
    · rw [he] at hz
      simp [State.setEntry, he, h hz]
    · rw [← hz]
      exact update_of_ne he _ _

theorem frame_procReset (s : State) (p : ℕ) : Frame s (procResetMappingTable L p s) :=
  ⟨rfl, rfl, rfl, fun _ hd => List.mem_of_mem_filter hd⟩

theorem forgets_procReset (s : State) (p : ℕ) : Forgets L s (procResetMappingTable L p s) := by
  constructor
  · intro d hd
    by_cases hm : d.mapLevel ≠ .process ∨ d.mte ≠ p
    · exact .inl (List.mem_filter.mpr ⟨hd, decide_eq_true hm⟩)
    · right
      push Not at hm
      simp [Zapped, procResetMappingTable, hm.1, hm.2]
  · intro d hz
    unfold Zapped at hz ⊢
    split
    · rename_i hm
      rw [if_pos hm] at hz
      by_cases he : d.mte = p
      · simp [procResetMappingTable, he]
      · rw [← hz]
        exact update_of_ne he _ _
    · rename_i hm
      rw [if_neg hm] at hz
      exact hz

theorem loop_frame {func : ℕ → Except Halt ℕ}
    (hfunc : ∀ val, func pteZapped = .ok val → val = pteZapped) :
    ∀ {l : List ℕ} {s s' : State}, l.foldlM (trackOne func start) s = .ok s' →
      Frame s s' ∧ Forgets L s s' ∧ s'.table = s.table
  | [], s, s', h => by
    cases h
    exact ⟨.refl s, .refl s, rfl⟩
  | i :: l, s, s', h => by
    rw [List.foldlM_cons] at h
    unfold trackOne at h
    cases hf : func (s.word (ptrAdd start i)) with
    | error e =>
      rw [hf] at h
      cases h
    | ok val =>
      rw [hf] at h
      obtain ⟨hframe, hforgets, htable⟩ := loop_frame hfunc h
      have hval : s.word (ptrAdd start i) = pteZapped → val = pteZapped := by
        intro hz
        rw [hz] at hf
        exact hfunc val hf
      exact ⟨(frame_setEntry s _ _).trans hframe, (forgets_setEntry hval).trans hforgets, htable⟩

theorem loop_invalidate :
    ∀ (l : List ℕ) (s : State), ∃ s', l.foldlM (trackOne (fun _ => .ok pteZapped) start) s = .ok s' ∧
      Frame s s' ∧ Forgets L s s' ∧
      ∀ i ∈ l, ∀ d : Dependence, d.mapLevel ≠ .process → ptrAdd start i = d.mte → d ∉ s'.registered
  | [], s => ⟨s, rfl, .refl s, .refl s, fun _ h => absurd h List.not_mem_nil⟩
  | i :: l, s => by
    obtain ⟨s', hok, hframe, hforgets, hnot⟩ :=
      loop_invalidate l (s.setEntry (ptrAdd start i) pteZapped)
    refine ⟨s', hok, (frame_setEntry s _ _).trans hframe,
      (forgets_setEntry fun _ => rfl).trans hforgets, ?_⟩
    intro k hk d hlevel hd hmem
    obtain rfl | hk := List.mem_cons.mp hk
    · -- It left the list when it was zapped.
      have hreg := hframe.registered hmem
      have hne := (List.mem_filter.mp (by simpa only [State.setEntry, if_true] using hreg)).2
      simp [hlevel, hd] at hne
    · exact hnot k hk d hlevel hd hmem

/-- The page of an entry is in other use. -/
def Stale (L : Layout) (s : State) (kde : KeyDependEntry) : Prop :=
  kde.pteCount ≠ 0 ∧ L.hasHeader (kde.start / erosPageSize) = true ∧
    s.obType (kde.start / erosPageSize) = .other

variable {t : Tracker}

theorem track_frame (hok : EntryOk L (s.table bucket i))
    (h : keyDependEntryTrack L t bucket i s = .ok s') :
    Frame s s' ∧ Forgets L s s' ∧ (s'.table = s.table ∨ Stale L s (s.table bucket i) ∧
      s' = s.setKDE bucket i { s.table bucket i with start := 0 }) := by
  unfold keyDependEntryTrack at h
  by_cases hcount : (s.table bucket i).pteCount = 0
  · rw [if_pos hcount] at h
    split at h
    · cases h
      exact ⟨frame_procReset s _, forgets_procReset s _, .inl rfl⟩
    · cases h
  · rw [if_neg hcount] at h
    obtain ⟨htype, -⟩ | ⟨htype, hheader⟩ := hok.obTypeOf hcount s
    · rw [htype] at h
      obtain ⟨hframe, hforgets, htable⟩ := loop_frame t.flmteFunc_zapped h
      exact ⟨hframe, hforgets, .inl htable⟩
    · rw [htype] at h
      cases hob : s.obType ((s.table bucket i).start / erosPageSize) with
      | ptMappingPage1 =>
        rw [hob] at h
        obtain ⟨hframe, hforgets, htable⟩ := loop_frame t.flmteFunc_zapped h
        exact ⟨hframe, hforgets, .inl htable⟩
      | ptMappingPage2 =>
        rw [hob] at h
        obtain ⟨hframe, hforgets, htable⟩ := loop_frame t.pteFunc_zapped h
        exact ⟨hframe, hforgets, .inl htable⟩
      | other =>
        rw [hob] at h
        cases h
        exact ⟨⟨rfl, rfl, rfl, fun _ hd => hd⟩, ⟨fun d hd => .inl hd, fun d hz => hz⟩,
          .inr ⟨⟨hcount, hheader, hob⟩, rfl⟩⟩

theorem Covers.not_stale (hc : Covers kde d) (hok : EntryOk L kde) (hl : Legal L s d.mte d.mapLevel) :
    ¬Stale L s kde := by
  rintro ⟨hcount, hheader, hob⟩
  have hlevel : d.mapLevel ≠ .process := by
    intro hm
    have hr := hc.range
    rw [if_pos hm] at hr
    exact hcount hr.1
  obtain ⟨htable, hpage⟩ := hc.sameTable hok hlevel
  cases hm : d.mapLevel with
  | process => exact hlevel hm
  | first =>
    rw [hm] at hl
    obtain ⟨j, hj, hmte⟩ := hl
    -- The page of a user descriptor has no header.
    rw [L.flptFCSE_static _ (htable.trans (descriptor_table hj hmte))] at hheader
    cases hheader
  | second =>
    rw [hm] at hl
    obtain ⟨-, -, hob'⟩ := hl
    rw [← hpage hheader, hob] at hob'
    cases hob'

theorem invalidate_spec (hok : EntryOk L (s.table bucket i)) :
    ∃ s', keyDependEntryInvalidate L bucket i s = .ok s' ∧ Frame s s' ∧ Forgets L s s' ∧
      s'.table = (s.setKDE bucket i { s.table bucket i with start := 0 }).table ∧
      ∀ d ∈ s'.registered, Legal L s d.mte d.mapLevel → ¬Covers (s.table bucket i) d := by
  -- First the visit.
  have hvisit : ∃ s', keyDependEntryTrack L .invalidate bucket i s = .ok s' ∧ Forgets L s s' ∧
      ∀ d ∈ s'.registered, Legal L s d.mte d.mapLevel → ¬Covers (s.table bucket i) d := by
    by_cases hcount : (s.table bucket i).pteCount = 0
    · -- A process is reset.
      cases hok with
      | process count start =>
        refine ⟨procResetMappingTable L (s.table bucket i).start s, ?_, forgets_procReset s _, ?_⟩
        · simp [keyDependEntryTrack, hcount, start]
        · intro d hd _ hc
          have hm : d.mapLevel = .process := by
            by_contra hm
            have hr := hc.range
            rw [if_neg hm] at hr
            exact hr.1 hcount
          have hr := hc.range
          rw [if_pos hm] at hr
          have hne := (List.mem_filter.mp hd).2
          simp [hm, hr.2] at hne
      | first j pos start fits | second pos aligned fits header => omega
    · obtain ⟨s₁, hloop, -, hforgets, hnot⟩ :=
        loop_invalidate (List.range (s.table bucket i).pteCount) s
      have hcovered : ∀ d ∈ s₁.registered, Legal L s d.mte d.mapLevel → ¬Covers (s.table bucket i) d := by
        intro d hd hl hc
        have hm : d.mapLevel ≠ .process := by
          intro hm
          have hr := hc.range
          rw [if_pos hm] at hr
          exact hcount hr.1
        obtain ⟨k, hk, hptr⟩ := hc.exists_ptrAdd hok hl hm
        exact hnot k (List.mem_range.mpr hk) d hm hptr hd
      obtain ⟨htype, -⟩ | ⟨htype, hheader⟩ := hok.obTypeOf hcount s
      · exact ⟨s₁, by simpa [keyDependEntryTrack, hcount, htype, Tracker.invalidate] using hloop, hforgets, hcovered⟩
      · cases hob : s.obType ((s.table bucket i).start / erosPageSize) with
        | ptMappingPage1 | ptMappingPage2 =>
          rw [hob] at htype
          exact ⟨s₁, by simpa [keyDependEntryTrack, hcount, htype, Tracker.invalidate] using hloop, hforgets, hcovered⟩
        | other =>
          rw [hob] at htype
          refine ⟨s.setKDE bucket i { s.table bucket i with start := 0 },
            by simp [keyDependEntryTrack, hcount, htype], ⟨fun d hd => .inl hd, fun d hz => hz⟩, ?_⟩
          intro d _ hl hc
          exact hc.not_stale hok hl ⟨hcount, hheader, hob⟩
  obtain ⟨s₁, hok₁, hforgets, hcovered⟩ := hvisit
  obtain ⟨hframe, -, htable⟩ := track_frame hok hok₁
  refine ⟨s₁.setKDE bucket i { s₁.table bucket i with start := 0 }, ?_,
    ⟨hframe.lru, hframe.wrHazard, hframe.obType, hframe.registered⟩,
    ⟨hforgets.kept, hforgets.zapped⟩, ?_, hcovered⟩
  · unfold keyDependEntryInvalidate
    rw [hok₁, ok_bind]
  · obtain heq | ⟨-, heq⟩ := htable
    · simp only [State.setKDE, heq]
    · subst heq
      simp [State.setKDE]

/-! ## The invariant -/

@[simp] theorem setKDE_same (s : State) (bucket i : ℕ) (kde : KeyDependEntry) :
    (s.setKDE bucket i kde).table bucket i = kde := by
  simp [State.setKDE]

theorem setKDE_other (s : State) (kde : KeyDependEntry) (h : ¬(b = bucket ∧ j = i)) :
    (s.setKDE bucket i kde).table b j = s.table b j := by
  by_cases hb : b = bucket
  · subst hb
    have hj : j ≠ i := fun hj => h ⟨rfl, hj⟩
    simp [State.setKDE, hj]
  · simp [State.setKDE, hb]

theorem Inv.setKDE (h : Inv L s) (hok : kde.InUse → EntryOk L kde)
    (hcov : ∀ d ∈ s.registered, Covers (s.table bucket i) d → Covers kde d) :
    Inv L (s.setKDE bucket i kde) where
  entries b j huse := by
    by_cases he : b = bucket ∧ j = i
    · obtain ⟨rfl, rfl⟩ := he
      rw [setKDE_same] at huse ⊢
      exact hok huse
    · rw [setKDE_other s kde he] at huse ⊢
      exact h.entries b j huse
  lru := h.lru
  legal d hd := (legal_congr rfl).mpr (h.legal d hd)
  hazarded := h.hazarded
  covered d hd := by
    obtain ⟨j, hj, hc⟩ := h.covered d hd
    refine ⟨j, hj, ?_⟩
    by_cases he : keyBucketNdx L d.key = bucket ∧ j = i
    · obtain ⟨rfl, rfl⟩ := he
      rw [setKDE_same]
      exact hcov d hd hc
    · rw [setKDE_other s kde he]
      exact hc

theorem Inv.frame (h : Inv L s) (hf : Frame s s') (htable : s'.table = s.table) : Inv L s' where
  entries := by
    rw [htable]
    exact h.entries
  lru := by
    rw [hf.lru]
    exact h.lru
  legal d hd := (legal_congr hf.obType).mpr (h.legal d (hf.registered hd))
  hazarded d hd := by
    rw [hf.wrHazard]
    exact h.hazarded d (hf.registered hd)
  covered d hd := by
    rw [htable]
    exact h.covered d (hf.registered hd)

theorem Inv.track (h : Inv L s) (huse : (s.table bucket i).InUse)
    (hrun : keyDependEntryTrack L t bucket i s = .ok s') : Inv L s' ∧ Forgets L s s' := by
  have hok := h.entries bucket i huse
  obtain ⟨hframe, hforgets, htable | ⟨hstale, rfl⟩⟩ := track_frame hok hrun
  · exact ⟨h.frame hframe htable, hforgets⟩
  · refine ⟨h.setKDE (fun hu => absurd rfl hu) ?_, hforgets⟩
    intro d hd hc
    exact absurd hstale (hc.not_stale hok (h.legal d hd))

theorem Inv.invalidate (h : Inv L s) (huse : (s.table bucket i).InUse) :
    ∃ s', keyDependEntryInvalidate L bucket i s = .ok s' ∧ Inv L s' ∧ Frame s s' ∧ Forgets L s s' ∧
      s'.table = (s.setKDE bucket i { s.table bucket i with start := 0 }).table := by
  obtain ⟨s', hrun, hframe, hforgets, htable, hnot⟩ := invalidate_spec (h.entries bucket i huse)
  refine ⟨s', hrun, ?_, hframe, hforgets, htable⟩
  constructor
  · intro b j hu
    rw [htable] at hu ⊢
    by_cases he : b = bucket ∧ j = i
    · obtain ⟨rfl, rfl⟩ := he
      rw [setKDE_same] at hu
      exact absurd rfl hu
    · rw [setKDE_other s _ he] at hu ⊢
      exact h.entries b j hu
  · rw [hframe.lru]
    exact h.lru
  · exact fun d hd => (legal_congr hframe.obType).mpr (h.legal d (hframe.registered hd))
  · rw [hframe.wrHazard]
    exact fun d hd => h.hazarded d (hframe.registered hd)
  · intro d hd
    have hd₀ := hframe.registered hd
    obtain ⟨j, hj, hc⟩ := h.covered d hd₀
    refine ⟨j, hj, ?_⟩
    rw [htable, setKDE_other]
    · exact hc
    · rintro ⟨rfl, rfl⟩
      exact hnot d hd (h.legal d hd₀) hc

/-! ## Adding a dependence -/

theorem mteInSameTable_first : mteInSameTable a b .first = true ↔ a / 0x4000 = b / 0x4000 := by
  unfold mteInSameTable
  rw [beq_iff_eq, if_pos rfl]
  change (a ^^^ b) / 2 ^ 14 = 0 ↔ a / 2 ^ 14 = b / 2 ^ 14
  rw [← Nat.shiftRight_eq_div_pow, ← Nat.shiftRight_eq_div_pow, ← Nat.shiftRight_eq_div_pow,
    Nat.shiftRight_xor_distrib, Nat.xor_eq_zero_iff]

theorem mteInSameTable_second : mteInSameTable a b .second = true ↔ a / cptSize = b / cptSize := by
  unfold mteInSameTable
  rw [beq_iff_eq, if_neg (by simp)]
  change (a ^^^ b) / 2 ^ 10 = 0 ↔ a / 2 ^ 10 = b / 2 ^ 10
  rw [← Nat.shiftRight_eq_div_pow, ← Nat.shiftRight_eq_div_pow, ← Nat.shiftRight_eq_div_pow,
    Nat.shiftRight_xor_distrib, Nat.xor_eq_zero_iff]

theorem mergeEntry_spec (hok : EntryOk L kde) (hcount : kde.pteCount ≠ 0)
    (hstart : 4 ∣ kde.start) (hmte : 4 ∣ mte) (lo n : ℕ) (hn : n ≤ userDescriptors) (hlo : lo ≤ kde.start)
    (hhi : kde.start + 4 * kde.pteCount ≤ lo + 4 * n) (hlo' : lo ≤ mte) (hhi' : mte < lo + 4 * n)
    (hend : lo + 4 * n ≤ physMapEnd) (hlo4 : 4 ∣ lo) :
    (mergeEntry mte kde).slotTag = kde.slotTag ∧
      (mergeEntry mte kde).pteCount ≠ 0 ∧
      (mergeEntry mte kde).start = min mte kde.start ∧
      (mergeEntry mte kde).start + 4 * (mergeEntry mte kde).pteCount =
        max (mte + 4) (kde.start + 4 * kde.pteCount) := by
  have hadd := hok.ptrAdd hcount le_rfl
  simp only [userDescriptors] at hn
  simp only [physMapEnd] at hend
  unfold mergeEntry
  rw [hadd]
  by_cases hlow : mte < kde.start
  · -- The range is extended downwards.
    rw [if_pos hlow, ptrDiff_eq (by omega) (by omega), Nat.mod_eq_of_lt (by omega)]
    refine ⟨rfl, ?_, (min_eq_left hlow.le).symm, ?_⟩
    · simp only
      omega
    · rw [max_eq_right (by omega)]
      simp only
      omega
  · rw [if_neg hlow]
    have hmin : min mte kde.start = kde.start := min_eq_right (by omega)
    by_cases hhigh : kde.start + 4 * kde.pteCount ≤ mte
    · -- The range is extended upwards.
      have hone : ptrAdd mte 1 = mte + 4 := Nat.mod_eq_of_lt (by omega)
      rw [if_pos hhigh, hone, ptrDiff_eq (by omega) (by omega), Nat.mod_eq_of_lt (by omega)]
      refine ⟨rfl, ?_, hmin.symm, ?_⟩
      · simp only
        omega
      · rw [max_eq_left (by omega)]
        simp only
        omega
    · rw [if_neg hhigh, ptrDiff_eq (by omega) (by omega), Nat.mod_eq_of_lt (by omega)]
      refine ⟨rfl, ?_, hmin.symm, ?_⟩
      · simp only
        omega
      · rw [max_eq_right (by omega)]
        simp only
        omega

/-- The entry is for the range from `mte` to the old one. -/
def Merged (L : Layout) (mte : ℕ) (kde : KeyDependEntry) : Prop :=
  kde.pteCount ≠ 0 ∧ EntryOk L (mergeEntry mte kde) ∧
    (mergeEntry mte kde).slotTag = kde.slotTag ∧ (mergeEntry mte kde).pteCount ≠ 0 ∧
    (mergeEntry mte kde).start = min mte kde.start ∧
    (mergeEntry mte kde).start + 4 * (mergeEntry mte kde).pteCount =
      max (mte + 4) (kde.start + 4 * kde.pteCount)

theorem merge_first (hok : EntryOk L kde) (hj : j < userDescriptors)
    (hmte : mte = L.flptFCSE + 4 * j) (hsame : kde.start / 0x4000 = mte / 0x4000) :
    Merged L mte kde := by
  have htable := hsame.trans (descriptor_table hj hmte)
  obtain ⟨q, hq⟩ := L.flptFCSE_aligned
  have hlow := L.flptFCSE_low
  have hhigh := L.flptFCSE_high
  have hok' := hok
  cases hok with
  | process count start =>
    have hheap := L.isProcess_heap _ start
    omega
  | second pos aligned fits header =>
    rw [L.flptFCSE_static _ htable] at header
    cases header
  | first j' pos start fits =>
    have hcount : kde.pteCount ≠ 0 := by omega
    have hnum : userDescriptors = 0xa00 := rfl
    obtain ⟨htag, hcount', hstart', hend'⟩ :=
      mergeEntry_spec hok' hcount (by omega) (by omega : 4 ∣ mte) L.flptFCSE userDescriptors le_rfl
        (by omega) (by omega) (by omega) (by omega) (by omega) (by omega)
    refine ⟨hcount, .first (min j j') (by omega) ?_ ?_, htag, hcount', hstart', hend'⟩
    · rw [hstart']
      omega
    · omega

theorem merge_second (hok : EntryOk L kde) (hmte : 4 ∣ mte)
    (hheader : L.hasHeader (mte / erosPageSize) = true) (hsame : kde.start / cptSize = mte / cptSize) :
    Merged L mte kde := by
  have hpg := L.hasHeader_physMap _ hheader
  have hok' := hok
  have hnum : userDescriptors = 0xa00 := rfl
  cases hok with
  | process count start =>
    have hheap := L.isProcess_heap _ start
    simp only [physMapVA, erosPageSize, cptSize] at *
    omega
  | first j pos start fits =>
    have htable := descriptor_table (by omega) start
    have hmte' : mte / 0x4000 = L.flptFCSE / 0x4000 := by
      rw [← htable]
      simp only [cptSize] at hsame
      omega
    rw [L.flptFCSE_static _ hmte'] at hheader
    cases hheader
  | second pos aligned fits header =>
    have hcount : kde.pteCount ≠ 0 := by omega
    have hbounds := hok'.physMap hcount
    simp only [cptSize, erosPageSize, physMapVA, physMapEnd] at hsame fits hpg hbounds
    obtain ⟨htag, hcount', hstart', hend'⟩ :=
      mergeEntry_spec hok' hcount aligned hmte (mte / 1024 * 1024) 256 (by omega)
        (by omega) (by omega) (by omega) (by omega) (by simp only [physMapEnd]; omega) (by omega)
    refine ⟨hcount, .second (by omega) ?_ ?_ ?_, htag, hcount', hstart', hend'⟩
    · rw [hstart']
      omega
    · simp only [cptSize]
      omega
    · obtain hm | hm := min_choice mte kde.start
      · rw [hstart', hm]
        exact hheader
      · rw [hstart', hm]
        exact header

theorem covers_merge (hlevel : mapLevel ≠ .process)
    (hcount : kde.pteCount ≠ 0) (huse : kde.InUse) (hmte : mte ≠ 0) (htag : kde.slotTag = slotTagOf key)
    (htag' : (mergeEntry mte kde).slotTag = kde.slotTag) (hcount' : (mergeEntry mte kde).pteCount ≠ 0)
    (hstart' : (mergeEntry mte kde).start = min mte kde.start)
    (hend' : (mergeEntry mte kde).start + 4 * (mergeEntry mte kde).pteCount =
      max (mte + 4) (kde.start + 4 * kde.pteCount)) :
    Covers (mergeEntry mte kde) ⟨key, mte, mapLevel⟩ ∧
      ∀ d, Covers kde d → Covers (mergeEntry mte kde) d := by
  have huse' : (mergeEntry mte kde).InUse := by
    unfold KeyDependEntry.InUse at huse ⊢
    rw [hstart']
    omega
  refine ⟨⟨huse', htag'.trans htag, ?_⟩, ?_⟩
  · rw [if_neg hlevel]
    dsimp only
    exact ⟨hcount', by omega, by omega⟩
  · intro d hc
    have hr := hc.range
    refine ⟨huse', htag'.trans hc.tag, ?_⟩
    by_cases hm : d.mapLevel = .process
    · rw [if_pos hm] at hr
      exact absurd hr.1 hcount
    · rw [if_neg hm] at hr ⊢
      exact ⟨hcount', by omega, by omega⟩

/-- What a call may change of the state without effect on the invariant but for the victim's place. -/
theorem Inv.setLru (h : Inv L s) {lru : ℕ → ℕ} (hlru : ∀ bucket, lru bucket < keyBucketSize) :
    Inv L { s with lru := lru } :=
  ⟨h.entries, hlru, fun d hd => (legal_congr rfl).mpr (h.legal d hd), h.hazarded, h.covered⟩

theorem newDependEntry_spec (h : Inv L s) (hmte : mte ≠ 0)
    (hok : EntryOk L ⟨mte, if mapLevel = .process then 0 else 1, slotTagOf key⟩) :
    ∃ s', newDependEntry L mte (if mapLevel = .process then 0 else 1) key s = .ok s' ∧ Inv L s' ∧
      s'.wrHazard = s.wrHazard ∧ s'.obType = s.obType ∧ Forgets L s s' ∧
      ∃ i < keyBucketSize, Covers (s'.table (keyBucketNdx L key) i) ⟨key, mte, mapLevel⟩ := by
  set bucket := keyBucketNdx L key
  set i := s.lru bucket
  set s₁ : State := { s with lru := update s.lru bucket ((s.lru bucket + 1) % keyBucketSize) }
  have hinv₁ : Inv L s₁ := by
    refine h.setLru fun b => ?_
    by_cases hb : b = bucket
    · subst hb
      rw [update_self]
      exact Nat.mod_lt _ (by decide)
    · rw [update_of_ne hb]
      exact h.lru b
  -- The victim is no longer in use.
  have hvictim : ∃ s₂, freeVictim L bucket i s₁ = .ok s₂ ∧ Inv L s₂ ∧ s₂.wrHazard = s.wrHazard ∧
      s₂.obType = s.obType ∧ Forgets L s s₂ ∧ ¬(s₂.table bucket i).InUse := by
    unfold freeVictim
    by_cases huse : (s₁.table bucket i).InUse
    · obtain ⟨s₂, hrun, hinv₂, hframe, hforgets, htable⟩ := hinv₁.invalidate huse
      refine ⟨s₂, by rw [if_pos huse, hrun], hinv₂, hframe.wrHazard, hframe.obType,
        ⟨hforgets.kept, hforgets.zapped⟩, ?_⟩
      rw [htable, setKDE_same]
      exact fun hu => hu rfl
    · exact ⟨s₁, if_neg huse, hinv₁, rfl, rfl, ⟨fun d hd => .inl hd, fun d hz => hz⟩, huse⟩
  obtain ⟨s₂, hrun, hinv₂, hwr, hob, hforgets, hfree⟩ := hvictim
  have hcount : (if mapLevel = .process then 0 else 1) % 2 ^ 12 = if mapLevel = .process then 0 else 1 := by
    split <;> rfl
  refine ⟨s₂.setKDE bucket i ⟨mte, if mapLevel = .process then 0 else 1, slotTagOf key⟩, ?_, ?_, hwr, hob,
    ⟨hforgets.kept, hforgets.zapped⟩, i, h.lru bucket, ?_⟩
  · change (freeVictim L bucket i s₁ >>= fun s =>
      .ok (s.setKDE bucket i ⟨mte, (if mapLevel = .process then 0 else 1) % 2 ^ 12, slotTagOf key⟩)) = _
    rw [hrun, ok_bind, hcount]
  · exact hinv₂.setKDE (fun _ => hok) fun d _ hc => absurd hc.inUse hfree
  · rw [setKDE_same]
    refine ⟨hmte, rfl, ?_⟩
    by_cases hm : mapLevel = .process
    · simp [hm]
    · simp [hm]

theorem Legal.entryOk (hl : Legal L s mte mapLevel) :
    EntryOk L ⟨mte, if mapLevel = .process then 0 else 1, slotTagOf key⟩ := by
  cases mapLevel with
  | process => exact .process rfl hl
  | first =>
    obtain ⟨j, hj, rfl⟩ := hl
    exact .first j Nat.one_pos rfl hj
  | second =>
    obtain ⟨halign, hheader, -⟩ := hl
    refine .second Nat.one_pos halign ?_ hheader
    change mte % 0x400 + 4 * 1 ≤ 0x400
    omega

theorem covers_start (hok : EntryOk L kde) (huse : kde.InUse)
    (htag : kde.slotTag = slotTagOf key) (hl : Legal L s kde.start mapLevel) :
    (mapLevel ≠ .process ∨ kde.pteCount = 0) ∧ Covers kde ⟨key, kde.start, mapLevel⟩ := by
  by_cases hm : mapLevel = .process
  · subst hm
    -- A process is in the heap, where there are no mapping tables.
    have hcount : kde.pteCount = 0 := by
      by_contra hcount
      have hheap := L.isProcess_heap _ hl
      have hphys := hok.physMap hcount
      omega
    exact ⟨.inr hcount, huse, htag, by simp [hcount]⟩
  · have hcount : kde.pteCount ≠ 0 := by
      intro hcount
      have hphys := hl.physMap hm
      cases hok with
      | process count start =>
        have hheap := L.isProcess_heap _ start
        omega
      | first j pos start fits | second pos aligned fits header => omega
    refine ⟨.inl hm, huse, htag, ?_⟩
    rw [if_neg hm]
    dsimp only
    exact ⟨hcount, le_rfl, by omega⟩

/-- After a call of `Depend_AddKey` some entry with the tag of the key covers the mapping table entry. -/
theorem addKeyEntry_spec (h : Inv L s) (key : ℕ) (hmte : mte ≠ 0)
    (hl : Legal L s mte mapLevel) :
    ∃ s', addKeyEntry L key mte mapLevel s = .ok s' ∧ Inv L s' ∧ s'.wrHazard = s.wrHazard ∧
      s'.obType = s.obType ∧ Forgets L s s' ∧
      ∃ i < keyBucketSize, Covers (s'.table (keyBucketNdx L key) i) ⟨key, mte, mapLevel⟩ := by
  unfold addKeyEntry
  dsimp only
  cases hfind : (List.range keyBucketSize).find? fun i =>
      Matches key mte mapLevel (s.table (keyBucketNdx L key) i) with
  | none => exact newDependEntry_spec h hmte hl.entryOk
  | some i =>
    have hmatch := List.find?_some hfind
    have hi := List.mem_range.mp (List.mem_of_find?_eq_some hfind)
    dsimp only
    generalize hkde : s.table (keyBucketNdx L key) i = kde at hmatch
    simp only [Matches, Bool.and_eq_true, Bool.or_eq_true, beq_iff_eq, bne_iff_ne] at hmatch
    obtain ⟨htag, hmatch⟩ := hmatch
    have hentry := h.entries (keyBucketNdx L key) i
    rw [hkde] at hentry
    by_cases hstart : kde.start = mte
    · -- There is such an entry.
      have huse : kde.InUse := by
        unfold KeyDependEntry.InUse
        omega
      subst hstart
      obtain ⟨hassert, hc⟩ := covers_start (hentry huse) huse htag hl
      refine ⟨s, ?_, h, rfl, rfl, .refl s, i, hi, ?_⟩
      · rw [if_pos rfl, if_pos hassert]
      · rw [hkde]
        exact hc
    · -- An entry for the same table is merged with it.
      obtain hsame | ⟨hm, hsame⟩ := hmatch
      · exact absurd hsame hstart
      rw [if_neg hstart]
      have hphys := hl.physMap hm
      have huse : kde.InUse := by
        intro hzero
        cases mapLevel with
        | process => exact hm rfl
        | first =>
          rw [mteInSameTable_first, hzero] at hsame
          simp only [physMapVA] at hphys
          omega
        | second =>
          rw [mteInSameTable_second, hzero] at hsame
          simp only [physMapVA, cptSize] at hphys hsame
          omega
      have hmerge : Merged L mte kde := by
        cases mapLevel with
        | process => exact absurd rfl hm
        | first =>
          obtain ⟨j, hj, hmte⟩ := hl
          exact merge_first (hentry huse) hj hmte (mteInSameTable_first.mp hsame)
        | second =>
          exact merge_second (hentry huse) hl.1 hl.2.1 (mteInSameTable_second.mp hsame)
      obtain ⟨hcount, hok', htag', hcount', hstart', hend'⟩ := hmerge
      obtain ⟨hnew, hold⟩ := covers_merge hm hcount huse hmte htag htag' hcount' hstart' hend'
      refine ⟨s.setKDE (keyBucketNdx L key) i (mergeEntry mte kde), rfl, ?_, rfl, rfl,
        ⟨fun d hd => .inl hd, fun d hz => hz⟩, i, hi, ?_⟩
      · refine h.setKDE (fun _ => hok') fun d _ hc => ?_
        rw [hkde] at hc
        exact hold d hc
      · rw [setKDE_same]
        exact hnew

/-- `Depend_AddKey` registers the mapping table entry. Of what was registered it forgets only what it
zapped for the sake of a victim. -/
theorem addKey_spec (h : Inv L s) (key : ℕ) (hmte : mte ≠ 0)
    (hl : Legal L s mte mapLevel) :
    ∃ s', addKey L key mte mapLevel s = .ok s' ∧ Inv L s' ∧ ⟨key, mte, mapLevel⟩ ∈ s'.registered ∧
      ∀ d ∈ s.registered, d ∈ s'.registered ∨ Zapped L s' d := by
  have hinv : Inv L { s with wrHazard := update s.wrHazard key true } := by
    refine ⟨h.entries, h.lru, fun d hd => (legal_congr rfl).mpr (h.legal d hd), fun d hd => ?_, h.covered⟩
    by_cases hk : d.key = key
    · simp [hk]
    · exact (update_of_ne hk true _).trans (h.hazarded d hd)
  obtain ⟨s₁, hrun, hinv₁, hwr, hob, hforgets, hcov⟩ :=
    addKeyEntry_spec hinv key hmte ((legal_congr rfl).mpr hl)
  refine ⟨{ s₁ with registered := ⟨key, mte, mapLevel⟩ :: s₁.registered }, ?_, ?_, List.mem_cons_self, ?_⟩
  · unfold addKey
    rw [if_neg hmte, hrun, ok_bind]
  · constructor
    · exact hinv₁.entries
    · exact hinv₁.lru
    · intro d hd
      obtain rfl | hd := List.mem_cons.mp hd
      · exact (legal_congr hob).mpr hl
      · exact (legal_congr rfl).mpr (hinv₁.legal d hd)
    · intro d hd
      obtain rfl | hd := List.mem_cons.mp hd
      · simp [hwr]
      · exact hinv₁.hazarded d hd
    · intro d hd
      obtain rfl | hd := List.mem_cons.mp hd
      · exact hcov
      · exact hinv₁.covered d hd
  · intro d hd
    obtain hd | hz := hforgets.kept d hd
    · exact .inl (List.mem_cons_of_mem _ hd)
    · exact .inr hz

/-! ## Visiting the entries of a key -/

theorem Inv.visitEntries_track :
    ∀ {l : List ℕ} {s s' : State}, Inv L s →
      l.foldlM (visitOne L (keyDependEntryTrack L t) key) s = .ok s' → Inv L s' ∧ Forgets L s s'
  | [], s, s', h, hrun => by
    cases hrun
    exact ⟨h, .refl s⟩
  | i :: l, s, s', h, hrun => by
    obtain ⟨s₁, hone, hrun⟩ := of_bind_ok hrun
    have hstep : Inv L s₁ ∧ Forgets L s s₁ := by
      unfold visitOne at hone
      dsimp only at hone
      split at hone
      · rename_i hmatch
        exact h.track hmatch.2 hone
      · cases hone
        exact ⟨h, .refl s⟩
    obtain ⟨hinv, hforgets⟩ := Inv.visitEntries_track hstep.1 hrun
    exact ⟨hinv, hstep.2.trans hforgets⟩

/-- The entries up to one of them have been invalidated: none of them is in use with the tag of the key. -/
theorem invalidateEntries_spec (key : ℕ) (h : Inv L s) :
    ∀ n, ∃ s', (List.range n).foldlM (visitOne L (keyDependEntryInvalidate L) key) s = .ok s' ∧
      Inv L s' ∧ Frame s s' ∧ Forgets L s s' ∧
      ∀ i < n, (s'.table (keyBucketNdx L key) i).slotTag = slotTagOf key →
        ¬(s'.table (keyBucketNdx L key) i).InUse := by
  intro n
  induction n with
  | zero => exact ⟨s, rfl, h, .refl s, .refl s, fun i hi => absurd hi (Nat.not_lt_zero i)⟩
  | succ n ih =>
    obtain ⟨s₁, hrun₁, hinv₁, hframe₁, hforgets₁, hfree₁⟩ := ih
    rw [List.range_succ, List.foldlM_append, hrun₁, ok_bind, List.foldlM_cons]
    have hone : ∃ s₂, visitOne L (keyDependEntryInvalidate L) key s₁ n = .ok s₂ ∧ Inv L s₂ ∧ Frame s₁ s₂ ∧
        Forgets L s₁ s₂ ∧ ∀ i < n + 1, (s₂.table (keyBucketNdx L key) i).slotTag = slotTagOf key →
          ¬(s₂.table (keyBucketNdx L key) i).InUse := by
      unfold visitOne
      by_cases hmatch : (s₁.table (keyBucketNdx L key) n).slotTag = slotTagOf key ∧
          (s₁.table (keyBucketNdx L key) n).InUse
      · rw [if_pos hmatch]
        obtain ⟨s₂, hrun, hinv, hframe, hforgets, htable⟩ := hinv₁.invalidate hmatch.2
        refine ⟨s₂, hrun, hinv, hframe, hforgets, ?_⟩
        intro i hi htag hu
        rw [htable] at htag hu
        by_cases he : i = n
        · subst he
          rw [setKDE_same] at hu
          exact hu rfl
        · rw [setKDE_other s₁ _ fun hc => he hc.2] at htag hu
          exact hfree₁ i (by omega) htag hu
      · rw [if_neg hmatch]
        refine ⟨s₁, rfl, hinv₁, .refl s₁, .refl s₁, ?_⟩
        intro i hi htag hu
        by_cases he : i = n
        · subst he
          exact hmatch ⟨htag, hu⟩
        · exact hfree₁ i (by omega) htag hu
    obtain ⟨s₂, hrun₂, hinv₂, hframe₂, hforgets₂, hfree₂⟩ := hone
    exact ⟨s₂, by rw [hrun₂]; rfl, hinv₂, hframe₁.trans hframe₂, hforgets₁.trans hforgets₂, hfree₂⟩

theorem invalidateKey_spec (h : Inv L s) (key : ℕ) :
    ∃ s', invalidateKey L key s = .ok s' ∧ Inv L s' ∧
      (∀ d ∈ s.registered, d ∈ s'.registered ∨ Zapped L s' d) ∧
      (∀ d ∈ s.registered, d.key = key → Zapped L s' d) ∧ ∀ d ∈ s'.registered, d.key ≠ key := by
  obtain ⟨s₁, hrun, hinv, hframe, hforgets, hfree⟩ := invalidateEntries_spec key h keyBucketSize
  -- What is registered is covered by some entry in use, and none is left for the key.
  have hgone : ∀ d ∈ s₁.registered, d.key ≠ key := by
    rintro d hd rfl
    obtain ⟨i, hi, hc⟩ := hinv.covered d hd
    exact hfree i hi hc.tag hc.inUse
  refine ⟨{ s₁ with wrHazard := update s₁.wrHazard key false }, ?_, ?_, hforgets.kept, ?_, hgone⟩
  · unfold invalidateKey visitEntries
    rw [hrun, ok_bind]
  · refine ⟨hinv.entries, hinv.lru, fun d hd => (legal_congr rfl).mpr (hinv.legal d hd), fun d hd => ?_,
      hinv.covered⟩
    exact (update_of_ne (hgone d hd) false _).trans (hinv.hazarded d hd)
  · intro d hd hk
    obtain hd' | hz := hforgets.kept d hd
    · exact absurd hk (hgone d hd')
    · exact hz

/-! ## Runs -/

variable {op : Op}

/-- Each operation keeps the invariant. -/
theorem Inv.run (h : Inv L s) (hallow : op.Allowed L s) (hrun : op.run L s = .ok s') :
    Inv L s' := by
  cases op with
  | addKey key mte mapLevel =>
    by_cases hmte : mte = 0
    · have hsame : s' = s := by
        rw [Op.run, Depend.addKey, if_pos hmte] at hrun
        exact (Except.ok.inj hrun).symm
      subst hsame
      exact h
    · obtain ⟨s₁, hrun₁, hinv₁, -, -⟩ := addKey_spec h key hmte (hallow.resolve_left hmte)
      cases hrun₁.symm.trans hrun
      exact hinv₁
  | invalidateKey key =>
    obtain ⟨s₁, hrun₁, hinv₁, -⟩ := invalidateKey_spec h key
    cases hrun₁.symm.trans hrun
    exact hinv₁
  | visitEntries t key => exact (h.visitEntries_track hrun).1
  | setEntry mte val =>
    cases hrun
    exact h.frame (frame_setEntry s mte val) rfl
  | setMD p md =>
    cases hrun
    exact h.frame ⟨rfl, rfl, rfl, fun _ hd => hd⟩ rfl
  | allocateCPT pg =>
    cases hrun
    refine ⟨h.entries, h.lru, fun d hd => ?_, h.hazarded, h.covered⟩
    have hl := h.legal d hd
    cases hm : d.mapLevel with
    | process | first =>
      rw [hm] at hl
      exact hl
    | second =>
      rw [hm] at hl
      refine ⟨hl.1, hl.2.1, ?_⟩
      by_cases hpg : d.mte / erosPageSize = pg
      · simp [hpg]
      · exact (update_of_ne hpg _ _).trans hl.2.2
  | releasePageFrame pg =>
    cases hrun
    have hsub : ∀ d ∈ s.registered.filter fun d => ¬d.InPage pg, d ∈ s.registered ∧ ¬d.InPage pg := by
      intro d hd
      simpa using hd
    refine ⟨h.entries, h.lru, fun d hd => ?_, fun d hd => h.hazarded d (hsub d hd).1,
      fun d hd => h.covered d (hsub d hd).1⟩
    obtain ⟨hd, hout⟩ := hsub d hd
    have hl := h.legal d hd
    cases hm : d.mapLevel with
    | process | first =>
      rw [hm] at hl
      exact hl
    | second =>
      rw [hm] at hl
      -- The page is not the one that was released.
      have hpg : d.mte / erosPageSize ≠ pg := fun hpg => hout ⟨hm, hpg⟩
      exact ⟨hl.1, hl.2.1, (update_of_ne hpg _ _).trans hl.2.2⟩

theorem State.Initial.inv (h : s.Initial) : Inv L s := by
  obtain ⟨htable, hlru, hreg⟩ := h
  refine ⟨fun bucket i hu => ?_, fun bucket => ?_, ?_, ?_, ?_⟩
  · rw [htable] at hu
    exact absurd rfl hu
  · rw [hlru]
    decide
  all_goals
    rw [hreg]
    exact fun d hd => absurd hd List.not_mem_nil

theorem Reach.inv (h : Reach L s) : Inv L s := by
  induction h with
  | init h => exact h.inv
  | step op _ hallow hrun ih => exact ih.run hallow hrun

theorem Op.run_registered (h : Reach L s) (hallow : op.Allowed L s) (hrun : op.run L s = .ok s')
    (hd : d ∈ s.registered) :
    d ∈ s'.registered ∨ Zapped L s' d ∨ ∃ pg, op = .releasePageFrame pg ∧ d.InPage pg := by
  cases op with
  | addKey key mte mapLevel =>
    by_cases hmte : mte = 0
    · have hsame : s' = s := by
        rw [Op.run, Depend.addKey, if_pos hmte] at hrun
        exact (Except.ok.inj hrun).symm
      subst hsame
      exact .inl hd
    · obtain ⟨s₁, hrun₁, -, -, hkept⟩ := addKey_spec h.inv key hmte (hallow.resolve_left hmte)
      cases hrun₁.symm.trans hrun
      exact (hkept d hd).imp_right .inl
  | invalidateKey key =>
    obtain ⟨s₁, hrun₁, -, hkept, -⟩ := invalidateKey_spec h.inv key
    cases hrun₁.symm.trans hrun
    exact (hkept d hd).imp_right .inl
  | visitEntries t key => exact ((h.inv.visitEntries_track hrun).2.kept d hd).imp_right .inl
  | setEntry mte val =>
    cases hrun
    exact (setEntry_kept s mte val hd).imp_right .inl
  | setMD p md | allocateCPT pg =>
    cases hrun
    exact .inl hd
  | releasePageFrame pg =>
    cases hrun
    by_cases hin : d.InPage pg
    · exact .inr (.inr ⟨pg, rfl, hin⟩)
    · left
      exact List.mem_filter.mpr ⟨hd, by simpa using hin⟩

/-- What is registered as depending on a key slot is covered by an entry in use with the tag of the slot,
in every state of every run. So `Depend_InvalidateKey` zaps all of it. What is registered is what
`Depend_AddKey` was called for and has not been zapped since, in a page that is still a mapping page. -/
theorem registered_covered (h : Reach L s) :
    (∀ d ∈ s.registered, ∃ i < keyBucketSize, Covers (s.table (keyBucketNdx L d.key) i) d) ∧
      (∀ key, ∃ s', invalidateKey L key s = .ok s' ∧
        (∀ d ∈ s.registered, d.key = key → Zapped L s' d) ∧ ∀ d ∈ s'.registered, d.key ≠ key) ∧
      ∀ (op : Op) s', op.Allowed L s → op.run L s = .ok s' →
        (∀ d ∈ s.registered, d ∈ s'.registered ∨ Zapped L s' d ∨
          ∃ pg, op = .releasePageFrame pg ∧ d.InPage pg) ∧
        ∀ key mte mapLevel, op = .addKey key mte mapLevel → mte ≠ 0 → ⟨key, mte, mapLevel⟩ ∈ s'.registered := by
  refine ⟨h.inv.covered, fun key => ?_, fun op s' hallow hrun => ⟨fun d hd => ?_, ?_⟩⟩
  · obtain ⟨s', hrun, -, -, hzap, hgone⟩ := invalidateKey_spec h.inv key
    exact ⟨s', hrun, hzap, hgone⟩
  · exact Op.run_registered h hallow hrun hd
  · rintro key mte mapLevel rfl hmte
    obtain ⟨s₁, hrun₁, -, hreg, -⟩ := addKey_spec h.inv key hmte (hallow.resolve_left hmte)
    cases hrun₁.symm.trans hrun
    exact hreg

/-- A layout with one process and one page frame. -/
def smallLayout : Layout where
  keyBuckets := 7
  flptFCSE := 0xc0008000
  flptNullPA := 0x4000
  isProcess a := a = 0xa0000000
  hasHeader pg := pg = 0xc0100
  flptFCSE_aligned := by decide
  flptFCSE_low := by decide
  flptFCSE_high := by decide
  flptFCSE_static a ha := by
    apply decide_eq_false
    simp only [erosPageSize]
    omega
  isProcess_heap a ha := by
    rw [of_decide_eq_true ha]
    decide
  hasHeader_physMap pg hpg := by
    rw [of_decide_eq_true hpg]
    decide

/-- A state in which nothing is mapped. -/
def State.empty : State where
  table _ _ := ⟨0, 0, 0⟩
  lru _ := 0
  wrHazard _ := false
  obType _ := .other
  word _ := 0
  md _ := ⟨0, 0, 1, 0, false⟩
  registered := []

theorem of_map_ok {α β : Type} {x : Except Halt α} {f : α → β} {v : β} (h : x.map f = .ok v) :
    ∃ a, x = .ok a ∧ f a = v := by
  cases x with
  | ok a => exact ⟨a, rfl, Except.ok.inj h⟩
  | error e => cases h

/-- Two entries of one page table are registered for a key, and one descriptor covers both. -/
theorem registered_covered_small : ∃ s s', Reach smallLayout s ∧
    s.registered = [⟨0xa0001230, 0xc0100010, .second⟩, ⟨0xa0001230, 0xc0100004, .second⟩] ∧
    s.table (keyBucketNdx smallLayout 0xa0001230) 0 = ⟨0xc0100004, 4, 0x123⟩ ∧
    invalidateKey smallLayout 0xa0001230 s = .ok s' ∧ ∀ d ∈ s.registered, Zapped smallLayout s' d := by
  have hinit : Reach smallLayout State.empty := .init ⟨fun _ _ => rfl, fun _ => rfl, rfl⟩
  have hpage := Reach.step (.allocateCPT 0xc0100) hinit trivial rfl
  obtain ⟨s₁, hrun₁, hob₁⟩ := of_map_ok (x := Op.run smallLayout { State.empty with
      obType := update State.empty.obType 0xc0100 .ptMappingPage2 } (.addKey 0xa0001230 0xc0100004 .second))
    (f := fun s => s.obType 0xc0100) (v := .ptMappingPage2) (by decide +kernel)
  have hreach₁ := Reach.step (.addKey 0xa0001230 0xc0100004 .second) hpage
    (.inr ⟨by decide, by decide, by decide⟩) hrun₁
  obtain ⟨s, hrun, he⟩ := of_map_ok (x := (Op.run smallLayout { State.empty with
        obType := update State.empty.obType 0xc0100 .ptMappingPage2 } (.addKey 0xa0001230 0xc0100004 .second)) >>=
      fun s => Op.run smallLayout s (.addKey 0xa0001230 0xc0100010 .second))
    (f := fun s => (s.registered, s.table (keyBucketNdx smallLayout 0xa0001230) 0))
    (v := ([⟨0xa0001230, 0xc0100010, .second⟩, ⟨0xa0001230, 0xc0100004, .second⟩], ⟨0xc0100004, 4, 0x123⟩))
    (by decide +kernel)
  rw [hrun₁, ok_bind] at hrun
  obtain ⟨hreg, htable⟩ := Prod.mk.inj he
  have hreach := Reach.step (.addKey 0xa0001230 0xc0100010 .second) hreach₁ (.inr ⟨by decide, by decide, hob₁⟩) hrun
  obtain ⟨s', hinv, hzap, -⟩ := (registered_covered hreach).2.1 0xa0001230
  refine ⟨s, s', hreach, hreg, htable, hinv, fun d hd => hzap d hd ?_⟩
  rw [hreg] at hd
  obtain rfl | rfl : d = ⟨0xa0001230, 0xc0100010, .second⟩ ∨ d = ⟨0xa0001230, 0xc0100004, .second⟩ := by simpa using hd
  · rfl
  · rfl

end CapROS.Depend
