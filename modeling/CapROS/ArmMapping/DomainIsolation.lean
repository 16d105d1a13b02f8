import CapROS.ArmMapping.Domains
import Mathlib.Tactic.IntervalCases

/-!
# Isolation of small spaces by domains

* `WellFormed`: the invariant of the mapping structures, kept by each operation
  (`WellFormed.resetProcs`, `WellFormed.clearWriteHazard`, `releaseSmallSpace_spec`,
  `allocateSmallSpace_spec`, `ensureSSDomain_spec`, `useSmallSpace_spec`).
* `isolated_of_safe`: domains isolate small spaces as long as domains are stolen safely.
* `domain_shared`, `domain_left`: what happens otherwise.
-/

namespace CapROS.ArmMapping

open State
open Function (update update_self update_apply update_of_ne)

variable {s s' : State} {E : ℕ → Prop} {i d p cur ssid obj : ℕ}

/-- The invariant. The processes in `E` have a small space and not yet access to its domain. -/
structure WellFormed (E : ℕ → Prop) (s : State) : Prop where
  owned : ∀ d, 0 < d → d < 16 → s.mmuDomains d ≠ 0 →
    (s.smallSpaces (s.mmuDomains d)).domain = d ∧ s.mmuDomains d < numSmallSpaces
  owns : ∀ i, (s.smallSpaces i).domain ≠ 0 →
    (s.smallSpaces i).domain < 16 ∧ s.mmuDomains (s.smallSpaces i).domain = i ∧ 0 < i
  free : ∀ i, (s.smallSpaces i).isFree = true → (s.smallSpaces i).domain = 0
  descr : ∀ i, (s.flptFCSE i).valid = true ∨ (s.flptFCSE i).domain ≠ 0 →
    (s.flptFCSE i).domain = (s.smallSpaces (i / descriptorsPerSpace)).domain ∧
      (s.flptFCSE i).domain ≠ 0
  mapped : ∀ p, (s.md p).firstLevelMappingTable = .fcse →
    p ∈ (s.smallSpaces (s.md p).pid).procs ∧ (s.smallSpaces (s.md p).pid).isFree = false ∧
      (s.smallSpaces (s.md p).pid).producer ∈ s.procDepends p
  access : ∀ p, (s.md p).firstLevelMappingTable = .fcse → ¬ E p →
    (s.smallSpaces (s.md p).pid).domain ≠ 0 ∧
      (s.md p).dacr = 1 <<< ((s.smallSpaces (s.md p).pid).domain * 2) ||| 1
  unmapped : ∀ p, (s.md p).firstLevelMappingTable = .null →
    (s.md p).dacr = 1 ∧ ((s.md p).pid = 0 ∨ (s.md p).pid = pidInProgress)
  listed : ∀ i, ∀ p ∈ (s.smallSpaces i).procs,
    (s.md p).firstLevelMappingTable = .fcse ∧ (s.md p).pid = i
  domainAssigned : 0 < s.lastDomainAssigned ∧ s.lastDomainAssigned < 16
  domainStolen : 0 < s.lastDomainStolen ∧ s.lastDomainStolen < 16
  ssAssigned : 0 < s.lastSSAssigned ∧ s.lastSSAssigned < numSmallSpaces
  ssStolen : 0 < s.lastSSStolen ∧ s.lastSSStolen < numSmallSpaces

theorem wellFormed_init : WellFormed (fun _ => False) .init := by
  constructor <;> simp [State.init, L1D.zapped, ProcMD.unmapped, numSmallSpaces]

/-! ## Cursors -/

theorem countDown_pos {b c : ℕ} (hb : 0 < b) : 0 < countDown b c := by
  unfold countDown
  split <;> omega

theorem countDown_le {b c : ℕ} (hc : c ≤ b) : countDown b c ≤ b := by
  unfold countDown
  split <;> omega

theorem iterate_countDown {b c k : ℕ} (h0 : 0 < c) (hc : c ≤ b) (hk : k ≤ b) :
    (countDown b)^[k] c = if k < c then c - k else c + b - k := by
  induction k with
  | zero => simp [h0]
  | succ k ih =>
    rw [Function.iterate_succ_apply', ih (by omega)]
    unfold countDown
    split_ifs <;> omega

theorem findDown_spec {b c : ℕ} (n : ℕ) (unused : ℕ → Bool) (h0 : 0 < c) (hc : c ≤ b) :
    (0 < (findDown b unused n c).1 ∧ (findDown b unused n c).1 ≤ b) ∧
      if (findDown b unused n c).2 then unused (findDown b unused n c).1 = true
      else ∀ k, 0 < k → k ≤ n → unused ((countDown b)^[k] c) = false := by
  induction n generalizing c with
  | zero => exact ⟨⟨h0, hc⟩, fun k hk hn => by omega⟩
  | succ n ih =>
    have h0' := countDown_pos (c := c) (h0.trans_le hc)
    have hc' := countDown_le hc
    unfold findDown
    by_cases hu : unused (countDown b c) = true
    · simp only [hu, if_true]
      exact ⟨⟨h0', hc'⟩, trivial⟩
    · have hu' := Bool.eq_false_iff.2 hu
      simp only [hu', Bool.false_eq_true, if_false]
      obtain ⟨hr, hfound⟩ := ih h0' hc'
      refine ⟨hr, ?_⟩
      split at hfound
      case isTrue hf =>
        rw [if_pos hf]
        exact hfound
      case isFalse hf =>
        rw [if_neg hf]
        intro k hk hn
        obtain ⟨k, rfl⟩ : ∃ m, k = m + 1 := ⟨k - 1, by omega⟩
        rw [Function.iterate_succ_apply]
        by_cases hk0 : k = 0
        · subst hk0
          exact hu'
        · exact hfound k (by omega) (by omega)

theorem findDown_none {b c : ℕ} (unused : ℕ → Bool) (h0 : 0 < c) (hc : c ≤ b)
    (hf : (findDown b unused b c).2 = false) : ∀ d, 0 < d → d ≤ b → unused d = false := by
  intro d hd hdb
  have hspec := (findDown_spec b unused h0 hc).2
  rw [hf] at hspec
  by_cases hlt : d < c
  · have := hspec (c - d) (by omega) (by omega)
    rw [iterate_countDown h0 hc (by omega), if_pos (by omega)] at this
    rwa [show c - (c - d) = d by omega] at this
  · have := hspec (c + b - d) (by omega) (by omega)
    rw [iterate_countDown h0 hc (by omega), if_neg (by omega)] at this
    rwa [show c + b - (c + b - d) = d by omega] at this

/-! ## Resetting processes -/

theorem WellFormed.resetProcs (h : WellFormed E s) (f : ℕ → Bool) : WellFormed E (s.resetProcs f) where
  owned := h.owned
  owns := h.owns
  free := h.free
  descr := h.descr
  mapped := by
    intro p hp
    change (if f p = true then ProcMD.unmapped else s.md p).firstLevelMappingTable = _ at hp
    by_cases hf : f p = true
    · rw [if_pos hf] at hp
      cases hp
    · rw [if_neg hf] at hp
      obtain ⟨hl, hfree, hd⟩ := h.mapped p hp
      simp only [State.resetProcs, if_neg hf]
      exact ⟨List.mem_filter.2 ⟨hl, by simp [hf]⟩, hfree, hd⟩
  access := by
    intro p hp hE
    change (if f p = true then ProcMD.unmapped else s.md p).firstLevelMappingTable = _ at hp
    by_cases hf : f p = true
    · rw [if_pos hf] at hp
      cases hp
    · rw [if_neg hf] at hp
      simp only [State.resetProcs, if_neg hf]
      exact h.access p hp hE
  unmapped := by
    intro p hp
    change (if f p = true then ProcMD.unmapped else s.md p).firstLevelMappingTable = _ at hp
    simp only [State.resetProcs]
    by_cases hf : f p = true
    · rw [if_pos hf]
      exact ⟨rfl, Or.inl rfl⟩
    · rw [if_neg hf] at hp ⊢
      exact h.unmapped p hp
  listed := by
    intro i p hp
    obtain ⟨hm, hf⟩ := List.mem_filter.1 hp
    have hf : ¬ f p = true := by simpa using hf
    simp only [State.resetProcs, if_neg hf]
    exact h.listed i p hm
  domainAssigned := h.domainAssigned
  domainStolen := h.domainStolen
  ssAssigned := h.ssAssigned
  ssStolen := h.ssStolen

theorem WellFormed.descriptors (h : WellFormed E s) {flpt : ℕ → L1D}
    (hd : ∀ i, (flpt i).valid = true ∨ (flpt i).domain ≠ 0 →
      (flpt i).domain = (s.smallSpaces (i / descriptorsPerSpace)).domain ∧ (flpt i).domain ≠ 0) :
    WellFormed E { s with flptFCSE := flpt } :=
  { h with descr := hd }

theorem WellFormed.clearWriteHazard (h : WellFormed E s) (obj : ℕ) :
    WellFormed E (s.clearWriteHazard obj) := by
  have hr := h.resetProcs fun q => decide (obj ∈ s.procDepends q)
  refine { hr with descr := fun i hi => ?_, mapped := fun p hp => ?_ }
  · simp only [State.clearWriteHazard] at hi ⊢
    by_cases hm : obj ∈ s.flptDepends i
    · simp [hm, L1D.zapped] at hi
    · rw [if_neg hm] at hi ⊢
      exact h.descr i hi
  · obtain ⟨hl, hfree, hdep⟩ := hr.mapped p hp
    refine ⟨hl, hfree, ?_⟩
    have hno : obj ∉ s.procDepends p := by
      intro hm
      change (if decide (obj ∈ s.procDepends p) = true then ProcMD.unmapped
        else s.md p).firstLevelMappingTable = _ at hp
      rw [if_pos (by simpa using hm)] at hp
      cases hp
    simp only [State.clearWriteHazard, List.mem_filter, decide_eq_true_eq]
    refine ⟨hdep, ?_⟩
    rintro he
    exact hno (he ▸ hdep)

/-! ## Stealing domains -/

/-- What stealing the domain of a space produced by `obj` leaves as it was. -/
structure Kept (obj : ℕ) (s s' : State) : Prop where
  md : ∀ q, obj ∉ s.procDepends q → s'.md q = s.md q
  depends : ∀ q, s'.procDepends q ⊆ s.procDepends q
  isFree : ∀ i, (s'.smallSpaces i).isFree = (s.smallSpaces i).isFree
  producer : ∀ i, (s'.smallSpaces i).producer = (s.smallSpaces i).producer
  domain : ∀ i, (s.smallSpaces i).domain = 0 → (s'.smallSpaces i).domain = 0

/-- The descriptors and the domain of a small space are taken away, after its processes have been
reset. -/
theorem WellFormed.withoutDomain (h : WellFormed E s) (hd : (s.smallSpaces i).domain ≠ 0)
    (hdescr : ∀ j, j / descriptorsPerSpace = i → (s.flptFCSE j).valid = false ∧ (s.flptFCSE j).domain = 0)
    (hprocs : ∀ p, (s.md p).firstLevelMappingTable = .fcse → (s.md p).pid ≠ i) :
    WellFormed E { s.setSpace i { s.smallSpaces i with domain := 0 } with
      mmuDomains := update s.mmuDomains (s.smallSpaces i).domain 0 } := by
  obtain ⟨-, hmmu, hi0⟩ := h.owns i hd
  have hdomain : ∀ j, ((s.setSpace i { s.smallSpaces i with domain := 0 }).smallSpaces j).domain =
      if j = i then 0 else (s.smallSpaces j).domain := by
    intro j
    simp only [State.setSpace, update_apply]
    split <;> rfl
  have hother : ∀ j, ((s.setSpace i { s.smallSpaces i with domain := 0 }).smallSpaces j).procs =
      (s.smallSpaces j).procs ∧
      ((s.setSpace i { s.smallSpaces i with domain := 0 }).smallSpaces j).isFree =
        (s.smallSpaces j).isFree ∧
      ((s.setSpace i { s.smallSpaces i with domain := 0 }).smallSpaces j).producer =
        (s.smallSpaces j).producer := by
    intro j
    simp only [State.setSpace, update_apply]
    split <;> simp [*]
  refine { h with owned := ?_, owns := ?_, free := ?_, descr := ?_, mapped := ?_, access := ?_,
                  listed := ?_ }
  · intro d h0 hlt hne
    simp only [update_apply] at hne ⊢
    split at hne
    case isTrue => exact absurd rfl hne
    case isFalse hdi =>
      rw [if_neg hdi]
      obtain ⟨ho, hb⟩ := h.owned d h0 hlt hne
      refine ⟨?_, hb⟩
      rw [hdomain, if_neg, ho]
      rintro he
      exact hdi (he ▸ ho).symm
  · intro j hj
    simp only [hdomain] at hj ⊢
    split at hj
    case isTrue => exact absurd rfl hj
    case isFalse hji =>
      obtain ⟨hlt, hm, h0⟩ := h.owns j hj
      rw [if_neg hji]
      refine ⟨hlt, ?_, h0⟩
      rw [update_of_ne]
      · exact hm
      · intro he
        exact hji (hm.symm.trans ((congrArg s.mmuDomains he).trans hmmu))
  · intro j hj
    rw [hdomain]
    split
    · rfl
    · exact h.free j ((hother j).2.1 ▸ hj)
  · intro j hj
    obtain ⟨hde, hne⟩ := h.descr j hj
    refine ⟨?_, hne⟩
    rw [hdomain, if_neg]
    · exact hde
    · intro he
      exact hne (hdescr j he).2
  · intro p hp
    obtain ⟨hl, hf, hpr⟩ := h.mapped p hp
    obtain ⟨hl', hf', hpr'⟩ := hother (s.md p).pid
    exact ⟨hl' ▸ hl, hf'.trans hf, hpr' ▸ hpr⟩
  · intro p hp hE
    have hdom := hdomain (s.md p).pid
    rw [if_neg (hprocs p hp)] at hdom
    change ((s.setSpace i { s.smallSpaces i with domain := 0 }).smallSpaces (s.md p).pid).domain ≠ 0 ∧
      (s.md p).dacr = 1 <<< (((s.setSpace i { s.smallSpaces i with domain := 0 }).smallSpaces
        (s.md p).pid).domain * 2) ||| 1
    rw [hdom]
    exact h.access p hp hE
  · intro j p hp
    exact h.listed j p ((hother j).1 ▸ hp)

theorem stealDomain_spec (h : WellFormed E s) (cur : ℕ) (first : Bool)
    (hne : s.mmuDomains (countDown 15 s.lastDomainStolen) ≠ 0) :
    ∃ s', s.stealDomain cur first = .ok s' ∧ WellFormed E s' ∧
      Kept (s.smallSpaces (s.mmuDomains (countDown 15 s.lastDomainStolen))).producer s s' ∧
      s'.lastDomainStolen = countDown 15 s.lastDomainStolen ∧
      s'.lastDomainAssigned =
        (if first then countDown 15 s.lastDomainStolen else s.lastDomainAssigned) ∧
      if (s.md cur).pid = s.mmuDomains (countDown 15 s.lastDomainStolen) then
        s'.mmuDomains = s.mmuDomains ∧ s'.md = s.md
      else s'.mmuDomains = update s.mmuDomains (countDown 15 s.lastDomainStolen) 0 := by
  generalize hdd : countDown 15 s.lastDomainStolen = d at *
  have hd0 : 0 < d := hdd ▸ countDown_pos (by decide)
  have hdlt : d < 16 := by
    have := countDown_le (b := 15) (c := s.lastDomainStolen) (by have := h.domainStolen.2; omega)
    omega
  obtain ⟨hdom, hbound⟩ := h.owned d hd0 hdlt hne
  -- The cursors.
  obtain ⟨s₁, hs₁, hw₁, hmmu₁, hmd₁, hsp₁, hfl₁, hpd₁, hlds₁, hlda₁⟩ : ∃ s₁ : State,
      s₁ = (if first then { s with lastDomainStolen := d, lastDomainAssigned := d }
        else { s with lastDomainStolen := d }) ∧ WellFormed E s₁ ∧ s₁.mmuDomains = s.mmuDomains ∧
      s₁.md = s.md ∧ s₁.smallSpaces = s.smallSpaces ∧ s₁.flptFCSE = s.flptFCSE ∧
      s₁.procDepends = s.procDepends ∧ s₁.lastDomainStolen = d ∧
      s₁.lastDomainAssigned = (if first then d else s.lastDomainAssigned) := by
    cases first with
    | true =>
      exact ⟨_, rfl, { h with domainStolen := ⟨hd0, hdlt⟩, domainAssigned := ⟨hd0, hdlt⟩ }, rfl, rfl, rfl,
        rfl, rfl, rfl, rfl⟩
    | false => exact ⟨_, rfl, { h with domainStolen := ⟨hd0, hdlt⟩ }, rfl, rfl, rfl, rfl, rfl, rfl, rfl⟩
  have hstep : s.stealDomain cur first =
      if (s.md cur).pid = s.mmuDomains d then .ok s₁
      else
        let s₂ := { s₁ with flptFCSE := fun i =>
          if i / descriptorsPerSpace = s.mmuDomains d then (s.flptFCSE i).steal else s.flptFCSE i }
        let s₃ := s₂.clearWriteHazard (s.smallSpaces (s.mmuDomains d)).producer
        let s₄ := s₃.setSpace (s.mmuDomains d) { s₃.smallSpaces (s.mmuDomains d) with domain := 0 }
        .ok { s₄ with mmuDomains := update s₄.mmuDomains d 0 } := by
    unfold State.stealDomain
    simp only [hdd]
    cases first <;> subst hs₁ <;> simp [hdom]
  rw [hstep]
  by_cases hcur : (s.md cur).pid = s.mmuDomains d
  · rw [if_pos hcur]
    refine ⟨s₁, rfl, hw₁, ⟨fun q _ => by rw [hmd₁], fun q => by rw [hpd₁]; exact List.Subset.refl _,
      fun i => by rw [hsp₁], fun i => by rw [hsp₁], fun i hi => by rw [hsp₁]; exact hi⟩,
      hlds₁, hlda₁, ?_⟩
    rw [if_pos hcur]
    exact ⟨hmmu₁, hmd₁⟩
  · rw [if_neg hcur]
    simp only [if_neg hcur]
    set pid := s.mmuDomains d with hpid
    set producer := (s.smallSpaces pid).producer with hprod
    set flpt : ℕ → L1D := fun i =>
      if i / descriptorsPerSpace = pid then (s.flptFCSE i).steal else s.flptFCSE i with hflpt
    have hw₂ : WellFormed E { s₁ with flptFCSE := flpt } := by
      refine hw₁.descriptors fun i hi => ?_
      simp only [hflpt] at hi ⊢
      split at hi
      case isTrue he => simp [L1D.steal] at hi
      case isFalse he =>
        rw [if_neg he, hsp₁]
        exact h.descr i hi
    have hw₃ := hw₂.clearWriteHazard producer
    have hdom₃ : ∀ i, ((({ s₁ with flptFCSE := flpt } : State).clearWriteHazard producer).smallSpaces
        i).domain = (s.smallSpaces i).domain := fun i => by
      change (s₁.smallSpaces i).domain = _
      rw [hsp₁]
    have hkept₃ : ∀ i, ((({ s₁ with flptFCSE := flpt } : State).clearWriteHazard producer).smallSpaces
        i).isFree = (s.smallSpaces i).isFree ∧ ((({ s₁ with flptFCSE := flpt } :
        State).clearWriteHazard producer).smallSpaces i).producer = (s.smallSpaces i).producer := fun i => by
      change (s₁.smallSpaces i).isFree = _ ∧ (s₁.smallSpaces i).producer = _
      rw [hsp₁]
      exact ⟨rfl, rfl⟩
    have hw₄ := hw₃.withoutDomain (i := pid) (by rw [hdom₃, hdom]; exact hd0.ne') ?_ ?_
    · rw [hdom₃, hdom] at hw₄
      refine ⟨_, rfl, hw₄, ⟨fun q hq => ?_, fun q => ?_, fun i => ?_, fun i => ?_, fun i hi => ?_⟩,
        hlds₁, hlda₁, ?_⟩
      · change (if decide (producer ∈ s₁.procDepends q) = true then _ else s₁.md q) = _
        rw [hpd₁, if_neg (by simpa using hq), hmd₁]
      · change (s₁.procDepends q).filter _ ⊆ _
        rw [hpd₁]
        exact List.filter_subset_self _
      · simp only [State.setSpace, update_apply]
        split
        case isTrue he => rw [he]; exact (hkept₃ _).1
        case isFalse => exact (hkept₃ _).1
      · simp only [State.setSpace, update_apply]
        split
        case isTrue he => rw [he]; exact (hkept₃ _).2
        case isFalse => exact (hkept₃ _).2
      · simp only [State.setSpace, update_apply]
        split
        · rfl
        · rw [hdom₃]
          exact hi
      · change update s₁.mmuDomains d 0 = _
        rw [hmmu₁]
    · intro j hj
      change (if producer ∈ s₁.flptDepends j then L1D.zapped else flpt j).valid = _ ∧
        (if producer ∈ s₁.flptDepends j then L1D.zapped else flpt j).domain = _
      split
      · exact ⟨rfl, rfl⟩
      · simp only [hflpt, if_pos hj]
        exact ⟨rfl, rfl⟩
    · intro p hp hpp
      -- The processes of the space depend on a key to its producer.
      change (if decide (producer ∈ s₁.procDepends p) = true then ProcMD.unmapped
        else s₁.md p).firstLevelMappingTable = _ at hp
      change (if decide (producer ∈ s₁.procDepends p) = true then ProcMD.unmapped
        else s₁.md p).pid = _ at hpp
      rw [hpd₁, hmd₁] at hp hpp
      split at hp
      case isTrue => cases hp
      case isFalse hno =>
        rw [if_neg hno] at hpp
        have := (h.mapped p hp).2.2
        rw [hpp] at this
        exact hno (by simpa using this)

theorem WellFormed.assignDomain (h : WellFormed E s) (h0 : 0 < ssid) (hlt : ssid < numSmallSpaces)
    (hfree : (s.smallSpaces ssid).isFree = false) (hno : (s.smallSpaces ssid).domain = 0)
    (hunused : s.mmuDomains s.lastDomainAssigned = 0) :
    WellFormed E (s.assignDomain ssid) ∧
      ∀ i, ((s.assignDomain ssid).smallSpaces i).domain =
        if i = ssid then s.lastDomainAssigned else (s.smallSpaces i).domain := by
  have hdomain : ∀ i, ((s.assignDomain ssid).smallSpaces i).domain =
      if i = ssid then s.lastDomainAssigned else (s.smallSpaces i).domain := by
    intro i
    simp only [State.assignDomain, State.setSpace, update_apply]
    split <;> rfl
  have hother : ∀ i, ((s.assignDomain ssid).smallSpaces i).procs = (s.smallSpaces i).procs ∧
      ((s.assignDomain ssid).smallSpaces i).isFree = (s.smallSpaces i).isFree ∧
      ((s.assignDomain ssid).smallSpaces i).producer = (s.smallSpaces i).producer := by
    intro i
    simp only [State.assignDomain, State.setSpace, update_apply]
    split
    case isTrue he => rw [he]; exact ⟨rfl, rfl, rfl⟩
    case isFalse => exact ⟨rfl, rfl, rfl⟩
  have hmmu : ∀ d, (s.assignDomain ssid).mmuDomains d =
      if d = s.lastDomainAssigned then ssid else s.mmuDomains d := fun d => update_apply ..
  refine ⟨{ h with owned := ?_, owns := ?_, free := ?_, descr := ?_, mapped := ?_, access := ?_,
                    listed := ?_ }, hdomain⟩
  · intro d hd0 hdlt hne
    rw [hmmu] at hne ⊢
    split at hne
    case isTrue hd =>
      rw [if_pos hd, hdomain, if_pos rfl]
      exact ⟨hd.symm, hlt⟩
    case isFalse hd =>
      obtain ⟨ho, hb⟩ := h.owned d hd0 hdlt hne
      rw [if_neg hd, hdomain, if_neg]
      · exact ⟨ho, hb⟩
      · intro he
        rw [he, hno] at ho
        omega
  · intro i hi
    rw [hdomain] at hi ⊢
    rw [hmmu]
    split at hi
    case isTrue he =>
      rw [if_pos he, if_pos rfl]
      exact ⟨h.domainAssigned.2, he.symm, he ▸ h0⟩
    case isFalse he =>
      obtain ⟨hb, hm, hi0⟩ := h.owns i hi
      rw [if_neg he, if_neg]
      · exact ⟨hb, hm, hi0⟩
      · intro hd
        rw [hd, hunused] at hm
        omega
  · intro i hi
    rw [(hother i).2.1] at hi
    rw [hdomain, if_neg]
    · exact h.free i hi
    · rintro rfl
      rw [hfree] at hi
      cases hi
  · intro i hi
    obtain ⟨hd, hne⟩ := h.descr i hi
    refine ⟨?_, hne⟩
    rw [hdomain, if_neg]
    · exact hd
    · intro he
      rw [he, hno] at hd
      exact hne hd
  · intro p hp
    obtain ⟨hl, hf, hpr⟩ := h.mapped p hp
    obtain ⟨hl', hf', hpr'⟩ := hother (s.md p).pid
    exact ⟨hl' ▸ hl, hf'.trans hf, hpr' ▸ hpr⟩
  · intro p hp hE
    obtain ⟨hne, hdacr⟩ := h.access p hp hE
    have hdom := hdomain (s.md p).pid
    rw [if_neg fun he : (s.md p).pid = ssid => hne (he ▸ hno)] at hdom
    change ((s.assignDomain ssid).smallSpaces (s.md p).pid).domain ≠ 0 ∧
      (s.md p).dacr = 1 <<< (((s.assignDomain ssid).smallSpaces (s.md p).pid).domain * 2) ||| 1
    rw [hdom]
    exact ⟨hne, hdacr⟩
  · intro i p hp
    exact h.listed i p ((hother i).1 ▸ hp)

/-- `EnsureSSDomain`. When domains are stolen, the process `p` is not reset if this is safe. -/
theorem ensureSSDomain_spec (h : WellFormed E s) (cur p : ℕ) (h0 : 0 < ssid) (hlt : ssid < numSmallSpaces)
    (hfree : (s.smallSpaces ssid).isFree = false)
    (hsafe : (s.smallSpaces ssid).domain = 0 → (∀ d, 0 < d → d < 16 → s.mmuDomains d ≠ 0) →
      (s.md cur).pid ≠ s.mmuDomains (countDown 15 s.lastDomainStolen) ∧
      (s.smallSpaces (s.mmuDomains (countDown 15 s.lastDomainStolen))).producer ∉ s.procDepends p ∧
      ((s.md cur).pid = s.mmuDomains (countDown 15 (countDown 15 s.lastDomainStolen)) ∧
        (s.smallSpaces (s.mmuDomains (countDown 15 s.lastDomainStolen))).producer ∉ s.procDepends cur ∨
       (s.smallSpaces (s.mmuDomains (countDown 15 (countDown 15 s.lastDomainStolen)))).producer ∉
        s.procDepends p)) :
    ∃ s', s.ensureSSDomain cur ssid = .ok s' ∧ WellFormed E s' ∧ s'.md p = s.md p ∧
      (s'.smallSpaces ssid).domain ≠ 0 := by
  unfold State.ensureSSDomain
  by_cases hno : (s.smallSpaces ssid).domain = 0
  swap
  · rw [if_neg hno]
    exact ⟨s, rfl, h, rfl, hno⟩
  rw [if_pos hno]
  have hcur : s.lastDomainAssigned ≤ 15 := by
    have := h.domainAssigned.2
    omega
  obtain ⟨hr, hfound⟩ := findDown_spec 15 (fun d => s.mmuDomains d == 0)
    h.domainAssigned.1 hcur
  have hnone := findDown_none (fun d => s.mmuDomains d == 0) h.domainAssigned.1 hcur
  generalize findDown 15 (fun d => s.mmuDomains d == 0) 15 s.lastDomainAssigned = r at *
  obtain ⟨last, found⟩ := r
  have hw : WellFormed E { s with lastDomainAssigned := last } :=
    { h with domainAssigned := ⟨hr.1, Nat.lt_succ_of_le hr.2⟩ }
  cases found with
  | true =>
    obtain ⟨hw', hdom⟩ := hw.assignDomain h0 hlt hfree hno (by simpa using hfound)
    refine ⟨_, rfl, hw', rfl, ?_⟩
    rw [hdom, if_pos rfl]
    exact hr.1.ne'
  | false =>
    have hall : ∀ d, 0 < d → d < 16 → s.mmuDomains d ≠ 0 := by
      intro d hd0 hd16
      have := hnone rfl d hd0 (by omega)
      simpa using this
    obtain ⟨hfirst, hprod₁, hprod₂⟩ := hsafe hno hall
    generalize hd₁ : countDown 15 s.lastDomainStolen = d₁ at hfirst hprod₁ hprod₂
    have hd₁0 : 0 < d₁ := hd₁ ▸ countDown_pos (by decide)
    have hd₁15 : d₁ ≤ 15 := hd₁ ▸ countDown_le (by have := h.domainStolen.2; omega)
    have hd₂0 : 0 < countDown 15 d₁ := countDown_pos (by decide)
    have hd₂15 : countDown 15 d₁ ≤ 15 := countDown_le hd₁15
    have hd₂₁ : countDown 15 d₁ ≠ d₁ := by
      unfold countDown
      split <;> omega
    -- The first domain is taken and stays free; the second one may be taken as well.
    obtain ⟨s₁, hok₁, hw₁, hk₁, hst₁, has₁, hmmu₁⟩ := stealDomain_spec hw cur true
      (by simp only [hd₁]; exact hall d₁ hd₁0 (by omega))
    simp only [hd₁, if_neg hfirst] at hk₁ hst₁ has₁ hmmu₁
    simp only [if_true] at has₁
    have hmmu₁₂ : s₁.mmuDomains (countDown 15 d₁) = s.mmuDomains (countDown 15 d₁) := by
      rw [hmmu₁, update_of_ne hd₂₁]
    obtain ⟨s₂, hok₂, hw₂, hk₂, hst₂, has₂, hmmu₂⟩ := stealDomain_spec hw₁ cur false
      (by rw [hst₁, hmmu₁₂]; exact hall _ hd₂0 (by omega))
    simp only [hst₁, hmmu₁₂, hk₁.producer] at hk₂ hst₂ has₂ hmmu₂
    simp only [Bool.false_eq_true, if_false, has₁] at has₂
    have hunused : s₂.mmuDomains s₂.lastDomainAssigned = 0 := by
      rw [has₂]
      split at hmmu₂
      case isTrue => rw [hmmu₂.1, hmmu₁, update_self]
      case isFalse => rw [hmmu₂, update_of_ne hd₂₁.symm, hmmu₁, update_self]
    have hno₂ : (s₂.smallSpaces ssid).domain = 0 := hk₂.domain _ (hk₁.domain _ hno)
    have hfree₂ : (s₂.smallSpaces ssid).isFree = false := by rw [hk₂.isFree, hk₁.isFree]; exact hfree
    have hmd : s₂.md p = s.md p := by
      have hmd₁ : s₁.md p = s.md p := hk₁.md p hprod₁
      rw [← hmd₁]
      rcases hprod₂ with ⟨hskip, hpc⟩ | hprod₂
      · rw [if_pos (by rw [hk₁.md cur hpc]; exact hskip)] at hmmu₂
        rw [hmmu₂.2]
      · exact hk₂.md p fun hm => hprod₂ (hk₁.depends p hm)
    obtain ⟨hw', hdom⟩ := hw₂.assignDomain h0 hlt hfree₂ hno₂ hunused
    have hsteal : stealDomains cur ktuneNDomainSteal true { s with lastDomainAssigned := last } =
        .ok s₂ := by
      change (stealDomain cur true _ >>= fun s => stealDomain cur false s >>= fun s => .ok s) = _
      rw [hok₁, ok_bind, hok₂, ok_bind]
    simp only [Bool.false_eq_true, if_false]
    rw [hsteal, ok_bind]
    refine ⟨_, rfl, hw', hmd, ?_⟩
    rw [hdom, if_pos rfl]
    exact hw₂.domainAssigned.1.ne'

theorem ensureSSDomain_of_domain (h : (s.smallSpaces ssid).domain ≠ 0) :
    s.ensureSSDomain cur ssid = .ok s := if_neg h

/-! ## Giving a small space to a process -/

theorem WellFormed.assignSSToProc (h : WellFormed (fun _ => False) s) (ssid : ℕ)
    (hnull : (s.md p).firstLevelMappingTable = .null)
    (hfree : (s.smallSpaces ssid).isFree = false)
    (hprod : (s.smallSpaces ssid).producer ∈ s.procDepends p) :
    WellFormed (· = p) (s.assignSSToProc p ssid) := by
  have hother : ∀ i, ((s.assignSSToProc p ssid).smallSpaces i).domain = (s.smallSpaces i).domain ∧
      ((s.assignSSToProc p ssid).smallSpaces i).isFree = (s.smallSpaces i).isFree ∧
      ((s.assignSSToProc p ssid).smallSpaces i).producer = (s.smallSpaces i).producer ∧
      ((s.assignSSToProc p ssid).smallSpaces i).procs =
        if i = ssid then p :: (s.smallSpaces i).procs else (s.smallSpaces i).procs := by
    intro i
    simp only [State.assignSSToProc, State.setSpace, update_apply]
    split
    case isTrue he => rw [he]; exact ⟨rfl, rfl, rfl, rfl⟩
    case isFalse => exact ⟨rfl, rfl, rfl, rfl⟩
  have hmd : ∀ q, (s.assignSSToProc p ssid).md q =
      if q = p then { s.md p with firstLevelMappingTable := .fcse, pid := ssid } else s.md q :=
    fun q => update_apply ..
  refine { h with owned := ?_, owns := ?_, free := ?_, descr := ?_, mapped := ?_, access := ?_,
                  unmapped := ?_, listed := ?_ }
  · intro d hd0 hd hne
    rw [(hother _).1]
    exact h.owned d hd0 hd hne
  · intro i hi
    rw [(hother i).1] at hi ⊢
    exact h.owns i hi
  · intro i hi
    rw [(hother i).1]
    exact h.free i ((hother i).2.1 ▸ hi)
  · intro i hi
    rw [(hother _).1]
    exact h.descr i hi
  · intro q hq
    rw [hmd] at hq ⊢
    split at hq
    case isTrue he =>
      subst he
      rw [if_pos rfl, (hother _).2.2.2, (hother _).2.1, (hother _).2.2.1, if_pos rfl]
      exact ⟨List.mem_cons_self .., hfree, hprod⟩
    case isFalse he =>
      obtain ⟨hl, hf, hpr⟩ := h.mapped q hq
      rw [if_neg he, (hother _).2.2.2, (hother _).2.1, (hother _).2.2.1]
      refine ⟨?_, hf, hpr⟩
      split
      · exact List.mem_cons_of_mem _ hl
      · exact hl
  · intro q hq hne
    rw [hmd, if_neg hne] at hq ⊢
    rw [(hother _).1]
    exact h.access q hq not_false
  · intro q hq
    rw [hmd] at hq ⊢
    split at hq
    case isTrue => cases hq
    case isFalse he =>
      rw [if_neg he]
      exact h.unmapped q hq
  · intro i q hq
    rw [(hother i).2.2.2] at hq
    rw [hmd]
    have hold : q ∈ (s.smallSpaces i).procs → q ≠ p := by
      rintro hm rfl
      have := (h.listed i q hm).1
      rw [hnull] at this
      cases this
    split at hq
    case isTrue he =>
      rcases List.mem_cons.1 hq with rfl | hq
      · rw [if_pos rfl]
        exact ⟨rfl, he.symm⟩
      · rw [if_neg (hold hq)]
        exact h.listed i q hq
    case isFalse he =>
      rw [if_neg (hold hq)]
      exact h.listed i q hq

theorem WellFormed.setDACR {md : ProcMD} (h : WellFormed (· = p) s)
    (hfcse : (s.md p).firstLevelMappingTable = .fcse)
    (hmd : md = { s.md p with dacr := 1 <<< ((s.smallSpaces (s.md p).pid).domain * 2) ||| 1 })
    (hdom : (s.smallSpaces (s.md p).pid).domain ≠ 0) :
    WellFormed (fun _ => False) { s with md := update s.md p md } := by
  have hsame : ∀ q, (update s.md p md q).firstLevelMappingTable =
        (s.md q).firstLevelMappingTable ∧ (update s.md p md q).pid = (s.md q).pid := by
    intro q
    rw [update_apply]
    split
    case isTrue he => rw [he, hmd]; exact ⟨rfl, rfl⟩
    case isFalse => exact ⟨rfl, rfl⟩
  refine { h with mapped := ?_, access := ?_, unmapped := ?_, listed := ?_ }
  · intro q hq
    simp only [(hsame q).1, (hsame q).2] at hq ⊢
    exact h.mapped q hq
  · intro q hq _
    simp only [(hsame q).1, (hsame q).2] at hq ⊢
    by_cases he : q = p
    · subst he
      rw [update_self, hmd]
      exact ⟨hdom, rfl⟩
    · rw [update_of_ne he]
      exact h.access q hq he
  · intro q hq
    simp only [(hsame q).1] at hq
    have hne : q ≠ p := by
      rintro rfl
      rw [hfcse] at hq
      cases hq
    simp only [update_of_ne hne]
    exact h.unmapped q hq
  · intro i q hq
    simp only [(hsame q).1, (hsame q).2]
    exact h.listed i q hq

theorem WellFormed.registerProc (h : WellFormed E s) (path : List ℕ) :
    WellFormed E (s.registerProc p path) := by
  refine { h with mapped := fun q hq => ?_ }
  obtain ⟨hl, hf, hpr⟩ := h.mapped q hq
  refine ⟨hl, hf, ?_⟩
  simp only [State.registerProc, update_apply]
  split
  case isTrue he => exact List.mem_append_right _ (he ▸ hpr)
  case isFalse => exact hpr

theorem use_spec {path : List ℕ} (h : WellFormed (fun _ => False) s)
    (ha : (Op.use cur p ssid path).Allowed s) (hs : (Op.use cur p ssid path).Safe s) :
    ∃ s', (Op.use cur p ssid path).run s = .ok s' ∧ WellFormed (fun _ => False) s' := by
  obtain ⟨hnull, -, h0, hlt, hfree, hprod⟩ := ha
  have hdep : ∀ q, (s.registerProc p path).procDepends q =
      if q = p then path ++ s.procDepends p else s.procDepends q := fun q => update_apply ..
  have hw := (h.registerProc (p := p) path).assignSSToProc ssid hnull hfree
    (by rw [hdep, if_pos rfl]; exact List.mem_append_left _ hprod)
  generalize hs₀ : (s.registerProc p path).assignSSToProc p ssid = s₀ at hw
  have hspace : ∀ i, (s₀.smallSpaces i).domain = (s.smallSpaces i).domain ∧
      (s₀.smallSpaces i).isFree = (s.smallSpaces i).isFree ∧
      (s₀.smallSpaces i).producer = (s.smallSpaces i).producer := by
    intro i
    subst hs₀
    simp only [State.assignSSToProc, State.setSpace, update_apply]
    split
    case isTrue he => rw [he]; exact ⟨rfl, rfl, rfl⟩
    case isFalse => exact ⟨rfl, rfl, rfl⟩
  have hmd : ∀ q, s₀.md q = if q = p then { s.md p with firstLevelMappingTable := .fcse, pid := ssid }
      else s.md q := by
    intro q
    subst hs₀
    exact update_apply ..
  have hdep₀ : s₀.procDepends = (s.registerProc p path).procDepends := by subst hs₀; rfl
  have hmmu : s₀.mmuDomains = s.mmuDomains := by subst hs₀; rfl
  have hst : s₀.lastDomainStolen = s.lastDomainStolen := by subst hs₀; rfl
  obtain ⟨s₁, hok, hw₁, hmd₁, hdom₁⟩ := ensureSSDomain_spec hw cur p h0
    hlt ((hspace ssid).2.1.trans hfree) <| by
      intro hno hall
      rw [(hspace ssid).1] at hno
      rw [hmmu] at hall
      obtain ⟨hcur, hp₁, hp₂⟩ := hs hno hall
      have hd₁0 : 0 < countDown 15 s.lastDomainStolen := countDown_pos (by decide)
      have hd₁15 : countDown 15 s.lastDomainStolen ≤ 15 :=
        countDown_le (by have := h.domainStolen.2; omega)
      simp only [hmmu, hst, (hspace _).2.2, hdep₀, hdep, if_true, hmd]
      refine ⟨?_, hp₁, ?_⟩
      · by_cases hcp : cur = p
        · -- The process itself has a space without a domain.
          rw [if_pos hcp]
          intro he
          have := (h.owned _ hd₁0 (by omega) (hall _ hd₁0 (by omega))).1
          rw [← he] at this
          exact hd₁0.ne (hno.symm.trans this)
        · rw [if_neg hcp]
          exact hcur hcp
      · rcases hp₂ with ⟨hcp, hskip, hno₁⟩ | hp₂
        · left
          rw [if_neg hcp, if_neg hcp]
          exact ⟨hskip, hno₁⟩
        · exact Or.inr hp₂
  rw [hmd, if_pos rfl] at hmd₁
  have hpid : (s₁.md p).pid = ssid := by rw [hmd₁]
  have hfcse : (s₁.md p).firstLevelMappingTable = .fcse := by rw [hmd₁]
  refine ⟨_, ?_, hw₁.setDACR hfcse rfl (by rw [hpid]; exact hdom₁)⟩
  change (s.registerProc p path).useSmallSpace cur p ssid = _
  unfold State.useSmallSpace
  rw [hs₀, hok, ok_bind, hpid]

/-! ## Releasing and allocating small spaces -/

theorem WellFormed.freeDomain (h : WellFormed E s)
    (hdescr : ∀ j, j / descriptorsPerSpace = i → (s.flptFCSE j).valid = false ∧ (s.flptFCSE j).domain = 0)
    (hprocs : ∀ p, (s.md p).firstLevelMappingTable = .fcse → (s.md p).pid ≠ i) :
    WellFormed E (s.freeDomain i) ∧ (s.freeDomain i).md = s.md ∧
      ((s.freeDomain i).smallSpaces i).domain = 0 ∧
      (∀ j, (s.smallSpaces j).domain = 0 → ((s.freeDomain i).smallSpaces j).domain = 0) ∧
      (s.freeDomain i).lastSSAssigned = s.lastSSAssigned ∧
      (s.freeDomain i).lastSSStolen = s.lastSSStolen := by
  unfold State.freeDomain
  by_cases hd : (s.smallSpaces i).domain = 0
  · simp only [ne_eq, hd, not_true, if_false]
    exact ⟨h, trivial, trivial, fun _ => id, trivial, trivial⟩
  · rw [if_pos hd]
    refine ⟨h.withoutDomain hd hdescr hprocs, rfl, ?_, fun j hj => ?_, rfl, rfl⟩
    · simp [State.setSpace]
    · simp only [State.setSpace, update_apply]
      split
      · rfl
      · exact hj

/-- `ReleaseSmallSpace`. -/
theorem releaseSmallSpace_spec (h : WellFormed (fun _ => False) s) (h0 : 0 < i) :
    ∃ s', s.releaseSmallSpace i = .ok s' ∧ WellFormed (fun _ => False) s' ∧
      (s'.smallSpaces i).domain = 0 ∧
      (∀ j, (s.smallSpaces j).domain = 0 → (s'.smallSpaces j).domain = 0) ∧
      s'.lastSSAssigned = s.lastSSAssigned ∧ s'.lastSSStolen = s.lastSSStolen := by
  have hw₁ := h.resetProcs fun q => decide (q ∈ (s.smallSpaces i).procs)
  have hmd₁ : ∀ q, (s.resetProcs fun q => decide (q ∈ (s.smallSpaces i).procs)).md q =
      if q ∈ (s.smallSpaces i).procs then .unmapped else s.md q := by
    intro q
    simp [State.resetProcs]
  have hsp₁ : ∀ j, ((s.resetProcs fun q => decide (q ∈ (s.smallSpaces i).procs)).smallSpaces j).domain =
      (s.smallSpaces j).domain := fun _ => rfl
  generalize hs₁ : (s.resetProcs fun q => decide (q ∈ (s.smallSpaces i).procs)) = s₁ at hw₁ hmd₁ hsp₁
  have hcur₁ : s₁.lastSSAssigned = s.lastSSAssigned ∧ s₁.lastSSStolen = s.lastSSStolen := by
    subst hs₁
    exact ⟨rfl, rfl⟩
  set flpt : ℕ → L1D := fun j => if j / descriptorsPerSpace = i then .zapped else s₁.flptFCSE j with hflpt
  have hw₂ : WellFormed (fun _ => False) { s₁ with flptFCSE := flpt } := by
    refine hw₁.descriptors fun j hj => ?_
    simp only [hflpt] at hj ⊢
    split at hj
    case isTrue => simp [L1D.zapped] at hj
    case isFalse he =>
      rw [if_neg he]
      exact hw₁.descr j hj
  -- No process has the space any more.
  have hgone : ∀ p, (s₁.md p).firstLevelMappingTable = .fcse → (s₁.md p).pid ≠ i := by
    intro p hp he
    have hm := (hw₁.mapped p hp).1
    rw [he] at hm
    subst hs₁
    simpa [State.resetProcs] using (List.mem_filter.1 hm)
  obtain ⟨hw₃, hmd₃, hd₃, hdj₃, hcur₃⟩ := hw₂.freeDomain (i := i)
    (fun j hj => by simp only [hflpt, if_pos hj]; exact ⟨rfl, rfl⟩) hgone
  have hrun : s.releaseSmallSpace i =
      if (({ s₁ with flptFCSE := flpt } : State).freeDomain i).nobodyHolds i then
        .ok ((({ s₁ with flptFCSE := flpt } : State).freeDomain i).setSpace i
          { (({ s₁ with flptFCSE := flpt } : State).freeDomain i).smallSpaces i with isFree := true })
      else .error .assertion := by
    unfold State.releaseSmallSpace
    simp only [hs₁]
    rfl
  generalize ({ s₁ with flptFCSE := flpt } : State).freeDomain i = s₃ at *
  have hnobody : s₃.nobodyHolds i = true := by
    refine List.all_eq_true.2 fun q _ => decide_eq_true ?_
    rw [hmd₃]
    by_cases he : (s₁.md q).pid = i
    · right
      cases hq : (s₁.md q).firstLevelMappingTable with
      | fcse => exact absurd he (hgone q hq)
      | null =>
        obtain ⟨-, hp | hp⟩ := hw₁.unmapped q hq
        · omega
        · exact ⟨he.symm.trans hp, rfl⟩
    · exact Or.inl he
  rw [if_pos hnobody] at hrun
  have hother : ∀ j, ((s₃.setSpace i { s₃.smallSpaces i with isFree := true }).smallSpaces j).domain =
      (s₃.smallSpaces j).domain ∧
      ((s₃.setSpace i { s₃.smallSpaces i with isFree := true }).smallSpaces j).procs =
        (s₃.smallSpaces j).procs ∧
      ((s₃.setSpace i { s₃.smallSpaces i with isFree := true }).smallSpaces j).producer =
        (s₃.smallSpaces j).producer ∧
      ((s₃.setSpace i { s₃.smallSpaces i with isFree := true }).smallSpaces j).isFree =
        if j = i then true else (s₃.smallSpaces j).isFree := by
    intro j
    simp only [State.setSpace, update_apply]
    split
    case isTrue he => rw [he]; exact ⟨rfl, rfl, rfl, rfl⟩
    case isFalse => exact ⟨rfl, rfl, rfl, rfl⟩
  refine ⟨_, hrun, ?_, by rw [(hother i).1]; exact hd₃, fun j hj => ?_, ?_, ?_⟩
  · refine { hw₃ with owned := ?_, owns := ?_, free := ?_, descr := ?_, mapped := ?_, access := ?_,
                      listed := ?_ }
    · intro d hd0 hd hne
      rw [(hother _).1]
      exact hw₃.owned d hd0 hd hne
    · intro j hj
      rw [(hother j).1] at hj ⊢
      exact hw₃.owns j hj
    · intro j hj
      rw [(hother j).2.2.2] at hj
      rw [(hother j).1]
      split at hj
      case isTrue he => rw [he]; exact hd₃
      case isFalse => exact hw₃.free j hj
    · intro j hj
      rw [(hother _).1]
      exact hw₃.descr j hj
    · intro p hp
      obtain ⟨hl, hf, hpr⟩ := hw₃.mapped p hp
      rw [(hother _).2.1, (hother _).2.2.1, (hother _).2.2.2, if_neg]
      · exact ⟨hl, hf, hpr⟩
      · change (s₃.md p).pid ≠ i
        change (s₃.md p).firstLevelMappingTable = _ at hp
        rw [hmd₃] at hp ⊢
        exact hgone p hp
    · intro p hp hE
      rw [(hother _).1]
      exact hw₃.access p hp hE
    · intro j p hp
      rw [(hother j).2.1] at hp
      exact hw₃.listed j p hp
  · rw [(hother j).1]
    exact hdj₃ j ((hsp₁ j).trans hj)
  · exact hcur₃.1.trans hcur₁.1
  · exact hcur₃.2.trans hcur₁.2

theorem stealSpaces_spec (n : ℕ) (h : WellFormed (fun _ => False) s)
    (hd : (s.smallSpaces s.lastSSAssigned).domain = 0) :
    ∃ s', stealSpaces n false s = .ok s' ∧ WellFormed (fun _ => False) s' ∧
      (s'.smallSpaces s'.lastSSAssigned).domain = 0 := by
  induction n generalizing s with
  | zero => exact ⟨s, rfl, h, hd⟩
  | succ n ih =>
    have hpos : 0 < countDown (numSmallSpaces - 1) s.lastSSStolen := countDown_pos (by decide)
    have hle := countDown_le (b := numSmallSpaces - 1) (c := s.lastSSStolen) (by
      have := h.ssStolen.2
      omega)
    have hw : WellFormed (fun _ => False)
        { s with lastSSStolen := countDown (numSmallSpaces - 1) s.lastSSStolen } :=
      { h with ssStolen := ⟨hpos, Nat.lt_of_le_of_lt hle (by decide)⟩ }
    obtain ⟨s₁, hok, hw₁, -, hkept, has₁, -⟩ := releaseSmallSpace_spec hw hpos
    obtain ⟨s₂, hok₂, hw₂, hd₂⟩ := ih hw₁ (by rw [has₁]; exact hkept _ hd)
    refine ⟨s₂, ?_, hw₂, hd₂⟩
    unfold stealSpaces
    simp only [Bool.false_eq_true, if_false]
    rw [hok, ok_bind, hok₂]

theorem WellFormed.grab (h : WellFormed (fun _ => False) s) (hd : (s.smallSpaces i).domain = 0)
    (producer : ℕ) :
    WellFormed (fun _ => False)
      (s.setSpace i { s.smallSpaces i with isFree := false, producer := producer }) := by
  -- A space without a domain has no processes.
  have hgone : ∀ p, (s.md p).firstLevelMappingTable = .fcse → (s.md p).pid ≠ i := by
    intro p hp he
    exact (h.access p hp not_false).1 (he ▸ hd)
  have hother : ∀ j, ((s.setSpace i { s.smallSpaces i with
        isFree := false, producer := producer }).smallSpaces j).domain = (s.smallSpaces j).domain ∧
      ((s.setSpace i { s.smallSpaces i with
        isFree := false, producer := producer }).smallSpaces j).procs = (s.smallSpaces j).procs := by
    intro j
    simp only [State.setSpace, update_apply]
    split
    case isTrue he => rw [he]; exact ⟨rfl, rfl⟩
    case isFalse => exact ⟨rfl, rfl⟩
  have hne : ∀ j, j ≠ i → (s.setSpace i { s.smallSpaces i with
      isFree := false, producer := producer }).smallSpaces j = s.smallSpaces j :=
    fun j hj => update_of_ne hj ..
  refine { h with owned := ?_, owns := ?_, free := ?_, descr := ?_, mapped := ?_, access := ?_,
                  listed := ?_ }
  · intro d hd0 hd' hnz
    rw [(hother _).1]
    exact h.owned d hd0 hd' hnz
  · intro j hj
    rw [(hother j).1] at hj ⊢
    exact h.owns j hj
  · intro j hj
    rw [(hother j).1]
    by_cases he : j = i
    · rw [he]
      exact hd
    · rw [hne j he] at hj
      exact h.free j hj
  · intro j hj
    rw [(hother _).1]
    exact h.descr j hj
  · intro p hp
    rw [setSpace_md, hne _ (hgone p hp)]
    exact h.mapped p hp
  · intro p hp hE
    rw [setSpace_md, (hother _).1]
    exact h.access p hp hE
  · intro j p hp
    rw [(hother j).2] at hp
    exact h.listed j p hp

theorem freeUpSmallSpace_spec (h : WellFormed (fun _ => False) s) :
    ∃ s', s.freeUpSmallSpace = .ok s' ∧ WellFormed (fun _ => False) s' ∧
      (s'.smallSpaces s'.lastSSAssigned).domain = 0 := by
  have hle : s.lastSSAssigned ≤ numSmallSpaces - 1 := by
    have := h.ssAssigned.2
    omega
  obtain ⟨hr, hfound⟩ := findDown_spec (numSmallSpaces - 1)
    (fun i => (s.smallSpaces i).isFree) h.ssAssigned.1 hle
  unfold State.freeUpSmallSpace
  generalize findDown (numSmallSpaces - 1) (fun i => (s.smallSpaces i).isFree) (numSmallSpaces - 1)
    s.lastSSAssigned = r at *
  obtain ⟨last, found⟩ := r
  have hw : WellFormed (fun _ => False) { s with lastSSAssigned := last } :=
    { h with ssAssigned := ⟨hr.1, Nat.lt_of_le_of_lt hr.2 (by decide)⟩ }
  cases found with
  | true => exact ⟨_, rfl, hw, h.free last (by simpa using hfound)⟩
  | false =>
    -- The first space that is stolen is the one that is assigned.
    have hpos : 0 < countDown (numSmallSpaces - 1) s.lastSSStolen := countDown_pos (by decide)
    have hle' := countDown_le (b := numSmallSpaces - 1) (c := s.lastSSStolen) (by
      have := h.ssStolen.2
      omega)
    have hw' : WellFormed (fun _ => False)
        { s with lastSSStolen := countDown (numSmallSpaces - 1) s.lastSSStolen
                 lastSSAssigned := countDown (numSmallSpaces - 1) s.lastSSStolen } :=
      { h with ssStolen := ⟨hpos, Nat.lt_of_le_of_lt hle' (by decide)⟩
               ssAssigned := ⟨hpos, Nat.lt_of_le_of_lt hle' (by decide)⟩ }
    obtain ⟨s₁, hok, hw₁, hd₁, -, has₁, -⟩ := releaseSmallSpace_spec hw' hpos
    obtain ⟨s₂, hok₂, hw₂, hd₂⟩ := stealSpaces_spec (ktuneNSSSteal - 1) hw₁ (by rw [has₁]; exact hd₁)
    refine ⟨s₂, ?_, hw₂, hd₂⟩
    change (State.releaseSmallSpace _ _ >>= fun s => stealSpaces (ktuneNSSSteal - 1) false s) = _
    simp only [if_true]
    rw [hok, ok_bind, hok₂]

/-- `AllocateSmallSpace`. -/
theorem allocateSmallSpace_spec (h : WellFormed (fun _ => False) s) (producer : ℕ) :
    ∃ s', s.allocateSmallSpace producer = .ok s' ∧ WellFormed (fun _ => False) s' := by
  obtain ⟨s₁, hok₁, hw₁, hd₁⟩ := freeUpSmallSpace_spec h
  unfold State.allocateSmallSpace
  rw [hok₁, ok_bind, if_pos hd₁]
  exact ⟨_, rfl, hw₁.grab hd₁ producer⟩

/-! ## Descriptors -/

theorem WellFormed.setDescriptor (h : WellFormed E s) {descr : L1D}
    (hd : descr.valid = true ∨ descr.domain ≠ 0 →
      descr.domain = (s.smallSpaces (i / descriptorsPerSpace)).domain ∧ descr.domain ≠ 0) :
    WellFormed E { s with flptFCSE := update s.flptFCSE i descr } := by
  refine h.descriptors fun j hj => ?_
  by_cases he : j = i
  · subst he
    rw [update_self] at hj ⊢
    exact hd hj
  · rw [update_of_ne he] at hj ⊢
    exact h.descr j hj

theorem index_div {offset : ℕ} (h : offset < descriptorsPerSpace) :
    s.index p offset / descriptorsPerSpace = (s.md p).pid := by
  unfold State.index
  rw [Nat.mul_comm, Nat.mul_add_div (by decide), Nat.div_eq_of_lt h, Nat.add_zero]

/-! ## Runs -/

theorem WellFormed.step (h : WellFormed (fun _ => False) s) {op : Op} (ha : op.Allowed s)
    (hs : op.Safe s) : ∃ s', op.run s = .ok s' ∧ WellFormed (fun _ => False) s' := by
  cases op with
  | reset p => exact ⟨_, rfl, h.resetProcs _⟩
  | forget p obj =>
    have hr := h.resetProcs (· == p)
    refine ⟨_, rfl, { hr with mapped := fun q hq => ?_ }⟩
    obtain ⟨hl, hf, hpr⟩ := hr.mapped q hq
    have hne : q ≠ p := by
      rintro rfl
      simp [State.resetMappingTable, State.resetProcs, ProcMD.unmapped] at hq
    refine ⟨hl, hf, ?_⟩
    simp only [update_of_ne hne]
    exact hpr
  | beginWalk p =>
    have hr := h.resetProcs (· == p)
    have hp : (s.resetProcs (· == p)).md p = .unmapped := by simp [State.resetProcs]
    have hmd : ∀ q, (update (s.resetProcs (· == p)).md p
        { (s.resetProcs (· == p)).md p with pid := pidInProgress } q).firstLevelMappingTable = .fcse →
        q ≠ p := by
      rintro q hq rfl
      rw [update_self, hp] at hq
      cases hq
    refine ⟨_, rfl, { hr with mapped := fun q hq => ?_, access := fun q hq hE => ?_,
                              unmapped := fun q hq => ?_, listed := fun j q hq => ?_ }⟩
    · have hne := hmd q hq
      simp only [State.resetMappingTable, update_of_ne hne] at hq ⊢
      exact hr.mapped q hq
    · have hne := hmd q hq
      simp only [State.resetMappingTable, update_of_ne hne] at hq ⊢
      exact hr.access q hq hE
    · simp only [State.resetMappingTable] at hq ⊢
      by_cases hqp : q = p
      · subst hqp
        rw [update_self, hp]
        exact ⟨rfl, Or.inr rfl⟩
      · rw [update_of_ne hqp] at hq ⊢
        exact hr.unmapped q hq
    · have hl := hr.listed j q hq
      have hne : q ≠ p := by
        rintro rfl
        rw [hp] at hl
        cases hl.1
      simp only [State.resetMappingTable, update_of_ne hne]
      exact hl
  | allocate producer => exact allocateSmallSpace_spec h producer
  | use cur p ssid path => exact use_spec h ha hs
  | release ssid =>
    obtain ⟨s', hok, hw, -⟩ := releaseSmallSpace_spec h ha.1
    exact ⟨s', hok, hw⟩
  | restore cur p offset =>
    obtain ⟨hfcse, hoff, -, -⟩ := ha
    have hdom := (h.access p hfcse not_false).1
    have hidx := index_div (s := s) (p := p) hoff
    change ∃ s', s.restoreDescriptor cur (s.index p offset) = .ok s' ∧ _
    unfold State.restoreDescriptor
    by_cases hd : (s.flptFCSE (s.index p offset)).domain = 0
    · simp only [ne_eq, hd, not_true, if_false, hidx]
      rw [ensureSSDomain_of_domain hdom, ok_bind]
      refine ⟨_, rfl, h.setDescriptor fun _ => ?_⟩
      rw [hidx]
      exact ⟨rfl, hdom⟩
    · simp only [ne_eq, hd, not_false_eq_true, if_true]
      exact ⟨_, rfl, h.setDescriptor fun _ => h.descr _ (Or.inr hd)⟩
  | beginDescriptor p offset => exact ⟨_, rfl, h.setDescriptor (by simp)⟩
  | setDescriptor cur p offset coarsePT path =>
    obtain ⟨hfcse, hoff, -, -⟩ := ha
    have hdom := (h.access p hfcse not_false).1
    have hidx := index_div (s := s) (p := p) hoff
    have hw : WellFormed (fun _ => False) (s.registerDescriptor (s.index p offset) path) := { h with }
    change ∃ s', (s.registerDescriptor (s.index p offset) path).setDescriptor cur (s.index p offset)
      coarsePT = .ok s' ∧ _
    unfold State.setDescriptor
    simp only [hidx]
    rw [ensureSSDomain_of_domain (s := s.registerDescriptor (s.index p offset) path) hdom, ok_bind]
    refine ⟨_, rfl, hw.setDescriptor fun _ => ?_⟩
    rw [hidx]
    exact ⟨rfl, hdom⟩
  | invalidate i => exact ⟨_, rfl, h.setDescriptor (by simp [L1D.zapped])⟩
  | track i =>
    refine ⟨_, rfl, h.setDescriptor fun hi => ?_⟩
    simp only [Bool.false_eq_true, false_or] at hi
    exact h.descr i (Or.inr hi)

theorem SafeReach.wellFormed (h : SafeReach s) : WellFormed (fun _ => False) s := by
  induction h with
  | init => exact wellFormed_init
  | step op _ ha hs hrun ih =>
    obtain ⟨s', hok, hw⟩ := ih.step ha hs
    rw [hrun] at hok
    cases hok
    exact hw

theorem enables_shift : ∀ d < 16, ∀ e < 16,
    (1 <<< (d * 2) ||| 1) / 2 ^ (e * 2) % 4 ≠ 0 → e = 0 ∨ e = d := by decide

theorem WellFormed.isolated (h : WellFormed (fun _ => False) s) : Isolated s := by
  refine ⟨fun i d hi hilt hd => ?_, fun p d hd hen => ?_, fun i hi => h.descr i (Or.inl hi)⟩
  · constructor
    · rintro rfl
      obtain ⟨hlt, hm, -⟩ := h.owns i hd.ne'
      exact ⟨hlt, hm⟩
    · rintro ⟨hlt, rfl⟩
      exact (h.owned d hd hlt hi.ne').1
  · unfold ProcMD.Enables at hen
    cases hf : (s.md p).firstLevelMappingTable with
    | null =>
      rw [(h.unmapped p hf).1] at hen
      have h0 := enables_shift 0 (by decide) d hd hen
      omega
    | fcse =>
      obtain ⟨hne, hdacr⟩ := h.access p hf not_false
      rw [hdacr] at hen
      rcases enables_shift _ (h.owns _ hne).1 d hd hen with h0 | hd'
      · exact Or.inl h0
      · exact Or.inr ⟨rfl, hd'.symm⟩

/-- As long as domains are stolen safely, the small spaces are isolated, and no assertion fails. -/
theorem isolated_of_safe (h : SafeReach s) :
    Isolated s ∧ ∀ op : Op, op.Allowed s → op.Safe s → ∃ s', op.run s = .ok s' := by
  refine ⟨h.wellFormed.isolated, fun op ha hs => ?_⟩
  obtain ⟨s', hok, -⟩ := h.wellFormed.step ha hs
  exact ⟨s', hok⟩

/-- A run of allowed operations. -/
def runFrom : State → List Op → Option State
  | s, [] => some s
  | s, op :: ops =>
    if op.Allowed s then
      match op.run s with
      | .ok s' => runFrom s' ops
      | .error _ => none
    else none

theorem Reach.runFrom {ops : List Op} (h : Reach s) (hr : ArmMapping.runFrom s ops = some s') :
    Reach s' := by
  induction ops generalizing s with
  | nil =>
    cases hr
    exact h
  | cons op ops ih =>
    unfold ArmMapping.runFrom at hr
    split at hr
    case isFalse => cases hr
    case isTrue ha =>
      split at hr
      case h_1 hrun => exact ih (.step op h ha hrun) hr
      case h_2 => cases hr

/-- Process `p` gets a small space `ssid`, produced by `obj`, while process 1 runs. -/
def getSpace (p ssid obj : ℕ) : List Op :=
  [.beginWalk p, .allocate obj, .use 1 p ssid [obj]]

/-- Each of fifteen processes has a small space with a domain of its own. -/
def fifteenProcesses : List Op := (List.range 15).flatMap fun k => getSpace (k + 1) (79 - k) (101 + k)

/-- Processes 1 and 2 have small spaces with domains of their own. -/
theorem isolated_two_processes : ∃ s, SafeReach s ∧ s.mmuDomains 15 = 79 ∧ s.mmuDomains 14 = 78 ∧ Isolated s := by
  have h1 : SafeReach _ := .step (.beginWalk 1) .init rfl trivial rfl
  have h2 : SafeReach _ := .step (.allocate 101) h1 trivial trivial rfl
  have h3 : SafeReach _ := .step (.use 1 1 79 [101]) h2 (by decide)
    (fun _ hall => absurd rfl (hall 1 (by decide) (by decide))) rfl
  have h4 : SafeReach _ := .step (.beginWalk 2) h3 rfl trivial rfl
  have h5 : SafeReach _ := .step (.allocate 102) h4 trivial trivial rfl
  have h6 : SafeReach _ := .step (.use 1 2 78 [102]) h5 (by decide)
    (fun _ hall => absurd rfl (hall 1 (by decide) (by decide))) rfl
  exact ⟨_, h6, rfl, rfl, (isolated_of_safe h6).1⟩

/-- While process 1 runs, the message buffer of process 16 is mapped. It gets domain 15, which the small
space of process 1 still has. -/
theorem domain_shared : ∃ s, Reach s ∧ (s.smallSpaces 79).domain = 15 ∧
    (s.smallSpaces 64).domain = 15 ∧ s.mmuDomains 15 = 64 ∧ ¬ Isolated s := by
  have hrun : (runFrom .init (fifteenProcesses ++ getSpace 16 64 116)).map
      (fun s => ((s.smallSpaces 79).domain, (s.smallSpaces 64).domain, s.mmuDomains 15)) =
        some (15, 15, 64) := by decide +kernel
  obtain ⟨s, hs, hv⟩ := Option.map_eq_some_iff.1 hrun
  simp only [Prod.mk.injEq] at hv
  obtain ⟨h79, h64, h15⟩ := hv
  refine ⟨s, Reach.init.runFrom hs, h79, h64, h15, fun hi => ?_⟩
  have := ((hi.owner 79 15 (by decide) (by decide) (by decide)).1 h79).2
  omega

/-- Processes 2 and 17 get small spaces from one object, with different restrictions. To find a domain
for process 17 that of process 2 is stolen, and both are reset. Process 17 then has access to a domain
and no small space. -/
theorem domain_left : ∃ s, Reach s ∧ (s.md 17).firstLevelMappingTable = .null ∧
    (s.md 17).Enables 15 ∧ ¬ Isolated s := by
  have hrun : (runFrom .init (getSpace 2 79 101 ++ ((List.range 14).flatMap fun k =>
      getSpace (k + 3) (78 - k) (102 + k)) ++ getSpace 17 64 101)).map
      (fun s => ((s.md 17).firstLevelMappingTable, (s.md 17).dacr)) =
        some (.null, 1 <<< 30 ||| 1) := by decide +kernel
  obtain ⟨s, hs, hv⟩ := Option.map_eq_some_iff.1 hrun
  simp only [Prod.mk.injEq] at hv
  obtain ⟨hnull, hdacr⟩ := hv
  have hen : (s.md 17).Enables 15 := by
    unfold ProcMD.Enables
    rw [hdacr]
    decide
  refine ⟨s, Reach.init.runFrom hs, hnull, hen, fun hi => ?_⟩
  rcases hi.dacr 17 15 (by decide) hen with h | ⟨hfcse, -⟩
  · cases h
  · rw [hnull] at hfcse
    cases hfcse

end CapROS.ArmMapping
