import CapROS.KeyRing.Operations

/-!
# Zapping Resume keys

`keyR_ZapResumeKeys` goes along the ring of a process from the `prev` side of its header, and stops at the
first key that is not a Resume key. As the Resume keys come last on the ring, it voids all of them.

* `Reach.wf`: the rings are well-formed in all runs.
* `keyRings_wellFormed`: the main result.
-/

namespace CapROS.KeyRing

open LinkedRing
open Function (update update_idem update_self update_of_ne update_eq_self)

variable {s s' : State} {ring : Loc → List ℕ} {xs a b : List ℕ} {p : ℕ}

theorem ResumeLast.split (h : ResumeLast s xs) :
    ∃ a b, xs = a ++ b ∧ (∀ j ∈ a, (s.key j).keyType ≠ .resume) ∧ ∀ j ∈ b, (s.key j).keyType = .resume := by
  induction xs with
  | nil => exact ⟨[], [], rfl, fun j hj => absurd hj List.not_mem_nil, fun j hj => absurd hj List.not_mem_nil⟩
  | cons x xs ih =>
    obtain ⟨hx, hxs⟩ := List.pairwise_cons.1 h
    by_cases hr : (s.key x).keyType = .resume
    · refine ⟨[], x :: xs, rfl, fun j hj => absurd hj List.not_mem_nil, ?_⟩
      intro j hj
      obtain rfl | hj := List.mem_cons.1 hj
      · exact hr
      · exact hx j hj hr
    · obtain ⟨a, b, rfl, ha, hb⟩ := ih hxs
      refine ⟨x :: a, b, rfl, ?_, hb⟩
      intro j hj
      obtain rfl | hj := List.mem_cons.1 hj
      · exact hr
      · exact ha j hj

/-- The last of the header of the ring of a process and the keys in a list. -/
def lastOf (p : ℕ) (xs : List ℕ) : Loc := (xs.getLast?.map Loc.key).getD (.proc p)

theorem lastOf_concat (p : ℕ) (xs : List ℕ) (k : ℕ) : lastOf p (xs ++ [k]) = .key k := by
  simp [lastOf]

theorem getLast?_lastOf (p : ℕ) (xs : List ℕ) :
    (Loc.proc p :: xs.map Loc.key).getLast? = some (lastOf p xs) := by
  obtain rfl | ⟨l, k, rfl⟩ := List.eq_nil_or_concat xs
  · rfl
  · rw [List.concat_eq_append, lastOf_concat, List.map_append, List.map_singleton, ← List.cons_append,
      List.getLast?_concat]

theorem prev_eq_lastOf {next prev : Loc → Loc} {l r : List ℕ} {k : ℕ}
    (h : Ring next prev (.proc p :: (l ++ k :: r).map .key)) : prev (.key k) = lastOf p l := by
  rw [List.map_append, List.map_cons, ← List.cons_append] at h
  obtain ⟨m, hm⟩ := List.getLast?_eq_some_iff.1 (getLast?_lastOf p l)
  rw [hm, List.append_assoc, List.singleton_append] at h
  exact (h.next_mid m).2

/-- The loop of `keyR_ZapResumeKeys`, when the keys in `v` have been voided, the Resume keys in `b` are
still to come, and then the keys in `a` that are no Resume keys. -/
theorem zap_loop (h : Inv s ring) (ha : ∀ j ∈ a, (s.key j).keyType ≠ .resume) :
    ∀ {v : List ℕ} {t : State} {fuel : ℕ}, ring (.proc p) = a ++ b ++ v →
      (∀ j ∈ b, (s.key j).keyType = .resume) → t.next = s.next →
      t.prev = update s.prev (.proc p) (lastOf p (a ++ b)) → (∀ j ∉ v, t.key j = s.key j) →
      b.length < fuel → ∃ t', keyRZapResumeKeys p fuel t = .ok t' ∧
        t'.next = update s.next (lastOf p a) (.proc p) ∧
        t'.prev = update s.prev (.proc p) (lastOf p a) ∧
        (∀ j, t'.key j = if j ∈ b then (s.key j).initToVoid else t.key j) := by
  have hring := h.links (.proc p) (isHeader_proc p)
  have hnodup := nodup_of_ring hring
  induction b using List.reverseRecOn with
  | nil =>
    intro v t fuel hsplit _ hnext hprev hkey hfuel
    obtain ⟨fuel, rfl⟩ := Nat.exists_eq_succ_of_ne_zero (Nat.ne_of_gt hfuel)
    have hlast : t.prev (.proc p) = lastOf p a := by
      rw [hprev, update_self, List.append_nil]
    rw [List.append_nil] at hprev hsplit
    unfold keyRZapResumeKeys
    rw [hlast]
    obtain rfl | ⟨l, k, rfl⟩ := List.eq_nil_or_concat a
    · -- There are only Resume keys on the ring.
      refine ⟨_, rfl, ?_, hprev, ?_⟩
      · rw [hnext]
      · intro j
        rw [if_neg List.not_mem_nil]
    · -- The loop stops at the last key that is no Resume key.
      rw [List.concat_eq_append] at hsplit ha hprev ⊢
      rw [lastOf_concat] at hprev ⊢
      have hk : k ∉ v := by
        rw [hsplit] at hnodup
        intro hv
        exact (List.nodup_append'.1 hnodup).2.2 (List.mem_append_right l (List.mem_singleton_self k)) hv
      have htype : (t.key k).isPreparedResumeKey = false := by
        rw [hkey k hk]
        simp [KeyBits.isPreparedResumeKey, ha k (by simp)]
      dsimp only
      rw [if_neg (by simp [htype])]
      refine ⟨_, rfl, ?_, hprev, ?_⟩
      · rw [hnext]
      · intro j
        rw [if_neg List.not_mem_nil]
  | append_singleton b k ih =>
    intro v t fuel hsplit hb hnext hprev hkey hfuel
    obtain ⟨fuel, rfl⟩ := Nat.exists_eq_succ_of_ne_zero (Nat.ne_of_gt (Nat.zero_lt_of_lt hfuel))
    rw [← List.append_assoc] at hprev hsplit
    rw [lastOf_concat] at hprev
    have hsplit' : ring (.proc p) = a ++ b ++ k :: v := by
      rw [hsplit]
      simp
    have hmem : k ∈ ring (.proc p) := by
      rw [hsplit']
      simp
    have hon := (h.mem _ (isHeader_proc p) k).1 hmem
    have hnot : k ∉ a ++ b ++ v := by
      rw [hsplit'] at hnodup
      exact (List.nodup_cons.1 (List.nodup_middle.1 hnodup)).1
    have hkv : k ∉ v := fun hv => hnot (List.mem_append_right _ hv)
    have htype := hb k (by simp)
    have hhazard : (t.key k).isHazard = false := by
      rw [hkey k hkv]
      exact h.hazard k htype
    have hres : (t.key k).isPreparedResumeKey = true := by
      have hprep := hon.1
      rw [hkey k hkv]
      simp only [KeyBits.isPreparedObjectKey, Bool.and_eq_true] at hprep
      simp [KeyBits.isPreparedResumeKey, htype, hprep.2]
    have hbefore : s.prev (.key k) = lastOf p (a ++ b) := by
      rw [hsplit'] at hring
      exact prev_eq_lastOf hring
    -- One round of the loop.
    set t₁ : State := ({ t with
      prev := update t.prev (.proc p) (t.prev (.key k)) } : State).put k (t.key k).initToVoid
    have hprev₁ : t₁.prev = update s.prev (.proc p) (lastOf p (a ++ b)) := by
      change update t.prev (.proc p) (t.prev (.key k)) = _
      rw [hprev, update_idem, update_of_ne (by simp), hbefore]
    have hkey₁ : ∀ j ∉ k :: v, t₁.key j = s.key j := by
      intro j hj
      rw [List.mem_cons, not_or] at hj
      rw [put_other _ _ hj.1]
      exact hkey j hj.2
    have hfuel₁ : b.length < fuel := by
      rw [List.length_append, List.length_singleton] at hfuel
      omega
    obtain ⟨t', hrun, hnext', hprev', hkey'⟩ :=
      ih (t := t₁) hsplit' (fun j hj => hb j (List.mem_append_left _ hj)) hnext hprev₁ hkey₁ hfuel₁
    refine ⟨t', ?_, hnext', hprev', ?_⟩
    · unfold keyRZapResumeKeys
      rw [show t.prev (.proc p) = .key k by rw [hprev, update_self]]
      dsimp only
      rw [if_pos hres, kassert_pos hhazard, ok_bind]
      exact hrun
    · intro j
      rw [hkey' j]
      by_cases hjk : j = k
      · subst hjk
        have hjb : j ∉ b := fun hj => hnot (by simp [hj])
        rw [if_neg hjb, put_same, if_pos (by simp), hkey j hkv]
      · rw [put_other _ _ hjk]
        simp [hjk]

theorem zap_fuel : ∀ {fuel : ℕ} {t t' : State}, keyRZapResumeKeys p fuel t = .ok t' →
    ∀ n, keyRZapResumeKeys p (fuel + n) t = .ok t'
  | 0, t, t', h, n => by cases h
  | fuel + 1, t, t', h, n => by
    rw [Nat.succ_add]
    unfold keyRZapResumeKeys at h ⊢
    split at h
    · dsimp only
      split at h
      · rename_i hres
        obtain ⟨hhazard, h⟩ := of_kassert_ok h
        rw [if_pos hres, kassert_pos hhazard, ok_bind]
        exact zap_fuel h n
      · rename_i hres
        rw [if_neg hres]
        exact h
    · exact h

theorem zap_spec (h : Inv s ring) (p : ℕ) :
    ∃ s' ring', (∀ fuel, (ring (.proc p)).length < fuel → keyRZapResumeKeys p fuel s = .ok s') ∧
      Inv s' ring' ∧ ∀ j, s'.key j =
        if (s.key j).isPreparedResumeKey = true ∧ (s.key j).u = .ok (.proc p) then (s.key j).initToVoid
        else s.key j := by
  obtain ⟨a, b, hsplit, ha, hb⟩ := (h.resume _ (isHeader_proc p)).split
  have hring := h.links _ (isHeader_proc p)
  have hprev₀ : s.prev = update s.prev (.proc p) (lastOf p (a ++ b)) := by
    have hlast := (h.prev_header (isHeader_proc p)).1
    rw [hsplit, getLast?_lastOf] at hlast
    rw [Option.some.inj hlast, update_eq_self]
  obtain ⟨s', hrun, hnext, hprev, hkey⟩ := zap_loop h ha (v := []) (t := s) (by rw [hsplit, List.append_nil]) hb
    rfl hprev₀ (fun _ _ => rfl) (Nat.lt_succ_self _)
  -- Which keys these are.
  have hmem : ∀ j, j ∈ b ↔ (s.key j).isPreparedResumeKey = true ∧ (s.key j).u = .ok (.proc p) := by
    intro j
    have hiff := h.mem _ (isHeader_proc p) j
    rw [hsplit, List.mem_append] at hiff
    constructor
    · intro hj
      obtain ⟨hprep, hu⟩ := hiff.1 (.inr hj)
      simp only [KeyBits.isPreparedObjectKey, Bool.and_eq_true] at hprep
      exact ⟨by simp [KeyBits.isPreparedResumeKey, hb j hj, hprep.2], hu⟩
    · rintro ⟨hres, hu⟩
      simp only [KeyBits.isPreparedResumeKey, Bool.and_eq_true, decide_eq_true_eq] at hres
      have hon : OnRing s j (.proc p) :=
        ⟨by simp [KeyBits.isPreparedObjectKey, KeyBits.isObjectKey, hres.1, hres.2], hu⟩
      exact (hiff.2 hon).resolve_left fun hj => ha j hj hres.1
  refine ⟨s', update ring (.proc p) a, ?_, ?_, ?_⟩
  · intro fuel hfuel
    have hle : b.length + 1 ≤ fuel := by
      rw [hsplit, List.length_append] at hfuel
      omega
    obtain ⟨n, rfl⟩ := Nat.exists_eq_add_of_le hle
    exact zap_fuel hrun n
  · have hdisj : ∀ j ∈ a, j ∉ b := fun j hj hjb => ha j hj (hb j hjb)
    have hlastmem : lastOf p a ∈ Loc.proc p :: (ring (.proc p)).map .key := by
      have hlast := List.mem_of_getLast? (getLast?_lastOf p a)
      rw [hsplit, List.map_append, ← List.cons_append]
      exact List.mem_append_left _ hlast
    refine h.modify (K := (· ∈ b)) (isHeader_proc p) ?_ ?_ ?_ ?_ ?_ ?_ ?_ ?_ ?_
    · intro j hj
      rw [hkey j, if_neg hj]
    · intro j hj header' hon
      have hon' := (h.mem _ (isHeader_proc p) j).1 (by rw [hsplit]; exact List.mem_append_right a hj)
      exact hon.unique hon'
    · intro j hj hprep
      rw [hkey j, if_pos hj] at hprep
      cases hprep
    · intro j hj
      rw [hkey j, if_pos hj]
      exact initToVoid_hazard _
    · intro l _ hl
      have hne : l ≠ lastOf p a := by
        rintro rfl
        exact hl hlastmem
      rw [hnext, update_of_ne hne]
    · intro l _ hl
      have hne : l ≠ .proc p := by
        rintro rfl
        exact hl List.mem_cons_self
      rw [hprev, update_of_ne hne]
    · rw [hsplit, List.map_append] at hring
      rw [hnext, hprev]
      exact hring.truncate (getLast?_lastOf p a)
    · intro j
      have hiff := h.mem _ (isHeader_proc p) j
      rw [hsplit, List.mem_append] at hiff
      unfold OnRing at hiff ⊢
      rw [hkey j]
      by_cases hj : j ∈ b
      · rw [if_pos hj]
        simp only [initToVoid_prepared, Bool.false_eq_true, false_and, iff_false]
        exact fun hja => hdisj j hja hj
      · rw [if_neg hj, ← hiff]
        simp [hj]
    · have hres := h.resume _ (isHeader_proc p)
      rw [hsplit] at hres
      refine (List.pairwise_append.1 hres).1.imp_of_mem ?_
      intro i j hi hj hij
      rw [hkey i, hkey j, if_neg (hdisj i hi), if_neg (hdisj j hj)]
      exact hij
  · intro j
    rw [hkey j]
    by_cases hj : j ∈ b
    · rw [if_pos hj, if_pos ((hmem j).1 hj)]
    · rw [if_neg hj, if_neg fun hc => hj ((hmem j).2 hc)]

/-! ## Runs -/

theorem WF.zapResumeKeys (h : WF s) {fuel : ℕ} (hrun : keyRZapResumeKeys p fuel s = .ok s') : WF s' := by
  obtain ⟨ring, hinv⟩ := h
  obtain ⟨s₁, ring', hspec, hinv', -⟩ := zap_spec hinv p
  -- With enough fuel there is one result.
  have hmore := zap_fuel hrun ((ring (.proc p)).length + 1)
  rw [hspec _ (by omega)] at hmore
  cases hmore
  exact ⟨ring', hinv'⟩

theorem WF.run (h : WF s) {op : Op} (hallow : op.Allowed s) (hrun : op.run s = .ok s') : WF s' := by
  cases op with
  | set k kb =>
    cases hrun
    exact h.keyNHSet k kb
  | move dst src => exact h.keyNHMove hrun
  | setToVoid k =>
    cases hrun
    exact h.keyNHSetToVoid k
  | setToNumber k hi mid lo =>
    cases hrun
    exact h.set rfl fun hr => by cases hr
  | setToObj k o kkt keyPerms keyData =>
    obtain ⟨-, hrun⟩ := of_kassert_ok hrun
    cases hrun
    cases kkt with
    | page | node | forwarder | gpt => exact h.setAfter rfl rfl rfl (by simp)
    | _ => cases hallow
  | setToProcess k p keyType keyData =>
    cases hrun
    obtain rfl | rfl := hallow
    · exact h.setAfter rfl rfl rfl (by simp)
    · exact h.setAfter rfl rfl rfl (by simp)
  | buildResumeKey p k =>
    cases hrun
    exact h.setBefore rfl rfl rfl rfl rfl
  | unprepare k =>
    by_cases hhazard : (s.key k).isHazard = false
    · obtain ⟨s₁, hrun₁, hwf⟩ := keyNHUnprepare_spec h hhazard
      cases hrun₁.symm.trans hrun
      exact hwf
    · simp only [Op.run, keyNHUnprepare, kassert_neg hhazard, error_bind] at hrun
      cases hrun
  | prepare k a =>
    obtain ⟨r, hres, hrun⟩ := of_bind_ok hrun
    cases hrun
    exact h.keyDoPrepare hres
  | validate k a =>
    obtain ⟨r, hres, hrun⟩ := of_bind_ok hrun
    cases hrun
    exact h.keyDoValidate hres
  | exchange keyReg tmp slot0 slot1 =>
    cases hrun
    exact h.xchgKey hallow.1
  | zapResumeKeys p fuel => exact h.zapResumeKeys hrun
  | rescindAll clear header fuel =>
    refine (WF.keyRLoop (fun {k s s'} hwf hact => ?_) h hrun).1
    cases hact
    exact hwf.keyNHSetToVoid k
  | unprepareAll clear header fuel =>
    refine (WF.keyRLoop (fun {k s s'} hwf hact => ?_) h hrun).1
    by_cases hhazard : (s.key k).isHazard = false
    · obtain ⟨s₁, hrun₁, hwf'⟩ := keyNHUnprepare_spec hwf hhazard
      cases hrun₁.symm.trans hact
      exact hwf'
    · simp only [keyNHUnprepare, kassert_neg hhazard, error_bind] at hact
      cases hact
  | setHazard k rdHazard wrHazard =>
    cases hrun
    exact h.refresh rfl rfl rfl fun hr => absurd hr hallow
  | clearHazard op => exact h.hazardOp hrun
  | setData k keyPerms keyData =>
    cases hrun
    obtain ⟨ring, hinv⟩ := id h
    exact h.refresh rfl rfl rfl (hinv.hazard k)
  | setHeader o hdr | setProcRoot p o =>
    cases hrun
    exact h.congr rfl rfl rfl

theorem State.Initial.wf (h : s.Initial) : WF s := by
  obtain ⟨hprep, hhazard, hempty⟩ := h
  have hnot : ∀ k, (s.key k).isPreparedObjectKey = false := fun k => by
    simp [KeyBits.isPreparedObjectKey, hprep k]
  refine ⟨fun _ => [], ?_, ?_, ?_, ?_, fun k _ => hhazard k⟩
  · intro header hh
    obtain ⟨hn, hp⟩ := hempty header hh
    exact ring_cons.2 ⟨by simp, by simp [LinkedRing.Joined, hn, hp]⟩
  · intro header _ k
    simp [OnRing, hnot k]
  · intro k hk
    rw [hnot k] at hk
    cases hk
  · exact fun _ _ => List.Pairwise.nil

theorem Reach.wf (h : Reach s) : WF s := by
  induction h with
  | init h => exact h.wf
  | step op _ hallow hrun ih => exact ih.run hallow hrun

/-- In all runs, each prepared object key is on one ring, once, that of the object it designates. The
rings are doubly linked cycles, from the `next` side of the header to its `prev` side, and on the ring of a
process the Resume keys are one segment at the end. So `keyR_ZapResumeKeys` voids all Resume keys to the
process, and nothing else. -/
theorem keyRings_wellFormed (h : Reach s) :
    ∃ ring : Loc → List ℕ,
      (∀ header : Loc, header.IsHeader → Ring s.next s.prev (header :: (ring header).map .key)) ∧
      (∀ header : Loc, header.IsHeader → ∀ k, k ∈ ring header ↔ OnRing s k header) ∧
      (∀ k, (s.key k).isPreparedObjectKey = true → ∃ header, OnRing s k header ∧ (s.key k).Suits header) ∧
      (∀ p, ∃ a b, ring (.proc p) = a ++ b ∧ (∀ k ∈ a, (s.key k).keyType ≠ .resume) ∧
        ∀ k ∈ b, (s.key k).keyType = .resume) ∧
      ∀ p, ∃ s', (∀ fuel, (ring (.proc p)).length < fuel → keyRZapResumeKeys p fuel s = .ok s') ∧
        ∀ k, s'.key k =
          if (s.key k).isPreparedResumeKey = true ∧ (s.key k).u = .ok (.proc p) then (s.key k).initToVoid
          else s.key k := by
  obtain ⟨ring, hinv⟩ := h.wf
  refine ⟨ring, hinv.links, hinv.mem, ?_, fun p => (hinv.resume _ (isHeader_proc p)).split, ?_⟩
  · intro k hk
    obtain ⟨header, -, hon, hsuits⟩ := hinv.exists_onRing hk
    exact ⟨header, hon, hsuits⟩
  · intro p
    obtain ⟨s', -, hrun, -, hkey⟩ := zap_spec hinv p
    exact ⟨s', hrun, hkey⟩

/-- No keys and no links. -/
def State.empty : State where
  key _ := ⟨.void, false, false, false, 0, 0, .nk 0 0 0⟩
  next l := l
  prev l := l
  objH _ := ⟨0, 0, 0, false, false⟩
  procRoot p := p

/-- A process has a Start key and a Resume key with a copy. The Resume keys are zapped. -/
theorem keyRings_wellFormed_three_keys :
    ∃ s s' fuel, Reach s ∧ keyRZapResumeKeys 0 fuel s = .ok s' ∧
      (s'.key 1).keyType = .start ∧ (s'.key 2).keyType = .void ∧ (s'.key 3).keyType = .void := by
  have hinit : Reach State.empty := .init ⟨fun _ => rfl, fun _ => rfl, fun _ _ => ⟨rfl, rfl⟩⟩
  have hstart := Reach.step (.setToProcess 1 0 .start 5) hinit (.inl rfl) rfl
  have hresume := Reach.step (.buildResumeKey 0 2) hstart trivial rfl
  have hcopy := Reach.step (.set 3 2) hresume trivial rfl
  obtain ⟨ring, -, -, -, -, hzap⟩ := keyRings_wellFormed hcopy
  obtain ⟨s', hrun, hkey⟩ := hzap 0
  refine ⟨_, s', _, hcopy, hrun _ (Nat.lt_succ_self _), ?_, ?_, ?_⟩
  · rw [hkey 1]
    decide
  · rw [hkey 2]
    decide
  · rw [hkey 3]
    decide

end CapROS.KeyRing
