import CapROS.KeyRing.WellFormed

/-!
# The operations keep the key rings well-formed
-/

namespace CapROS.KeyRing

open LinkedRing

/-- The key rings are well-formed. -/
def WF (s : State) : Prop := ∃ ring, Inv s ring

variable {s s' : State} {ring : Loc → List ℕ} {k kb : ℕ} {header : Loc} {key : KeyBits}

/-! ## A key is set -/

@[simp] theorem initToVoid_prepared (key : KeyBits) : key.initToVoid.isPreparedObjectKey = false := rfl

theorem initToVoid_hazard (key : KeyBits) : key.initToVoid.keyType = .resume → key.initToVoid.isHazard = false :=
  fun h => by cases h

theorem keyUnchain_of_not (h : (s.key k).isPreparedObjectKey = false) : keyUnchain k s = s := by
  unfold keyUnchain
  rw [if_neg (by simp [h])]

@[simp] theorem keyUnchain_key (k : ℕ) (s : State) : (keyUnchain k s).key = s.key := by
  unfold keyUnchain
  split <;> rfl

theorem WF.set (h : WF s) (hkey : key.isPreparedObjectKey = false)
    (hhazard : key.keyType = .resume → key.isHazard = false) : WF ((keyUnchain k s).put k key) := by
  obtain ⟨ring, hinv⟩ := h
  exact ⟨_, hinv.drop hkey hhazard⟩

theorem insertBetween_put (s : State) (p n : Loc) (key' : KeyBits) :
    (linkInsertBetween (.key k) p n (s.put k key')).put k key = linkInsertBetween (.key k) p n (s.put k key) := by
  simp [State.put, linkInsertBetween]

theorem Inv.prev_header (h : Inv s ring) (hh : header.IsHeader) :
    (header :: (ring header).map Loc.key).getLast? = some (s.prev header) ∧
      s.next (s.prev header) = header := by
  have hring := h.links header hh
  obtain hnil | ⟨l, j, hl⟩ := List.eq_nil_or_concat (ring header)
  · rw [hnil] at hring ⊢
    obtain ⟨hn, hp⟩ := hring.next_single
    rw [List.map_nil, hp]
    exact ⟨rfl, hn⟩
  · rw [List.concat_eq_append] at hl
    rw [hl, List.map_append, List.map_singleton] at hring ⊢
    obtain ⟨hn, hp⟩ := hring.next_last (l.map Loc.key)
    rw [hp]
    rw [← List.cons_append, List.getLast?_concat]
    exact ⟨rfl, hn⟩

theorem WF.setAfter (h : WF s) (hkey : key.isPreparedObjectKey = true) (hu : key.u = .ok header)
    (hsuits : key.Suits header) (htype : key.keyType ≠ .resume) :
    WF (linkInsertAfter header (.key k) ((keyUnchain k s).put k key)) := by
  obtain ⟨ring, hinv⟩ := h
  have hdrop := hinv.drop (k := k) (initToVoid_prepared key) (initToVoid_hazard key)
  have hlink := hdrop.link (k := k) (l := []) (by rw [put_same]; rfl) hsuits.isHeader rfl rfl hkey hu
    hsuits (fun j hj => absurd hj List.not_mem_nil) (fun _ _ hr => absurd hr htype)
    (fun hr => absurd hr htype)
  rw [insertBetween_put] at hlink
  exact ⟨_, hlink⟩

theorem WF.setBefore (h : WF s) (hkey : key.isPreparedObjectKey = true) (hu : key.u = .ok header)
    (hsuits : key.Suits header) (htype : key.keyType = .resume) (hhazard : key.isHazard = false) :
    WF (linkInsertBefore header (.key k) ((keyUnchain k s).put k key)) := by
  obtain ⟨ring, hinv⟩ := h
  have hdrop := hinv.drop (k := k) (initToVoid_prepared key) (initToVoid_hazard key)
  obtain ⟨hlast, hnext⟩ := hdrop.prev_header hsuits.isHeader
  have hlink := hdrop.link (k := k) (r := []) (by rw [put_same]; rfl) hsuits.isHeader
    (List.append_nil _).symm hlast hkey hu hsuits (fun _ _ _ => htype)
    (fun j hj => absurd hj List.not_mem_nil) (fun _ => hhazard)
  rw [hnext, insertBetween_put] at hlink
  exact ⟨_, hlink⟩

theorem fixup_eq (s : State) (hkb : kb ≠ k) :
    { s with
      next := Function.update (Function.update s.next (s.prev (.key kb)) (.key k)) (.key k) (.key kb)
      prev := Function.update (Function.update s.prev (.key k) (s.prev (.key kb))) (.key kb) (.key k) } =
      linkInsertBetween (.key k) (s.prev (.key kb)) (.key kb) s := by
  have hne : Loc.key k ≠ Loc.key kb := fun he => hkb (Loc.key.inj he).symm
  unfold linkInsertBetween
  rw [Function.update_comm hne]

@[simp] theorem unHazard_prepared (key : KeyBits) :
    key.unHazard.isPreparedObjectKey = key.isPreparedObjectKey := rfl

theorem suits_unhazarded (h : key.Suits header) :
    key.unHazard.Suits header := by
  cases header with
  | obj o | proc p | key k => exact h

theorem WF.keyNHSet (h : WF s) (k kb : ℕ) : WF (keyNHSet k kb s) := by
  unfold KeyRing.keyNHSet
  by_cases hkb : kb = k
  · rw [if_pos hkb]
    exact h
  rw [if_neg hkb]
  dsimp only
  rw [put_same, keyUnchain_key, unHazard_prepared]
  by_cases hprep : (s.key kb).isPreparedObjectKey = true
  · rw [if_pos hprep]
    obtain ⟨ring, hinv⟩ := h
    obtain ⟨header, hh, hon, hsuits⟩ := hinv.exists_onRing hprep
    have hdrop := hinv.drop (k := k) (initToVoid_prepared (s.key k)) (initToVoid_hazard (s.key k))
    set s₁ := (keyUnchain k s).put k (s.key k).initToVoid
    have hkey₁ : ∀ j, j ≠ k → s₁.key j = s.key j := by
      intro j hj
      rw [put_other _ _ hj, keyUnchain_key]
    have hon₁ : OnRing s₁ kb header := by
      unfold OnRing
      rw [hkey₁ kb hkb]
      exact hon
    obtain ⟨l, r, hlr⟩ := List.append_of_mem ((hdrop.mem header hh kb).2 hon₁)
    -- The node before the original.
    obtain ⟨p, hp⟩ : ∃ p, (header :: l.map Loc.key).getLast? = some p :=
      ⟨_, List.getLast?_eq_some_getLast (List.cons_ne_nil _ _)⟩
    obtain ⟨m, hm⟩ := List.getLast?_eq_some_iff.1 hp
    have hring := hdrop.links header hh
    rw [hlr, List.map_append, List.map_cons, ← List.cons_append, hm, List.append_assoc,
      List.singleton_append] at hring
    obtain ⟨hnext, hprev⟩ := hring.next_mid m
    -- All keys after a Resume key are Resume keys, and the copy has the type of the original.
    have hres := hdrop.resume header hh
    rw [hlr] at hres
    obtain ⟨-, hpr, hplr⟩ := List.pairwise_append.1 hres
    obtain ⟨hsr, -⟩ := List.pairwise_cons.1 hpr
    rw [hkey₁ kb hkb] at hsr
    have hlink := hdrop.link (k := k) (by rw [put_same]; rfl) hh hlr hp
      ((unHazard_prepared _).trans hprep) hon.2 (suits_unhazarded hsuits) ?_ ?_ fun _ => rfl
    · rw [hnext, insertBetween_put, ← hprev] at hlink
      rw [fixup_eq _ hkb]
      exact ⟨_, hlink⟩
    · intro j hj hjr
      have := hplr j hj kb (List.mem_cons_self ..) hjr
      rw [hkey₁ kb hkb] at this
      exact this
    · intro j hj hjr
      obtain rfl | hj := List.mem_cons.1 hj
      · rw [hkey₁ j hkb]
        exact hjr
      · exact hsr j hj hjr
  · rw [if_neg hprep]
    refine h.set (by simpa using hprep) fun _ => rfl

theorem WF.keyNHMove {dst src : ℕ} (h : WF s) (hrun : keyNHMove dst src s = .ok s') : WF s' := by
  obtain ⟨-, hrun⟩ := of_kassert_ok hrun
  obtain ⟨hsrc, hrun⟩ := of_kassert_ok hrun
  obtain ⟨hdst, hrun⟩ := of_kassert_ok hrun
  have hdst' : (s.key dst).isPreparedObjectKey = false := by
    simp [KeyBits.isPreparedObjectKey, hdst]
  cases hrun
  obtain ⟨ring, hinv⟩ := h
  by_cases hprep : (s.key src).isPreparedObjectKey = true
  · obtain ⟨header, hh, hon, hsuits⟩ := hinv.exists_onRing hprep
    rw [if_pos hprep]
    exact hinv.replace hdst' hon hh hsuits (initToVoid_prepared _) (initToVoid_hazard _)
  · rw [if_neg hprep]
    have hprep' : (s.key src).isPreparedObjectKey = false := by simpa using hprep
    have hput := hinv.put hdst' hprep' fun _ => hsrc
    refine ⟨_, hput.put ?_ (initToVoid_prepared _) (initToVoid_hazard _)⟩
    by_cases hne : src = dst
    · subst hne
      rw [put_same]
      exact hprep'
    · rw [put_other _ _ hne]
      exact hprep'

theorem WF.congr (h : WF s) (hkey : s'.key = s.key) (hnext : s'.next = s.next) (hprev : s'.prev = s.prev) :
    WF s' := by
  obtain ⟨ring, hinv⟩ := h
  refine ⟨ring, hinv.congr hnext hprev ?_ ?_ ?_ ?_⟩
  all_goals
    intro k
    rw [hkey]
  exact hinv.hazard k

theorem WF.refresh (h : WF s) (htype : key.keyType = (s.key k).keyType)
    (hprep : key.prepared = (s.key k).prepared) (hu : key.u = (s.key k).u)
    (hhazard : key.keyType = .resume → key.isHazard = false) : WF (s.put k key) := by
  obtain ⟨ring, hinv⟩ := h
  have hput : ∀ j, (s.put k key).key j = if j = k then key else s.key j := by
    intro j
    simp [State.put, Function.update_apply]
  refine ⟨ring, hinv.congr rfl rfl ?_ ?_ ?_ ?_⟩
  all_goals
    intro j
    rw [hput]
    split
  · rename_i hj
    rw [htype, hj]
  · rfl
  · rename_i hj
    rw [hprep, hj]
  · rfl
  · rename_i hj
    rw [hu, hj]
  · rfl
  · exact hhazard
  · exact hinv.hazard j

theorem WF.keyNHSetToVoid (h : WF s) (k : ℕ) : WF (keyNHSetToVoid k s) :=
  h.set (initToVoid_prepared _) (initToVoid_hazard _)

theorem keyNHUnprepare_spec (h : WF s) (hhazard : (s.key k).isHazard = false) :
    ∃ s', keyNHUnprepare k s = .ok s' ∧ WF s' := by
  unfold keyNHUnprepare
  rw [kassert_pos hhazard, ok_bind]
  by_cases hprep : (s.key k).prepared = false
  · rw [if_pos hprep]
    exact ⟨s, rfl, h⟩
  rw [if_neg hprep]
  by_cases hobj : (s.key k).isObjectKey = true
  · have hpok : (s.key k).isPreparedObjectKey = true := by
      simp [KeyBits.isPreparedObjectKey, hobj, hprep]
    obtain ⟨ring, hinv⟩ := h
    obtain ⟨header, hu, -⟩ := hinv.suits k hpok
    rw [if_pos hobj, hu]
    -- The flags of the object are set first.
    set s₁ : State := { s with
      objH := Function.update s.objH (keyObject s header)
        (if decide ((s.key k).keyType = .resume) then
          { s.objH (keyObject s header) with callCntUsed := true }
        else { s.objH (keyObject s header) with allocCntUsed := true }) }
    have hwf₁ : WF s₁ := WF.congr ⟨ring, hinv⟩ rfl rfl rfl
    refine ⟨_, rfl, hwf₁.set ?_ ?_⟩
    · simp [KeyBits.isPreparedObjectKey]
    · rw [keyUnchain_key]
      exact hinv.hazard k
  · rw [if_neg hobj]
    have hnot : (s.key k).isPreparedObjectKey = false := by
      simp [KeyBits.isPreparedObjectKey, hobj]
    refine ⟨_, rfl, ?_⟩
    have hset := h.set (k := k)
      (show KeyBits.isPreparedObjectKey { s.key k with prepared := false } = false by
        simp [KeyBits.isPreparedObjectKey]) fun _ => hhazard
    rw [keyUnchain_of_not hnot] at hset
    exact hset

theorem WF.prepareKeyToProcess (h : WF s) (hprep : (s.key k).prepared = false)
    (htype : (s.key k).isProcessType = true) (hhazard : (s.key k).keyType = .resume → (s.key k).isHazard = false)
    (p : ℕ) : WF (prepareKeyToProcess k p s) := by
  have hunchain : keyUnchain k s = s := keyUnchain_of_not (by simp [KeyBits.isPreparedObjectKey, hprep])
  have hobj : (s.key k).isObjectKey = true := by
    cases hk : (s.key k).keyType <;> simp_all [KeyBits.isProcessType, KeyBits.isObjectKey]
  unfold KeyRing.prepareKeyToProcess
  dsimp only
  rw [put_same]
  by_cases hr : (s.key k).keyType = .resume
  · rw [if_pos hr]
    have hset := h.setBefore (k := k)
      (show KeyBits.isPreparedObjectKey { s.key k with u := .ok (.proc p), prepared := true } = true by
        simpa [KeyBits.isPreparedObjectKey, KeyBits.isObjectKey] using hobj) rfl htype hr (hhazard hr)
    rw [hunchain] at hset
    exact hset
  · rw [if_neg hr]
    have hset := h.setAfter (k := k)
      (show KeyBits.isPreparedObjectKey { s.key k with u := .ok (.proc p), prepared := true } = true by
        simpa [KeyBits.isPreparedObjectKey, KeyBits.isObjectKey] using hobj) rfl htype hr
    rw [hunchain] at hset
    exact hset

theorem WF.linkToObject (h : WF s) (hprep : (s.key k).prepared = false)
    (hobj : (s.key k).isObjectKey = true) (htype : (s.key k).isProcessType = false) (o : ℕ) :
    WF (linkToObject k o s) := by
  have hunchain : keyUnchain k s = s := keyUnchain_of_not (by simp [KeyBits.isPreparedObjectKey, hprep])
  have hr : (s.key k).keyType ≠ .resume := by
    intro hr
    simp [KeyBits.isProcessType, hr] at htype
  have hset := h.setAfter (k := k)
    (show KeyBits.isPreparedObjectKey { s.key k with u := .ok (.obj o), prepared := true } = true by
      simpa [KeyBits.isPreparedObjectKey, KeyBits.isObjectKey] using hobj) rfl htype hr
  rw [hunchain] at hset
  exact hset

theorem WF.voidRescinded (h : WF s) {b : Bool} (hrun : voidRescinded k s = .ok (s', b)) : WF s' := by
  obtain ⟨-, hrun⟩ := of_kassert_ok hrun
  cases hrun
  unfold KeyRing.keyNHSetToVoid
  rw [put_put, put_same]
  exact h.set rfl fun hr => by cases hr

theorem WF.keyDoPrepare (h : WF s) {a : Lookup} {b : Bool} (hrun : keyDoPrepare k a s = .ok (s', b)) :
    WF s' := by
  obtain ⟨hprep, hrun⟩ := of_kassert_ok hrun
  obtain ⟨ring, hinv⟩ := id h
  by_cases htype : (s.key k).isProcessType = true
  · rw [if_pos htype] at hrun
    split at hrun
    · cases hrun
      exact h.prepareKeyToProcess hprep htype (hinv.hazard k) a.proc
    · exact h.voidRescinded hrun
  · rw [if_neg htype] at hrun
    by_cases hobj : (s.key k).isObjectKey = true
    · rw [if_pos hobj] at hrun
      split at hrun
      · cases hrun
        exact h.linkToObject hprep hobj (by simpa using htype) _
      · exact h.voidRescinded hrun
    · rw [if_neg hobj] at hrun
      cases hrun
      have hnot : ∀ u, KeyBits.isPreparedObjectKey { s.key k with prepared := u } = false := by
        intro u
        have hobj' : KeyBits.isObjectKey { s.key k with prepared := u } = (s.key k).isObjectKey := rfl
        simp [KeyBits.isPreparedObjectKey, hobj', hobj]
      have hset := h.set (k := k) (hnot true) (hinv.hazard k)
      rw [keyUnchain_of_not (hnot (s.key k).prepared)] at hset
      exact hset

theorem WF.keyDoValidate (h : WF s) {a : Lookup} {b : Bool} (hrun : keyDoValidate k a s = .ok (s', b)) :
    WF s' := by
  obtain ⟨hprep, hrun⟩ := of_kassert_ok hrun
  obtain ⟨ring, hinv⟩ := id h
  by_cases hobj : (s.key k).isObjectKey = true
  · rw [if_pos hobj] at hrun
    split at hrun
    · split at hrun
      · cases hrun
        by_cases htype : (s.key k).isProcessType = true
        · rw [if_pos htype]
          exact h.prepareKeyToProcess hprep htype (hinv.hazard k) a.proc
        · rw [if_neg htype]
          exact h.linkToObject hprep hobj (by simpa using htype) _
      · cases hrun
        exact h
    · obtain ⟨-, hrun⟩ := of_kassert_ok hrun
      cases hrun
      exact h.keyNHSetToVoid k
  · rw [if_neg hobj] at hrun
    cases hrun
    exact h

theorem WF.xchgKey (h : WF s) {keyReg : ℕ → ℕ} {tmp slot0 slot1 : ℕ}
    (htmp : (s.key tmp).isPreparedObjectKey = false) : WF (xchgKey keyReg tmp slot0 slot1 s) := by
  unfold KeyRing.xchgKey
  by_cases h0 : slot0 = krVoid
  · rw [if_pos h0]
    unfold copyKey
    split
    · exact h.keyNHSet _ _
    · exact h
  · rw [if_neg h0]
    have h₁ : WF (s.put tmp (s.key tmp).initToVoid) := by
      have hset := h.set (k := tmp) (initToVoid_prepared (s.key tmp)) (initToVoid_hazard _)
      rw [keyUnchain_of_not htmp] at hset
      exact hset
    have h₂ := (h₁.keyNHSet tmp (keyReg slot0)).keyNHSet (keyReg slot0) (keyReg slot1)
    split
    · exact (h₂.keyNHSet (keyReg slot1) tmp).set (initToVoid_prepared _) (initToVoid_hazard _)
    · exact h₂.set (initToVoid_prepared _) (initToVoid_hazard _)

/-! ## Loops over a ring -/

theorem WF.hazardOp (h : WF s) {op : HazardOp} (hrun : op.run s = .ok s') : WF s' := by
  cases op with
  | unHazard k =>
    cases hrun
    exact h.refresh rfl rfl rfl fun _ => rfl
  | move dst src => exact h.keyNHMove hrun
  | setValue k value0 value1 value2 =>
    cases hrun
    split
    · rename_i htype
      have hnot : ∀ u, KeyBits.isPreparedObjectKey { s.key k with u := u } = false := by
        intro u
        simp [KeyBits.isPreparedObjectKey, KeyBits.isObjectKey, htype]
      have hset := h.set (k := k) (hnot (.nk value0 value1 value2)) fun hr => by
        rw [htype] at hr
        cases hr
      rw [keyUnchain_of_not (hnot (s.key k).u)] at hset
      exact hset
    · exact h

theorem WF.hazardOps : ∀ {l : List HazardOp} {s s' : State}, WF s → l.foldlM HazardOp.run s = .ok s' → WF s'
  | [], s, s', h, hrun => by
    cases hrun
    exact h
  | op :: l, s, s', h, hrun => by
    obtain ⟨s₁, hop, hrun⟩ := of_bind_ok hrun
    exact WF.hazardOps (h.hazardOp hop) hrun

theorem WF.keyRLoop {act : ℕ → State → Except Halt State} {clear : ClearHazard}
    (hact : ∀ {k : ℕ} {s s' : State}, WF s → act k s = .ok s' → WF s') :
    ∀ {fuel : ℕ} {s s' : State}, WF s → keyRLoop act clear header fuel s = .ok s' →
      WF s' ∧ s'.next header = header
  | 0, s, s', h, hrun => by cases hrun
  | fuel + 1, s, s', h, hrun => by
    unfold KeyRing.keyRLoop at hrun
    split at hrun
    · rename_i hempty
      cases hrun
      exact ⟨h, hempty⟩
    · split at hrun
      · obtain ⟨-, hrun⟩ := of_kassert_ok hrun
        split at hrun
        · obtain ⟨s₁, hclear, hrun⟩ := of_bind_ok hrun
          exact WF.keyRLoop hact (h.hazardOps hclear) hrun
        · obtain ⟨s₁, hstep, hrun⟩ := of_bind_ok hrun
          exact WF.keyRLoop hact (hact h hstep) hrun
      · cases hrun

end CapROS.KeyRing
