import CapROS.Constructor.Basic

/-!
# Confinement by constructors

What a product gets from a constructor that says that it is discreet can be used to give away
nothing, if the two tests of `is_not_discreet` mean what they say and nothing that fails them is
inserted after sealing.

* `Step.Careful`: the condition on a step. `CarefulReach`: the runs that meet it.
* `confinement_run`: in such runs the products of a discreet constructor are confined.
* `confinement_fails`: the builder inserts a key after sealing.
-/

namespace CapROS.Constructor

open NodeKey (discreet)
open Function (update update_self update_of_ne)

variable {w w' w₀ : World} {c : ℕ} {ci ci' : ConstructorInfo} {k kr : Key}

/-- The key is discreet, or it is a requestor key to a constructor that is sealed and has no holes. -/
def Confined (w : World) (k : Key) : Prop :=
  w.discrimVerify k = true ∨ ∃ c ci, k.keyType = .start ∧ k.body = .prep c ∧
    k.keyData ≠ keyInfoBuilder ∧ w.info c = some ci ∧ ci.isDiscreet = true

/-- All constituents of a constructor are confined. -/
def ConstructorInfo.Confined (w : World) (ci : ConstructorInfo) : Prop :=
  (∀ i, Constructor.Confined w (ci.con i)) ∧ ∀ i, Constructor.Confined w (ci.xcon i)

/-- The key that a message inserts. -/
def Message.insertedKey (m : Message) : Option Key :=
  match m.op with
  | .insertConstituent => if m.w1.toNat < 32 then some m.arg0 else none
  | .insertKeeper | .insertAddrSpace32 | .insertVCSAddrSpace32 | .insertSymtab => some m.arg0
  | _ => none

/-- The condition for a step to keep constructors confined: a key that is inserted is discreet, or it
becomes a hole of a constructor that has not been sealed, or the constructor has holes anyway. -/
def Step.Careful (w : World) : Step → Prop
  | .send c keyInfo m choices => keyInfo = keyInfoBuilder → ∀ ci, w.info c = some ci →
      ci.hasHoles = false → ∀ kr, m.insertedKey = some kr → w.discrimVerify kr = true ∨
        ci.frozen = false ∧ acceptsAnswer w ci kr choices.answer = false
  | _ => True

/-- The states that runs of careful steps reach from `w₀`. -/
inductive CarefulReach (w₀ : World) : World → Prop where
  | init : CarefulReach w₀ w₀
  | step {w w' : World} {reply : Reply} (step : Step) : CarefulReach w₀ w → step.Allowed w →
      step.Careful w → step.run w = .ok (w', reply) → CarefulReach w₀ w'

/-- The constituents of primordial constructors are confined. -/
def World.ConstituentsConfined (w : World) : Prop :=
  ∀ c ci, w.info c = some ci → ci.hasHoles = false → ci.Confined w

/-! ## What stays -/

/-- A constructor that is discreet stays so until it is destroyed, and no process comes back. -/
structure Stays (w w' : World) : Prop where
  next : w.next ≤ w'.next
  destroyed : ∀ p, w.destroyed p = true → w'.destroyed p = true
  discreet : ∀ c ci, w.info c = some ci → ci.isDiscreet = true →
    w'.destroyed c = true ∨ ∃ ci', w'.info c = some ci' ∧ ci'.isDiscreet = true
  gone : ∀ c, c < w.next → w.info c = none → w'.info c = none

theorem discreet_void : discreet .void = true := rfl

theorem discrimVerify_mono (h : ∀ p, w.destroyed p = true → w'.destroyed p = true)
    (hk : w.discrimVerify k = true) : w'.discrimVerify k = true := by
  unfold World.discrimVerify World.prepare at hk ⊢
  split at hk <;> try exact hk
  all_goals
    rename_i p _ _
    split
    · exact discreet_void
    · rename_i hp
      rwa [if_neg fun hc => hp (h p hc)] at hk

theorem Confined.mono (h : Stays w w') (hk : Confined w k) : Confined w' k := by
  rcases hk with hk | ⟨c, ci, htype, hbody, hinfo, hci, hdiscreet⟩
  · exact Or.inl (discrimVerify_mono h.destroyed hk)
  · rcases h.discreet c ci hci hdiscreet with hgone | ⟨ci', hci', hdiscreet'⟩
    · -- The key to a constructor that has been destroyed is void.
      left
      unfold World.discrimVerify World.prepare
      simp only [htype, hbody, hgone, if_true]
      exact discreet_void
    · exact Or.inr ⟨c, ci', htype, hbody, hinfo, hci', hdiscreet'⟩

theorem ConstructorInfo.Confined.mono (h : Stays w w') (hci : ci.Confined w) : ci.Confined w' :=
  ⟨fun i => (hci.1 i).mono h, fun i => (hci.2 i).mono h⟩

structure World.Inv (w : World) : Prop where
  used : ∀ c ci, w.info c = some ci → c < w.next
  gone : ∀ p, w.destroyed p = true → p < w.next ∧ w.info p = none
  confined : w.ConstituentsConfined

/-! ## The requests -/

theorem setInfo_info (w : World) (c : ℕ) (ci : ConstructorInfo) :
    (w.setInfo c ci).info c = some ci :=
  update_self ..

theorem setInfo_of_ne {c' : ℕ} (h : c' ≠ c) : (w.setInfo c ci).info c' = w.info c' :=
  update_of_ne h ..

theorem setInfo_stays (hci : w.info c = some ci)
    (hdiscreet : ci.isDiscreet = true → ci'.isDiscreet = true) : Stays w (w.setInfo c ci') := by
  refine ⟨le_rfl, fun _ => id, fun c' ci₁ hc' hd => ?_, fun c' _ hc' => ?_⟩
  · right
    by_cases h : c' = c
    · subst h
      obtain rfl : ci = ci₁ := Option.some.inj (hci.symm.trans hc')
      exact ⟨ci', setInfo_info w c' ci', hdiscreet hd⟩
    · exact ⟨ci₁, (setInfo_of_ne h).trans hc', hd⟩
  · have h : c' ≠ c := by
      rintro rfl
      rw [hci] at hc'
      cases hc'
    exact (setInfo_of_ne h).trans hc'

theorem setInfo_inv (h : w.Inv) (hci : w.info c = some ci)
    (hdiscreet : ci.isDiscreet = true → ci'.isDiscreet = true)
    (hconfined : ci'.hasHoles = false → ci'.Confined w) : (w.setInfo c ci').Inv := by
  have hstays := setInfo_stays hci hdiscreet
  constructor
  · intro c' ci₁ hc'
    by_cases heq : c' = c
    · subst heq
      exact h.used c' ci hci
    · exact h.used c' ci₁ ((setInfo_of_ne heq).symm.trans hc')
  · intro p hp
    obtain ⟨hlt, hnone⟩ := h.gone p hp
    refine ⟨hlt, (setInfo_of_ne ?_).trans hnone⟩
    rintro rfl
    rw [hci] at hnone
    cases hnone
  · intro c' ci₁ hc' hholes
    by_cases heq : c' = c
    · subst heq
      obtain rfl : ci' = ci₁ := Option.some.inj ((setInfo_info w c' ci').symm.trans hc')
      exact (hconfined hholes).mono hstays
    · exact (h.confined c' ci₁ ((setInfo_of_ne heq).symm.trans hc') hholes).mono hstays

theorem checkHole_spec (w : World) (ci : ConstructorInfo) (kr : Key) (answer : Answer)
    (hcareful : ci.hasHoles = false → w.discrimVerify kr = true ∨
      ci.frozen = false ∧ acceptsAnswer w ci kr answer = false) :
    (ci.isDiscreet = true → (checkHole w ci kr answer).isDiscreet = true) ∧
    ((checkHole w ci kr answer).hasHoles = false → ci.hasHoles = false ∧ w.discrimVerify kr = true) ∧
    (checkHole w ci kr answer).con = ci.con ∧ (checkHole w ci kr answer).xcon = ci.xcon := by
  unfold checkHole isNotDiscreet
  by_cases hverify : w.discrimVerify kr = true
  · rw [if_pos hverify, if_neg Bool.false_ne_true]
    exact ⟨id, fun hholes => ⟨hholes, hverify⟩, rfl, rfl⟩
  · rw [if_neg hverify]
    by_cases hholes : ci.hasHoles = false
    · obtain ⟨hfrozen, haccepts⟩ := (hcareful hholes).resolve_left hverify
      rw [haccepts, if_pos (by rfl)]
      refine ⟨fun hd => ?_, fun hc => (nomatch hc), rfl, rfl⟩
      simp [ConstructorInfo.isDiscreet, hfrozen] at hd
    · -- There are holes already.
      rw [Bool.not_eq_false] at hholes
      split
      · refine ⟨fun hd => ?_, fun hc => (nomatch hc), rfl, rfl⟩
        simp [ConstructorInfo.isDiscreet, hholes] at hd
      · exact ⟨id, fun hc => absurd (hholes.symm.trans hc) (by decide), rfl, rfl⟩

theorem confined_update {slots : Fin 32 → Key} (h : ∀ i, Confined w (slots i)) (ndx : Fin 32)
    (hk : Confined w k) (i : Fin 32) : Confined w (update slots ndx k i) := by
  by_cases hi : i = ndx
  · subst hi
    rwa [update_self]
  · rw [update_of_ne hi]
    exact h i

variable {answer : Answer}

theorem insertXconstituent_inv {ci₀ : ConstructorInfo} (ci : ConstructorInfo)
    (h : w.Inv)
    (hci₀ : w.info c = some ci₀) (hdiscreet : ci₀.isDiscreet = true → ci.isDiscreet = true)
    (hholes : ci.hasHoles = ci₀.hasHoles) (hfrozen : ci.frozen = ci₀.frozen)
    (hcre : ci.yieldCre = ci₀.yieldCre) (hconfined : ci.hasHoles = false → ci.Confined w)
    (hcareful : ci₀.hasHoles = false → w.discrimVerify kr = true ∨
      ci₀.frozen = false ∧ acceptsAnswer w ci₀ kr answer = false) (ndx : Fin 32) :
    (w.setInfo c (insertXconstituent w ci ndx kr answer)).Inv ∧
      Stays w (w.setInfo c (insertXconstituent w ci ndx kr answer)) := by
  have haccepts : acceptsAnswer w ci kr answer = acceptsAnswer w ci₀ kr answer := by
    unfold acceptsAnswer
    rw [hcre]
  obtain ⟨hd, hno, hcon, hxcon⟩ := checkHole_spec w ci kr answer (by rw [hholes, hfrozen, haccepts]; exact hcareful)
  have hd' : ci₀.isDiscreet = true → (insertXconstituent w ci ndx kr answer).isDiscreet = true :=
    fun hc => hd (hdiscreet hc)
  refine ⟨setInfo_inv h hci₀ hd' fun hc => ?_, setInfo_stays hci₀ hd'⟩
  obtain ⟨hci, hverify⟩ := hno hc
  refine ⟨fun i => ?_, fun i => ?_⟩
  · show Confined w ((checkHole w ci kr answer).con i)
    rw [hcon]
    exact (hconfined hci).1 i
  · show Confined w (update (checkHole w ci kr answer).xcon ndx kr i)
    rw [hxcon]
    exact confined_update (hconfined hci).2 ndx (Or.inl hverify) i

theorem insertConstituent_inv (h : w.Inv) (hci : w.info c = some ci)
    (ndx : BitVec 32) (hcareful : ndx.toNat < 32 → ci.hasHoles = false →
      w.discrimVerify kr = true ∨ ci.frozen = false ∧ acceptsAnswer w ci kr answer = false) :
    (w.setInfo c (insertConstituent w ci ndx kr answer).1).Inv ∧
      Stays w (w.setInfo c (insertConstituent w ci ndx kr answer).1) := by
  unfold insertConstituent
  by_cases hndx : ndx.toNat < 32
  · rw [dif_pos hndx]
    obtain ⟨hd, hno, hcon, hxcon⟩ := checkHole_spec w ci kr answer (hcareful hndx)
    refine ⟨setInfo_inv h hci hd fun hc => ?_, setInfo_stays hci hd⟩
    obtain ⟨hholes, hverify⟩ := hno hc
    have hconfined := h.confined c ci hci hholes
    refine ⟨fun i => ?_, fun i => ?_⟩
    · show Confined w (update (checkHole w ci kr answer).con _ kr i)
      rw [hcon]
      exact confined_update hconfined.1 _ (Or.inl hverify) i
    · show Confined w ((checkHole w ci kr answer).xcon i)
      rw [hxcon]
      exact hconfined.2 i
  · rw [dif_neg hndx]
    exact ⟨setInfo_inv h hci id (h.confined c ci hci), setInfo_stays hci id⟩

theorem makeProcess_inv (h : w.Inv) {next : ℕ} (hnext : w.next ≤ next) (brand : ℕ → ℕ) :
    ({ w with next, brand } : World).Inv ∧ Stays w { w with next, brand } := by
  have hstays : Stays w { w with next, brand } :=
    ⟨hnext, fun _ => id, fun c ci hc hd => Or.inr ⟨ci, hc, hd⟩, fun _ _ => id⟩
  exact ⟨⟨fun c ci hc => (h.used c ci hc).trans_le hnext,
    fun p hp => ⟨(h.gone p hp).1.trans_le hnext, (h.gone p hp).2⟩,
    fun c ci hc hholes => (h.confined c ci hc hholes).mono hstays⟩, hstays⟩

variable {created : Bool} {m : Message} {reply : Reply}

theorem makeNewProduct_inv (h : w.Inv)
    (hrun : makeNewProduct w ci m created = .ok (w', reply)) : w'.Inv ∧ Stays w w' := by
  unfold makeNewProduct at hrun
  split at hrun
  · dsimp only at hrun
    split at hrun
    · cases hrun
    · cases hrun
      exact makeProcess_inv h (Nat.le_succ _) _
  · cases hrun
    exact ⟨h, le_rfl, fun _ => id, fun c ci hc hd => Or.inr ⟨ci, hc, hd⟩, fun _ _ => id⟩

theorem destroy_inv (h : w.Inv) {info : ℕ → Option ConstructorInfo} {p : ℕ} (hp : p < w.next)
    (hnone : info p = none)
    (hinfo : ∀ c, info c = none ∧ (c = p ∨ w.info c = none) ∨ info c = w.info c) :
    ({ w with info, destroyed := update w.destroyed p true } : World).Inv ∧
      Stays w { w with info, destroyed := update w.destroyed p true } := by
  have hdestroyed : update w.destroyed p true p = true := update_self ..
  have hstays : Stays w { w with info, destroyed := update w.destroyed p true } := by
    refine ⟨le_rfl, fun q hq => ?_, fun c ci hc hd => ?_, fun c _ hc => ?_⟩
    · show update w.destroyed p true q = true
      by_cases hqp : q = p
      · rw [hqp]
        exact hdestroyed
      · rwa [update_of_ne hqp]
    · rcases hinfo c with ⟨-, rfl | hnone⟩ | heq
      · exact Or.inl hdestroyed
      · rw [hc] at hnone
        cases hnone
      · exact Or.inr ⟨ci, heq.trans hc, hd⟩
    · rcases hinfo c with ⟨hnone, -⟩ | heq
      · exact hnone
      · exact heq.trans hc
  have hback {c : ℕ} {ci : ConstructorInfo} (hc : info c = some ci) : w.info c = some ci := by
    rcases hinfo c with ⟨hnone, -⟩ | heq
    · rw [hnone] at hc
      cases hc
    · exact heq.symm.trans hc
  refine ⟨⟨fun c ci hc => h.used c ci (hback hc), fun q hq => ?_,
    fun c ci hc hholes => (h.confined c ci (hback hc) hholes).mono hstays⟩, hstays⟩
  by_cases hqp : q = p
  · subst hqp
    exact ⟨hp, hnone⟩
  · have hq' : w.destroyed q = true := (update_of_ne hqp ..).symm.trans hq
    refine ⟨(h.gone q hq').1, ?_⟩
    show info q = none
    cases hc : info q with
    | none => rfl
    | some ci => exact absurd ((h.gone q hq').2.symm.trans (hback hc)) (by simp)

variable {choices : Choices}

theorem processRequest_inv (h : w.Inv)
    (hci : w.info c = some ci) (hcareful : ci.hasHoles = false → ∀ kr, m.insertedKey = some kr →
      w.discrimVerify kr = true ∨ ci.frozen = false ∧ acceptsAnswer w ci kr choices.answer = false)
    (hrun : processRequest w c ci m choices = .ok (w', reply)) : w'.Inv ∧ Stays w w' := by
  have hsame : Stays w w := ⟨le_rfl, fun _ => id, fun c ci hc hd => Or.inr ⟨ci, hc, hd⟩, fun _ _ => id⟩
  have hconfined := h.confined c ci hci
  unfold processRequest at hrun
  unfold Message.insertedKey at hcareful
  cases hop : m.op <;> simp only [hop] at hrun hcareful
  case isDiscreet =>
    cases hrun
    exact ⟨h, hsame⟩
  case request => exact makeNewProduct_inv h hrun
  case «seal» =>
    split at hrun
    · cases hrun
      exact ⟨h, hsame⟩
    · cases hrun
      have hd : ci.isDiscreet = true →
          ({ ci with frozen := true } : ConstructorInfo).isDiscreet = true := by
        simp [ConstructorInfo.isDiscreet]
      exact ⟨setInfo_inv h hci hd hconfined, setInfo_stays hci hd⟩
  case insertConstituent =>
    cases hrun
    exact insertConstituent_inv h hci m.w1 fun hndx hholes => hcareful hholes m.arg0 (if_pos hndx)
  case insertKeeper =>
    cases hrun
    exact insertXconstituent_inv ci h hci id rfl rfl rfl hconfined
      (fun hholes => hcareful hholes m.arg0 rfl) _
  case insertAddrSpace32 =>
    cases hrun
    exact insertXconstituent_inv { ci with addrSpaceType := .raw, pc := m.w1 } h hci id rfl rfl rfl hconfined
      (fun hholes => hcareful hholes m.arg0 rfl) _
  case insertVCSAddrSpace32 =>
    cases hrun
    -- The number key for the PC is discreet.
    exact insertXconstituent_inv { ci with
        xcon := update ci.xcon xconPC (NodeKey.numberKeyOf 0 0 m.w1)
        addrSpaceType := .vcs
        pc := m.w1 } h hci id rfl rfl rfl
      (fun hholes => ⟨(hconfined hholes).1, confined_update (hconfined hholes).2 _ (Or.inl rfl)⟩)
      (fun hholes => hcareful hholes m.arg0 rfl) _
  case insertSymtab =>
    cases hrun
    exact insertXconstituent_inv ci h hci id rfl rfl rfl hconfined
      (fun hholes => hcareful hholes m.arg0 rfl) _
  case destroy =>
    cases hrun
    refine destroy_inv h (h.used c ci hci) (update_self ..) fun c' => ?_
    by_cases heq : c' = c
    · subst heq
      exact Or.inl ⟨update_self .., Or.inl rfl⟩
    · exact Or.inr (update_of_ne heq ..)
  case getType =>
    cases hrun
    exact ⟨h, hsame⟩
  case other =>
    cases hrun
    exact ⟨h, hsame⟩

theorem step_inv {step : Step} (h : w.Inv) (hallowed : step.Allowed w)
    (hcareful : step.Careful w)
    (hrun : step.run w = .ok (w', reply)) : w'.Inv ∧ Stays w w' := by
  have hsame : Stays w w := ⟨le_rfl, fun _ => id, fun c ci hc hd => Or.inr ⟨ci, hc, hd⟩, fun _ _ => id⟩
  cases step with
  | construct metaCre pcc =>
    cases hrun
    have hfresh {c : ℕ} {ci : ConstructorInfo} (hc : w.info c = some ci) : c ≠ w.next :=
      (h.used c ci hc).ne
    set w' : World := { w with
      next := w.next + 3
      info := update w.info w.next (some (newInfo (w.next + 1) (w.next + 2)))
      brand := update (update w.brand w.next metaCre) (w.next + 1) pcc } with hw'
    have hinfo {c : ℕ} (hc : c ≠ w.next) : w'.info c = w.info c := update_of_ne hc ..
    have hstays : Stays w w' :=
      ⟨Nat.le_add_right _ _, fun _ => id,
        fun c ci hc hd => Or.inr ⟨ci, (hinfo (hfresh hc)).trans hc, hd⟩,
        fun c hlt hc => (hinfo hlt.ne).trans hc⟩
    refine ⟨⟨fun c ci hc => ?_, fun p hp => ?_, fun c ci hc hholes => ?_⟩, hstays⟩
    · by_cases heq : c = w.next
      · subst heq
        exact Nat.lt_add_of_pos_right (by decide)
      · exact (h.used c ci ((hinfo heq).symm.trans hc)).trans_le (Nat.le_add_right _ _)
    · obtain ⟨hlt, hnone⟩ := h.gone p hp
      exact ⟨hlt.trans_le (Nat.le_add_right _ _), (hinfo hlt.ne).trans hnone⟩
    · by_cases heq : c = w.next
      · subst heq
        have hnew : w'.info w.next = some (newInfo (w.next + 1) (w.next + 2)) :=
          update_self ..
        obtain rfl := Option.some.inj (hnew.symm.trans hc)
        exact ⟨fun _ => Or.inl discreet_void, fun _ => Or.inl discreet_void⟩
      · exact (h.confined c ci ((hinfo heq).symm.trans hc) hholes).mono hstays
  | makeProcess cre =>
    cases hrun
    exact makeProcess_inv h (Nat.le_succ _) _
  | destroyProcess p =>
    cases hrun
    exact destroy_inv h hallowed.1 hallowed.2 fun _ => Or.inr rfl
  | send c keyInfo m choices =>
    simp only [Step.run] at hrun
    cases hci : w.info c with
    | none =>
      rw [hci] at hrun
      cases hrun
      exact ⟨h, hsame⟩
    | some ci =>
      rw [hci] at hrun
      dsimp only [request] at hrun
      split at hrun
      case isTrue hbuilder => exact processRequest_inv h hci (hcareful hbuilder ci hci) hrun
      case isFalse =>
        split at hrun
        · split at hrun
          · cases hrun
            exact ⟨h, hsame⟩
          · exact makeNewProduct_inv h hrun
        · cases hrun

/-! ## Products -/

/-- The keys of a product of the constructor `ci`, made for the message `m`: those that are not of its
own and do not come with the message are confined. -/
structure Product.Confined (w : World) (ci : ConstructorInfo) (m : Message) (product : Product) :
    Prop where
  keeper : Constructor.Confined w product.keeper
  symSpace : Constructor.Confined w product.symSpace
  addrSpace : Constructor.Confined w product.addrSpace ∨ product.addrSpace = w.protospace
  pskr : ∀ space pc, product.pskr = some (space, pc) →
    Constructor.Confined w space ∧ Constructor.Confined w pc
  own : product.self = ⟨.process, 0, 0, .prep product.proc⟩ ∧
    product.creator = startKey ci.yieldCre precludeDestroy ∧
    product.constit = ⟨.node, nodeReadOnly, 0, .prep ci.prodCon0⟩
  client : product.bank = m.arg0 ∧ product.schedule = m.arg1 ∧ product.sched = m.arg1 ∧
    product.arg0 = m.arg2 ∧ product.ret = m.ret

variable {product : Product}

theorem makeNewProduct_confined
    (h : ci.Confined w) (hrun : makeNewProduct w ci m created = .ok (w', reply))
    (hproduct : reply.product = some product) : product.Confined w ci m := by
  unfold makeNewProduct at hrun
  cases htype : ci.addrSpaceType <;> simp only [htype] at hrun
  case none =>
    split at hrun
    · cases hrun
    · cases hrun
      cases hproduct
  case raw =>
    split at hrun
    · cases hrun
      cases hproduct
      exact ⟨h.2 _, h.2 _, Or.inl (h.2 _), fun _ _ hc => (nomatch hc), ⟨rfl, rfl, rfl⟩,
        ⟨rfl, rfl, rfl, rfl, rfl⟩⟩
    · cases hrun
      cases hproduct
  case vcs =>
    split at hrun
    · cases hrun
      cases hproduct
      refine ⟨h.2 _, h.2 _, Or.inr rfl, fun space pc hc => ?_, ⟨rfl, rfl, rfl⟩,
        ⟨rfl, rfl, rfl, rfl, rfl⟩⟩
      cases hc
      exact ⟨h.2 _, h.2 _⟩
    · cases hrun
      cases hproduct

theorem send_product {keyInfo : BitVec 16} (hci : w.info c = some ci)
    (hrun : (Step.send c keyInfo m choices).run w = .ok (w', reply))
    (hproduct : reply.product = some product) :
    makeNewProduct w ci m choices.created = .ok (w', reply) := by
  simp only [Step.run, hci, request] at hrun
  split at hrun
  · unfold processRequest at hrun
    cases hop : m.op <;> simp only [hop] at hrun
    case request => exact hrun
    case «seal» =>
      split at hrun <;> cases hrun <;> cases hproduct
    all_goals
      cases hrun
      cases hproduct
  · split at hrun
    · split at hrun
      · cases hrun
        cases hproduct
      · exact hrun
    · cases hrun

/-! ## Runs -/

theorem CarefulReach.inv (h₀ : w₀.Inv) (h : CarefulReach w₀ w) : w.Inv ∧ Stays w₀ w := by
  induction h with
  | init =>
    exact ⟨h₀, le_rfl, fun _ => id, fun c ci hc hd => Or.inr ⟨ci, hc, hd⟩, fun _ _ => id⟩
  | @step w w' reply step _ hallowed hcareful hrun ih =>
    obtain ⟨hinv, hstays⟩ := step_inv ih.1 hallowed hcareful hrun
    have h := ih.2
    refine ⟨hinv, h.next.trans hstays.next, fun p hp => hstays.destroyed p (h.destroyed p hp),
      fun c ci hc hd => ?_, fun c hlt hc => hstays.gone c (hlt.trans_le h.next) (h.gone c hlt hc)⟩
    rcases h.discreet c ci hc hd with hgone | ⟨ci', hc', hd'⟩
    · exact Or.inl (hstays.destroyed c hgone)
    · exact hstays.discreet c ci' hc' hd'

/-- Confinement: from when a constructor says that it is discreet, in every run of careful steps it
goes on saying so, its constituents are confined, and so are the keys that its products get. -/
theorem confinement_run (h₀ : w₀.IsInit) (hconst : w₀.ConstituentsConfined)
    (h : CarefulReach w₀ w) (hci : w.info c = some ci) (hdiscreet : ci.isDiscreet = true)
    (h' : CarefulReach w w') (hci' : w'.info c = some ci') :
    ci'.isDiscreet = true ∧ ci'.Confined w' ∧
      ∀ keyInfo m choices w'' reply product,
        (Step.send c keyInfo m choices).run w' = .ok (w'', reply) →
        reply.product = some product → product.Confined w' ci' m := by
  have hinv : w.Inv := (CarefulReach.inv ⟨h₀.used, h₀.destroyed, hconst⟩ h).1
  obtain ⟨hinv', hstays⟩ := CarefulReach.inv hinv h'
  have hdiscreet' : ci'.isDiscreet = true := by
    rcases hstays.discreet c ci hci hdiscreet with hgone | ⟨ci₁, hci₁, hd⟩
    · have hnone := (hinv'.gone c hgone).2
      rw [hci'] at hnone
      cases hnone
    · obtain rfl : ci' = ci₁ := Option.some.inj (hci'.symm.trans hci₁)
      exact hd
  have hholes : ci'.hasHoles = false := by
    simp only [ConstructorInfo.isDiscreet, Bool.and_eq_true, Bool.not_eq_true'] at hdiscreet'
    exact hdiscreet'.2
  have hconfined := hinv'.confined c ci' hci' hholes
  exact ⟨hdiscreet', hconfined, fun keyInfo m choices w'' reply product hrun hproduct =>
    makeNewProduct_confined hconfined (send_product hci' hrun hproduct) hproduct⟩

/-! ## Single runs -/

/-- There is one process, which is a process creator, and no constructor. -/
def emptyWorld : World := ⟨fun _ => none, fun _ => 0, fun _ => false, 1, .void⟩

theorem emptyWorld_isInit : emptyWorld.IsInit :=
  ⟨fun _ _ h => (nomatch h), fun _ _ h => (nomatch h), fun _ _ h => (nomatch h), fun _ h => nomatch h⟩

/-- A message with one key. -/
def withKey (op : Op) (k : Key) : Message := ⟨op, 0, k, .void, .void, .void⟩

/-- A process creator makes a process, and other processes say that they are discreet. -/
def obliging : Choices := ⟨⟨true, 1⟩, true⟩

/-- A read-only key to the page 9. -/
def readOnlyPage : Key := ⟨.page, memoryReadOnly, 0, .prep 9⟩

/-- A key with which page 9 can be written. -/
def writablePage : Key := ⟨.page, 0, 0, .prep 9⟩

theorem emptyWorld_sealed : ∃ w ci w' reply product, CarefulReach emptyWorld w ∧ w.info 1 = some ci ∧
    ci.isDiscreet = true ∧ (Step.send 1 0 (withKey .request .void) obliging).run w = .ok (w', reply) ∧
    reply.product = some product := by
  have h₁ : CarefulReach emptyWorld _ := .step (.construct 0 0) .init trivial trivial rfl
  have h₂ : CarefulReach emptyWorld _ :=
    .step (.send 1 keyInfoBuilder (withKey .insertAddrSpace32 readOnlyPage) obliging) h₁
      (fun _ _ hc => absurd rfl hc) (fun _ _ _ _ kr hkr => by cases hkr; exact Or.inl rfl) rfl
  have h₃ : CarefulReach emptyWorld _ :=
    .step (.send 1 keyInfoBuilder (withKey .seal .void) obliging) h₂
      (fun _ _ hc => absurd rfl hc) (fun _ _ _ _ kr hkr => nomatch hkr) rfl
  exact ⟨_, _, _, _, _, h₃, rfl, rfl, rfl, rfl⟩

/-- A constructor with a read-only page as the address space is sealed, and makes a product. -/
theorem confinement_run_product : ∃ w ci w' reply product, CarefulReach emptyWorld w ∧ ci.isDiscreet = true ∧
    ci.Confined w ∧ (Step.send 1 0 (withKey .request .void) obliging).run w = .ok (w', reply) ∧
    reply.product = some product ∧ product.Confined w ci (withKey .request .void) := by
  obtain ⟨w, ci, w', reply, product, hreach, hci, hdiscreet, hrun, hproduct⟩ := emptyWorld_sealed
  obtain ⟨-, hconfined, hproducts⟩ := confinement_run emptyWorld_isInit (fun _ _ h => nomatch h) hreach hci
    hdiscreet .init hci
  exact ⟨w, ci, w', reply, product, hreach, hdiscreet, hconfined, hrun, hproduct,
    hproducts _ _ _ _ _ _ hrun hproduct⟩

/-- The builder inserts a key after sealing: the constructor no longer says that it is discreet, and
its products get a key that they can write with. -/
theorem confinement_fails : ∃ w w' ci ci', emptyWorld.IsInit ∧ Reach emptyWorld w ∧
    w.info 1 = some ci ∧ ci.isDiscreet = true ∧ Reach w w' ∧ w'.info 1 = some ci' ∧
    ci'.isDiscreet = false ∧ ci'.con 0 = writablePage ∧ ¬Confined w' writablePage := by
  have h₁ : Reach emptyWorld _ := .step (.construct 0 0) .init trivial rfl
  have h₂ : Reach emptyWorld _ :=
    .step (.send 1 keyInfoBuilder (withKey .insertAddrSpace32 readOnlyPage) obliging) h₁
      (fun _ _ hc => absurd rfl hc) rfl
  have h₃ : Reach emptyWorld _ :=
    .step (.send 1 keyInfoBuilder (withKey .seal .void) obliging) h₂ (fun _ _ hc => absurd rfl hc) rfl
  refine ⟨_, _, _, _, emptyWorld_isInit, h₃, rfl, rfl,
    .step (.send 1 keyInfoBuilder (withKey .insertConstituent writablePage) obliging) .init
      (fun _ _ hc => absurd rfl hc) rfl, rfl, rfl, rfl, ?_⟩
  rintro (hverify | ⟨_, _, htype, _⟩)
  · cases hverify
  · cases htype

/-- A key with the key info 0 to a product of the constructor is inserted, and the product says that it
is discreet. -/
theorem confinement_fails_product : ∃ w ci, Reach emptyWorld w ∧ w.info 1 = some ci ∧
    ci.isDiscreet = true ∧ ci.con 0 = startKey 4 0 ∧ ¬Confined w (startKey 4 0) := by
  have h₁ : Reach emptyWorld _ := .step (.construct 0 0) .init trivial rfl
  have h₂ : Reach emptyWorld _ :=
    .step (.send 1 keyInfoBuilder (withKey .insertAddrSpace32 readOnlyPage) obliging) h₁
      (fun _ _ hc => absurd rfl hc) rfl
  -- The process 4 is a product.
  have h₃ : Reach emptyWorld _ :=
    .step (.send 1 keyInfoBuilder (withKey .request .void) obliging) h₂ (fun _ _ hc => absurd rfl hc) rfl
  have h₄ : Reach emptyWorld _ :=
    .step (.send 1 keyInfoBuilder (withKey .insertConstituent (startKey 4 0)) obliging) h₃
      (fun _ _ hc => absurd rfl hc) rfl
  have h₅ : Reach emptyWorld _ :=
    .step (.send 1 keyInfoBuilder (withKey .seal .void) obliging) h₄ (fun _ _ hc => absurd rfl hc) rfl
  refine ⟨_, _, h₅, rfl, rfl, rfl, ?_⟩
  rintro (hverify | ⟨_, _, _, _, hdata, _⟩)
  · cases hverify
  · exact hdata rfl

end CapROS.Constructor
