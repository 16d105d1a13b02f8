import CapROS.SpaceBank.Family

/-!
# The tree of banks

* `WellFormed`: the invariant of the family, with `allocBank_wellFormed` and `WellFormed.blowAway`.
* `familyKept_iff`: creating children and destroying first children keeps the family in order, and the
  destroyed bank has to be the first child.
* `sibling_lost`: a bank that is no longer in the list of its parent.
-/

namespace CapROS.SpaceBank

open SiblingTree LinkedRing
open Function (update update_self update_apply update_of_ne)

variable {σ : Type} {S : Storage σ} {F F' : Family} {kids : ℕ → List ℕ} {bank c p : ℕ}

structure WellFormed (F : Family) : Prop where
  tree : ∃ kids, Forest F.links bank0 F.live kids
  free : ∃ fs, Stack F.links.parent 0 F.freeBanks fs ∧ fs.Nodup ∧ ∀ b ∈ fs, b ∉ F.live ∧ b < F.top
  bound : ∀ b ∈ F.live, b < F.top
  childless : ∀ b, b ∉ F.live → F.links.firstChild b = 0
  top_pos : 0 < F.top

theorem wellFormed_init : WellFormed .init := by
  have hroot : Forest ⟨fun _ => 0, fun _ => 0, fun _ => 0⟩ bank0 {bank0} fun _ => [] := by
    refine ⟨by simp, by simp [bank0], fun _ _ => rfl, fun _ _ => .nil, ?_, ?_, ⟨fun _ => 0, ?_⟩⟩
    · intro p _ c
      simp
      tauto
    · intro c hc hr
      exact absurd (Finset.mem_singleton.1 hc) hr
    · intro c hc hr
      exact absurd (Finset.mem_singleton.1 hc) hr
  have hprime := hroot.addFirst (c := primebank) (p := bank0) (by simp) (by decide) (by decide) rfl
  have hverify := hprime.addFirst (c := verifybank) (p := primebank) (by simp) (by decide) (by decide)
    (by simp [Links.addFirst, verifybank, bank0])
  have hlive : Family.init.live = insert verifybank (insert primebank {bank0}) := by decide
  have htree : Forest Family.init.links bank0 (insert verifybank (insert primebank {bank0})) _ :=
    hverify.congr (by decide) (by decide) (by decide)
  refine ⟨⟨_, hlive ▸ htree⟩, ⟨[], rfl, .nil, by simp⟩, by decide, ?_, by decide⟩
  · intro b hb
    have h : ∀ x ∈ ({bank0, primebank} : Finset ℕ), x ∈ Family.init.live := by decide
    have h1 : b ≠ bank0 := fun he => hb (h b (by simp [he]))
    have h2 : b ≠ primebank := fun he => hb (h b (by simp [he]))
    simp [Family.init, Family.initializeBank, Links.addFirst, h1, h2,
      show bank0 ≠ 0 by decide, show primebank ≠ 0 by decide]

/-! ## Creating a bank -/

theorem WellFormed.create {room : Bool} (h : WellFormed F) (ha : F.allocBank room = some (c, F'))
    (hp : p ∈ F.live) :
    WellFormed (F'.initializeBank c p) ∧ c ∉ F.live ∧ c ≠ 0 ∧
      (F'.initializeBank c p).live = insert c F.live ∧
      (F'.initializeBank c p).links.parent c = p ∧
      (F'.initializeBank c p).links.firstChild p = c ∧
      (F'.initializeBank c p).links.firstChild c = 0 := by
  obtain ⟨kids, htree⟩ := h.tree
  obtain ⟨fs, hfs, hnodup, hfree⟩ := h.free
  have hp0 : p ≠ 0 := fun he => htree.zero_notMem (he ▸ hp)
  have hinit : F'.initializeBank c p = { F' with links := F'.links.addFirst c p } := if_pos hp0
  -- What `alloc_bank` does: the structure comes off the free list, or from `malloc`.
  obtain ⟨hc, hc0, hlive, hnext, hfirst, hparent, hfree', htop, hctop⟩ : c ∉ F.live ∧ c ≠ 0 ∧
      F'.live = insert c F.live ∧ F'.links.nextSibling = F.links.nextSibling ∧
      F'.links.firstChild = F.links.firstChild ∧
      F'.links.parent = update F.links.parent c 0 ∧
      (∃ fs', Stack F.links.parent 0 F'.freeBanks fs' ∧ fs'.Nodup ∧
        ∀ b ∈ fs', b ∉ F.live ∧ b ≠ c ∧ b < F.top) ∧ F.top ≤ F'.top ∧ c < F'.top := by
    unfold Family.allocBank at ha
    split at ha
    case isTrue hne =>
      obtain ⟨rfl, rfl⟩ := ha
      cases fs with
      | nil => exact absurd hfs hne
      | cons x fs =>
        obtain ⟨rfl, -, hrest⟩ := hfs
        obtain ⟨hx, hxt⟩ := hfree _ (List.mem_cons_self ..)
        obtain ⟨hxfs, hnodup⟩ := List.nodup_cons.1 hnodup
        refine ⟨hx, hne, rfl, rfl, rfl, rfl, ⟨fs, hrest, hnodup, fun b hb => ?_⟩, le_rfl, hxt⟩
        obtain ⟨hbl, hbt⟩ := hfree b (List.mem_cons_of_mem _ hb)
        exact ⟨hbl, fun he => hxfs (he ▸ hb), hbt⟩
    case isFalse hz =>
      split at ha
      case isFalse => cases ha
      case isTrue =>
        obtain ⟨rfl, rfl⟩ := ha
        refine ⟨fun hm => lt_irrefl _ (h.bound _ hm), h.top_pos.ne', rfl, rfl, rfl, rfl,
          ⟨fs, hfs, hnodup, fun b hb => ?_⟩, Nat.le_succ _, Nat.lt_succ_self _⟩
        exact ⟨(hfree b hb).1, (hfree b hb).2.ne, (hfree b hb).2⟩
  have hpc : p ≠ c := fun he => hc (he ▸ hp)
  have hno : F'.links.firstChild c = 0 := hfirst ▸ h.childless c hc
  have htree' : Forest F'.links bank0 F.live kids := by
    refine htree.congr (fun x hx => ?_) (fun x _ => by rw [hnext]) (fun x _ => by rw [hfirst])
    rw [hparent, update_of_ne]
    exact fun he => hc (he ▸ hx)
  rw [hinit]
  refine ⟨⟨?_, ?_, ?_, ?_, ?_⟩, hc, hc0, hlive, ?_, ?_, ?_⟩
  · exact ⟨_, hlive ▸ htree'.addFirst hp hc hc0 hno⟩
  · obtain ⟨fs', hfs', hnodup', hall⟩ := hfree'
    refine ⟨fs', hfs'.congr fun x hx => ?_, hnodup', fun b hb => ?_⟩
    · change update F'.links.parent c p x = _
      rw [hparent, update_of_ne (hall x hx).2.1, update_of_ne (hall x hx).2.1]
    · obtain ⟨hbl, hbc, hbt⟩ := hall b hb
      refine ⟨?_, hbt.trans_le htop⟩
      change b ∉ F'.live
      rw [hlive, Finset.mem_insert]
      tauto
  · intro b hb
    change b ∈ F'.live at hb
    rw [hlive, Finset.mem_insert] at hb
    rcases hb with rfl | hb
    · exact hctop
    · exact (h.bound b hb).trans_le htop
  · intro b hb
    change b ∉ F'.live at hb
    rw [hlive, Finset.mem_insert, not_or] at hb
    change update F'.links.firstChild p c b = 0
    rw [update_of_ne fun he : b = p => hb.2 (he ▸ hp), hfirst]
    exact h.childless b hb.2
  · exact h.top_pos.trans_le htop
  · exact update_self ..
  · exact update_self ..
  · change update F'.links.firstChild p c c = 0
    rw [update_of_ne hpc.symm]
    exact hno

/-! ## Taking a bank out -/

theorem WellFormed.free_first (h : WellFormed F) (hc : c ∈ F.live) (hne : c ≠ bank0)
    (hf : F.links.firstChild (F.links.parent c) = c) (hno : F.links.firstChild c = 0) :
    WellFormed (Family.freeBank c { F with links := F.links.dropFirst c }) := by
  obtain ⟨kids, htree⟩ := h.tree
  obtain ⟨fs, hfs, hnodup, hfree⟩ := h.free
  have hc0 : c ≠ 0 := fun he => htree.zero_notMem (he ▸ hc)
  have hcfs : c ∉ fs := fun hm => (hfree c hm).1 hc
  have hup := htree.up c hc hne
  refine ⟨⟨fun p => (kids p).erase c, ?_⟩, ⟨c :: fs, ?_, ?_, ?_⟩, ?_, ?_, h.top_pos⟩
  · refine (htree.dropFirst hc hne hf hno).congr (fun x hx => ?_) (fun x _ => rfl) (fun x _ => rfl)
    change update F.links.parent c F.freeBanks x = _
    rw [update_of_ne (Finset.ne_of_mem_erase hx)]
    rfl
  · exact hfs.push hcfs hc0
  · exact List.nodup_cons.2 ⟨hcfs, hnodup⟩
  · intro b hb
    change b ∉ F.live.erase c ∧ b < F.top
    rcases List.mem_cons.1 hb with rfl | hb
    · exact ⟨by simp, h.bound b hc⟩
    · exact ⟨fun hm => (hfree b hb).1 (Finset.mem_of_mem_erase hm), (hfree b hb).2⟩
  · intro b hb
    exact h.bound b (Finset.mem_of_mem_erase hb)
  · intro b hb
    change b ∉ F.live.erase c at hb
    change update F.links.firstChild (F.links.parent c) (F.links.nextSibling c) b = 0
    have hbp : b ≠ F.links.parent c := by
      rintro rfl
      exact hb (Finset.mem_erase.2 ⟨htree.ne_parent hc hne, hup⟩)
    rw [update_of_ne hbp]
    by_cases hbc : b = c
    · exact hbc ▸ hno
    · exact h.childless b fun hm => hb (Finset.mem_erase.2 ⟨hbc, hm⟩)

theorem bankCreateChild_spec {s : System σ} (h : WellFormed s.family) (hp : p ∈ s.family.live) :
    match bankCreateChild S p s with
    | .ok s' => WellFormed s'.family
    | .error e => ∃ c F store, S.createKey c F store = .error e := by
  unfold bankCreateChild
  obtain ⟨room, store⟩ := S.malloc s.family s.store
  simp only
  cases ha : s.family.allocBank room with
  | none => exact h
  | some r =>
    obtain ⟨c, F₁⟩ := r
    obtain ⟨hw, hc, -, hlive, hparent, hfirst, hno⟩ := h.create ha hp
    simp only
    cases hk : S.createKey c (F₁.initializeBank c p) store with
    | error e => exact ⟨_, _, _, hk⟩
    | ok r =>
      obtain ⟨rcOk, store⟩ := r
      rw [ok_bind]
      cases rcOk with
      | true => exact hw
      | false =>
        have hcl : c ∈ (F₁.initializeBank c p).live := hlive ▸ Finset.mem_insert_self ..
        have hcb : c ≠ bank0 := fun he => hc (he ▸ (h.tree.choose_spec).root_mem)
        have := hw.free_first hcl hcb (by rw [hparent, hfirst]) hno
        unfold Links.dropFirst at this
        rw [hparent] at this
        simpa [hfirst] using this

/-! ## Destroying a bank -/

/-- What is left once `bank` has been destroyed: all banks but those below it, with the links that
they had, but for the link to the first child of the parent of `bank`. -/
structure LeavesRest (F : Family) (bank : ℕ) (F' : Family) : Prop where
  live : ∀ b, b ∈ F'.live ↔ b ∈ F.live ∧ ¬ Below F.links bank0 F.live bank b
  parent : ∀ b ∈ F'.live, F'.links.parent b = F.links.parent b
  nextSibling : F'.links.nextSibling = F.links.nextSibling
  firstChild : ∀ b ∈ F'.live, F'.links.firstChild b =
    if b = F.links.parent bank then F.links.nextSibling bank else F.links.firstChild b

theorem leftmost_spec (h : Forest F.links bank0 F.live kids) {n : ℕ} (hc : c ∈ F.live)
    (hn : (h.below c).card < n) :
    ∃ d, Family.leftmost F.links n c = .ok d ∧ d ∈ F.live ∧ F.links.firstChild d = 0 ∧
      Below F.links bank0 F.live c d ∧
      (d ≠ c → d ≠ bank0 ∧ F.links.firstChild (F.links.parent d) = d) := by
  induction n generalizing c with
  | zero => omega
  | succ n ih =>
    unfold Family.leftmost
    by_cases hf : F.links.firstChild c = 0
    · rw [if_pos hf]
      exact ⟨c, rfl, hc, hf, .refl, fun hne => absurd rfl hne⟩
    · obtain ⟨hx, hxr, hxp⟩ := h.firstChild_mem hc hf
      have hlt := h.card_below_lt hx hxr
      rw [hxp] at hlt
      obtain ⟨d, hok, hd, hno, hbelow, hfirst⟩ := ih hx (by omega)
      have hchild : Below F.links bank0 F.live c (F.links.firstChild c) :=
        .child hx hxr (hxp.symm ▸ .refl)
      rw [if_neg hf]
      refine ⟨d, hok, hd, hno, Forest.below_trans hbelow hchild, fun _ => ?_⟩
      by_cases hdx : d = F.links.firstChild c
      · subst hdx
        exact ⟨hxr, by rw [hxp]⟩
      · exact hfirst hdx

theorem leavesRest_last (h : WellFormed F) (hc : c ∈ F.live) (hne : c ≠ bank0)
    (hno : F.links.firstChild c = 0) :
    LeavesRest F c (Family.freeBank c { F with links := F.links.dropFirst c }) := by
  obtain ⟨kids, htree⟩ := h.tree
  refine ⟨fun b => ?_, fun b hb => ?_, rfl, fun b _ => ?_⟩
  · change b ∈ F.live.erase c ↔ _
    rw [Finset.mem_erase, and_comm]
    refine and_congr_right fun _ => not_congr ⟨?_, fun hb => htree.eq_of_below hc hno hb⟩
    rintro rfl
    exact .refl
  · exact update_of_ne (Finset.ne_of_mem_erase hb) ..
  · change update F.links.firstChild (F.links.parent c) (F.links.nextSibling c) b = _
    rw [update_apply]

theorem LeavesRest.step {F₁ : Family} (h : WellFormed F)
    (hc : c ∈ F.live) (hcb : c ≠ bank) (hno : F.links.firstChild c = 0)
    (hbelow : Below F.links bank0 F.live bank c)
    (hF₁ : F₁ = Family.freeBank c { F with links := F.links.dropFirst c })
    (hr : LeavesRest F₁ bank F') : LeavesRest F bank F' := by
  obtain ⟨kids, htree⟩ := h.tree
  obtain ⟨-, hcr, hpb⟩ := Forest.parent_below hbelow hcb
  have hlive₁ : F₁.live = F.live.erase c := by rw [hF₁]; rfl
  have hparent₁ : ∀ b, b ≠ c → F₁.links.parent b = F.links.parent b := by
    intro b hbc
    rw [hF₁]
    exact update_of_ne hbc ..
  have hbelow₁ : ∀ b, Below F₁.links bank0 F₁.live bank b ↔
      Below F.links bank0 F.live bank b ∧ b ≠ c := by
    intro b
    rw [← htree.below_erase hc hno hcb.symm, hlive₁]
    refine Forest.below_congr fun x hx => ?_
    exact hparent₁ x (Finset.ne_of_mem_erase hx)
  have hlive : ∀ b, b ∈ F'.live ↔ b ∈ F.live ∧ ¬ Below F.links bank0 F.live bank b := by
    intro b
    rw [hr.live, hbelow₁, hlive₁, Finset.mem_erase]
    by_cases hbc : b = c
    · subst hbc
      simp [hbelow]
    · simp [hbc]
  have hnc : ∀ b ∈ F'.live, b ≠ c := by
    rintro b hb rfl
    exact ((hlive b).1 hb).2 hbelow
  refine ⟨hlive, fun b hb => ?_, hr.nextSibling.trans (by rw [hF₁]; rfl), fun b hb => ?_⟩
  · rw [hr.parent b hb, hparent₁ b (hnc b hb)]
  · have hbp : b ≠ F.links.parent c := by
      rintro rfl
      exact ((hlive _).1 hb).2 hpb
    have hfirst₁ : F₁.links.firstChild b = F.links.firstChild b := by
      rw [hF₁]
      exact update_of_ne hbp ..
    have hnext₁ : F₁.links.nextSibling = F.links.nextSibling := by rw [hF₁]; rfl
    rw [hr.firstChild b hb, hparent₁ bank hcb.symm, hfirst₁, hnext₁]

/-- The loop of `BankDestroyBankAndStorage`. It ends, and stops only where clearing the storage
stops. -/
theorem destroyLoop_spec (andStorage : Bool) (parentBank n : ℕ) {cur : ℕ} {s : System σ}
    (h : WellFormed s.family) (hb : bank ∈ s.family.live) (hne : bank ≠ bank0)
    (hcur : cur ∈ s.family.live)
    (hbelow : Below s.family.links bank0 s.family.live bank cur)
    (hfirst : cur ≠ bank → s.family.links.firstChild (s.family.links.parent cur) = cur)
    (hn : s.family.live.card ≤ n) :
    match destroyLoop S andStorage parentBank bank n cur s with
    | .ok s' => LeavesRest s.family bank s'.family ∧
        (s.family.links.firstChild (s.family.links.parent bank) = bank → WellFormed s'.family)
    | .error e => ∃ cur F store, S.clear andStorage parentBank cur F store = .error e := by
  induction n generalizing cur s with
  | zero =>
    have := Finset.card_pos.2 ⟨bank, hb⟩
    omega
  | succ n ih =>
    obtain ⟨kids, htree⟩ := h.tree
    obtain ⟨c, hok, hc, hno, hcb, hcfirst⟩ :=
      leftmost_spec (n := s.family.top + 1) htree hcur <| by
        have hsub : s.family.live ⊆ Finset.range s.family.top := fun b hb =>
          Finset.mem_range.2 (h.bound b hb)
        have := Finset.card_le_card hsub
        rw [Finset.card_range] at this
        have := htree.card_below_le cur
        omega
    have hbc : Below s.family.links bank0 s.family.live bank c := Forest.below_trans hcb hbelow
    have hcr : c ≠ bank0 := Forest.below_ne_root hbc hne
    have hcf : c ≠ bank → s.family.links.firstChild (s.family.links.parent c) = c := by
      intro hcne
      by_cases he : c = cur
      · exact he ▸ hfirst (he ▸ hcne)
      · exact (hcfirst he).2
    have hpc : s.family.links.parent c ≠ 0 := fun he =>
      htree.zero_notMem (he ▸ htree.up c hc hcr)
    unfold destroyLoop
    rw [hok, ok_bind]
    cases hclear : S.clear andStorage parentBank c s.family s.store with
    | error e => exact ⟨_, _, _, hclear⟩
    | ok store =>
      rw [ok_bind]
      unfold Family.blowAway
      rw [if_neg hpc, ok_bind]
      by_cases he : c = bank
      · subst he
        rw [if_pos rfl]
        exact ⟨leavesRest_last h hc hcr hno, fun hf => h.free_first hc hcr hf hno⟩
      · rw [if_neg he]
        have hw := h.free_first hc hcr (hcf he) hno
        -- What the rest of the loop starts from.
        have hlive : ∀ b, b ∈ (Family.freeBank c
            { s.family with links := s.family.links.dropFirst c }).live ↔ b ≠ c ∧ b ∈ s.family.live :=
          fun b => Finset.mem_erase
        have hbelow' : ∀ b, Below s.family.links bank0 s.family.live bank b → b ≠ c →
            Below (Family.freeBank c { s.family with links := s.family.links.dropFirst c }).links bank0
              (s.family.live.erase c) bank b := by
          intro b hb hbc
          refine (Forest.below_congr fun x hx => ?_).2
            ((htree.below_erase hc hno (Ne.symm he)).2 ⟨hb, hbc⟩)
          exact update_of_ne (Finset.ne_of_mem_erase hx) ..
        have hcard : (s.family.live.erase c).card ≤ n := by
          have := Finset.card_erase_of_mem hc
          omega
        have hparent : ∀ b, b ≠ c → (Family.freeBank c
            { s.family with links := s.family.links.dropFirst c }).links.parent b =
              s.family.links.parent b := fun b hb => update_of_ne hb ..
        obtain ⟨next, hnext, hnl, hnb, hnf⟩ : ∃ next,
            (if s.family.links.nextSibling c ≠ 0 then s.family.links.nextSibling c else bank) = next ∧
            next ∈ s.family.live ∧ (Below s.family.links bank0 s.family.live bank next ∧ next ≠ c) ∧
            (next ≠ bank → next = s.family.links.nextSibling c ∧
              s.family.links.parent next = s.family.links.parent c) := by
          by_cases hz : s.family.links.nextSibling c = 0
          · exact ⟨bank, by simp [hz], hb, ⟨.refl, Ne.symm he⟩, fun hne => absurd rfl hne⟩
          · obtain ⟨hd, hdr, hdp, hdc⟩ := htree.nextSibling_mem hc hcr (hcf he) hz
            have hpb := (Forest.parent_below hbc he).2.2
            exact ⟨_, if_pos hz, hd, ⟨.child hd hdr (hdp ▸ hpb), hdc⟩, fun _ => ⟨rfl, hdp⟩⟩
        rw [hnext]
        have hrest := ih (s := ⟨Family.freeBank c
            { s.family with links := s.family.links.dropFirst c }, store⟩) hw
          ((hlive _).2 ⟨Ne.symm he, hb⟩) ((hlive next).2 ⟨hnb.2, hnl⟩) (hbelow' _ hnb.1 hnb.2) ?_ hcard
        · split at hrest
          case h_1 s' hs' =>
            rw [hs']
            obtain ⟨hleaves, hwell⟩ := hrest
            refine ⟨hleaves.step h hc he hno hbc rfl, fun hf => hwell ?_⟩
            rw [hparent bank (Ne.symm he)]
            have hbp : s.family.links.parent bank ≠ s.family.links.parent c := by
              intro hp
              have := (Forest.parent_below hbc he).2.2
              rw [← hp] at this
              exact htree.not_below_parent hb hne this
            exact (update_of_ne hbp ..).trans hf
          case h_2 e hs' =>
            rw [hs']
            exact hrest
        · intro hnbank
          obtain ⟨hnx, hnp⟩ := hnf hnbank
          rw [hparent next hnb.2, hnp, hnx]
          exact update_self ..

theorem bankDestroyBankAndStorage_spec (andStorage : Bool) {s : System σ} (h : WellFormed s.family)
    (hb : bank ∈ s.family.live) (hne : bank ≠ bank0) :
    match bankDestroyBankAndStorage S bank andStorage s with
    | .ok s' => LeavesRest s.family bank s'.family ∧
        (s.family.links.firstChild (s.family.links.parent bank) = bank → WellFormed s'.family)
    | .error e => ∃ parentBank cur F store, S.clear andStorage parentBank cur F store = .error e := by
  have hsub : s.family.live ⊆ Finset.range s.family.top := fun b hb =>
    Finset.mem_range.2 (h.bound b hb)
  have hcard := Finset.card_le_card hsub
  rw [Finset.card_range] at hcard
  have hspec := destroyLoop_spec (S := S) andStorage (s.family.links.parent bank)
    (s.family.top + 1) h hb hne hb .refl
    (fun hne => absurd rfl hne) (by omega)
  unfold bankDestroyBankAndStorage
  split at hspec
  case h_1 => exact hspec
  case h_2 => exact ⟨_, hspec⟩

/-! ## What is expected of the family -/

theorem WellFormed.orderly (h : WellFormed F) : Orderly F := by
  obtain ⟨kids, htree⟩ := h.tree
  refine ⟨fun p hp => ⟨kids p, htree.list p hp, fun c hc => ?_⟩, htree.up, ?_⟩
  · obtain ⟨hcl, hcr, -⟩ := (htree.mem p hp c).1 hc
    exact ⟨hcl, hcr⟩
  · intro c hc hcr p hp cs hcs
    obtain rfl : cs = kids p := hcs.unique (htree.list p hp)
    split
    case isTrue he => exact List.count_eq_one_of_mem (htree.nodup p hp) ((htree.mem p hp c).2 ⟨hc, hcr, he.symm⟩)
    case isFalse he => exact List.count_eq_zero_of_not_mem fun hm => he ((htree.mem p hp c).1 hm).2.2.symm

theorem LeavesRest.removesFamily_iff (h : WellFormed F) (hb : bank ∈ F.live) (hne : bank ≠ bank0)
    (hr : LeavesRest F bank F') :
    RemovesFamily F bank F' ↔ F.links.firstChild (F.links.parent bank) = bank := by
  obtain ⟨kids, htree⟩ := h.tree
  have hp := htree.up bank hb hne
  have hp' : F.links.parent bank ∈ F'.live :=
    (hr.live _).2 ⟨hp, htree.not_below_parent hb hne⟩
  have hmem : bank ∈ kids (F.links.parent bank) := (htree.mem _ hp bank).2 ⟨hb, hne, rfl⟩
  constructor
  · intro hrem
    by_contra hf
    obtain ⟨xs, ys, hk⟩ := List.append_of_mem hmem
    have hlist := htree.list _ hp
    have hnodup := htree.nodup _ hp
    have hlist' := hrem.list _ hp' _ hlist
    rw [hk] at hlist hlist' hnodup
    have hys := hlist.next
    unfold ChildList at hlist hlist'
    rw [hr.firstChild _ hp', if_pos rfl] at hlist'
    cases xs with
    | nil => exact hf hlist.1
    | cons x xs =>
      -- The list then begins with the sibling after the bank, which is not the first one.
      have hxb : x ≠ bank := by
        rintro rfl
        simp at hnodup
      rw [List.cons_append, List.erase_cons_tail (by simpa using hxb)] at hlist'
      obtain ⟨hx, hx0, -⟩ := hlist'
      cases ys with
      | nil => exact hx0 (hx ▸ hys)
      | cons y ys =>
        obtain rfl : x = y := hx.symm.trans hys.1
        simp at hnodup
  · intro hf
    refine ⟨hr.live, hr.parent, fun p hpl cs hcs => ?_⟩
    have hpF := ((hr.live p).1 hpl).1
    obtain rfl : cs = kids p := hcs.unique (htree.list p hpF)
    unfold ChildList
    rw [hr.nextSibling, hr.firstChild p hpl]
    by_cases he : p = F.links.parent bank
    · subst he
      obtain ⟨cs, hk, hstack⟩ := htree.kids_cons hb hne hf
      rw [if_pos rfl, hk, List.erase_cons_head]
      exact hstack
    · have hnm : bank ∉ kids p := fun hm => he ((htree.mem p hpF bank).1 hm).2.2.symm
      rw [if_neg he, List.erase_of_not_mem hnm]
      exact hcs

/-! ## Runs -/

theorem FirstChildReach.wellFormed {s : System σ} (h : FirstChildReach S s) : WellFormed s.family := by
  induction h with
  | init store => exact wellFormed_init
  | step op _ ha hf hrun ih =>
    cases op with
    | createChild parent =>
      have := bankCreateChild_spec (S := S) ih ha
      rw [show bankCreateChild S parent _ = _ from hrun] at this
      exact this
    | destroy bank andStorage =>
      have := bankDestroyBankAndStorage_spec (S := S) andStorage ih ha.1 ha.2
      rw [show bankDestroyBankAndStorage S bank andStorage _ = _ from hrun] at this
      exact this.2 hf

/-- Banks are created and first children are destroyed: each bank stays once in the list of its parent.
Of the bank that is destroyed next exactly the family is removed if and only if it is the first child
of its parent, and the space bank stops only where clearing the storage does. -/
theorem familyKept_iff {s : System σ} (h : FirstChildReach S s) :
    Orderly s.family ∧ ∀ bank ∈ s.family.live, bank ≠ bank0 → ∀ andStorage,
      match bankDestroyBankAndStorage S bank andStorage s with
      | .ok s' => RemovesFamily s.family bank s'.family ↔
          s.family.links.firstChild (s.family.links.parent bank) = bank
      | .error e =>
          ∃ parentBank cur F store, S.clear andStorage parentBank cur F store = .error e := by
  have hw := h.wellFormed
  refine ⟨hw.orderly, fun bank hb hne andStorage => ?_⟩
  have hspec := bankDestroyBankAndStorage_spec (S := S) andStorage hw hb hne
  split at hspec
  case h_1 => exact hspec.1.removesFamily_iff hw hb hne
  case h_2 => exact hspec

/-- A storage for which nothing fails. -/
def quiet : Storage Unit where
  malloc _ _ := (true, ())
  createKey _ _ _ := .ok (true, ())
  clear _ _ _ _ _ := .ok ()

/-- A child of `primebank` is created; destroying it removes it alone. -/
theorem familyKept_child : ∃ s s' : System Unit, 4 ∈ s.family.live ∧
    bankDestroyBankAndStorage quiet 4 true s = .ok s' ∧ Orderly s.family ∧
    RemovesFamily s.family 4 s'.family := by
  have hreach : FirstChildReach quiet _ :=
    .step (.createChild primebank) (.init ()) (by decide) trivial rfl
  have hkept := familyKept_iff hreach
  exact ⟨_, _, by decide, rfl, hkept.1, (hkept.2 4 (by decide) (by decide) true).2 (by decide)⟩

/-- Two children of `primebank` are created and the first one is destroyed. The second one is still
there, and no longer in the list of `primebank`. -/
theorem sibling_lost : ∃ s s' : System Unit, Reach quiet s ∧ 4 ∈ s.family.live ∧
    bankDestroyBankAndStorage quiet 4 true s = .ok s' ∧ 5 ∈ s'.family.live ∧
    s'.family.links.parent 5 = primebank ∧ ¬ Orderly s'.family ∧
    ¬ RemovesFamily s.family 4 s'.family := by
  have h₁ : Reach quiet _ := .step (.createChild primebank) (.init ()) (by decide) rfl
  have h₂ : Reach quiet _ := .step (.createChild primebank) h₁ (by decide) rfl
  refine ⟨_, _, h₂, by decide, rfl, by decide, by decide, fun ho => ?_, fun hr => ?_⟩
  · have := ho.once 5 (by decide) (by decide) primebank (by decide) [verifybank] ⟨rfl, by decide, rfl⟩
    exact absurd this (by decide)
  · have := (hr.list primebank (by decide) [5, 4, verifybank]
      ⟨rfl, by decide, rfl, by decide, rfl, by decide, rfl⟩).1
    exact absurd this (by decide)

end CapROS.SpaceBank
