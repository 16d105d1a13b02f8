import CapROS.SuperNode.Allocating

/-!
# Growth in height, and the request to allocate

* `growRoot_safe`: the tree gets a higher root. Clients are blocked from the call `setBlocked` on.
-/

namespace CapROS.SuperNode

open NodeKey Relation Calls

variable {env : Request → World → World → Prop} {vis : Request → World → Prop} {α : Type}
  {post : α → World → Prop} {s s' : Store} {w w' : World} {A : Places} {p q t a b L M N g : ℕ}
  {o : Request} {k : Key} {c ct cr : NodeContent} {first last : ℕ} {R : ℕ → Prop}

/-! ## Calls while the root is blocked -/

/-- Nobody comes between. -/
def Still (env : Request → World → World → Prop) (vis : Request → World → Prop) (w : World) : Prop :=
  ∀ o, vis o w ∧ ∀ w', env o w w' → w' = w

theorem Others.still (he : Others env vis) (h : w.store.blocked = true) : Still env vis w := by
  refine fun o => ⟨he.visible fun h' => ?_, fun _ hw => he.blocked hw h⟩
  rw [h] at h'
  cases h'

theorem Still.expectOk {f : Answer → Program α} {a : Answer} (h : Still env vis w)
    (hexec : exec o w.store = (a, s')) (hcode : a.code = rcOk)
    (hnext : Among env vis post (f a) { w with store := s' }) :
    Among env vis post (expectOk o >>= f) w := by
  refine among_expectOk (· = w) (fun w' hw' => (h o).2 w' hw') ?_ ?_ ?_
  · rintro _ rfl
    exact (h o).1
  · rintro _ rfl
    rw [hexec, hcode]
  · rintro _ rfl
    rw [hexec]
    exact hnext

/-- The root with other slots. -/
def World.setRoot (w : World) (f : Fin 32 → Key) : World :=
  { w with store := w.store.setNode root { w.store.nodes root with slots := f } }

theorem setNode_setNode (s : Store) (q : ℕ) (c c' : NodeContent) :
    (s.setNode q c).setNode q c' = s.setNode q c' := by
  simp only [Store.setNode, Function.update_idem]

theorem setNode_self (s : Store) (q : ℕ) : s.setNode q (s.nodes q) = s := by
  simp only [Store.setNode, Function.update_eq_self]

theorem setRoot_self (w : World) : w.setRoot (w.store.nodes root).slots = w := by
  show { w with store := w.store.setNode root (w.store.nodes root) } = w
  rw [setNode_self]

theorem leadsTo_krTree : LeadsTo krTree root := rfl

theorem clearSlots_still (hstill : ∀ f, Still env vis (w.setRoot f)) (is : List ℕ)
    (his : ∀ i ∈ is, i < 32) (f : Fin 32 → Key) :
    Among env vis (fun _ w' => w' = w.setRoot fun i => if i.val ∈ is then .void else f i)
      (clearSlots krTree is) (w.setRoot f) := by
  induction is generalizing f with
  | nil =>
    show w.setRoot f = _
    congr 1
  | cons i is ih =>
    rw [clearSlots]
    have hi : i < 32 := his i (List.mem_cons_self ..)
    refine (hstill f).expectOk (exec_swapSlot leadsTo_krTree _ hi .void) rfl ?_
    simp only [World.setRoot, setNode_setNode, setNode_nodes_self, NodeContent.setSlot]
    refine (ih (fun j hj => his j (List.mem_cons_of_mem i hj)) _).mono ?_
    rintro _ w' rfl
    congr 1
    funext j
    by_cases hj : j = ⟨i, hi⟩
    · simp [hj]
    · have hj' : j.val ≠ i := fun h => hj (Fin.ext h)
      simp [hj, hj']

/-- The node `t` and the root with other contents. -/
def World.put (w : World) (t : ℕ) (ct cr : NodeContent) : World :=
  { w with store := (w.store.setNode t ct).setNode root cr }

section Put

variable (w : World) (ht : t ≠ root) (ct cr : NodeContent)

theorem put_root : (w.put t ct cr).store.nodes root = cr := setNode_nodes_self _ _ _

include ht in
theorem put_node : (w.put t ct cr).store.nodes t = ct := by
  rw [World.put, setNode_nodes_of_ne _ _ ht, setNode_nodes_self]

theorem put_setNode_root (c : NodeContent) :
    { w.put t ct cr with store := (w.put t ct cr).store.setNode root c } = w.put t ct c := by
  simp only [World.put, setNode_setNode]

theorem put_setRoot (f : Fin 32 → Key) :
    (w.put t ct cr).setRoot f = w.put t ct { cr with slots := f } := by
  simp only [World.setRoot, put_root, put_setNode_root]

include ht in
theorem put_setNode (c : NodeContent) :
    { w.put t ct cr with store := (w.put t ct cr).store.setNode t c } = w.put t c cr := by
  simp only [World.put, Store.setNode, Function.update_idem, Function.update_comm ht]

end Put

/-! ## A higher root -/

def GrownTo (R : ℕ → Prop) (A : Places) (w : World) (L : ℕ) : Prop :=
  Inv A w ∧ A root = some (0, L) ∧ ∀ x, R x → Reaches w.store A x

/-- `growRoot`. Before `setBlocked`, the root stays as it has been cloned. -/
theorem growRoot_safe (he : Others env vis) (h : GrownTo R A w L) (hLN : L < N) (hN : N ≤ 6) :
    Among env vis (fun r w' => ∃ A', GrownTo R A' w' (if r = rcOk then N else L))
      (growRoot (l2v5Shift N)) w := by
  obtain ⟨hw, hroot, hreach⟩ := h
  have hshift : l2v5Shift N < 32 := show N * 5 < 32 by omega
  rw [growRoot, ask_bind]
  refine among_alloc1 he ⟨hw, .refl A w.store⟩ (fun r w₁ hr h₁ a ha => ?_) fun t w₁ h₁ => ?_
  · rw [if_pos (ha ▸ hr)]
    refine ⟨A, ?_⟩
    rw [if_neg (ha ▸ hr)]
    exact ⟨h₁.inv, hroot, fun x hx => h₁.same.reaches (hreach x hx)⟩
  rw [if_neg fun hne => hne rfl]
  have htroot : t ≠ root := h₁.bought.1.ne'
  refine among_expectOk (Fresh A w.store t emptyNode) (fun w' hw' => h₁.others he hw')
    (fun w' h' => h'.visible he _)
    (fun w' _ => by rw [exec_makeGuarded (leadsTo_keyTo t) _ representable_zero (by decide)])
    fun w₂ h₂ => ?_
  rw [exec_makeGuarded (leadsTo_keyTo t) _ representable_zero (by decide)]
  have hkey := leadsTo_guarded t 0
  simp only
  have hclone : ∀ s, exec (.clone (guarded t 0) krTree) s = ({}, s.setNode t (s.nodes root)) :=
    fun s => by rw [exec, withNode_leadsTo hkey, withNode_leadsTo leadsTo_krTree]
  refine among_expectOk (Fresh A w.store t emptyNode) (fun w' hw' => h₂.others he hw')
    (fun w' h' => h'.visible he _) (fun w' _ => by rw [hclone]) fun w₃ h₃ => ?_
  rw [hclone]
  have h₃' := h₃.setNode (w₃.store.nodes root)
  have hroot₃ : ({ w₃ with store := w₃.store.setNode t (w₃.store.nodes root) } : World).store.nodes root =
      w₃.store.nodes root := setNode_nodes_of_ne _ _ htroot.symm
  generalize w₃.store.nodes root = c at h₃' hroot₃ ⊢
  generalize ({ w₃ with store := w₃.store.setNode t c } : World) = w₄ at h₃' hroot₃ ⊢
  have hblock : ∀ s, exec (.setBlocked krTree) s =
      ({}, s.setNode root ((s.nodes root).setBit nodeBlocked)) := fun s => by
    rw [exec, withNode_leadsTo leadsTo_krTree]
  refine among_expectOk (fun w' => Fresh A w.store t c w' ∧ w'.store.nodes root = c) (fun w' hw' => ?_)
    (fun w' h' => h'.1.visible he _) (fun w' _ => by rw [hblock]) fun w₅ hw₅ => ?_
  · refine ⟨h₃'.others he hw', ?_⟩
    rcases Nat.eq_zero_or_pos L with rfl | h0
    · have hl2v := (h₃'.inv.shape.level hroot).1
      rw [he.beforeBlock hw' hl2v, hroot₃]
    · rw [(he.keeps hw' h₃'.inv).2.sameInner.inner hroot h0, hroot₃]
  obtain ⟨h₅, hroot₅⟩ := hw₅
  rw [hblock, hroot₅]
  have hput : { w₅ with store := w₅.store.setNode root (c.setBit nodeBlocked) } =
      w₅.put t c (c.setBit nodeBlocked) := by
    have hself := setNode_self w₅.store t
    rw [h₅.content] at hself
    rw [World.put, hself]
  rw [hput]
  have hstill : ∀ ct cr, cr.isBlocked = true → Still env vis (w₅.put t ct cr) := fun ct cr hb =>
    he.still (by rw [Store.blocked, put_root, hb])
  -- the clients are blocked
  refine (hstill _ _ (isBlocked_setBlocked c)).expectOk (a := {})
    (by rw [exec, withNode_leadsTo hkey]) rfl ?_
  rw [put_setNode _ htroot, put_node _ htroot]
  refine (hstill _ _ (isBlocked_setBlocked c)).expectOk
    (exec_swapSlot hkey _ (show keeperSlot < 32 by decide) _) rfl ?_
  rw [put_setNode _ htroot, put_node _ htroot]
  set ct := (c.clearBit nodeKeeper).setSlot ⟨keeperSlot, by decide⟩ .void with hct
  refine (hstill _ _ (isBlocked_setBlocked c)).expectOk
    (exec_swapSlot leadsTo_krTree _ (show 0 < 32 by decide) _) rfl ?_
  rw [put_setNode_root, put_root]
  set c₁ := (c.setBit nodeBlocked).setSlot ⟨0, by decide⟩ (guarded t 0) with hc₁
  have hb₁ : ∀ f, NodeContent.isBlocked { c₁ with slots := f } = true := fun f =>
    isBlocked_setBlocked c
  have hclear := clearSlots_still (w := w₅.put t ct c₁) (fun f => by
    rw [put_setRoot]
    exact hstill ct _ (hb₁ f)) (List.range' 1 (keeperSlot - 1)) (fun i hi => by
      rw [List.mem_range'_1] at hi
      have : i < 1 + (keeperSlot - 1) := hi.2
      rw [keeperSlot] at this
      omega) c₁.slots
  rw [show (w₅.put t ct c₁).setRoot c₁.slots = w₅.put t ct c₁ from put_setRoot _ _ _ _] at hclear
  refine .bind (hclear.mono ?_)
  rintro _ _ rfl
  rw [put_setRoot]
  set f : Fin 32 → Key := fun i => if i.val ∈ List.range' 1 (keeperSlot - 1) then .void else c₁.slots i
    with hf
  refine (hstill _ _ (hb₁ f)).expectOk (exec_setL2v leadsTo_krTree _ hshift) rfl ?_
  rw [put_setNode_root, put_root]
  set c₂ := NodeContent.setL2v { c₁ with slots := f } (l2v5Shift N) with hc₂
  have hb₂ : c₂.isBlocked = true := (isBlocked_setL2v _ hshift).trans (hb₁ f)
  refine (hstill _ _ hb₂).expectOk (a := {}) (by rw [exec, withNode_leadsTo leadsTo_krTree]) rfl ?_
  rw [put_setNode_root, put_root]
  have hlevel := h₅.inv.shape.level hroot
  have hkeeper := h₅.inv.shape.keeper hroot
  rw [hroot₅] at hlevel hkeeper
  have hraise := h₅.inv.raise (w₅.put t ct (c₂.clearBit nodeBlocked)).store hroot hLN hN
    h₅.outside h₅.bought
    (fun q hqr hqt => by rw [World.put, setNode_nodes_of_ne _ _ hqr, setNode_nodes_of_ne _ _ hqt]) rfl
    (fun i hi => by
      rw [put_node _ htroot, hct, setSlot_slots_of_ne _ _ fun h => hi (by rw [h]; rfl), hroot₅]
      rfl)
    (fun i hi => by
      rw [put_node _ htroot, hct, show i = ⟨keeperSlot, by decide⟩ from Fin.ext hi,
        setSlot_slots_self])
    (by rw [put_node _ htroot, hct, l2v_setSlot, l2v_clearKeeper, hlevel.1])
    (by rw [put_node _ htroot, hct, hasKeeper_setSlot, hasKeeper_clearKeeper])
    (by
      rw [put_root]
      exact setSlot_slots_self (c.setBit nodeBlocked) 0 (guarded t 0))
    (fun i hi0 hi => by
      rw [put_root]
      refine if_pos (List.mem_range'_1.2 ⟨?_, ?_⟩)
      · have : i.val ≠ 0 := fun h => hi0 (Fin.ext h)
        omega
      · rw [keeperSlot]
        omega)
    (by rw [put_root, l2v_clearBlocked, hc₂, l2v_setL2v _ hshift])
    (by
      rw [put_root, hasKeeper_clearBlocked, hc₂, hasKeeper_setL2v _ hshift]
      exact (hasKeeper_setBlocked c).trans (hkeeper.2 rfl))
    (by rw [Store.blocked, put_root, isBlocked_clearBlocked])
  obtain ⟨A', hinv, hroot', hreach'⟩ := hraise
  exact ⟨A', hinv, hroot', fun x hx => hreach' x (h₅.same.reaches (hreach x hx))⟩

/-- Nothing is in the slots of the root. -/
def EmptyRoot (w : World) : Prop := ∀ i : Fin 32, i.val ≠ 31 → (w.store.nodes root).slots i = .void

theorem clearSlots_void (he : Others env vis) (hw : Inv A w) (hroot : A root = some (0, N)) (h0 : 0 < N)
    (hempty : EmptyRoot w) (is : List ℕ) (his : ∀ i ∈ is, i < keeperSlot) :
    Among env vis (fun _ w' => Inv A w') (clearSlots krTree is) w := by
  induction is generalizing w with
  | nil => exact hw
  | cons i is ih =>
    have hi : i < keeperSlot := his i (List.mem_cons_self ..)
    have hi32 : i < 32 := hi.trans (by decide)
    rw [clearSlots]
    refine among_expectOk (fun w' => Inv A w' ∧ EmptyRoot w') (fun w' hw' => ?_)
      (fun w' h' => he.visible fun _ => ⟨A, h'.1⟩)
      (fun w' _ => by rw [exec_swapSlot leadsTo_krTree _ hi32]) fun w' ⟨hw', hempty'⟩ => ?_
    · obtain ⟨hinv, hframe⟩ := he.keeps hw' hw
      refine ⟨hinv, fun j hj => ?_⟩
      rw [hframe.sameInner.inner hroot h0, hempty j hj]
    · have hsame : w'.store.setNode root ((w'.store.nodes root).setSlot ⟨i, hi32⟩ .void) = w'.store := by
        rw [NodeContent.setSlot, ← hempty' ⟨i, hi32⟩ (by rw [keeperSlot] at hi; simp only; omega),
          Function.update_eq_self]
        exact setNode_self w'.store root
      rw [exec_swapSlot leadsTo_krTree _ hi32, hsame]
      exact ih hw' hempty' fun j hj => his j (List.mem_cons_of_mem i hj)

theorem growEmpty_safe (he : Others env vis) (hw : Inv A w) (hroot : A root = some (0, 0))
    (hswapped : w.swapped = false) (h0 : 0 < N) (hN : N ≤ 6) :
    Among env vis (fun r w' => r = rcOk ∧ ∃ A', Inv A' w' ∧ A' root = some (0, N))
      (growEmpty (l2v5Shift N)) w := by
  have hshift : l2v5Shift N < 32 := show N * 5 < 32 by omega
  obtain ⟨hkept, hvoid⟩ := hw.untouched hswapped
  have hlevel := hw.shape.level hroot
  rw [growEmpty]
  refine among_expectOk (· = w) (fun w' hw' => he.beforeLevel hw' hlevel.1) ?_ ?_ ?_
  · rintro _ rfl
    exact he.visible fun _ => ⟨A, hw⟩
  · rintro _ rfl
    rw [exec_setL2v leadsTo_krTree _ hshift]
  rintro w' rfl
  rw [exec_setL2v leadsTo_krTree _ hshift]
  have hslots : ∀ i : Fin 32, i.val ≠ 31 → ((w'.store.setNode root
      ((w'.store.nodes root).setL2v (l2v5Shift N))).nodes root).slots i = .void := fun i hi => by
    rw [setNode_nodes_self]
    exact hvoid 0 hroot i hi
  have hinv := hw.raiseEmpty (w'.store.setNode root ((w'.store.nodes root).setL2v (l2v5Shift N)))
    hroot h0 hN hkept (fun q hq => setNode_nodes_of_ne _ _ hq) rfl hslots
    (by rw [setNode_nodes_self, l2v_setL2v _ hshift])
    (by rw [setNode_nodes_self, hasKeeper_setL2v _ hshift, hw.shape.keeper hroot])
    (by
      rw [Store.blocked, setNode_nodes_self, isBlocked_setL2v _ hshift]
      exact hw.unblocked)
  have hroot' : Function.update A root (some (0, N)) root = some (0, N) := Function.update_self _ _ _
  refine .bind ((clearSlots_void he hinv hroot' h0 hslots _ fun i hi => List.mem_range.1 hi).mono ?_)
  intro _ w'' hw''
  exact ⟨rfl, _, hw'', hroot'⟩

/-! ## The request -/

/-- Between requests: the tree has the height that the keeper knows, and the addresses in `R` lead to
slots. -/
def Managed (R : ℕ → Prop) (g : GlobalState) (w : World) : Prop :=
  (∃ A, GrownTo R A w g.topL2v5) ∧ g.lastSlotInSupernode = lastSlotAt g.topL2v5

namespace Managed

variable {g : GlobalState}

theorem inv (h : Managed R g w) : ∃ A, Inv A w := by
  obtain ⟨⟨A, hA, -⟩, -⟩ := h
  exact ⟨A, hA⟩

theorem unblocked (h : Managed R g w) : w.store.blocked = false := by
  obtain ⟨A, hA⟩ := h.inv
  exact hA.unblocked

theorem mono {R' : ℕ → Prop} (h : Managed R g w) (hR : ∀ x, R' x → R x) : Managed R' g w := by
  obtain ⟨⟨A, hA, hroot, hreach⟩, hlast⟩ := h
  exact ⟨⟨A, hA, hroot, fun x hx => hreach x (hR x hx)⟩, hlast⟩

end Managed

/-- No addresses. -/
abbrev nowhere : ℕ → Prop := fun _ => False

theorem initStore_managed (keeper : Key) (grants : ℕ → Bool) :
    Managed nowhere initState ⟨initStore keeper grants, fun _ => none, false⟩ := by
  have hnode : (initStore keeper grants).nodes root =
      (emptyNode.setSlot NodeKey.keeperSlot keeper).setBit nodeKeeper := by
    simp only [initStore, Function.update_self]
  have hplace : ∀ {q v}, Function.update (fun _ => none) root (some (0, 0)) q = some v →
      q = root ∧ v = (0, 0) := fun {q v} hq => by
    by_cases hqr : q = root
    · rw [hqr, Function.update_self] at hq
      exact ⟨hqr, (Option.some.inj hq).symm⟩
    · rw [Function.update_of_ne hqr] at hq
      cases hq
  refine ⟨⟨Function.update (fun _ => none) root (some (0, 0)),
    ⟨⟨⟨0, Function.update_self _ _ _⟩, ?_, ?_, ?_, ?_⟩, ?_, ?_, ?_⟩, Function.update_self _ _ _,
    fun x hx => hx.elim⟩, rfl⟩
  · rintro q a L hq
    obtain ⟨rfl, hv⟩ := hplace hq
    cases hv
    rw [hnode]
    refine ⟨?_, by decide⟩
    show (((0 : BitVec 8) ||| nodeKeeper) &&& l2vMask).toNat = 0
    decide
  · rintro q v hq
    obtain ⟨rfl, -⟩ := hplace hq
    exact ⟨le_rfl, Nat.lt_succ_self root⟩
  · rintro q v hq
    obtain ⟨rfl, -⟩ := hplace hq
    rw [hnode]
    have hkeeper : ((0 : BitVec 8) ||| nodeKeeper) &&& nodeKeeper ≠ 0 := by decide
    exact ⟨fun _ => rfl, fun _ => decide_eq_true hkeeper⟩
  · rintro q a L hq h0
    obtain ⟨-, hv⟩ := hplace hq
    cases hv
    exact absurd h0 (lt_irrefl 0)
  · intro x k hk
    cases hk
  · rw [Store.blocked, hnode]
    have hblocked : ¬((0 : BitVec 8) ||| nodeKeeper) &&& nodeBlocked ≠ 0 := by decide
    exact decide_eq_false hblocked
  · refine fun _ => ⟨fun _ => rfl, fun a _ i hi => ?_⟩
    rw [hnode]
    exact setSlot_slots_of_ne _ _ fun h => hi (by rw [h]; rfl)

section Request

variable {g : GlobalState} (he : Others env vis) (h : Managed R g w) (hlast : last < 2 ^ 32)
  (hempty : g.topL2v5 < neededHeight last → g.topL2v5 = 0 → nSlots ≤ g.lowestAllocated →
    Among env vis (fun r w' => r = rcOk ∧ ∃ A', GrownTo R A' w' (neededHeight last))
      (growEmpty (l2v5Shift (neededHeight last))) w)

include he h hlast hempty

theorem ensureHeight_safe :
    Among env vis (fun r w' => Managed R r.2 w' ∧ r.2.lowestAllocated = g.lowestAllocated ∧
      (r.1 = rcOk → last / span r.2.topL2v5 < keeperSlot)) (ensureHeight g last) w := by
  obtain ⟨⟨A, hgrown⟩, hlastSlot⟩ := h
  obtain ⟨hN, hdiv⟩ := neededHeight_spec hlast
  rw [ensureHeight]
  by_cases hlt : g.topL2v5 < neededHeight last
  · rw [if_pos hlt]
    -- the tree grows to the level that is needed, or not at all
    have hgrow : Among env vis (fun r w' => ∃ A', GrownTo R A' w'
        (if r = rcOk then neededHeight last else g.topL2v5))
        (if g.topL2v5 = 0 ∧ nSlots ≤ g.lowestAllocated then growEmpty (l2v5Shift (neededHeight last))
          else growRoot (l2v5Shift (neededHeight last))) w := by
      split
      next hcond =>
        refine (hempty hlt hcond.1 hcond.2).mono ?_
        rintro r w' ⟨rfl, hA'⟩
        exact hA'
      next => exact growRoot_safe he hgrown hlt hN
    refine .bind (hgrow.mono ?_)
    rintro r w' ⟨A', hA'⟩
    by_cases hr : r = rcOk
    · rw [if_pos hr] at hA'
      rw [if_neg (not_not.2 hr)]
      exact ⟨⟨⟨A', hA'⟩, rfl⟩, rfl, fun _ => hdiv⟩
    · rw [if_neg hr] at hA'
      rw [if_pos hr]
      exact ⟨⟨⟨A', hA'⟩, hlastSlot⟩, rfl, fun h => absurd h hr⟩
  · rw [if_neg hlt]
    refine ⟨⟨⟨A, hgrown⟩, hlastSlot⟩, rfl, fun _ => ?_⟩
    exact (Nat.div_le_div_left (span_le (not_lt.1 hlt)) (span_pos _)).trans_lt hdiv

/-- `OC_capros_SuperNode_allocateRange`: if it succeeds, the addresses of the range lead to slots, and
those that did before do in any case. -/
theorem allocateRequest_safe (first : ℕ) :
    Among env vis (fun r w' =>
      (r.1 = rcOk → Managed (fun x => R x ∨ (first ≤ x ∧ x ≤ last)) r.2 w' ∧
        r.2.lowestAllocated = min g.lowestAllocated first) ∧
      (r.1 ≠ rcOk → Managed R r.2 w' ∧ r.2.lowestAllocated = g.lowestAllocated))
      (allocateRequest g first last) w := by
  rw [allocateRequest]
  by_cases hle : last < first
  · rw [if_pos hle]
    exact ⟨fun hr => (by cases hr), fun _ => ⟨h, rfl⟩⟩
  rw [if_neg hle]
  refine .bind ((ensureHeight_safe he h hlast hempty).mono ?_)
  rintro ⟨r, g'⟩ w' ⟨hmanaged, hlowest, hfits⟩
  simp only at hmanaged hlowest hfits
  by_cases hr : r = rcOk
  swap
  · simp only
    rw [if_pos hr]
    exact ⟨fun h => absurd h hr, fun _ => ⟨hmanaged, hlowest⟩⟩
  simp only
  rw [if_neg (not_not.2 hr)]
  obtain ⟨⟨A, hw', hroot, hreach⟩, hlastSlot⟩ := hmanaged
  have hL := (hw'.shape.level hroot).2
  have hin : last < span (g'.topL2v5 + 1) := by
    have := hfits hr
    rw [Nat.div_lt_iff_lt_mul (span_pos _), keeperSlot] at this
    rw [span_succ]
    omega
  refine .bind ((allocateRange_safe he hw' .refl hroot leadsTo_krTree (not_lt.1 hle) hin
    (fun _ => hfits hr) (hL.trans (by decide))).mono ?_)
  rintro r' w'' ⟨A', hgrown, hcover⟩
  have hroot' := hgrown.extend _ _ hroot
  by_cases hr' : r' = rcOk
  · rw [if_neg (not_not.2 hr')]
    refine ⟨fun _ => ⟨⟨⟨A', hgrown.inv, hroot', ?_⟩, hlastSlot⟩, by rw [← hlowest]⟩, fun h => absurd rfl h⟩
    rintro x (hx | ⟨hx₁, hx₂⟩)
    · exact hgrown.reaches (hreach x hx)
    · have := hcover hr' x hx₁ hx₂
      rwa [Nat.zero_add] at this
  · rw [if_pos hr']
    exact ⟨fun h => absurd h hr', fun _ =>
      ⟨⟨⟨A', hgrown.inv, hroot', fun x hx => hgrown.reaches (hreach x hx)⟩, hlastSlot⟩, hlowest⟩⟩

end Request

end CapROS.SuperNode
