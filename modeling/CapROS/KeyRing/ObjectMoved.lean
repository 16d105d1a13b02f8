import CapROS.KeyRing.ResumeKeys

/-!
# The ring of an object that moves

`keyR_ObjectMoved` makes the keys on a ring designate another object, and then hands the whole chain to
the header of that object. On the way it clears the hazards of keys. Clearing the hazard of the slot
`ProcGenKeys` of a process root moves the key registers of the process back to their node, and a moved key
leaves nothing behind that could be followed.

The order of the rings and what each key designates are kept apart here: while the loop runs, the keys on
one ring designate two objects.

* `keyRObjectMoved`: the procedure.
* `Slots`, `Slots.clear`: what `key_ClearHazard` does to keys.
* `Linked`: the lists of keys on the rings. `Linked.flush`: what moving key registers back does to them.
* `keyRObjectMoved_iff`: when that is so.
-/

namespace CapROS.KeyRing

open LinkedRing
open Function (update update_self update_apply update_of_ne)

/-! ## The procedure -/

/-- `prev->next`. A key that is not on a ring has a zero there. -/
def linkNext (s : State) : Loc → Except Halt Loc
  | .key k => if (s.key k).isPreparedObjectKey then .ok (s.next (.key k)) else .error .nullDeref
  | header => .ok (s.next header)

/-- `key_ClearHazard`, if the key is hazarded. -/
def unHazardIf (clear : ClearHazard) (k : ℕ) (s : State) : Except Halt State :=
  if (s.key k).isHazard then (clear k s).foldlM HazardOp.run s else .ok s

/-- The loop of `keyR_ObjectMoved`. -/
def keyRObjectMovedLoop (clear : ClearHazard) (header : Loc) (newObj : ℕ) :
    ℕ → Loc → State → Except Halt State
  | 0, _, _ => .error .diverged
  | fuel + 1, prev, s => do
    let next ← linkNext s prev
    if next = header then .ok s
    else
      match next with
      | .key k => do
        kassert ((s.key k).prepared = true)
        let s ← unHazardIf clear k s
        if (s.key k).prepared = false then
          -- The key may not even be on this ring any more.
          keyRObjectMovedLoop clear header newObj fuel prev s
        else
          keyRObjectMovedLoop clear header newObj fuel (.key k)
            (s.put k { s.key k with u := .ok (.obj newObj) })
      | _ => .error .assertion

/-- The end of `keyR_ObjectMoved`: the whole chain goes to the header of the new object. -/
def handOver (header : Loc) (newObj : ℕ) (s : State) : State :=
  let next := s.next header
  let prev := s.prev header
  -- `keyR_ResetRing`
  let nexts := update s.next header header
  let prevs := update s.prev header header
  { s with
    next := update (update nexts (.obj newObj) next) prev (.obj newObj)
    prev := update (update prevs (.obj newObj) prev) next (.obj newObj) }

def keyRObjectMoved (clear : ClearHazard) (header : Loc) (newObj fuel : ℕ) (s : State) : Except Halt State := do
  let s ← keyRObjectMovedLoop clear header newObj fuel header s
  .ok (handOver header newObj s)

/-- Where the keys are that clearing a hazard concerns. -/
structure Slots where
  /-- The process of which the key is in the slot `ProcGenKeys` of the root node. -/
  genKeysOf : ℕ → Option ℕ
  /-- The key registers of a process. -/
  keyReg : ℕ → Fin 32 → ℕ
  /-- The slots of the node that the key registers of a process are loaded from. -/
  nodeSlot : ℕ → Fin 32 → ℕ
  /-- The number keys of a process root that get the values of registers, if the key is in another slot of
  the root node. -/
  rootValues : ℕ → List (ℕ × ℕ × ℕ × ℕ)
  /-- The slots of the root node that are not hazarded any more then. -/
  rootSlots : ℕ → List ℕ

/-- `proc_FlushKeyRegs`, for one key register. -/
def Slots.moveBack (slots : Slots) (p : ℕ) (i : Fin 32) : List HazardOp :=
  [.unHazard (slots.nodeSlot p i), .move (slots.nodeSlot p i) (slots.keyReg p i)]

/-- `key_ClearHazard`: the key registers are moved back for the slot `ProcGenKeys`, and the other registers
written back for most slots of a process root. For slots in a GPT, and for `ProcAddrSpace`, mappings are
invalidated. -/
def Slots.clear (slots : Slots) (k : ℕ) : List HazardOp :=
  match slots.genKeysOf k with
  | some p => (List.finRange 32).flatMap (slots.moveBack p) ++ [.unHazard k]
  | none =>
    (slots.rootValues k).map (fun v => .setValue v.1 v.2.1 v.2.2.1 v.2.2.2) ++
      (slots.rootSlots k).map .unHazard ++ [.unHazard k]

/-- The places are all different, and where a slot `ProcGenKeys` is hazarded, the key registers are loaded:
the slots that they came from are not prepared, and they themselves not hazarded. -/
structure Loaded (slots : Slots) (s : State) : Prop where
  keyReg_inj : ∀ p q i j, slots.keyReg p i = slots.keyReg q j → p = q ∧ i = j
  nodeSlot_inj : ∀ p i j, slots.nodeSlot p i = slots.nodeSlot p j → i = j
  keyReg_ne : ∀ p q i j, slots.keyReg p i ≠ slots.nodeSlot q j
  genKeys_ne : ∀ k p q i, slots.genKeysOf k = some p → k ≠ slots.keyReg q i
  genKeys_inj : ∀ k k' p, slots.genKeysOf k = some p → slots.genKeysOf k' = some p → k = k'
  nodeSlot_ne : ∀ k k' p q i j, slots.genKeysOf k = some p → (s.key k).isHazard = true →
    slots.genKeysOf k' = some q → (s.key k').isHazard = true → slots.nodeSlot p i = slots.nodeSlot q j → p = q
  unprepared : ∀ k p i, slots.genKeysOf k = some p → (s.key k).isHazard = true →
    (s.key (slots.nodeSlot p i)).prepared = false
  unhazarded : ∀ k p i, slots.genKeysOf k = some p → (s.key k).isHazard = true →
    (s.key (slots.keyReg p i)).isHazard = false

variable {s s' t : State} {slots : Slots} {ring : Loc → List ℕ} {header : Loc} {k k' j src dst newObj p : ℕ}
  {xs ys l r : List ℕ}

/-! ## The lists of keys -/

/-- The rings, as lists of keys. Each prepared object key is on just one. -/
structure Linked (s : State) (ring : Loc → List ℕ) : Prop where
  links : ∀ header : Loc, header.IsHeader → Ring s.next s.prev (header :: (ring header).map .key)
  exists_mem : ∀ k, (s.key k).isPreparedObjectKey = true → ∃ header : Loc, header.IsHeader ∧ k ∈ ring header
  prepared : ∀ header : Loc, header.IsHeader → ∀ k ∈ ring header, (s.key k).isPreparedObjectKey = true
  disjoint : ∀ header header' : Loc, header.IsHeader → header'.IsHeader → ∀ k, k ∈ ring header →
    k ∈ ring header' → header = header'

theorem Inv.linked (h : Inv s ring) : Linked s ring where
  links := h.links
  exists_mem k hk := by
    obtain ⟨header, hh, hon, -⟩ := h.exists_onRing hk
    exact ⟨header, hh, (h.mem header hh k).2 hon⟩
  prepared header hh k hk := ((h.mem header hh k).1 hk).1
  disjoint header header' hh hh' k hk hk' :=
    ((h.mem header hh k).1 hk).unique ((h.mem header' hh' k).1 hk')

/-- The key that is there instead after a move. -/
def relocate (src dst k : ℕ) : ℕ := if k = src then dst else k

@[simp] theorem relocate_self (src dst : ℕ) : relocate src dst src = dst := if_pos rfl

theorem relocate_of_ne (h : k ≠ src) : relocate src dst k = k := if_neg h

theorem map_relocate_of_not_mem (h : src ∉ xs) : xs.map (relocate src dst) = xs := by
  conv_rhs => rw [← List.map_id xs]
  apply List.map_congr_left
  intro k hk
  exact relocate_of_ne fun he => h (he ▸ hk)

theorem isPreparedObjectKey_of_not_prepared (h : (s.key k).prepared = false) :
    (s.key k).isPreparedObjectKey = false := by
  simp [KeyBits.isPreparedObjectKey, h]

theorem Linked.not_mem (h : Linked s ring) (hk : (s.key k).isPreparedObjectKey = false) (hh : header.IsHeader) :
    k ∉ ring header := by
  intro hmem
  rw [h.prepared header hh k hmem] at hk
  cases hk

theorem Linked.congr (h : Linked s ring) (hnext : s'.next = s.next) (hprev : s'.prev = s.prev)
    (hkey : ∀ k, (s'.key k).isPreparedObjectKey = (s.key k).isPreparedObjectKey) : Linked s' ring where
  links := by
    rw [hnext, hprev]
    exact h.links
  exists_mem k hk := h.exists_mem k ((hkey k).symm.trans hk)
  prepared header hh k hk := (hkey k).trans (h.prepared header hh k hk)
  disjoint := h.disjoint

theorem Linked.congr_ring {ring' : Loc → List ℕ} (h : Linked s ring)
    (hring : ∀ header : Loc, header.IsHeader → ring' header = ring header) : Linked s ring' where
  links header hh := by
    rw [hring header hh]
    exact h.links header hh
  exists_mem k hk := by
    obtain ⟨header, hh, hmem⟩ := h.exists_mem k hk
    exact ⟨header, hh, (hring header hh).symm ▸ hmem⟩
  prepared header hh := by
    rw [hring header hh]
    exact h.prepared header hh
  disjoint header header' hh hh' := by
    rw [hring header hh, hring header' hh']
    exact h.disjoint header header' hh hh'

theorem Linked.replace (h : Linked s ring) (hdst : (s.key dst).isPreparedObjectKey = false)
    (hsrc : (s.key src).isPreparedObjectKey = true) {void : KeyBits} (hvoid : void.isPreparedObjectKey = false) :
    Linked (((takePlace dst src s).put dst (s.key src)).put src void) fun header =>
      (ring header).map (relocate src dst) := by
  obtain ⟨home, hh, hmem⟩ := h.exists_mem src hsrc
  have hne : dst ≠ src := by
    rintro rfl
    rw [hsrc] at hdst
    cases hdst
  have hring := h.links home hh
  obtain ⟨l, r, hlr⟩ := List.append_of_mem hmem
  have hnodup : (ring home).Nodup := nodup_of_ring hring
  have hnotsrc : src ∉ l ++ r := by
    rw [hlr] at hnodup
    exact (List.nodup_cons.1 (List.nodup_middle.1 hnodup)).1
  have hhome : (ring home).map (relocate src dst) = l ++ dst :: r := by
    have hl : src ∉ l := fun hm => hnotsrc (List.mem_append_left r hm)
    have hr : src ∉ r := fun hm => hnotsrc (List.mem_append_right l hm)
    rw [hlr, List.map_append, List.map_cons, relocate_self, map_relocate_of_not_mem hl, map_relocate_of_not_mem hr]
  have hother : ∀ header : Loc, header.IsHeader → header ≠ home →
      (ring header).map (relocate src dst) = ring header := fun header hh' hne' =>
    map_relocate_of_not_mem fun hm => hne' (h.disjoint header home hh' hh src hm hmem)
  -- The nodes before and after the key are on its ring.
  have hmk : Loc.key src ∈ home :: (ring home).map .key :=
    List.mem_cons_of_mem _ (List.mem_map.2 ⟨src, hmem, rfl⟩)
  have hp := hring.prev_mem hmk
  have hn := hring.next_mem hmk
  have hkey : ∀ j, (((takePlace dst src s).put dst (s.key src)).put src void).key j =
      if j = src then void else if j = dst then s.key src else s.key j := by
    intro j
    simp only [State.put, takePlace, update_apply]
  constructor
  · intro header hh'
    by_cases he : header = home
    · subst he
      rw [hhome]
      have hnotdst := h.not_mem hdst hh
      rw [hlr] at hring hnotdst
      exact ring_takePlace hring hh hnotdst
    · rw [hother header hh' he]
      have hoff : ∀ l ∈ header :: (ring header).map Loc.key, l ∉ home :: (ring home).map Loc.key ∧ l ≠ .key dst := by
        intro l hl
        obtain rfl | hl := List.mem_cons.1 hl
        · refine ⟨?_, hh' dst⟩
          rw [List.mem_cons, not_or, List.mem_map]
          refine ⟨he, ?_⟩
          rintro ⟨j, -, hj⟩
          exact hh' j hj.symm
        · obtain ⟨j, hj, rfl⟩ := List.mem_map.1 hl
          refine ⟨?_, fun hjd => h.not_mem hdst hh' (Loc.key.inj hjd ▸ hj)⟩
          rw [List.mem_cons, not_or, List.mem_map]
          refine ⟨fun hj' => hh j hj'.symm, ?_⟩
          rintro ⟨i, hi, hij⟩
          obtain rfl := Loc.key.inj hij
          exact he (h.disjoint header home hh' hh i hj hi)
      refine (h.links header hh').congr (fun l hl => ?_) fun l hl => ?_
      · obtain ⟨hout, hd⟩ := hoff l hl
        have hlp : l ≠ s.prev (.key src) := fun he => hout (he ▸ hp)
        simp [State.put, takePlace, hlp, hd]
      · obtain ⟨hout, hd⟩ := hoff l hl
        have hln : l ≠ s.next (.key src) := fun he => hout (he ▸ hn)
        simp [State.put, takePlace, hln, hd]
  · intro j hj
    rw [hkey] at hj
    split at hj
    · rw [hvoid] at hj
      cases hj
    · rename_i hjs
      split at hj
      · rename_i hjd
        subst hjd
        exact ⟨home, hh, hhome ▸ by simp⟩
      · obtain ⟨header, hh', hm⟩ := h.exists_mem j hj
        exact ⟨header, hh', List.mem_map.2 ⟨j, hm, relocate_of_ne hjs⟩⟩
  · intro header hh' j hj
    obtain ⟨i, hi, rfl⟩ := List.mem_map.1 hj
    rw [hkey]
    by_cases his : i = src
    · subst his
      rw [relocate_self, if_neg hne, if_pos rfl]
      exact hsrc
    · have hid : i ≠ dst := fun he => h.not_mem hdst hh' (he ▸ hi)
      rw [relocate_of_ne his, if_neg his, if_neg hid]
      exact h.prepared header hh' i hi
  · intro header header' hh₁ hh₂ j hj hj'
    obtain ⟨i, hi, rfl⟩ := List.mem_map.1 hj
    obtain ⟨i', hi', hij⟩ := List.mem_map.1 hj'
    have hii : i' = i := by
      by_cases his : i = src
      · subst his
        by_contra hne'
        rw [relocate_self, relocate_of_ne hne'] at hij
        exact h.not_mem hdst hh₂ (hij ▸ hi')
      · by_cases his' : i' = src
        · subst his'
          rw [relocate_self, relocate_of_ne his] at hij
          exact absurd hi (hij ▸ h.not_mem hdst hh₁)
        · rwa [relocate_of_ne his, relocate_of_ne his'] at hij
    exact h.disjoint header header' hh₁ hh₂ i hi (hii ▸ hi')

/-! ## Moving key registers back -/

/-- The void key that a move leaves behind. -/
def voidKey : KeyBits := ⟨.void, false, false, false, 0, 0, .nk 0 0 0⟩

theorem initToVoid_eq (key : KeyBits) : key.initToVoid = voidKey := rfl

theorem Linked.keyNHMove (h : Linked s ring) (hdst : (s.key dst).isHazard = false)
    (hsrc : (s.key src).isHazard = false) (hprep : (s.key dst).prepared = false) :
    ∃ s', keyNHMove dst src s = .ok s' ∧ Linked s' (fun header => (ring header).map (relocate src dst)) ∧
      ∀ j, s'.key j = if j = src then voidKey else if j = dst then s.key src else s.key j := by
  have hdst' := isPreparedObjectKey_of_not_prepared hprep
  unfold KeyRing.keyNHMove
  rw [kassert_pos hdst, kassert_pos hsrc, kassert_pos hprep]
  refine ⟨_, rfl, ?_, ?_⟩
  · by_cases hon : (s.key src).isPreparedObjectKey = true
    · rw [if_pos hon]
      exact h.replace hdst' hon (initToVoid_prepared _)
    · rw [if_neg hon]
      have hoff : (s.key src).isPreparedObjectKey = false := by simpa using hon
      have hmap : ∀ header : Loc, header.IsHeader → (ring header).map (relocate src dst) = ring header :=
        fun header hh => map_relocate_of_not_mem (h.not_mem hoff hh)
      have hkeys : Linked ((s.put dst (s.key src)).put src voidKey) ring := by
        refine h.congr rfl rfl fun j => ?_
        simp only [State.put, update_apply]
        by_cases hjs : j = src
        · rw [if_pos hjs, hjs, hoff]
          rfl
        · rw [if_neg hjs]
          by_cases hjd : j = dst
          · rw [if_pos hjd, hjd, hoff, hdst']
          · rw [if_neg hjd]
      exact hkeys.congr_ring hmap
  · intro j
    have hput : ∀ t : State, t.key = (s.put dst (s.key src)).key → (t.put src (t.key src).initToVoid).key j =
        if j = src then voidKey else if j = dst then s.key src else s.key j := by
      intro t ht
      simp only [State.put, initToVoid_eq, ht, update_apply]
    split
    · exact hput _ rfl
    · exact hput _ rfl

theorem Linked.unHazard (h : Linked s ring) (k : ℕ) : Linked (s.put k (s.key k).unHazard) ring := by
  refine h.congr rfl rfl fun j => ?_
  by_cases hj : j = k
  · subst hj
    rw [put_same, unHazard_prepared]
  · rw [put_other _ _ hj]

theorem Linked.moveBack (h : Linked s ring) (hne : src ≠ dst) (hprep : (s.key dst).prepared = false)
    (hhazard : (s.key src).isHazard = false) :
    ∃ s', [HazardOp.unHazard dst, .move dst src].foldlM HazardOp.run s = .ok s' ∧
      Linked s' (fun header => (ring header).map (relocate src dst)) ∧
      ∀ j, s'.key j = if j = src then voidKey else if j = dst then s.key src else s.key j := by
  have hsrc : (s.put dst (s.key dst).unHazard).key src = s.key src := put_other _ _ hne
  have hd : ((s.put dst (s.key dst).unHazard).key dst).isHazard = false := by
    rw [put_same]
    rfl
  have hp : ((s.put dst (s.key dst).unHazard).key dst).prepared = false := by
    rw [put_same]
    exact hprep
  obtain ⟨s', hrun, hlinked, hkey⟩ := (h.unHazard dst).keyNHMove hd (by rwa [hsrc]) hp
  refine ⟨s', ?_, hlinked, fun j => ?_⟩
  · rw [List.foldlM_cons]
    change (KeyRing.keyNHMove dst src (s.put dst (s.key dst).unHazard) >>= pure) = .ok s'
    rw [hrun]
    rfl
  · rw [hkey, hsrc]
    by_cases hjd : j = dst
    · simp only [hjd, if_true]
    · rw [put_other _ _ hjd]

/-- Where the keys are after some key registers were moved back. -/
def Slots.home (slots : Slots) (p : ℕ) : List (Fin 32) → ℕ → ℕ
  | [], k => k
  | i :: is, k => slots.home p is (relocate (slots.keyReg p i) (slots.nodeSlot p i) k)

/-- The places of one process are different. -/
structure Apart (slots : Slots) (p : ℕ) : Prop where
  keyReg_inj : ∀ i j, slots.keyReg p i = slots.keyReg p j → i = j
  nodeSlot_inj : ∀ i j, slots.nodeSlot p i = slots.nodeSlot p j → i = j
  keyReg_ne : ∀ i j, slots.keyReg p i ≠ slots.nodeSlot p j

variable {is : List (Fin 32)}

theorem home_of_ne (h : ∀ i ∈ is, k ≠ slots.keyReg p i) : slots.home p is k = k := by
  induction is with
  | nil => rfl
  | cons i is ih =>
      rw [Slots.home, relocate_of_ne (h i (by simp))]
      exact ih fun i' hi' => h i' (by simp [hi'])

theorem home_keyReg (ha : Apart slots p) {i : Fin 32} (hi : i ∈ is) :
    slots.home p is (slots.keyReg p i) = slots.nodeSlot p i := by
  induction is with
  | nil => cases hi
  | cons i' is ih =>
      rw [Slots.home]
      by_cases he : i = i'
      · subst he
        rw [relocate_self]
        exact home_of_ne fun j _ hj => ha.keyReg_ne j i hj.symm
      · rw [relocate_of_ne fun hj => he (ha.keyReg_inj i i' hj)]
        exact ih ((List.mem_cons.1 hi).resolve_left he)

/-- Some key registers are moved back. -/
theorem Linked.flush (ha : Apart slots p) (hnodup : is.Nodup) (h : Linked s ring)
    (hprep : ∀ i ∈ is, (s.key (slots.nodeSlot p i)).prepared = false)
    (hhazard : ∀ i ∈ is, (s.key (slots.keyReg p i)).isHazard = false) :
    ∃ s', (is.flatMap (slots.moveBack p)).foldlM HazardOp.run s = .ok s' ∧
      Linked s' (fun header => (ring header).map (slots.home p is)) ∧
      (∀ i ∈ is, s'.key (slots.nodeSlot p i) = s.key (slots.keyReg p i)) ∧
      (∀ i ∈ is, s'.key (slots.keyReg p i) = voidKey) ∧
      ∀ j, (∀ i ∈ is, j ≠ slots.nodeSlot p i) → (∀ i ∈ is, j ≠ slots.keyReg p i) → s'.key j = s.key j := by
  induction is generalizing s ring with
  | nil => exact ⟨s, rfl, by simpa [Slots.home] using h, by simp, by simp, fun _ _ _ => rfl⟩
  | cons i is ih =>
      obtain ⟨hi, hnodup⟩ := List.nodup_cons.1 hnodup
      obtain ⟨s₁, hrun₁, hlinked₁, hkey₁⟩ := h.moveBack (ha.keyReg_ne i i) (hprep i (by simp)) (hhazard i (by simp))
      -- the other registers and slots are as they were
      have hreg : ∀ i' ∈ is, s₁.key (slots.keyReg p i') = s.key (slots.keyReg p i') := by
        intro i' hi'
        have hne : slots.keyReg p i' ≠ slots.keyReg p i := fun he => hi (ha.keyReg_inj i' i he ▸ hi')
        rw [hkey₁, if_neg hne, if_neg (ha.keyReg_ne i' i)]
      have hslot : ∀ i' ∈ is, s₁.key (slots.nodeSlot p i') = s.key (slots.nodeSlot p i') := by
        intro i' hi'
        have hne : slots.nodeSlot p i' ≠ slots.nodeSlot p i := fun he => hi (ha.nodeSlot_inj i' i he ▸ hi')
        rw [hkey₁, if_neg (ha.keyReg_ne i i').symm, if_neg hne]
      obtain ⟨s', hrun, hlinked, hnode, hvoid, hkey⟩ := ih hnodup hlinked₁
        (fun i' hi' => by rw [hslot i' hi']; exact hprep i' (by simp [hi']))
        (fun i' hi' => by rw [hreg i' hi']; exact hhazard i' (by simp [hi']))
      refine ⟨s', ?_, ?_, ?_, ?_, ?_⟩
      · rw [List.flatMap_cons, List.foldlM_append]
        change ([HazardOp.unHazard (slots.nodeSlot p i), .move (slots.nodeSlot p i) (slots.keyReg p i)].foldlM
          HazardOp.run s >>= _) = _
        rw [hrun₁]
        exact hrun
      · simpa only [List.map_map, Function.comp_def, Slots.home] using hlinked
      · intro i' hi'
        rcases List.mem_cons.1 hi' with rfl | hi'
        · have hout : ∀ j ∈ is, slots.nodeSlot p i' ≠ slots.nodeSlot p j := by
            intro j hj he
            obtain rfl := ha.nodeSlot_inj i' j he
            exact hi hj
          rw [hkey _ hout fun j _ he => ha.keyReg_ne j i' he.symm, hkey₁, if_neg (ha.keyReg_ne i' i').symm, if_pos rfl]
        · rw [hnode i' hi', hreg i' hi']
      · intro i' hi'
        rcases List.mem_cons.1 hi' with rfl | hi'
        · have hout : ∀ j ∈ is, slots.keyReg p i' ≠ slots.keyReg p j := by
            intro j hj he
            obtain rfl := ha.keyReg_inj i' j he
            exact hi hj
          rw [hkey _ (fun j _ => ha.keyReg_ne i' j) hout, hkey₁, if_pos rfl]
        · exact hvoid i' hi'
      · intro j hj hj'
        rw [hkey j (fun i' hi' => hj i' (by simp [hi'])) fun i' hi' => hj' i' (by simp [hi']), hkey₁,
          if_neg (hj' i (by simp)), if_neg (hj i (by simp))]

/-! ## Clearing a hazard -/

/-- What clearing a hazard does: keys are moved as `place` tells, and what stays is the same key. -/
structure Cleared (slots : Slots) (s s' : State) (ring : Loc → List ℕ) (place : ℕ → ℕ) : Prop where
  linked : Linked s' fun header => (ring header).map place
  loaded : Loaded slots s'
  key : ∀ j, (s.key j).isPreparedObjectKey = true → (s'.key (place j)).unHazard = (s.key j).unHazard
  place : ∀ j, place j = j ∨ ∃ p i, j = slots.keyReg p i ∧ place j = slots.nodeSlot p i

/-- The operation leaves the key where it is. -/
def HazardOp.Still : HazardOp → Prop
  | .move _ _ => False
  | _ => True

/-- No key was moved, prepared or hazarded, and prepared object keys are what they were. -/
structure Still (s s' : State) : Prop where
  prepared : ∀ j, (s'.key j).prepared = (s.key j).prepared
  hazard : ∀ j, (s'.key j).isHazard = true → (s.key j).isHazard = true
  key : ∀ j, (s.key j).isPreparedObjectKey = true → (s'.key j).unHazard = (s.key j).unHazard

theorem Still.refl (s : State) : Still s s := ⟨fun _ => rfl, fun _ h => h, fun _ _ => rfl⟩

theorem isPreparedObjectKey_of_unHazard {key key' : KeyBits} (h : key'.unHazard = key.unHazard) :
    key'.isPreparedObjectKey = key.isPreparedObjectKey := by
  rw [← unHazard_prepared key', h, unHazard_prepared]

variable {s₁ : State}

theorem Still.trans (h : Still s s₁) (h' : Still s₁ s') : Still s s' where
  prepared j := (h'.prepared j).trans (h.prepared j)
  hazard j hj := h.hazard j (h'.hazard j hj)
  key j hj := by
    have hkey := h.key j hj
    have hj₁ : (s₁.key j).isPreparedObjectKey = true := (isPreparedObjectKey_of_unHazard hkey).trans hj
    exact (h'.key j hj₁).trans hkey

theorem Linked.still {op : HazardOp} (hop : op.Still) (h : Linked s ring) :
    ∃ s', op.run s = .ok s' ∧ Linked s' ring ∧ Still s s' := by
  cases op with
  | move dst src => exact hop.elim
  | unHazard k =>
      refine ⟨_, rfl, h.unHazard k, ⟨fun j => ?_, fun j => ?_, fun j _ => ?_⟩⟩
      all_goals
        by_cases hj : j = k
        · subst hj
          simp [KeyBits.unHazard, KeyBits.isHazard]
        · simp [put_other _ _ hj]
  | setValue k value0 value1 value2 =>
      by_cases htype : (s.key k).keyType = .number
      · have hnumber : ∀ u, KeyBits.isPreparedObjectKey { s.key k with u := u } = false := fun u => by
          simp [KeyBits.isPreparedObjectKey, KeyBits.isObjectKey, htype]
        have hput : ∀ j, (s.put k { s.key k with u := .nk value0 value1 value2 }).key j =
            if j = k then { s.key k with u := .nk value0 value1 value2 } else s.key j := fun j => by
          simp only [State.put, update_apply]
        refine ⟨s.put k { s.key k with u := .nk value0 value1 value2 }, ?_, ?_, ⟨fun j => ?_, fun j => ?_, fun j hj => ?_⟩⟩
        · rw [HazardOp.run, if_pos htype]
        · refine h.congr rfl rfl fun j => ?_
          rw [hput]
          by_cases hj : j = k
          · rw [if_pos hj, hj]
            exact (hnumber _).trans (hnumber (s.key k).u).symm
          · rw [if_neg hj]
        · rw [hput]
          by_cases hj : j = k
          · rw [if_pos hj, hj]
          · rw [if_neg hj]
        · rw [hput]
          by_cases hj : j = k
          · rw [if_pos hj, hj]
            exact id
          · rw [if_neg hj]
            exact id
        · have hne : j ≠ k := by
            rintro rfl
            rw [hnumber (s.key j).u] at hj
            cases hj
          rw [hput, if_neg hne]
      · refine ⟨s, ?_, h, Still.refl s⟩
        rw [HazardOp.run, if_neg htype]

theorem Linked.stills {ops : List HazardOp} (hops : ∀ op ∈ ops, op.Still) (h : Linked s ring) :
    ∃ s', ops.foldlM HazardOp.run s = .ok s' ∧ Linked s' ring ∧ Still s s' := by
  induction ops generalizing s with
  | nil => exact ⟨s, rfl, h, Still.refl s⟩
  | cons op ops ih =>
      obtain ⟨s₁, hrun₁, hlinked₁, hstill₁⟩ := h.still (hops op (by simp))
      obtain ⟨s', hrun, hlinked, hstill⟩ := ih (fun op' hop' => hops op' (by simp [hop'])) hlinked₁
      refine ⟨s', ?_, hlinked, hstill₁.trans hstill⟩
      rw [List.foldlM_cons, hrun₁]
      exact hrun

theorem Loaded.mono (h : Loaded slots s) (hprep : ∀ j, (s'.key j).prepared = (s.key j).prepared)
    (hhazard : ∀ j, (s'.key j).isHazard = true → (s.key j).isHazard = true) : Loaded slots s' where
  keyReg_inj := h.keyReg_inj
  nodeSlot_inj := h.nodeSlot_inj
  keyReg_ne := h.keyReg_ne
  genKeys_ne := h.genKeys_ne
  genKeys_inj := h.genKeys_inj
  nodeSlot_ne k k' p q i j hk hz hk' hz' := h.nodeSlot_ne k k' p q i j hk (hhazard k hz) hk' (hhazard k' hz')
  unprepared k p i hk hz := (hprep _).trans (h.unprepared k p i hk (hhazard k hz))
  unhazarded k p i hk hz := by
    have hno := h.unhazarded k p i hk (hhazard k hz)
    by_contra hyes
    rw [hhazard _ (by simpa using hyes)] at hno
    cases hno

theorem Loaded.apart (h : Loaded slots s) (p : ℕ) : Apart slots p where
  keyReg_inj i j hij := (h.keyReg_inj p p i j hij).2
  nodeSlot_inj := h.nodeSlot_inj p
  keyReg_ne := h.keyReg_ne p p

theorem Loaded.ne_nodeSlot (h : Loaded slots s) (hk : slots.genKeysOf k = some p) (hz : (s.key k).isHazard = true)
    (hj : (s.key j).isPreparedObjectKey = true) (i : Fin 32) : j ≠ slots.nodeSlot p i := by
  rintro rfl
  rw [isPreparedObjectKey_of_not_prepared (h.unprepared k p i hk hz)] at hj
  cases hj

theorem unHazard_unHazard (key : KeyBits) : key.unHazard.unHazard = key.unHazard := rfl

/-- What the keys are after the key registers of a process were moved back, and the slot `ProcGenKeys` is not
hazarded any more. -/
structure Flushed (slots : Slots) (p k : ℕ) (s s' : State) : Prop where
  node : ∀ i, (s'.key (slots.nodeSlot p i)).unHazard = (s.key (slots.keyReg p i)).unHazard ∧
    (s'.key (slots.nodeSlot p i)).isHazard = false
  other : ∀ j, (∀ i, j ≠ slots.nodeSlot p i) → (∀ i, j ≠ slots.keyReg p i) →
    s'.key j = if j = k then (s.key k).unHazard else s.key j

theorem Loaded.flushed (h : Loaded slots s) (hk : slots.genKeysOf k = some p) (hz : (s.key k).isHazard = true)
    (hf : Flushed slots p k s s') (hself : (s'.key k).isHazard = false) : Loaded slots s' := by
  have hback : ∀ k' q, slots.genKeysOf k' = some q → (s'.key k').isHazard = true →
      (s.key k').isHazard = true ∧ q ≠ p := by
    intro k' q hk' hz'
    have hne : k' ≠ k := by
      rintro rfl
      rw [hself] at hz'
      cases hz'
    have hslot : ∀ i, k' ≠ slots.nodeSlot p i := by
      rintro i rfl
      rw [(hf.node i).2] at hz'
      cases hz'
    rw [hf.other k' hslot fun i => h.genKeys_ne k' q p i hk', if_neg hne] at hz'
    refine ⟨hz', ?_⟩
    rintro rfl
    exact hne (h.genKeys_inj k' k q hk' hk)
  exact {
    keyReg_inj := h.keyReg_inj
    nodeSlot_inj := h.nodeSlot_inj
    keyReg_ne := h.keyReg_ne
    genKeys_ne := h.genKeys_ne
    genKeys_inj := h.genKeys_inj
    nodeSlot_ne := fun k₁ k₂ q₁ q₂ i j hk₁ hz₁ hk₂ hz₂ =>
      h.nodeSlot_ne k₁ k₂ q₁ q₂ i j hk₁ (hback k₁ q₁ hk₁ hz₁).1 hk₂ (hback k₂ q₂ hk₂ hz₂).1
    unprepared := by
      intro k' q i hk' hz'
      obtain ⟨hzs, hqp⟩ := hback k' q hk' hz'
      have hslot : ∀ i', slots.nodeSlot q i ≠ slots.nodeSlot p i' := fun i' he =>
        hqp (h.nodeSlot_ne k' k q p i i' hk' hzs hk hz he)
      rw [hf.other _ hslot fun i' he => h.keyReg_ne p q i' i he.symm]
      have hprep := h.unprepared k' q i hk' hzs
      split
      · rename_i he
        rwa [he] at hprep
      · exact hprep
    unhazarded := by
      intro k' q i hk' hz'
      obtain ⟨hzs, hqp⟩ := hback k' q hk' hz'
      have hreg : ∀ i', slots.keyReg q i ≠ slots.keyReg p i' := fun i' he => hqp (h.keyReg_inj q p i i' he).1
      rw [hf.other _ (fun i' => h.keyReg_ne q p i i') hreg, if_neg (h.genKeys_ne k p q i hk).symm]
      exact h.unhazarded k' q i hk' hzs }

theorem Linked.clear_genKeys (h : Linked s ring) (hl : Loaded slots s) (hp : slots.genKeysOf k = some p)
    (hz : (s.key k).isHazard = true) (hk : (s.key k).isPreparedObjectKey = true) :
    ∃ s' place, (slots.clear k).foldlM HazardOp.run s = .ok s' ∧ Cleared slots s s' ring place ∧ place k = k := by
  have ha := hl.apart p
  have hmem : ∀ i, i ∈ List.finRange 32 := List.mem_finRange
  obtain ⟨s₁, hrun, hlinked, hnode, -, hother⟩ := h.flush ha (List.nodup_finRange 32)
    (fun i _ => hl.unprepared k p i hp hz) fun i _ => hl.unhazarded k p i hp hz
  have hplace : slots.home p (List.finRange 32) k = k := home_of_ne fun i _ => hl.genKeys_ne k p p i hp
  have hflushed : Flushed slots p k s (s₁.put k (s₁.key k).unHazard) := by
    constructor
    · intro i
      have hne := (hl.ne_nodeSlot hp hz hk i).symm
      rw [put_other _ _ hne, hnode i (hmem i)]
      exact ⟨rfl, hl.unhazarded k p i hp hz⟩
    · intro j hj hj'
      have hsame := hother j (fun i _ => hj i) fun i _ => hj' i
      by_cases hjk : j = k
      · subst hjk
        rw [put_same, if_pos rfl, hsame]
      · rw [put_other _ _ hjk, if_neg hjk, hsame]
  refine ⟨s₁.put k (s₁.key k).unHazard, slots.home p (List.finRange 32), ?_, ?_, hplace⟩
  · unfold Slots.clear
    rw [hp]
    rw [List.foldlM_append, hrun]
    rfl
  refine ⟨hlinked.unHazard k, hl.flushed hp hz hflushed (by rw [put_same]; rfl), fun j hj => ?_, fun j => ?_⟩
  · by_cases hreg : ∃ i, j = slots.keyReg p i
    · obtain ⟨i, rfl⟩ := hreg
      rw [home_keyReg ha (hmem i)]
      exact (hflushed.node i).1
    · have hne : ∀ i, j ≠ slots.keyReg p i := fun i hi => hreg ⟨i, hi⟩
      rw [home_of_ne fun i _ => hne i, hflushed.other j (hl.ne_nodeSlot hp hz hj) hne]
      split
      · rename_i hjk
        rw [hjk, unHazard_unHazard]
      · rfl
  · by_cases hreg : ∃ i, j = slots.keyReg p i
    · obtain ⟨i, rfl⟩ := hreg
      exact .inr ⟨p, i, rfl, home_keyReg ha (hmem i)⟩
    · exact .inl (home_of_ne fun i _ hi => hreg ⟨i, hi⟩)

/-- Clearing a hazard. -/
theorem Linked.clear (h : Linked s ring) (hl : Loaded slots s) (hz : (s.key k).isHazard = true)
    (hk : (s.key k).isPreparedObjectKey = true) :
    ∃ s' place, (slots.clear k).foldlM HazardOp.run s = .ok s' ∧ Cleared slots s s' ring place ∧ place k = k := by
  cases hp : slots.genKeysOf k with
  | some p => exact h.clear_genKeys hl hp hz hk
  | none =>
      have hops : ∀ op ∈ slots.clear k, op.Still := by
        intro op hop
        unfold Slots.clear at hop
        rw [hp] at hop
        simp only [List.mem_append, List.mem_map, List.mem_singleton] at hop
        rcases hop with (⟨v, -, rfl⟩ | ⟨j, -, rfl⟩) | rfl
        all_goals exact trivial
      obtain ⟨s', hrun, hlinked, hstill⟩ := h.stills hops
      refine ⟨s', id, hrun, ⟨hlinked.congr_ring fun header _ => List.map_id _, hl.mono hstill.prepared hstill.hazard, hstill.key,
        fun j => .inl rfl⟩, rfl⟩

/-! ## The loop -/

/-- The key is the same one, and designates the new object. It may have been moved from a key register back
to the node. -/
structure Designates (slots : Slots) (s s' : State) (newObj j j' : ℕ) : Prop where
  place : j' = j ∨ ∃ p i, j = slots.keyReg p i ∧ j' = slots.nodeSlot p i
  key : (s'.key j').unHazard = { (s.key j).unHazard with u := .ok (.obj newObj) }

theorem designates_self (hu : (s.key j).u = .ok (.obj newObj)) : Designates slots s s newObj j j :=
  ⟨.inl rfl, by rw [← hu]; rfl⟩

theorem Designates.of_cleared {place : ℕ → ℕ} (hl : Loaded slots s)
    (hc : Cleared slots s s₁ ring place) (hj : (s.key j).isPreparedObjectKey = true)
    (h : Designates slots s₁ s' newObj (place j) k') : Designates slots s s' newObj j k' where
  place := by
    rcases hc.place j with hj' | ⟨p, i, hreg, hslot⟩
    · rw [hj'] at h
      exact h.place
    · rcases h.place with hk' | ⟨q, i', hreg', -⟩
      · exact .inr ⟨p, i, hreg, hk'.trans hslot⟩
      · exact absurd (hreg'.symm.trans hslot) (hl.keyReg_ne q p i' i)
  key := by rw [h.key, hc.key j hj]

theorem next_of_getLast {next prev : Loc → Loc} {l : Loc} {zs : List Loc} (hr : Ring next prev (header :: zs))
    (hl : (header :: zs).getLast? = some l) : next l = header := by
  rcases List.eq_nil_or_concat' zs with rfl | ⟨ys, z, rfl⟩
  · obtain rfl : header = l := by simpa using hl
    exact hr.next_single.1
  · rw [← List.cons_append, List.getLast?_concat] at hl
    obtain rfl : z = l := Option.some.inj hl
    exact (hr.next_last ys).1

variable {done rest : List ℕ} {prev : Loc}

theorem Linked.linkNext (h : Linked s ring) (hh : header.IsHeader)
    (hring : ring header = done ++ rest) (hprev : (header :: done.map Loc.key).getLast? = some prev) :
    linkNext s prev = .ok (rest.head?.elim header .key) := by
  have hlinks := h.links header hh
  rw [hring, List.map_append, ← List.cons_append] at hlinks
  have hnext : s.next prev = rest.head?.elim header .key := by
    cases rest with
    | nil =>
        rw [List.map_nil, List.append_nil] at hlinks
        exact next_of_getLast hlinks hprev
    | cons k rest =>
        obtain ⟨m, hm⟩ := List.getLast?_eq_some_iff.1 hprev
        rw [hm, List.append_assoc] at hlinks
        exact (hlinks.next_mid m).1
  rw [← hnext]
  have hmem : prev ∈ header :: done.map Loc.key := List.mem_of_getLast? hprev
  cases prev with
  | key j =>
      rcases List.mem_cons.1 hmem with he | hj
      · exact absurd he.symm (hh j)
      · obtain ⟨j', hj', he⟩ := List.mem_map.1 hj
        obtain rfl := Loc.key.inj he
        rw [KeyRing.linkNext, if_pos (h.prepared header hh j' (hring ▸ List.mem_append_left _ hj'))]
  | obj o | proc p => rfl

theorem Linked.setObj (h : Linked s ring) (k : ℕ) (u : Body) : Linked (s.put k { s.key k with u := u }) ring := by
  refine h.congr rfl rfl fun j => ?_
  by_cases hj : j = k
  · subst hj
    rw [put_same]
    rfl
  · rw [put_other _ _ hj]

theorem Loaded.setObj (h : Loaded slots s) (k : ℕ) (u : Body) : Loaded slots (s.put k { s.key k with u := u }) := by
  have hput : ∀ j, (s.put k { s.key k with u := u }).key j = if j = k then { s.key k with u := u } else s.key j :=
    fun j => by simp only [State.put, update_apply]
  apply h.mono
  · intro j
    rw [hput]
    split
    · rename_i hj
      rw [hj]
    · rfl
  · intro j
    rw [hput]
    split
    · rename_i hj
      rw [hj]
      exact id
    · exact id

variable {fuel : ℕ}

theorem loop_key {clear : ClearHazard} (hh : header.IsHeader)
    (hnext : linkNext s prev = .ok (.key k)) (hprep : (s.key k).prepared = true)
    (hclear : unHazardIf clear k s = .ok s₁) (hprep₁ : (s₁.key k).prepared = true) :
    keyRObjectMovedLoop clear header newObj (fuel + 1) prev s =
      keyRObjectMovedLoop clear header newObj fuel (.key k) (s₁.put k { s₁.key k with u := .ok (.obj newObj) }) := by
  rw [keyRObjectMovedLoop, hnext, ok_bind, if_neg (hh k).symm]
  dsimp only
  rw [kassert_pos hprep, ok_bind, hclear, ok_bind, if_neg (by rw [hprep₁]; simp)]

theorem Linked.unHazardIf (h : Linked s ring) (hl : Loaded slots s) (hk : (s.key k).isPreparedObjectKey = true) :
    ∃ s' place, unHazardIf (fun k _ => slots.clear k) k s = .ok s' ∧ Cleared slots s s' ring place ∧ place k = k := by
  unfold KeyRing.unHazardIf
  by_cases hz : (s.key k).isHazard = true
  · rw [if_pos hz]
    exact h.clear hl hz hk
  · rw [if_neg hz]
    exact ⟨s, id, rfl, ⟨h.congr_ring fun header _ => List.map_id _, hl, fun _ _ => rfl, fun _ => .inl rfl⟩, rfl⟩

theorem prepared_of_isPreparedObjectKey (h : (s.key k).isPreparedObjectKey = true) : (s.key k).prepared = true := by
  rw [KeyBits.isPreparedObjectKey, Bool.and_eq_true] at h
  exact h.2

theorem key_setObj (s : State) (k : ℕ) (u : Body) (j : ℕ) :
    (s.put k { s.key k with u := u }).key j = if j = k then { s.key k with u := u } else s.key j := by
  simp only [State.put, update_apply]

theorem Designates.of_setObj (h : Designates slots (s.put k { s.key k with u := .ok (.obj newObj) }) s' newObj j k') :
    Designates slots s s' newObj j k' where
  place := h.place
  key := by
    rw [h.key, key_setObj]
    split
    · rename_i hj
      rw [hj]
      rfl
    · rfl

/-- The loop passes all keys of the ring. The induction is on the number of those that are still to come. -/
theorem loop_spec (h : Linked s ring) (hl : Loaded slots s) (hh : header.IsHeader)
    (hring : ring header = done ++ rest)
    (hprev : (header :: done.map Loc.key).getLast? = some prev)
    (hdone : ∀ j ∈ done, (s.key j).u = .ok (.obj newObj)) (hfuel : rest.length < fuel) :
    ∃ s' ring', keyRObjectMovedLoop (fun k _ => slots.clear k) header newObj fuel prev s = .ok s' ∧
      Linked s' ring' ∧ List.Forall₂ (Designates slots s s' newObj) (ring header) (ring' header) := by
  induction hn : rest.length generalizing s ring done rest prev fuel with
  | zero =>
      obtain rfl := List.length_eq_zero_iff.1 hn
      obtain ⟨fuel, rfl⟩ := Nat.exists_eq_succ_of_ne_zero (Nat.ne_of_gt hfuel)
      refine ⟨s, ring, ?_, h, ?_⟩
      · rw [keyRObjectMovedLoop, h.linkNext hh hring hprev, ok_bind]
        exact if_pos rfl
      · rw [hring, List.append_nil, List.forall₂_same]
        exact fun j hj => designates_self (hdone j hj)
  | succ n ih =>
      obtain ⟨k, rest, rfl⟩ := List.exists_cons_of_length_eq_add_one hn
      obtain ⟨fuel, rfl⟩ := Nat.exists_eq_succ_of_ne_zero (Nat.ne_of_gt ((Nat.zero_le _).trans_lt hfuel))
      have hmem : k ∈ ring header := by simp [hring]
      have hk := h.prepared header hh k hmem
      obtain ⟨s₁, place, hrun, hc, hplace⟩ := h.unHazardIf hl hk
      have hkey := hc.key k hk
      rw [hplace] at hkey
      have hk₁ : (s₁.key k).isPreparedObjectKey = true := (isPreparedObjectKey_of_unHazard hkey).trans hk
      rw [loop_key hh (h.linkNext hh hring hprev) (prepared_of_isPreparedObjectKey hk) hrun
        (prepared_of_isPreparedObjectKey hk₁)]
      have hring₁ : (ring header).map place = (done.map place ++ [k]) ++ rest.map place := by
        rw [hring, List.map_append, List.map_cons, hplace, List.append_assoc, List.singleton_append]
      have hlast : (header :: (done.map place ++ [k]).map Loc.key).getLast? = some (.key k) := by
        rw [List.map_append, List.map_singleton, ← List.cons_append, List.getLast?_concat]
      -- the keys that were passed designate the new object, wherever they are now
      have hdone₁ : ∀ j ∈ done.map place ++ [k],
          ((s₁.put k { s₁.key k with u := .ok (.obj newObj) }).key j).u = .ok (.obj newObj) := by
        intro j hj
        rw [key_setObj]
        split
        · rfl
        · rename_i hjk
          rcases List.mem_append.1 hj with hj | hj
          · obtain ⟨i, hi, rfl⟩ := List.mem_map.1 hj
            have hi' := h.prepared header hh i (hring ▸ List.mem_append_left _ hi)
            have hu : (s₁.key (place i)).unHazard.u = (s.key i).unHazard.u := by rw [hc.key i hi']
            exact hu.trans (hdone i hi)
          · exact absurd (List.mem_singleton.1 hj) hjk
      rw [List.length_cons] at hn hfuel
      have hfuel₁ : (rest.map place).length < fuel := by
        rw [List.length_map]
        omega
      obtain ⟨s', ring', hloop, hlinked, hall⟩ := ih (hc.linked.setObj k _) (hc.loaded.setObj k _) hring₁ hlast
        hdone₁ hfuel₁ (by rw [List.length_map]; omega)
      refine ⟨s', ring', hloop, hlinked, ?_⟩
      have hboth := (List.forall₂_and_left _ _).2 ⟨h.prepared header hh, List.forall₂_map_left_iff.1 hall⟩
      exact hboth.imp fun j j' hj => hj.2.of_setObj.of_cleared hl hc hj.1

/-! ## The new ring -/

/-- The keys of the old ring are on the ring of the new object, in the same order, and designate it, and the
old ring is empty. -/
structure Moved (slots : Slots) (s s' : State) (header : Loc) (newObj : ℕ) (xs : List ℕ) : Prop where
  keys : ∃ ys : List ℕ, Ring s'.next s'.prev (.obj newObj :: ys.map .key) ∧
    List.Forall₂ (Designates slots s s' newObj) xs ys
  empty : s'.next header = header ∧ s'.prev header = header

theorem handOver_ring {ys : List ℕ} (hr : Ring s.next s.prev (header :: ys.map .key)) (hys : ys ≠ [])
    (hh : header.IsHeader) (hne : header ≠ .obj newObj) :
    Ring (handOver header newObj s).next (handOver header newObj s).prev (.obj newObj :: ys.map .key) ∧
      (handOver header newObj s).next header = header ∧ (handOver header newObj s).prev header = header := by
  have hout : Loc.obj newObj ∉ header :: ys.map Loc.key := by
    rw [List.mem_cons, not_or, List.mem_map]
    exact ⟨hne.symm, fun ⟨j, _, hj⟩ => by cases hj⟩
  have hnotin : header ∉ ys.map Loc.key := (List.nodup_cons.1 hr.nodup).1
  have hkeys : ys.map Loc.key ≠ [] := mt List.map_eq_nil_iff.1 hys
  -- the neighbours of the header are keys
  have halone : header :: ys.map Loc.key ≠ [header] := fun he => hkeys (List.cons.inj he).2
  have hnext : s.next header ≠ header := mt (hr.next_eq_self (List.mem_cons_self ..)).1 halone
  have hprev : s.prev header ≠ header := by
    intro he
    obtain ⟨init, z, hz⟩ := (List.eq_nil_or_concat' (ys.map Loc.key)).resolve_left hkeys
    rw [hz, ← List.cons_append] at hr
    rw [(hr.next_last _).2] at he
    exact hnotin (by rw [hz, he]; simp)
  refine ⟨?_, ?_, ?_⟩
  · have hsplit : Ring s.next s.prev ([header] ++ ys.map Loc.key) := hr
    have hrot : Ring s.next s.prev (ys.map Loc.key ++ header :: []) := hsplit.rotate
    have hrep := hrot.replace hkeys (m := .obj newObj) (by simpa [or_comm] using hout)
    have hback : Ring _ _ ([.obj newObj] ++ ys.map Loc.key) := hrep.rotate
    refine hback.congr (fun l hl => ?_) fun l hl => ?_
    all_goals
      have hlh : l ≠ header := by
        rintro rfl
        rcases List.mem_cons.1 hl with he | hm
        · exact hne he
        · exact hnotin hm
      simp only [handOver, update_apply, hlh, if_false]
  · simp only [handOver]
    rw [update_of_ne hprev.symm, update_of_ne hne, update_self]
  · simp only [handOver]
    rw [update_of_ne hnext.symm, update_of_ne hne, update_self]

/-- A ring without keys: its header is its own neighbour, and is linked to the new header like a key. -/
theorem handOver_empty (hnext : s.next header = header) (hprev : s.prev header = header) :
    (handOver header newObj s).next header = .obj newObj := by
  simp only [handOver, hnext, hprev, update_self]

/-- The keys of a ring go to the ring of the new object, in their order, and the old ring is empty after that,
just if there is a key on the ring at all. -/
theorem keyRObjectMoved_iff {fuel : ℕ} (h : Linked s ring) (hl : Loaded slots s) (hh : header.IsHeader)
    (hne : header ≠ .obj newObj) (hfuel : (ring header).length < fuel) :
    (∃ s', keyRObjectMoved (fun k _ => slots.clear k) header newObj fuel s = .ok s' ∧
      Moved slots s s' header newObj (ring header)) ↔ ring header ≠ [] := by
  constructor
  · rintro ⟨s', hrun, hmoved⟩ hnil
    have hlinks := h.links header hh
    rw [hnil, List.map_nil] at hlinks
    obtain ⟨hnext, hprev⟩ := hlinks.next_single
    obtain ⟨fuel, rfl⟩ := Nat.exists_eq_succ_of_ne_zero (Nat.ne_of_gt ((Nat.zero_le _).trans_lt hfuel))
    have hlast : (header :: ([] : List ℕ).map Loc.key).getLast? = some header := rfl
    have hloop : keyRObjectMovedLoop (fun k _ => slots.clear k) header newObj (fuel + 1) header s = .ok s := by
      have hlink := h.linkNext hh (hnil.trans (List.append_nil []).symm) hlast
      rw [keyRObjectMovedLoop, hlink, ok_bind]
      exact if_pos rfl
    rw [keyRObjectMoved, hloop, ok_bind] at hrun
    obtain rfl := Except.ok.inj hrun
    have hheader := hmoved.empty.1
    rw [handOver_empty hnext hprev] at hheader
    exact hne hheader.symm
  · intro hnil
    have hlast : (header :: ([] : List ℕ).map Loc.key).getLast? = some header := rfl
    obtain ⟨s₁, ring₁, hloop, hlinked, hall⟩ := loop_spec h hl hh (List.nil_append _).symm hlast (by simp) hfuel
    have hnil₁ : ring₁ header ≠ [] := by
      intro he
      rw [he] at hall
      exact hnil (List.forall₂_nil_right_iff.1 hall)
    obtain ⟨hring, hnext, hprev⟩ := handOver_ring (hlinked.links header hh) hnil₁ hh hne
    refine ⟨handOver header newObj s₁, ?_, ⟨ring₁ header, hring, hall.imp fun j j' hj => ⟨hj.place, hj.key⟩⟩, hnext, hprev⟩
    rw [keyRObjectMoved, hloop]
    rfl

theorem Reach.linked (h : Reach s) : ∃ ring, Linked s ring := by
  obtain ⟨ring, hinv⟩ := h.wf
  exact ⟨ring, hinv.linked⟩

/-- Places for key registers, none of which are loaded. -/
def unloadedSlots : Slots where
  genKeysOf _ := none
  keyReg p i := 64 * p + i
  nodeSlot p i := 64 * p + 32 + i
  rootValues _ := []
  rootSlots _ := []

theorem loaded_unloadedSlots (s : State) : Loaded unloadedSlots s where
  keyReg_inj p q i j h := by
    simp only [unloadedSlots] at h
    exact ⟨by omega, Fin.ext (by omega)⟩
  nodeSlot_inj p i j h := by
    simp only [unloadedSlots] at h
    exact Fin.ext (by omega)
  keyReg_ne p q i j h := by
    simp only [unloadedSlots] at h
    omega
  genKeys_ne k p q i h := by cases h
  genKeys_inj k k' p h := by cases h
  nodeSlot_ne k k' p q i j h := by cases h
  unprepared k p i h := by cases h
  unhazarded k p i h := by cases h

/-- A page has two keys, of which one is used for a mapping, and the page moves. -/
theorem keyRObjectMoved_two_keys : ∃ (s : State) (ring : Loc → List ℕ) (s' : State), Reach s ∧ ring (.obj 0) ≠ [] ∧
    keyRObjectMoved (fun k _ => unloadedSlots.clear k) (.obj 0) 1 ((ring (.obj 0)).length + 1) s = .ok s' ∧
      Moved unloadedSlots s s' (.obj 0) 1 (ring (.obj 0)) := by
  have hinit : Reach State.empty := .init ⟨fun _ => rfl, fun _ => rfl, fun _ _ => ⟨rfl, rfl⟩⟩
  have hfirst := Reach.step (.setToObj 1 0 .page 0 0) hinit rfl rfl
  have hsecond := Reach.step (.setToObj 2 0 .page 0 0) hfirst rfl rfl
  have hpage : KeyType.page ≠ .resume := by decide
  have hmapped := Reach.step (.setHazard 2 false true) hsecond hpage rfl
  obtain ⟨ring, hinv⟩ := hmapped.wf
  have hmem : 1 ∈ ring (.obj 0) := (hinv.mem _ (isHeader_obj 0) 1).2 ⟨by decide, by decide⟩
  have hne : ring (.obj 0) ≠ [] := List.ne_nil_of_mem hmem
  have hnew : Loc.obj 0 ≠ .obj 1 := by decide
  obtain ⟨s', hrun, hmoved⟩ := (keyRObjectMoved_iff hinv.linked (loaded_unloadedSlots _) (isHeader_obj 0) hnew
    (Nat.lt_succ_self _)).2 hne
  exact ⟨_, ring, s', hmapped, hne, hrun, hmoved⟩

/-- After an object without keys moved, its header is linked to that of the new object. -/
theorem keyRObjectMoved_no_keys :
    ¬∀ (slots : Slots) (s : State) (ring : Loc → List ℕ) (header : Loc) (newObj fuel : ℕ), Linked s ring →
      Loaded slots s → header.IsHeader → header ≠ .obj newObj → (ring header).length < fuel →
        ∃ s', keyRObjectMoved (fun k _ => slots.clear k) header newObj fuel s = .ok s' ∧
          Moved slots s s' header newObj (ring header) := by
  intro h
  have hinit : Reach State.empty := .init ⟨fun _ => rfl, fun _ => rfl, fun _ _ => ⟨rfl, rfl⟩⟩
  obtain ⟨ring, hlinked⟩ := hinit.linked
  have hnil : ring (.obj 0) = [] := by
    rw [List.eq_nil_iff_forall_not_mem]
    exact fun k => hlinked.not_mem rfl (isHeader_obj 0)
  obtain ⟨s', hrun, hmoved⟩ := h unloadedSlots State.empty ring (.obj 0) 1 1 hlinked (loaded_unloadedSlots _)
    (isHeader_obj 0) (by decide) (by rw [hnil]; decide)
  have hrun' : keyRObjectMoved (fun k _ => unloadedSlots.clear k) (.obj 0) 1 1 State.empty =
      .ok (handOver (.obj 0) 1 State.empty) := rfl
  obtain rfl := Except.ok.inj (hrun'.symm.trans hrun)
  exact absurd hmoved.empty.1 (by rw [handOver_empty rfl rfl]; decide)

end CapROS.KeyRing
