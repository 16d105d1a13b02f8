import CapROS.SuperNode.Shape

/-!
# Changes of the tree
-/

namespace CapROS.SuperNode

open NodeKey Relation
open Function (update update_self update_of_ne)

/-- The nodes, and what clients have done with them. -/
structure World where
  store : Store
  /-- The keys that are relied on, by their addresses. -/
  kept : BitVec 32 → Option Key
  /-- Whether any key has been stored. -/
  swapped : Bool

/-- The address leads to some slot. -/
def Reaches (s : Store) (A : Places) (x : ℕ) : Prop := ∃ d i, At s A x d i

/-- The tree is well formed and open to the clients, and has the keys that are relied on. -/
structure Inv (A : Places) (w : World) : Prop where
  shape : Shape w.store A
  kept : ∀ {x k}, w.kept x = some k →
    ∃ d i, At w.store A x.toNat d i ∧ (w.store.nodes d).slots i = k
  unblocked : w.store.blocked = false
  untouched : w.swapped = false → (∀ x, w.kept x = none) ∧
    ∀ a, A root = some (a, 0) → ∀ i : Fin 32, i.val ≠ 31 → (w.store.nodes root).slots i = .void

variable {s s' s'' : Store} {w w' : World} {A A' : Places} {p q t d x a b L M g : ℕ} {i j : Fin 32}
  {k r : Key}

/-! ## The same inner nodes -/

/-- The stores differ in leaves and in nodes outside the tree. -/
structure SameInner (A : Places) (s s' : Store) : Prop where
  field : ∀ {q v}, A q = some v → (s'.nodes q).l2vField = (s.nodes q).l2vField
  inner : ∀ {q a L}, A q = some (a, L) → 0 < L → s'.nodes q = s.nodes q
  next : s.next ≤ s'.next

variable {c c' : NodeContent}

theorem l2v_congr (h : c'.l2vField = c.l2vField) : c'.l2v = c.l2v := by
  rw [NodeContent.l2v, h, NodeContent.l2v]

theorem hasKeeper_congr (h : c'.l2vField = c.l2vField) :
    c'.hasKeeper = c.hasKeeper := by
  rw [NodeContent.hasKeeper, h, NodeContent.hasKeeper]

theorem isBlocked_congr (h : c'.l2vField = c.l2vField) :
    c'.isBlocked = c.isBlocked := by
  rw [NodeContent.isBlocked, h, NodeContent.isBlocked]

namespace SameInner

theorem shape (h : SameInner A s s') (hs : Shape s A) : Shape s' A where
  top := hs.top
  level hq := by
    rw [l2v_congr (h.field hq)]
    exact hs.level hq
  bought hq := ⟨(hs.bought hq).1, (hs.bought hq).2.trans_le h.next⟩
  keeper hq := by
    rw [hasKeeper_congr (h.field hq)]
    exact hs.keeper hq
  slots hq h0 i hi := by
    rw [h.inner hq h0]
    exact hs.slots hq h0 i hi

theorem edge (h : SameInner A s s') (he : Edge s A p q) : Edge s' A p q := by
  obtain ⟨a, L, hp, h0, i, hi, hk⟩ := he
  refine ⟨a, L, hp, h0, i, hi, ?_⟩
  rw [h.inner hp h0]
  exact hk

theorem live (h : SameInner A s s') (hl : Live s A q) : Live s' A q :=
  ReflTransGen.mono (fun _ _ => h.edge) _ _ hl

theorem leads (h : SameInner A s s') (ha : At s A x d i) : At s' A x d i :=
  ⟨h.live ha.live, ha.place, ha.usable⟩

theorem reaches (h : SameInner A s s') (ha : Reaches s A x) : Reaches s' A x := by
  obtain ⟨d, i, ha⟩ := ha
  exact ⟨d, i, h.leads ha⟩

end SameInner

/-- Only slots of leaves have changed. -/
structure Frame (A : Places) (s s' : Store) : Prop where
  nodes : ∀ {q}, (∀ a, A q ≠ some (a, 0)) → s'.nodes q = s.nodes q
  field : ∀ q, (s'.nodes q).l2vField = (s.nodes q).l2vField
  next : s'.next = s.next

namespace Frame

theorem refl (A : Places) (s : Store) : Frame A s s := ⟨fun _ => rfl, fun _ => rfl, rfl⟩

theorem trans (h : Frame A s s') (h' : Frame A s' s'') : Frame A s s'' where
  nodes hq := (h'.nodes hq).trans (h.nodes hq)
  field q := (h'.field q).trans (h.field q)
  next := h'.next.trans h.next

theorem sameInner (h : Frame A s s') : SameInner A s s' where
  field _ := h.field _
  inner hq h0 := h.nodes fun a ha => by
    rw [hq] at ha
    cases ha
    omega
  next := h.next.ge

end Frame

/-! ## Swaps of the clients -/

@[simp]
theorem setNode_nodes_self (s : Store) (q : ℕ) (c : NodeContent) : (s.setNode q c).nodes q = c := by
  simp only [Store.setNode, update_self]

theorem setNode_nodes_of_ne (s : Store) (c : NodeContent) (h : p ≠ q) :
    (s.setNode q c).nodes p = s.nodes p := by
  simp only [Store.setNode, update_of_ne h]

theorem setSlot_slots_of_ne (c : NodeContent) (k : Key) (h : j ≠ i) :
    (c.setSlot i k).slots j = c.slots j := by
  simp only [NodeContent.setSlot, update_of_ne h]

@[simp]
theorem setSlot_slots_self (c : NodeContent) (i : Fin 32) (k : Key) : (c.setSlot i k).slots i = k := by
  simp only [NodeContent.setSlot, update_self]

theorem setSlot_field (c : NodeContent) (i : Fin 32) (k : Key) :
    (c.setSlot i k).l2vField = c.l2vField := rfl

theorem Frame.setSlot (hd : A d = some (b, 0)) (i : Fin 32) (k : Key) :
    Frame A s (s.setNode d ((s.nodes d).setSlot i k)) where
  nodes hq := setNode_nodes_of_ne _ _ fun heq => hq b (heq ▸ hd)
  field q := by
    by_cases hq : q = d
    · rw [hq, setNode_nodes_self, setSlot_field]
    · rw [setNode_nodes_of_ne _ _ hq]
  next := rfl

variable {addr : BitVec 32}

theorem clientSwap_spec (hs : Shape s A) (hr : RootKey r)
    (h : clientSwap r addr k s = some s') :
    ∃ d i, At s A addr.toNat d i ∧ s' = s.setNode d ((s.nodes d).setSlot i k) := by
  rw [clientSwap] at h
  split at h
  next d i hwalk =>
    exact ⟨d, i, (clientWalk_found_iff hs hr true addr).1 hwalk, (Option.some.inj h).symm⟩
  next => cases h

theorem clientFetch_of_at (hs : Shape s A) (hr : RootKey r)
    (h : At s A addr.toNat d i) : clientFetch r addr s = some ((s.nodes d).slots i) := by
  rw [clientFetch, (clientWalk_found_iff hs hr false addr).2 h]

theorem Inv.clientSwap (hw : Inv A w) (hr : RootKey r)
    (h : clientSwap r addr k w.store = some s') {kept : BitVec 32 → Option Key}
    (hkept : ∀ x k', kept x = some k' → (x = addr ∧ k' = k) ∨ (x ≠ addr ∧ w.kept x = some k')) :
    Inv A ⟨s', kept, true⟩ ∧ Frame A w.store s' := by
  obtain ⟨d, i, hat, rfl⟩ := clientSwap_spec hw.shape hr h
  obtain ⟨b, hd, hx⟩ := hat.place
  have hframe : Frame A w.store (w.store.setNode d ((w.store.nodes d).setSlot i k)) := .setSlot hd i k
  refine ⟨⟨hframe.sameInner.shape hw.shape, ?_, ?_, fun h => by cases h⟩, hframe⟩
  · intro x k' hk'
    rcases hkept x k' hk' with ⟨rfl, rfl⟩ | ⟨hne, hk'⟩
    · exact ⟨d, i, hframe.sameInner.leads hat, by rw [setNode_nodes_self, setSlot_slots_self]⟩
    · obtain ⟨d', i', hat', hslot⟩ := hw.kept hk'
      refine ⟨d', i', hframe.sameInner.leads hat', ?_⟩
      -- another address leads to another slot
      by_cases hd' : d' = d
      · subst hd'
        have hi : i' ≠ i := fun hi => hne (BitVec.eq_of_toNat_eq ((hi ▸ hat').addr_inj hat))
        rw [setNode_nodes_self, setSlot_slots_of_ne _ _ hi, hslot]
      · rw [setNode_nodes_of_ne _ _ hd', hslot]
  · rw [Store.blocked, isBlocked_congr (hframe.field root)]
    exact hw.unblocked

/-! ## A new node in the tree -/

theorem SameInner.of_outside (ht : A t = none) (c : NodeContent) : SameInner A s (s.setNode t c) where
  field {q v} hq := by
    rw [setNode_nodes_of_ne]
    rintro rfl
    rw [ht] at hq
    cases hq
  inner {q a L} hq _ := by
    rw [setNode_nodes_of_ne]
    rintro rfl
    rw [ht] at hq
    cases hq
  next := le_rfl

theorem Inv.setNode (hw : Inv A w) (ht : A t = none) (c : NodeContent) :
    Inv A { w with store := w.store.setNode t c } where
  shape := (SameInner.of_outside ht c).shape hw.shape
  kept {x k} hk := by
    obtain ⟨d, i, hat, hslot⟩ := hw.kept hk
    refine ⟨d, i, (SameInner.of_outside ht c).leads hat, ?_⟩
    obtain ⟨b, hd, -⟩ := hat.place
    rw [setNode_nodes_of_ne, hslot]
    rintro rfl
    rw [ht] at hd
    cases hd
  unblocked := by
    obtain ⟨L, hroot⟩ := hw.shape.top
    rw [Store.blocked, setNode_nodes_of_ne]
    · exact hw.unblocked
    · rintro rfl
      rw [ht] at hroot
      cases hroot
  untouched h := by
    obtain ⟨hkept, hslots⟩ := hw.untouched h
    refine ⟨hkept, fun a hroot i hi => ?_⟩
    rw [setNode_nodes_of_ne]
    · exact hslots a hroot i hi
    · rintro rfl
      rw [ht] at hroot
      cases hroot

/-- More nodes have places. -/
def Extends (A A' : Places) : Prop := ∀ q v, A q = some v → A' q = some v

variable {k : Key}

theorem Extends.child (h : Extends A A') (hc : Child A a L k) : Child A' a L k := by
  rcases hc with hc | ⟨q, g, M, hk, hq, hrest⟩
  · exact .inl hc
  · exact .inr ⟨q, g, M, hk, h q _ hq, hrest⟩

theorem extends_update (ht : A t = none) (v : ℕ × ℕ) : Extends A (update A t (some v)) := by
  intro q u hq
  rw [update_of_ne, hq]
  rintro rfl
  rw [ht] at hq
  cases hq

/-- The tree has grown below the root: every node is where it was. -/
structure Grown (A : Places) (s : Store) (A' : Places) (w' : World) : Prop where
  inv : Inv A' w'
  extend : Extends A A'
  live : ∀ {q}, Live s A q → Live w'.store A' q

namespace Grown

theorem leads (h : Grown A s A' w) (ha : At s A x d i) : At w.store A' x d i := by
  obtain ⟨b, hd, hx⟩ := ha.place
  exact ⟨h.live ha.live, ⟨b, h.extend d _ hd, hx⟩, ha.usable⟩

theorem reaches (h : Grown A s A' w) (ha : Reaches s A x) : Reaches w.store A' x := by
  obtain ⟨d, i, ha⟩ := ha
  exact ⟨d, i, h.leads ha⟩

theorem trans {A'' : Places} (h : Grown A s A' w) (h' : Grown A' w.store A'' w') :
    Grown A s A'' w' where
  inv := h'.inv
  extend q v hq := h'.extend q v (h.extend q v hq)
  live hq := h'.live (h.live hq)

theorem of_sameInner (hw : Inv A w) (h : SameInner A s w.store) : Grown A s A w where
  inv := hw
  extend _ _ := id
  live := h.live

end Grown

/-- A new node `t` is put into the slot `j` of an inner node. What was in the slot, is in a slot of the
new node. -/
theorem Inv.hang (hw : Inv A w) (hp : A p = some (a, L)) (h0 : 0 < L) (hj : p = root → j.val ≠ 31)
    (ht : A t = none) (hbought : root < t ∧ t < w.store.next)
    (hkeeper : (w.store.nodes t).hasKeeper = false) (hl2v : (w.store.nodes t).l2v = l2v5Shift M)
    (hM : M < L) (hrep : Representable g) (hdvd : span (M + 1) ∣ g) (hg : g + span (M + 1) ≤ span L)
    (hslots : 0 < M → ∀ i : Fin 32, Child A (a + j.val * span L + g + i.val * span M) M
      ((w.store.nodes t).slots i))
    (hold : ∀ q, objectOf ((w.store.nodes p).slots j) = some q →
      0 < M ∧ ∃ i, objectOf ((w.store.nodes t).slots i) = some q) :
    Grown A w.store (update A t (some (a + j.val * span L + g, M)))
      { w with store := w.store.setNode p ((w.store.nodes p).setSlot j (guarded t g)) } := by
  set A' := update A t (some (a + j.val * span L + g, M)) with hA'
  set s' := w.store.setNode p ((w.store.nodes p).setSlot j (guarded t g)) with hs'
  have hext : Extends A A' := extends_update ht _
  have htself : A' t = some (a + j.val * span L + g, M) := update_self _ _ _
  have htroot : t ≠ root := hbought.1.ne'
  have htp : t ≠ p := by
    rintro rfl
    rw [ht] at hp
    cases hp
  have hback : ∀ {q v}, A' q = some v → q = t ∨ A q = some v := fun {q v} hq => by
    by_cases hqt : q = t
    · exact .inl hqt
    · rw [hA', update_of_ne hqt] at hq
      exact .inr hq
  have hfield : ∀ q, (s'.nodes q).l2vField = (w.store.nodes q).l2vField := fun q => by
    by_cases hq : q = p
    · rw [hq, hs', setNode_nodes_self, setSlot_field]
    · rw [hs', setNode_nodes_of_ne _ _ hq]
  have hne : ∀ {q}, q ≠ p → s'.nodes q = w.store.nodes q := fun hq => setNode_nodes_of_ne _ _ hq
  have hroot : A' root = A root := update_of_ne htroot.symm _ _
  -- a way through the slot `j` goes through the new node now
  have hlive : ∀ {q}, Live w.store A q → Live s' A' q := fun {q} hq => by
    refine ReflTransGen.lift' id ?_ _ _ hq
    rintro p' q' ⟨b, N, hp', hN, i, hi, hk⟩
    show ReflTransGen (Edge s' A') p' q'
    by_cases hpi : p' = p ∧ i = j
    · obtain ⟨rfl, rfl⟩ := hpi
      obtain ⟨h0M, i', hk'⟩ := hold q' hk
      refine .tail (.single ⟨a, L, hext _ _ hp, h0, i, hi, ?_⟩)
        ⟨_, M, htself, h0M, i', fun h => absurd h htroot, ?_⟩
      · rw [hs', setNode_nodes_self, setSlot_slots_self, objectOf_guarded]
      · rw [hne htp]
        exact hk'
    · refine .single ⟨b, N, hext _ _ hp', hN, i, hi, ?_⟩
      by_cases hp'p : p' = p
      · subst hp'p
        rw [hs', setNode_nodes_self, setSlot_slots_of_ne _ _ fun h => hpi ⟨rfl, h⟩]
        exact hk
      · rw [hne hp'p]
        exact hk
  refine ⟨⟨⟨?_, ?_, ?_, ?_, ?_⟩, ?_, ?_, ?_⟩, hext, hlive⟩
  · rw [hroot]
    exact hw.shape.top
  · intro q b N hq
    rw [l2v_congr (hfield q)]
    rcases hback hq with rfl | hq'
    · rw [htself] at hq
      cases hq
      have := (hw.shape.level hp).2
      exact ⟨hl2v, by omega⟩
    · exact hw.shape.level hq'
  · intro q v hq
    rcases hback hq with rfl | hq'
    · exact ⟨hbought.1.le, hbought.2⟩
    · exact hw.shape.bought hq'
  · intro q v hq
    rw [hasKeeper_congr (hfield q)]
    rcases hback hq with rfl | hq'
    · rw [hkeeper]
      exact ⟨fun h => (Bool.false_ne_true h).elim, fun h => absurd h htroot⟩
    · exact hw.shape.keeper hq'
  · intro q b N hq hN i hi
    rcases hback hq with rfl | hq'
    · rw [htself] at hq
      cases hq
      rw [hne htp]
      exact hext.child (hslots hN i)
    · by_cases hqp : q = p
      · subst hqp
        rw [hp] at hq'
        cases hq'
        rw [hs', setNode_nodes_self]
        by_cases hij : i = j
        · rw [hij, setSlot_slots_self]
          exact .inr ⟨t, g, M, rfl, htself, htroot, hM, hrep, hdvd, hg⟩
        · rw [setSlot_slots_of_ne _ _ hij]
          exact hext.child (hw.shape.slots hp h0 i hi)
      · rw [hne hqp]
        exact hext.child (hw.shape.slots hq' hN i hi)
  · intro x k hk
    obtain ⟨d, i, hat, hslot⟩ := hw.kept hk
    obtain ⟨b, hd, hx⟩ := hat.place
    refine ⟨d, i, ⟨hlive hat.live, ⟨b, hext _ _ hd, hx⟩, hat.usable⟩, ?_⟩
    rw [hne, hslot]
    rintro rfl
    rw [hp] at hd
    cases hd
    exact absurd h0 (lt_irrefl 0)
  · rw [Store.blocked, isBlocked_congr (hfield root)]
    exact hw.unblocked
  · intro h
    obtain ⟨hkept, hvoid⟩ := hw.untouched h
    refine ⟨hkept, fun b hb i hi => ?_⟩
    rw [hroot] at hb
    rw [hne, hvoid b hb i hi]
    rintro rfl
    rw [hp] at hb
    cases hb
    exact absurd h0 (lt_irrefl 0)

/-! ## A higher root -/

theorem Child.raise {v : ℕ × ℕ} (h : Child A b M k) : Child (update A root (some v)) b M k := by
  rcases h with h | ⟨q, g, N, hk, hq, hne, hrest⟩
  · exact .inl h
  · exact .inr ⟨q, g, N, hk, by rw [update_of_ne hne]; exact hq, hne, hrest⟩

variable {N : ℕ}

theorem Inv.raise (hw : Inv A w) (s' : Store) (hroot : A root = some (0, L)) (hLN : L < N) (hN : N ≤ 6)
    (ht : A t = none) (hbought : root < t ∧ t < w.store.next)
    (hother : ∀ q, q ≠ root → q ≠ t → s'.nodes q = w.store.nodes q) (hnext : s'.next = w.store.next)
    (hslots : ∀ i : Fin 32, i.val ≠ 31 → (s'.nodes t).slots i = (w.store.nodes root).slots i)
    (hslot31 : ∀ i : Fin 32, i.val = 31 → (s'.nodes t).slots i = .void)
    (hl2v : (s'.nodes t).l2v = l2v5Shift L) (hkeeper : (s'.nodes t).hasKeeper = false)
    (hslot0 : (s'.nodes root).slots 0 = guarded t 0)
    (hvoid : ∀ i : Fin 32, i ≠ 0 → i.val ≠ 31 → (s'.nodes root).slots i = .void)
    (hrootL2v : (s'.nodes root).l2v = l2v5Shift N) (hrootKeeper : (s'.nodes root).hasKeeper = true)
    (hunblocked : s'.blocked = false) :
    ∃ A', Inv A' { w with store := s' } ∧ A' root = some (0, N) ∧
      ∀ x, Reaches w.store A x → Reaches s' A' x := by
  set A' := update (update A root (some (0, N))) t (some (0, L)) with hA'
  have htroot : t ≠ root := hbought.1.ne'
  have htself : A' t = some (0, L) := update_self _ _ _
  have hrself : A' root = some (0, N) := by
    rw [hA', update_of_ne htroot.symm, update_self]
  have hsame : ∀ {q}, q ≠ root → q ≠ t → A' q = A q := fun hr hq => by
    rw [hA', update_of_ne hq, update_of_ne hr]
  have hplaced : ∀ {q v}, A q = some v → q ≠ t := fun {q v} hq h => by
    rw [h, ht] at hq
    cases hq
  have hchild : ∀ {b M k}, Child A b M k → Child A' b M k := fun hc =>
    (extends_update (by rw [update_of_ne htroot, ht]) (0, L)).child (hc.raise (v := (0, N)))
  have hshape : Shape s' A' := by
    refine ⟨⟨N, hrself⟩, ?_, ?_, ?_, ?_⟩ <;> intro q
    · intro b M hq
      by_cases hqr : q = root
      · rw [hqr, hrself] at hq
        cases hq
        exact ⟨hqr ▸ hrootL2v, hN⟩
      by_cases hqt : q = t
      · rw [hqt, htself] at hq
        cases hq
        exact ⟨hqt ▸ hl2v, by omega⟩
      · rw [hother q hqr hqt]
        rw [hsame hqr hqt] at hq
        exact hw.shape.level hq
    · intro v hq
      rw [hnext]
      by_cases hqr : q = root
      · rw [hqr]
        exact hw.shape.bought hroot
      by_cases hqt : q = t
      · rw [hqt]
        exact ⟨hbought.1.le, hbought.2⟩
      · rw [hsame hqr hqt] at hq
        exact hw.shape.bought hq
    · intro v hq
      by_cases hqr : q = root
      · rw [hqr, hrootKeeper]
        exact ⟨fun _ => rfl, fun _ => rfl⟩
      by_cases hqt : q = t
      · rw [hqt, hkeeper]
        exact ⟨fun h => (Bool.false_ne_true h).elim, fun h => absurd h htroot⟩
      · rw [hother q hqr hqt]
        rw [hsame hqr hqt] at hq
        exact hw.shape.keeper hq
    · intro b M hq hM i hi
      by_cases hqr : q = root
      · subst hqr
        rw [hrself] at hq
        cases hq
        by_cases hi0 : i = 0
        · subst hi0
          rw [hslot0]
          refine .inr ⟨t, 0, L, rfl, ?_, htroot, hLN, representable_zero, Nat.dvd_zero _, ?_⟩
          · rw [htself]
            simp
          · rw [Nat.zero_add]
            exact span_le hLN
        · exact .inl (hvoid i hi0 (hi rfl))
      by_cases hqt : q = t
      · subst hqt
        rw [htself] at hq
        cases hq
        by_cases hi31 : i.val = 31
        · exact .inl (hslot31 i hi31)
        · rw [hslots i hi31]
          exact hchild (hw.shape.slots hroot hM i fun _ => hi31)
      · rw [hother q hqr hqt]
        rw [hsame hqr hqt] at hq
        exact hchild (hw.shape.slots hq hM i hi)
  -- the new node is in the place that the root had
  let f : ℕ → ℕ := fun q => if q = root then t else q
  have hft : f root = t := if_pos rfl
  have hfplaced : ∀ {q v}, A q = some v → A' (f q) = some v := fun {q v} hq => by
    by_cases hqr : q = root
    · rw [hqr, hroot] at hq
      rw [hqr, hft, htself, hq]
    · simp only [f, if_neg hqr, hsame hqr (hplaced hq), hq]
  have hfslots : ∀ {q v}, A q = some v → ∀ {i : Fin 32}, (q = root → i.val ≠ 31) →
      (s'.nodes (f q)).slots i = (w.store.nodes q).slots i := fun {q v} hq {i} hi => by
    by_cases hqr : q = root
    · rw [hqr, hft, hslots i (hi hqr)]
    · simp only [f, if_neg hqr, hother q hqr (hplaced hq)]
  have hfroot : ∀ {q}, f q ≠ root := fun {q} hq => by
    by_cases hqr : q = root
    · rw [hqr, hft] at hq
      exact htroot hq
    · simp only [f, if_neg hqr] at hq
      exact hqr hq
  have hlive : ∀ {q}, Live w.store A q → Live s' A' (f q) := fun {q} hq => by
    have hstep : Edge s' A' root t := by
      refine ⟨0, N, hrself, by omega, 0, fun _ => by decide, ?_⟩
      rw [hslot0, objectOf_guarded]
    have hrest := ReflTransGen.lift f (p := Edge s' A') (fun p' q' hedge => by
      obtain ⟨b, M, hp', hM, i, hi, hk⟩ := hedge
      obtain ⟨-, -, -, -, hq', -⟩ := hw.shape.child hp' hM hi hk
      refine ⟨b, M, hfplaced hp', hM, i, fun h => absurd h hfroot, ?_⟩
      rw [hfslots hp' hi, hk]
      simp only [f, if_neg hq']) _ _ hq
    exact hrest.head hstep
  have hleads : ∀ {x d i}, At w.store A x d i → At s' A' x (f d) i := fun {x d i} hat => by
    obtain ⟨b, hd, hx⟩ := hat.place
    exact ⟨hlive hat.live, ⟨b, hfplaced hd, hx⟩, fun h => absurd h hfroot⟩
  refine ⟨A', ⟨hshape, ?_, hunblocked, ?_⟩, hrself, ?_⟩
  · intro x k hk
    obtain ⟨d, i, hat, hslot⟩ := hw.kept hk
    obtain ⟨b, hd, -⟩ := hat.place
    exact ⟨f d, i, hleads hat, (hfslots hd hat.usable).trans hslot⟩
  · intro h
    refine ⟨(hw.untouched h).1, fun a ha => ?_⟩
    rw [hrself] at ha
    cases ha
    exact absurd hLN (Nat.not_lt_zero L)
  · rintro x ⟨d, i, hat⟩
    exact ⟨f d, i, hleads hat⟩

theorem Inv.raiseEmpty (hw : Inv A w) (s' : Store) (hroot : A root = some (0, L)) (h0 : 0 < N) (hN : N ≤ 6)
    (hkept : ∀ x, w.kept x = none) (hother : ∀ q, q ≠ root → s'.nodes q = w.store.nodes q)
    (hnext : s'.next = w.store.next)
    (hvoid : ∀ i : Fin 32, i.val ≠ 31 → (s'.nodes root).slots i = .void)
    (hl2v : (s'.nodes root).l2v = l2v5Shift N) (hkeeper : (s'.nodes root).hasKeeper = true)
    (hunblocked : s'.blocked = false) :
    Inv (update A root (some (0, N))) { w with store := s' } where
  shape := by
    have hrself : update A root (some (0, N)) root = some (0, N) := update_self _ _ _
    have hsame : ∀ {q}, q ≠ root → update A root (some (0, N)) q = A q := fun hq =>
      update_of_ne hq _ _
    refine ⟨⟨N, hrself⟩, ?_, ?_, ?_, ?_⟩ <;> intro q
    · intro b M hq
      by_cases hqr : q = root
      · rw [hqr, hrself] at hq
        cases hq
        exact ⟨hqr ▸ hl2v, hN⟩
      · rw [hother q hqr]
        rw [hsame hqr] at hq
        exact hw.shape.level hq
    · intro v hq
      rw [hnext]
      by_cases hqr : q = root
      · rw [hqr]
        exact hw.shape.bought hroot
      · rw [hsame hqr] at hq
        exact hw.shape.bought hq
    · intro v hq
      by_cases hqr : q = root
      · rw [hqr, hkeeper]
        exact ⟨fun _ => rfl, fun _ => rfl⟩
      · rw [hother q hqr]
        rw [hsame hqr] at hq
        exact hw.shape.keeper hq
    · intro b M hq hM i hi
      by_cases hqr : q = root
      · subst hqr
        exact .inl (hvoid i (hi rfl))
      · rw [hother q hqr]
        rw [hsame hqr] at hq
        exact (hw.shape.slots hq hM i hi).raise
  kept {x k} hk := by
    rw [hkept x] at hk
    cases hk
  unblocked := hunblocked
  untouched _ := by
    refine ⟨hkept, fun a ha => ?_⟩
    rw [update_self] at ha
    cases ha
    exact absurd h0 (lt_irrefl 0)

end CapROS.SuperNode
