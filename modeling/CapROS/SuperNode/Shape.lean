import CapROS.SuperNode.Guard

/-!
# The shape of the tree

Each node of the tree has a place: the first address under it and its level. The places are not in
the code. A node stays at its place, except that the root gets a higher level when the tree grows.
-/

namespace CapROS.SuperNode

open NodeKey Relation

/-- The first address under each node of the tree, and its level. -/
abbrev Places := ℕ → Option (ℕ × ℕ)

/-- What a slot may hold in a node of the level `L`, if `base` is the first address under the slot. -/
def Child (A : Places) (base L : ℕ) (k : Key) : Prop :=
  k = .void ∨ ∃ q g M, k = guarded q g ∧ A q = some (base + g, M) ∧ q ≠ root ∧ M < L ∧
    Representable g ∧ span (M + 1) ∣ g ∧ g + span (M + 1) ≤ span L

/-- The keys in the nodes of the tree agree with the places. -/
structure Shape (s : Store) (A : Places) : Prop where
  top : ∃ L, A root = some (0, L)
  level : ∀ {q a L}, A q = some (a, L) → (s.nodes q).l2v = l2v5Shift L ∧ L ≤ 6
  bought : ∀ {q v}, A q = some v → root ≤ q ∧ q < s.next
  keeper : ∀ {q v}, A q = some v → ((s.nodes q).hasKeeper = true ↔ q = root)
  slots : ∀ {q a L}, A q = some (a, L) → 0 < L → ∀ i : Fin 32, (q = root → i.val ≠ 31) →
    Child A (a + i.val * span L) L ((s.nodes q).slots i)

/-- A node of the tree has a key to another. -/
def Edge (s : Store) (A : Places) (p q : ℕ) : Prop :=
  ∃ a L, A p = some (a, L) ∧ 0 < L ∧ ∃ i : Fin 32, (p = root → i.val ≠ 31) ∧
    objectOf ((s.nodes p).slots i) = some q

/-- The root leads to the node. -/
def Live (s : Store) (A : Places) (q : ℕ) : Prop := ReflTransGen (Edge s A) root q

/-- The address leads to a slot of the leaf `d`. -/
structure At (s : Store) (A : Places) (x d : ℕ) (i : Fin 32) : Prop where
  live : Live s A d
  place : ∃ b, A d = some (b, 0) ∧ x = b + i.val
  usable : d = root → i.val ≠ 31

variable {s s' : Store} {A : Places} {p q d x a b L M g : ℕ} {i j : Fin 32}

theorem objectOf_guarded (q g : ℕ) : objectOf (guarded q g) = some q := (leadsTo_guarded q g).objectOf

namespace Shape

theorem lt_pow (hs : Shape s A) (h : A q = some (a, L)) : span L ≤ 2 ^ 30 := by
  have hL := (hs.level h).2
  exact span_le_pow (show L * 5 ≤ 30 by omega)

theorem child (hs : Shape s A) (h : A p = some (a, L)) (h0 : 0 < L) (hi : p = root → i.val ≠ 31)
    (hk : objectOf ((s.nodes p).slots i) = some q) :
    ∃ g M, (s.nodes p).slots i = guarded q g ∧ A q = some (a + i.val * span L + g, M) ∧ q ≠ root ∧
      M < L ∧ Representable g ∧ span (M + 1) ∣ g ∧ g + span (M + 1) ≤ span L := by
  rcases hs.slots h h0 i hi with hvoid | ⟨q', g, M, hk', hrest⟩
  · rw [hvoid] at hk
    cases hk
  · rw [hk', objectOf_guarded] at hk
    obtain rfl := Option.some.inj hk
    exact ⟨g, M, hk', hrest⟩

theorem within (hs : Shape s A) (hpath : ReflTransGen (Edge s A) p q) (hp : A p = some (a, L)) :
    ∃ b M, A q = some (b, M) ∧ a ≤ b ∧ b + span (M + 1) ≤ a + span (L + 1) ∧ M ≤ L := by
  induction hpath with
  | refl => exact ⟨a, L, hp, le_rfl, le_rfl, le_rfl⟩
  | tail _ hedge ih =>
    obtain ⟨b, M, hq, hab, hb, hML⟩ := ih
    obtain ⟨b', M', hq', h0, i, hi, hk⟩ := hedge
    rw [hq] at hq'
    cases hq'
    obtain ⟨g, M', -, hr, -, hM', -, -, hg⟩ := hs.child hq h0 hi hk
    refine ⟨_, M', hr, by omega, ?_, by omega⟩
    have hmul : i.val * span M + span M ≤ span (M + 1) := by
      rw [← Nat.succ_mul, span_succ]
      exact Nat.mul_le_mul_right _ i.isLt
    omega

end Shape

theorem At.addr_inj {y : ℕ} (hx : At s A x d i) (hy : At s A y d i) : x = y := by
  obtain ⟨b, hb, rfl⟩ := hx.place
  obtain ⟨b', hb', rfl⟩ := hy.place
  rw [hb] at hb'
  cases hb'
  rfl

/-! ## The walk of the kernel -/

section Walk

variable {nodes : ℕ → Node} {write : Bool} {n cur : ℕ} {k : Key} {addr y : BitVec 32}
  {restrictions : BitVec 5}

/-- The nodes as the walk sees them. -/
abbrev Store.view (s : Store) : ℕ → Node := fun oid => ⟨s.nodes oid, true, false⟩

theorem walkFrom_node (hk : checkGuard k addr = some y) (ho : objectOf k = some p)
    (hr : (restrictions ||| k.keyPerms) &&& nodeReadOnly = 0) (hl : (nodes p).content.l2v < cur) :
    walkFrom nodes write (n + 1) k addr restrictions cur =
      match slotAt (nodes p).content y with
      | none => .fault .noAddr
      | some slot =>
          if (nodes p).content.l2v = 0 then .found p slot
          else if ((nodes p).content.slots slot).isType .node then
            walkFrom nodes write n ((nodes p).content.slots slot)
              (y &&& (BitVec.ofNat 32 (2 ^ (nodes p).content.l2v) - 1)) (restrictions ||| k.keyPerms)
              (nodes p).content.l2v
          else .fault .noAddr := by
  rw [walkFrom, hk]
  simp only [hr, ho]
  rw [if_neg fun h => h.2 rfl]
  exact if_neg (by omega)

theorem slotAt_eq {c : NodeContent} (hl : c.l2v = l2v5Shift L) :
    slotAt c y = if h : y.toNat / span L < 32 then
      if c.hasKeeper = true ∧ y.toNat / span L = 31 then none else some ⟨_, h⟩ else none := by
  have hndx : (y >>> c.l2v).toNat = y.toNat / span L := by
    rw [BitVec.toNat_ushiftRight, Nat.shiftRight_eq_div_pow, hl, span]
  simp only [slotAt, hndx]

theorem toNat_rest (hL : L ≤ 6) :
    (y &&& (BitVec.ofNat 32 (2 ^ l2v5Shift L) - 1)).toNat = y.toNat % span L := by
  have hpow : 2 ^ l2v5Shift L ≤ 2 ^ 30 :=
    Nat.pow_le_pow_right (by decide) (show L * 5 ≤ 30 by omega)
  have hpos := Nat.two_pow_pos (l2v5Shift L)
  have hsub : (BitVec.ofNat 32 (2 ^ l2v5Shift L) - 1).toNat = 2 ^ l2v5Shift L - 1 := by
    rw [BitVec.toNat_sub_of_le]
    · rw [BitVec.toNat_ofNat, Nat.mod_eq_of_lt (by omega)]
      rfl
    · rw [BitVec.le_def, BitVec.toNat_ofNat, Nat.mod_eq_of_lt (by omega)]
      exact hpos
  rw [BitVec.toNat_and, hsub, Nat.and_two_pow_sub_one_eq_mod, span]

theorem walkFrom_of_guard (hk : checkGuard k addr = none) :
    walkFrom nodes write (n + 1) k addr restrictions cur = .fault .noAddr := by
  rw [walkFrom, hk]

theorem at_of_walkFrom (hs : Shape s A) (hp : A p = some (a, L)) (hlive : Live s A p)
    (hk : checkGuard k addr = some y) (ho : objectOf k = some p)
    (hr : (restrictions ||| k.keyPerms) &&& nodeReadOnly = 0) (hl : l2v5Shift L < cur)
    (h : walkFrom s.view write n k addr restrictions cur = .found d i) :
    At s A (a + y.toNat) d i := by
  induction n generalizing p a L k addr y restrictions cur with
  | zero => cases h
  | succ n ih =>
    obtain ⟨hl2v, hL⟩ := hs.level hp
    rw [walkFrom_node hk ho hr (by rw [hl2v]; exact hl), slotAt_eq hl2v] at h
    by_cases hlt : y.toNat / span L < 32
    swap
    · rw [dif_neg hlt] at h
      cases h
    by_cases hkeeper : (s.nodes p).hasKeeper = true ∧ y.toNat / span L = 31
    · rw [dif_pos hlt, if_pos hkeeper] at h
      cases h
    have hroot : p = root → y.toNat / span L ≠ 31 := fun hp' h31 =>
      hkeeper ⟨(hs.keeper hp).2 hp', h31⟩
    rw [dif_pos hlt, if_neg hkeeper] at h
    simp only [hl2v] at h
    rcases Nat.eq_zero_or_pos L with rfl | h0
    · -- a leaf
      cases h
      refine ⟨hlive, ⟨a, hp, ?_⟩, hroot⟩
      simp only [span_zero, Nat.div_one]
    · rw [if_neg (show l2v5Shift L ≠ 0 by rw [l2v5Shift, l2nSlots]; omega)] at h
      rcases hs.slots hp h0 ⟨_, hlt⟩ hroot with hvoid | ⟨q, g, M, hkq, hq, -, hM, hrep, -, hg⟩
      · rw [hvoid] at h
        cases h
      · have hpos := span_pos (M + 1)
        have h30 := hs.lt_pow hp
        have hlive' : Live s A q := by
          refine hlive.tail ⟨a, L, hp, h0, ⟨_, hlt⟩, hroot, ?_⟩
          rw [hkq, objectOf_guarded]
        have hcheck := checkGuard_guarded q hrep (by omega)
          (y &&& (BitVec.ofNat 32 (2 ^ l2v5Shift L) - 1))
        rw [hkq, (leadsTo_guarded q g).isType, if_pos rfl] at h
        rw [toNat_rest hL] at hcheck
        by_cases hguard : y.toNat % span L < g
        · rw [if_pos hguard] at hcheck
          cases n with
          | zero => cases h
          | succ n =>
            rw [walkFrom_of_guard hcheck] at h
            cases h
        · rw [if_neg hguard] at hcheck
          have hat := ih hq hlive' hcheck (objectOf_guarded q g)
            (by rw [(leadsTo_guarded q g).keyPerms, BitVec.or_zero]; exact hr)
            (Nat.mul_lt_mul_of_pos_right hM (by decide)) h
          have hdiv := Nat.div_add_mod' y.toNat (span L)
          rw [BitVec.toNat_ofNat, Nat.mod_eq_of_lt (by omega)] at hat
          convert hat using 1
          simp only
          omega

theorem walkFrom_of_path (hs : Shape s A) (hpath : ReflTransGen (Edge s A) p d)
    (hp : A p = some (a, L)) (hd : A d = some (b, 0)) (hx : a + y.toNat = b + i.val)
    (hu : d = root → i.val ≠ 31) (hk : checkGuard k addr = some y) (ho : objectOf k = some p)
    (hr : (restrictions ||| k.keyPerms) &&& nodeReadOnly = 0) (hl : l2v5Shift L < cur) (hn : L < n) :
    walkFrom s.view write n k addr restrictions cur = .found d i := by
  induction hpath using ReflTransGen.head_induction_on generalizing a L k addr y restrictions cur n with
  | refl =>
    rw [hp] at hd
    cases hd
    obtain ⟨n, rfl⟩ := Nat.exists_eq_succ_of_ne_zero (Nat.ne_zero_of_lt hn)
    obtain ⟨hl2v, -⟩ := hs.level hp
    have hy : y.toNat = i.val := by omega
    have hkeeper : ¬((s.nodes d).hasKeeper = true ∧ y.toNat / span 0 = 31) := fun h =>
      hu ((hs.keeper hp).1 h.1) (by rw [← hy, ← h.2, span_zero, Nat.div_one])
    rw [walkFrom_node hk ho hr (by rw [hl2v]; exact hl), slotAt_eq hl2v,
      dif_pos (by rw [span_zero, Nat.div_one, hy]; exact i.isLt), if_neg hkeeper]
    simp only [hl2v, span_zero, Nat.div_one, hy]
    rfl
  | @head p q hedge hpath ih =>
    obtain ⟨n, rfl⟩ := Nat.exists_eq_succ_of_ne_zero (Nat.ne_zero_of_lt hn)
    obtain ⟨a', L', hp', h0, j, hj, hkq⟩ := hedge
    rw [hp] at hp'
    cases hp'
    obtain ⟨hl2v, hL⟩ := hs.level hp
    obtain ⟨g, M, hkey, hq, -, hM, hrep, -, hg⟩ := hs.child hp h0 hj hkq
    -- the leaf is within the slot `j`
    obtain ⟨b', M', hd', hlow, hup, -⟩ := hs.within hpath hq
    rw [hd] at hd'
    cases hd'
    have h32 : span (0 + 1) = 32 := rfl
    have hrange : j.val * span L ≤ y.toNat ∧ y.toNat < (j.val + 1) * span L := by
      rw [Nat.succ_mul]
      omega
    have hdiv : y.toNat / span L = j.val := Nat.div_eq_of_lt_le hrange.1 hrange.2
    have hkeeper : ¬(_ = true ∧ y.toNat / span L = 31) := fun h =>
      hj ((hs.keeper hp).1 h.1) (by rw [← h.2, hdiv])
    have hmod : y.toNat % span L = y.toNat - j.val * span L := by
      rw [← hdiv, Nat.mod_eq_sub_div_mul]
    have hcheck := checkGuard_guarded q hrep (by omega)
      (y &&& (BitVec.ofNat 32 (2 ^ l2v5Shift L) - 1))
    rw [toNat_rest hL, hmod, if_neg (by omega), ← hkey] at hcheck
    rw [walkFrom_node hk ho hr (by rw [hl2v]; exact hl), slotAt_eq hl2v,
      dif_pos (by rw [hdiv]; exact j.isLt), if_neg hkeeper]
    have hslot : (⟨y.toNat / span L, by rw [hdiv]; exact j.isLt⟩ : Fin 32) = j := Fin.ext hdiv
    simp only [hl2v, hslot]
    rw [if_neg (show l2v5Shift L ≠ 0 by rw [l2v5Shift, l2nSlots]; omega), if_pos (by
      rw [hkey, (leadsTo_guarded _ g).isType])]
    refine ih hq ?_ hcheck hkq ?_ (Nat.mul_lt_mul_of_pos_right hM (by decide)) (by omega)
    · rw [BitVec.toNat_ofNat, Nat.mod_eq_of_lt (by have := y.isLt; omega)]
      omega
    · rw [hkey, (leadsTo_guarded _ g).keyPerms, BitVec.or_zero]
      exact hr

end Walk

/-- The keys with which the operations of clients are done: their own, and that of the keeper. -/
def RootKey (k : Key) : Prop := k = clientKey ∨ k = krTree

theorem clientWalk_found_iff (hs : Shape s A) {k : Key} (hk : RootKey k) (write : Bool)
    (addr : BitVec 32) : clientWalk k write addr s = .found d i ↔ At s A addr.toNat d i := by
  obtain ⟨L, hroot⟩ := hs.top
  have hL := (hs.level hroot).2
  have hcheck : checkGuard k addr = some addr := by
    rcases hk with rfl | rfl <;>
      simp [checkGuard, clientKey, krTree, keyTo, Key.restrict, Key.l2g, Key.guard]
  have ho : objectOf k = some root := by rcases hk with rfl | rfl <;> rfl
  have hr : (0 ||| k.keyPerms) &&& nodeReadOnly = 0 := by rcases hk with rfl | rfl <;> decide
  have hl : l2v5Shift L < 64 := by
    rw [l2v5Shift, l2nSlots]
    omega
  constructor
  · intro h
    have hat := at_of_walkFrom hs hroot .refl hcheck ho hr hl h
    rwa [Nat.zero_add] at hat
  · rintro ⟨hlive, ⟨b, hd, hx⟩, hu⟩
    exact walkFrom_of_path hs hlive hroot hd (by omega) hu hcheck ho hr hl (by omega)

end CapROS.SuperNode
