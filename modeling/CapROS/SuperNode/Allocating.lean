import CapROS.SuperNode.Changes

/-!
# Allocating a range

The procedures of the keeper, among clients that swap keys at the same time. What the clients can do
before each call of the keeper is a relation, of which these proofs use `Others` only.

* `growRoot_safe`, `growEmpty_safe`: the tree grows in height.
-/

namespace CapROS.SuperNode

open NodeKey Relation Calls

/-- The calls, with what clients have done. -/
def execW : Service Request Answer World := fun o w =>
  ((exec o w.store).1, { w with store := (exec o w.store).2 })

/-- While the root is not blocked, clients find what they have stored. -/
def Visible (_ : Request) (w : World) : Prop := w.store.blocked = false → ∃ A, Inv A w

/-- What clients may do before a call, and what is claimed to hold before each call. -/
structure Others (env : Request → World → World → Prop) (vis : Request → World → Prop) : Prop where
  keeps : ∀ {o w w' A}, env o w w' → Inv A w → Inv A w' ∧ Frame A w.store w'.store
  blocked : ∀ {o w w'}, env o w w' → w.store.blocked = true → w' = w
  /-- Clients do not store keys in a root that has been cloned, nor in one that gets a new level. -/
  beforeBlock : ∀ {w w'}, env (.setBlocked krTree) w w' → (w.store.nodes root).l2v = 0 → w' = w
  beforeLevel : ∀ {v w w'}, env (.setL2v krTree v) w w' → (w.store.nodes root).l2v = 0 → w' = w
  visible : ∀ {o w}, Visible o w → vis o w

/-! ## Calls -/

theorem withNode_leadsTo {k : Key} {q : ℕ} (h : LeadsTo k q) (s : Store) (f : ℕ → Answer × Store) :
    withNode k s f = f q := by
  simp only [withNode, h.objectOf, h.isType, if_true]

section Exec

variable {k : Key} {q : ℕ} (h : LeadsTo k q) (s : Store)
include h

theorem exec_getSlot {i : ℕ} (hi : i < 32) :
    exec (.getSlot k i) s = ({ key := (s.nodes q).slots ⟨i, hi⟩ }, s) := by
  rw [exec, withNode_leadsTo h, withSlot, dif_pos hi]

theorem exec_swapSlot {i : ℕ} (hi : i < 32) (k' : Key) : exec (.swapSlot k i k') s =
    ({ key := (s.nodes q).slots ⟨i, hi⟩ }, s.setNode q ((s.nodes q).setSlot ⟨i, hi⟩ k')) := by
  rw [exec, withNode_leadsTo h, withSlot, dif_pos hi]

theorem exec_getL2v : exec (.getL2v k) s = ({ w1 := (s.nodes q).l2v }, s) := by
  rw [exec, withNode_leadsTo h]

theorem exec_setL2v {v : ℕ} (hv : v < 32) :
    exec (.setL2v k v) s = ({}, s.setNode q ((s.nodes q).setL2v v)) := by
  rw [exec, withNode_leadsTo h, if_pos hv]

theorem exec_getGuard : exec (.getGuard k) s = ({ w1 := getGuard k }, s) := by
  rw [exec, withNode_leadsTo h]

theorem exec_makeGuarded {g : ℕ} (hg : Representable g) (hlt : g < 2 ^ 32) :
    exec (.makeGuarded k g) s = ({ key := guarded q g }, s) := by
  obtain ⟨gd, l, hcalc, -⟩ := calcGuard_isSome hg hlt
  rw [exec, withNode_leadsTo h, hcalc]
  simp only
  rw [h.setGuardData hcalc]

end Exec

variable {env : Request → World → World → Prop} {vis : Request → World → Prop} {α β : Type} {post : α → World → Prop}
  {s : Store} {w w' : World} {A : Places} {p q t a b L M N g : ℕ} {o : Request} {k : Key}
  {c : NodeContent} {first last regs j sf sl : ℕ}

theorem expectOk_bind (o : Request) (f : Answer → Program β) :
    (expectOk o >>= f) = call o fun a => if a.code = rcOk then f a else stop := by
  rw [expectOk]
  simp only [ask_bind, call_bind, pure_eq]
  congr 1
  funext a
  by_cases h : a.code = rcOk
  · rw [check_pos h, if_pos h]
    rfl
  · rw [check, if_neg h, if_neg h]
    rfl

/-- A program among the clients. -/
abbrev Among (env : Request → World → World → Prop) (vis : Request → World → Prop)
    (post : α → World → Prop) (p : Program α) (w : World) : Prop := Safe execW env vis post p w

theorem among_call {next : Answer → Program α} (P : World → Prop) (hP : ∀ w', env o w w' → P w')
    (hvisible : ∀ w', P w' → vis o w')
    (hnext : ∀ w', P w' → Among env vis post (next (exec o w'.store).1)
      { w' with store := (exec o w'.store).2 }) : Among env vis post (call o next) w :=
  fun w' hw => ⟨hvisible w' (hP w' hw), hnext w' (hP w' hw)⟩

theorem among_expectOk {f : Answer → Program α} (P : World → Prop) (hP : ∀ w', env o w w' → P w')
    (hvisible : ∀ w', P w' → vis o w') (hcode : ∀ w', P w' → (exec o w'.store).1.code = rcOk)
    (hnext : ∀ w', P w' → Among env vis post (f (exec o w'.store).1)
      { w' with store := (exec o w'.store).2 }) : Among env vis post (expectOk o >>= f) w := by
  rw [expectOk_bind]
  refine among_call P hP hvisible fun w' hw' => ?_
  rw [if_pos (hcode w' hw')]
  exact hnext w' hw'

/-! ## A node outside the tree -/

theorem SameInner.trans {s s' s'' : Store} (h : SameInner A s s') (h' : SameInner A s' s'') :
    SameInner A s s'' where
  field hq := (h'.field hq).trans (h.field hq)
  inner hq h0 := (h'.inner hq h0).trans (h.inner hq h0)
  next := h.next.trans h'.next

theorem SameInner.refl (A : Places) (s : Store) : SameInner A s s := ⟨fun _ => rfl, fun _ _ => rfl, le_rfl⟩

/-- The tree has the inner nodes that it had in `s`. -/
structure Old (A : Places) (s : Store) (w : World) : Prop where
  inv : Inv A w
  same : SameInner A s w.store

/-- And the node `t` is outside the tree and contains `c`. -/
structure Fresh (A : Places) (s : Store) (t : ℕ) (c : NodeContent) (w : World) : Prop
    extends Old A s w where
  outside : A t = none
  bought : root < t ∧ t < w.store.next
  content : w.store.nodes t = c

theorem Old.visible (h : Old A s w) (he : Others env vis) (o : Request) : vis o w :=
  he.visible fun _ => ⟨A, h.inv⟩

theorem Old.others (he : Others env vis) (h : Old A s w) (hw : env o w w') : Old A s w' := by
  obtain ⟨hinv, hframe⟩ := he.keeps hw h.inv
  exact ⟨hinv, h.same.trans hframe.sameInner⟩

theorem Fresh.others (he : Others env vis) (h : Fresh A s t c w) (hw : env o w w') : Fresh A s t c w' := by
  obtain ⟨-, hframe⟩ := he.keeps hw h.inv
  refine ⟨h.toOld.others he hw, h.outside, ?_, ?_⟩
  · rw [hframe.next]
    exact h.bought
  · rw [hframe.nodes fun a ha => ?_, h.content]
    rw [h.outside] at ha
    cases ha

theorem Fresh.setNode (h : Fresh A s t c w) (c' : NodeContent) :
    Fresh A s t c' { w with store := w.store.setNode t c' } where
  inv := h.inv.setNode h.outside c'
  same := h.same.trans (.of_outside h.outside c')
  outside := h.outside
  bought := h.bought
  content := setNode_nodes_self _ _ _

theorem Old.bank {s' : Store} (h : Old A s w) (hnodes : s'.nodes = w.store.nodes)
    (hnext : w.store.next ≤ s'.next) : Old A s { w with store := s' } := by
  have hsame : SameInner A w.store s' :=
    ⟨fun _ => by rw [hnodes], fun _ _ => by rw [hnodes], hnext⟩
  refine ⟨⟨hsame.shape h.inv.shape, ?_, ?_, ?_⟩, h.same.trans hsame⟩
  · intro x k hk
    obtain ⟨d, i, hat, hslot⟩ := h.inv.kept hk
    exact ⟨d, i, hsame.leads hat, by rw [hnodes, hslot]⟩
  · rw [Store.blocked, hnodes]
    exact h.inv.unblocked
  · rw [hnodes]
    exact h.inv.untouched

theorem exec_alloc1 (h : Old A s w) :
    ((exec .alloc1 w.store).1.code ≠ rcOk ∧ Old A s { w with store := (exec .alloc1 w.store).2 }) ∨
      ((exec .alloc1 w.store).1 = { key := keyTo w.store.next } ∧
        Fresh A s w.store.next emptyNode { w with store := (exec .alloc1 w.store).2 }) := by
  have hnext : A w.store.next = none := by
    by_contra hne
    obtain ⟨v, hv⟩ := Option.ne_none_iff_exists'.1 hne
    exact absurd (h.inv.shape.bought hv).2 (lt_irrefl _)
  have hroot : root < w.store.next := by
    obtain ⟨L, hroot⟩ := h.inv.shape.top
    exact (h.inv.shape.bought hroot).2
  rw [exec]
  split
  · right
    have hset : Old A s { w with store := w.store.setNode w.store.next emptyNode } :=
      ⟨h.inv.setNode hnext emptyNode, h.same.trans (.of_outside hnext emptyNode)⟩
    refine ⟨rfl, ⟨hset.bank rfl (Nat.le_succ w.store.next), hnext, ⟨hroot, Nat.lt_succ_self _⟩, ?_⟩⟩
    exact setNode_nodes_self w.store w.store.next emptyNode
  · left
    exact ⟨fun hcode => (by cases hcode), h.bank rfl le_rfl⟩

theorem among_alloc1 (he : Others env vis) {next : Answer → Program α} (h : Old A s w)
    (hfail : ∀ (r : Result) w', r ≠ rcOk → Old A s w' →
      ∀ a : Answer, a.code = r → Among env vis post (next a) w')
    (hsold : ∀ t w', Fresh A s t emptyNode w' → Among env vis post (next { key := keyTo t }) w') :
    Among env vis post (call .alloc1 next) w := by
  refine among_call (Old A s) (fun w' hw' => h.others he hw') (fun w' h' => h'.visible he _)
    fun w' h' => ?_
  rcases exec_alloc1 h' with ⟨hcode, hold⟩ | ⟨hanswer, hfresh⟩
  · exact hfail _ _ hcode hold _ rfl
  · rw [hanswer]
    exact hsold _ _ hfresh

/-! ## The procedures -/

theorem guardFor_safe (he : Others env vis) {fuel : ℕ} (h : Fresh A s t c w) (hL : L ≤ 6) (hle : sf ≤ sl)
    (hsl : sl < span L) (hM : M < L) (hrange : sf / span (M + 1) = sl / span (M + 1))
    (hfuel : L ≤ M + fuel) :
    Among env vis (fun r w' => Fresh A s t c w' ∧ ∃ N, r = (guarded t (floor2 sf (l2v5Shift (N + 1))), N,
        floor2 sf (l2v5Shift (N + 1))) ∧ N < L ∧ Representable (floor2 sf (l2v5Shift (N + 1))) ∧
          sf / span (N + 1) = sl / span (N + 1))
      (guardFor (keyTo t) sf fuel M) w := by
  induction fuel generalizing M w with
  | zero => omega
  | succ fuel ih =>
    have h30 : span L ≤ 2 ^ 30 := span_le_pow (show L * 5 ≤ 30 by omega)
    have hlow := floor2_le sf (l2v5Shift (M + 1))
    rw [guardFor]
    simp only [ask_bind]
    refine among_call (Fresh A s t c) (fun w' hw' => h.others he hw') (fun w' h' => h'.visible he _)
      fun w' h' => ?_
    rw [exec, withNode_leadsTo (leadsTo_keyTo t)]
    cases hcalc : calcGuard (floor2 sf (l2v5Shift (M + 1))) with
    | some gl =>
      have hrep := of_calcGuard hcalc (by omega)
      simp only [pure_eq, if_true]
      refine ⟨h', M, ?_, hM, hrep, hrange⟩
      rw [(leadsTo_keyTo t).setGuardData hcalc]
    | none =>
      -- there is no guard if the node has the level of the slot
      have hM' : M + 1 ≠ L := by
        rintro rfl
        have hzero : floor2 sf (l2v5Shift (M + 1)) = 0 := by
          rw [floor2, Nat.div_eq_of_lt (show sf < 2 ^ l2v5Shift (M + 1) from hle.trans_lt hsl),
            Nat.zero_mul]
        rw [hzero] at hcalc
        cases hcalc
      simp only
      rw [if_neg (by decide), check_pos trivial, done_bind]
      refine ih h' (by omega) ?_ (by omega)
      rw [span_succ (M + 1), Nat.mul_comm, ← Nat.div_div_eq_div_mul, ← Nat.div_div_eq_div_mul, hrange]

/-- The result of looking for the node in a slot of the level `L`, under which the addresses begin at
`base`: there is a node that holds the range. -/
def Entered (A : Places) (s : Store) (base L sf sl : ℕ) :
    Except Result (Key × ℕ × ℕ) → World → Prop
  | .error r, w => r ≠ rcOk ∧ ∃ A', Grown A s A' w
  | .ok (k, M, g), w => ∃ A' t, Grown A s A' w ∧ LeadsTo k t ∧ A' t = some (base + g, M) ∧
      Live w.store A' t ∧ t ≠ root ∧ M < L ∧ g ≤ sf ∧ sl < g + span (M + 1)

/-- A slot of an inner node of the tree. -/
structure InnerSlot (A : Places) (s : Store) (p a L : ℕ) (j : Fin 32) : Prop where
  place : A p = some (a, L)
  inner : 0 < L
  usable : p = root → j.val ≠ 31
  live : Live s A p

theorem fillSlot_safe (he : Others env vis) {j : Fin 32} (h : Old A s w) (hp : InnerSlot A s p a L j)
    (hk : LeadsTo k p) (hvoid : (s.nodes p).slots j = .void) (hle : sf ≤ sl) (hsl : sl < span L) :
    Among env vis (Entered A s (a + j.val * span L) L sf sl) (fillSlot k j.val sf sl) w := by
  have hL : L ≤ 6 := (h.inv.shape.level hp.place).2
  obtain ⟨hcalc, hrange⟩ := calcL2v5_xor (hle.trans_lt hsl) hsl hp.inner hL
  rw [fillSlot, ask_bind]
  refine among_alloc1 he h (fun r w₁ hr h₁ a ha => ?_) fun t w₁ h₁ => ?_
  · rw [if_pos (ha ▸ hr)]
    exact ⟨ha ▸ hr, A, .of_sameInner h₁.inv h₁.same⟩
  · rw [if_neg fun hne => hne rfl]
    refine .bind ((guardFor_safe he h₁ hL hle hsl hcalc hrange (by omega)).mono ?_)
    rintro r w₂ ⟨h₂, M, rfl, hM, hrep, hrange⟩
    have hshift : l2v5Shift M < 32 := show M * 5 < 32 by omega
    refine among_expectOk (Fresh A s t emptyNode) (fun w' hw' => h₂.others he hw')
      (fun w' h' => h'.visible he _)
      (fun w' _ => by rw [exec_setL2v (leadsTo_guarded t _) _ hshift]) fun w₃ h₃ => ?_
    rw [exec_setL2v (leadsTo_guarded t _) _ hshift, h₃.content]
    have h₄ := h₃.setNode (emptyNode.setL2v (l2v5Shift M))
    refine among_expectOk (Fresh A s t (emptyNode.setL2v (l2v5Shift M)))
      (fun w' hw' => h₄.others he hw') (fun w' h' => h'.visible he _)
      (fun w' _ => by rw [exec_swapSlot hk _ j.isLt]) fun w₅ h₅ => ?_
    rw [exec_swapSlot hk _ j.isLt]
    set g := floor2 sf (l2v5Shift (M + 1)) with hg
    have hlow : g ≤ sf := floor2_le sf _
    have hdvd : span (M + 1) ∣ g := floor2_dvd sf _
    have hslot : (w₅.store.nodes p).slots j = .void := by rw [h₅.same.inner hp.place hp.inner, hvoid]
    have hgrown := h₅.inv.hang hp.place hp.inner hp.usable h₅.outside h₅.bought
      (by rw [h₅.content, hasKeeper_setL2v _ hshift]; decide)
      (by rw [h₅.content, l2v_setL2v _ hshift]) hM hrep hdvd
      (add_span_le hdvd (by omega) hM) (fun _ i => .inl (by rw [h₅.content]; rfl))
      (fun q hq => by rw [hslot] at hq; cases hq)
    have hlive := hgrown.live (h₅.same.live hp.live)
    refine ⟨_, t, (Grown.of_sameInner h₅.inv h₅.same).trans hgrown, leadsTo_guarded t g,
      Function.update_self _ _ _, ?_, h₅.bought.1.ne', hM, hlow, ?_⟩
    · refine hlive.tail ⟨a, L, hgrown.extend _ _ hp.place, hp.inner, j, hp.usable, ?_⟩
      rw [setNode_nodes_self, setSlot_slots_self, objectOf_guarded]
    · -- the range does not cross a multiple of the span
      have hsl' := lt_floor2_add sl (l2v5Shift (M + 1))
      rw [floor2, ← show sf / 2 ^ l2v5Shift (M + 1) = sl / 2 ^ l2v5Shift (M + 1) from hrange] at hsl'
      exact hsl'

theorem neededLevel (hL : L ≤ 6) (hM : M < L) (hg : g + span (M + 1) ≤ span L) (hle : sf ≤ sl)
    (hsl : sl < span L) (hN : N = calcL2v5 (min g sf ^^^ max (g + span (M + 1) - 1) sl)) :
    N < L ∧ M ≤ N ∧ floor2 g (l2v5Shift (N + 1)) ≤ sf ∧
      sl < floor2 g (l2v5Shift (N + 1)) + span (N + 1) := by
  have hpos := span_pos (M + 1)
  obtain ⟨hNL, hrange⟩ := calcL2v5_xor (x := min g sf) (y := max (g + span (M + 1) - 1) sl) (L := L)
    (by omega) (by omega) (by omega) hL
  rw [← hN] at hNL hrange
  -- all of the two ranges is in one block
  have hblock : ∀ z, min g sf ≤ z → z ≤ max (g + span (M + 1) - 1) sl →
      z / span (N + 1) = g / span (N + 1) := fun z hlow hup => by
    have h₁ := Nat.div_le_div_right (c := span (N + 1)) hlow
    have h₂ := Nat.div_le_div_right (c := span (N + 1)) hup
    have h₃ := Nat.div_le_div_right (c := span (N + 1)) (show min g sf ≤ g by omega)
    have h₄ := Nat.div_le_div_right (c := span (N + 1))
      (show g ≤ max (g + span (M + 1) - 1) sl by omega)
    omega
  have hfloor : ∀ z, z / span (N + 1) = g / span (N + 1) →
      floor2 g (l2v5Shift (N + 1)) ≤ z ∧ z < floor2 g (l2v5Shift (N + 1)) + span (N + 1) := fun z hz => by
    have h₁ := floor2_le z (l2v5Shift (N + 1))
    have h₂ := lt_floor2_add z (l2v5Shift (N + 1))
    rw [floor2, show z / 2 ^ l2v5Shift (N + 1) = g / 2 ^ l2v5Shift (N + 1) from hz] at h₁ h₂
    exact ⟨h₁, h₂⟩
  refine ⟨hNL, ?_, (hfloor sf (hblock sf (by omega) (by omega))).1,
    (hfloor sl (hblock sl (by omega) (by omega))).2⟩
  by_contra hlt
  have hspan := span_le (show N + 1 ≤ M by omega)
  have h₁ := hfloor (g + span (M + 1) - 1) (hblock _ (by omega) (by omega))
  have h₂ := hfloor g rfl
  have := span_succ M
  omega

theorem widenSlot_safe (he : Others env vis) {j : Fin 32} (h : Old A s w) (hp : InnerSlot A s p a L j)
    (hk : LeadsTo k p) (hslot : (s.nodes p).slots j = guarded q g)
    (hq : A q = some (a + j.val * span L + g, M)) (hqroot : q ≠ root) (hM : M < L)
    (hrep : Representable g) (hdvd : span (M + 1) ∣ g) (hg : g + span (M + 1) ≤ span L) (hle : sf ≤ sl)
    (hsl : sl < span L) :
    Among env vis (Entered A s (a + j.val * span L) L sf sl)
      (widenSlot k L j.val (guarded q g) M sf sl) w := by
  have hL : L ≤ 6 := (h.inv.shape.level hp.place).2
  have h30 : span L ≤ 2 ^ 30 := h.inv.shape.lt_pow hp.place
  have hg32 : g < 2 ^ 32 := by omega
  obtain ⟨hNL, hMN, hlow, hup⟩ := neededLevel hL hM hg hle hsl rfl
  rw [widenSlot]
  refine among_expectOk (Old A s) (fun w' hw' => h.others he hw') (fun w' h' => h'.visible he _)
    (fun w' _ => by rw [exec_getGuard (leadsTo_guarded q g)]) fun w₁ h₁ => ?_
  rw [exec_getGuard (leadsTo_guarded q g)]
  simp only [getGuard_guarded hrep hg32, two_pow_l2v5Shift]
  rw [check_pos hNL, done_bind, check_pos hMN, done_bind]
  generalize calcL2v5 (min g sf ^^^ max (g + span (M + 1) - 1) sl) = N at hNL hMN hlow hup ⊢
  by_cases hlt : M < N
  · -- the new node has the high bits of the guard, and its slot the middle ones
    rw [if_pos hlt, ask_bind]
    set hi := floor2 g (l2v5Shift (N + 1)) with hhi
    have hhig : hi ≤ g := floor2_le g _
    have hrest : g - hi < span (N + 1) := by
      have := lt_floor2_add g (l2v5Shift (N + 1))
      change g < hi + span (N + 1) at this
      omega
    have hslot32 : (g - hi) / span N < 32 := by
      rw [Nat.div_lt_iff_lt_mul (span_pos N), ← span_succ]
      exact hrest
    have hmod : g - hi - (g - hi) / span N * span N = g % span N := by
      obtain ⟨b, hb⟩ : span N ∣ hi := (span_dvd (Nat.le_succ N)).trans (floor2_dvd g _)
      rw [← Nat.mod_eq_sub_div_mul]
      conv_rhs => rw [← Nat.sub_add_cancel hhig, hb, Nat.add_mul_mod_self_left]
      rw [hb]
    have hrep' : Representable (g % span N) := representable_mod hrep (l2v5Shift N)
    have hg'lt : g % span N < span N := Nat.mod_lt g (span_pos N)
    have hhirep : Representable hi := representable_floor2 hrep _
    have hshift : l2v5Shift N < 32 := show N * 5 < 32 by omega
    rw [hmod]
    refine among_alloc1 he h₁ (fun r w₂ hr h₂ b hb => ?_) fun t w₂ h₂ => ?_
    · rw [if_pos (hb ▸ hr)]
      exact ⟨hb ▸ hr, A, .of_sameInner h₂.inv h₂.same⟩
    rw [if_neg fun hne => hne rfl]
    have htlead := leadsTo_keyTo t
    -- the old node goes below the new one
    refine among_expectOk (Fresh A s t emptyNode) (fun w' hw' => h₂.others he hw')
      (fun w' h' => h'.visible he _)
      (fun w' _ => by rw [exec_makeGuarded (leadsTo_guarded q g) _ hrep' (by omega)]) fun w₃ h₃ => ?_
    rw [exec_makeGuarded (leadsTo_guarded q g) _ hrep' (by omega)]
    refine among_expectOk (Fresh A s t emptyNode) (fun w' hw' => h₃.others he hw')
      (fun w' h' => h'.visible he _)
      (fun w' _ => by rw [exec_swapSlot htlead _ hslot32]) fun w₄ h₄ => ?_
    rw [exec_swapSlot htlead _ hslot32, h₄.content]
    set c := emptyNode.setSlot ⟨(g - hi) / span N, hslot32⟩ (guarded q (g % span N)) with hc
    have h₅ := h₄.setNode c
    refine among_expectOk (Fresh A s t c) (fun w' hw' => h₅.others he hw')
      (fun w' h' => h'.visible he _)
      (fun w' _ => by rw [exec_makeGuarded htlead _ hhirep (by omega)]) fun w₆ h₆ => ?_
    rw [exec_makeGuarded htlead _ hhirep (by omega)]
    refine among_expectOk (Fresh A s t c) (fun w' hw' => h₆.others he hw')
      (fun w' h' => h'.visible he _)
      (fun w' _ => by rw [exec_setL2v (leadsTo_guarded t hi) _ hshift]) fun w₇ h₇ => ?_
    rw [exec_setL2v (leadsTo_guarded t hi) _ hshift, h₇.content]
    have h₈ := h₇.setNode (c.setL2v (l2v5Shift N))
    refine among_expectOk (Fresh A s t (c.setL2v (l2v5Shift N))) (fun w' hw' => h₈.others he hw')
      (fun w' h' => h'.visible he _)
      (fun w' _ => by rw [exec_swapSlot hk _ j.isLt]) fun w₉ h₉ => ?_
    rw [exec_swapSlot hk _ j.isLt]
    have hcslot : (c.setL2v (l2v5Shift N)).slots ⟨(g - hi) / span N, hslot32⟩ =
        guarded q (g % span N) := setSlot_slots_self _ _ _
    have hMdvd : span (M + 1) ∣ g % span N :=
      (Nat.dvd_mod_iff (span_dvd hlt)).2 hdvd
    have hgrown := h₉.inv.hang hp.place hp.inner hp.usable h₉.outside h₉.bought
      (by rw [h₉.content, hasKeeper_setL2v _ hshift, hc, hasKeeper_setSlot]; decide)
      (by rw [h₉.content, l2v_setL2v _ hshift]) hNL hhirep (floor2_dvd g _)
      (add_span_le (floor2_dvd g _) (by omega) hNL)
      (fun _ i => by
        rw [h₉.content]
        by_cases hi' : i = ⟨(g - hi) / span N, hslot32⟩
        · subst hi'
          refine .inr ⟨q, g % span N, M, hcslot, ?_, hqroot, hlt, hrep', hMdvd,
            add_span_le hMdvd hg'lt hlt⟩
          rw [hq]
          congr 2
          have hdiv := Nat.div_mul_le_self (g - hi) (span N)
          simp only
          omega
        · left
          exact setSlot_slots_of_ne _ _ hi')
      (fun q' hq' => by
        rw [h₉.same.inner hp.place hp.inner, hslot, objectOf_guarded] at hq'
        obtain rfl := Option.some.inj hq'
        refine ⟨by omega, ⟨(g - hi) / span N, hslot32⟩, ?_⟩
        rw [h₉.content, hcslot, objectOf_guarded])
    have hlive := hgrown.live (h₉.same.live hp.live)
    refine ⟨_, t, (Grown.of_sameInner h₉.inv h₉.same).trans hgrown, leadsTo_guarded t hi,
      Function.update_self _ _ _, ?_, h₉.bought.1.ne', hNL, hlow, hup⟩
    refine hlive.tail ⟨a, L, hgrown.extend _ _ hp.place, hp.inner, j, hp.usable, ?_⟩
    rw [setNode_nodes_self, setSlot_slots_self, objectOf_guarded]
  · obtain rfl : N = M := by omega
    rw [if_neg hlt]
    have hfloor : floor2 g (l2v5Shift (N + 1)) = g := Nat.div_mul_cancel hdvd
    rw [hfloor] at hlow hup
    refine ⟨A, q, .of_sameInner h₁.inv h₁.same, leadsTo_guarded q g, hq, ?_, hqroot, hM, hlow, hup⟩
    refine (h₁.same.live hp.live).tail ⟨a, L, hp.place, hp.inner, j, hp.usable, ?_⟩
    rw [h₁.same.inner hp.place hp.inner, hslot, objectOf_guarded]

theorem slotRange (hle : first ≤ last) (L j : ℕ) :
    firstIn L first j ≤ lastIn L last j ∧ lastIn L last j < span L ∧
      ∀ y, first ≤ y → y ≤ last → y / span L = j →
        j * span L ≤ y ∧ firstIn L first j ≤ y - j * span L ∧ y - j * span L ≤ lastIn L last j := by
  have hpos := span_pos L
  have hfirst := Nat.div_add_mod' first (span L)
  have hlast := Nat.div_add_mod' last (span L)
  have hfm := Nat.mod_lt first hpos
  have hlm := Nat.mod_lt last hpos
  have hF : firstIn L first j = if j = first / span L then first - j * span L else 0 := rfl
  have hT : lastIn L last j = if j = last / span L then last - j * span L else span L - 1 := rfl
  rw [hF, hT]
  have hmul : ∀ {m n : ℕ}, m = n → m * span L = n * span L := fun h => by rw [h]
  -- in between, the slot is full
  have hfull : ∀ y, y / span L = j → j * span L ≤ y ∧ y - j * span L < span L := fun y hy => by
    have hdiv := Nat.div_add_mod' y (span L)
    have hlt := Nat.mod_lt y hpos
    rw [hy] at hdiv
    omega
  by_cases h₁ : j = first / span L <;> by_cases h₂ : j = last / span L
  · have hj₁ := hmul h₁
    have hj₂ := hmul h₂
    rw [if_pos h₁, if_pos h₂]
    exact ⟨by omega, by omega, fun y hy₁ hy₂ hy => ⟨(hfull y hy).1, by omega, by omega⟩⟩
  · have hj₁ := hmul h₁
    rw [if_pos h₁, if_neg h₂]
    refine ⟨by omega, by omega, fun y hy₁ hy₂ hy => ?_⟩
    have := hfull y hy
    exact ⟨this.1, by omega, by omega⟩
  · have hj₂ := hmul h₂
    rw [if_neg h₁, if_pos h₂]
    exact ⟨by omega, by omega, fun y hy₁ hy₂ hy => ⟨(hfull y hy).1, by omega, by omega⟩⟩
  · rw [if_neg h₁, if_neg h₂]
    refine ⟨by omega, by omega, fun y hy₁ hy₂ hy => ?_⟩
    have := hfull y hy
    exact ⟨this.1, by omega, by omega⟩

/-- After allocating a range, its addresses lead to slots. -/
def Covered (A : Places) (s : Store) (a first last : ℕ) (r : Result) (w : World) : Prop :=
  ∃ A', Grown A s A' w ∧
    (r = rcOk → ∀ y, first ≤ y → y ≤ last → Reaches w.store A' (a + y))

theorem coveredLeaf (hw : Inv A w) (hlive : Live w.store A q) (hq : A q = some (a, 0))
    (hlast : last < span (0 + 1)) (hroot : q = root → last / span 0 < keeperSlot) :
    Covered A w.store a first last rcOk w := by
  refine ⟨A, .of_sameInner hw (.refl A w.store), fun _ y _ hy => ⟨q, ⟨y, ?_⟩, hlive, ⟨a, hq, rfl⟩, ?_⟩⟩
  · exact hy.trans_lt hlast
  · intro h
    have := hroot h
    rw [span_zero, Nat.div_one, keeperSlot] at this
    simp only
    omega

theorem allocateRange_safe (he : Others env vis) (hw : Inv A w) (hlive : Live w.store A q)
    (hq : A q = some (a, L)) (hk : LeadsTo k q) (hle : first ≤ last) (hlast : last < span (L + 1))
    (hroot : q = root → last / span L < keeperSlot) (hregs : L ≤ regs) :
    Among env vis (Covered A w.store a first last) (allocateRange regs k L first last) w := by
  induction regs generalizing A w q a L k first last with
  | zero =>
    obtain rfl : L = 0 := by omega
    rw [allocateRange, check_pos hle, done_bind, if_pos rfl]
    exact coveredLeaf hw hlive hq hlast hroot
  | succ regs ih =>
    rw [allocateRange, check_pos hle, done_bind]
    rcases Nat.eq_zero_or_pos L with rfl | h0
    · rw [if_pos rfl]
      exact coveredLeaf hw hlive hq hlast hroot
    rw [if_neg h0.ne', check_pos, done_bind]
    swap
    · rw [nSlots, two_pow_l2v5Shift, Nat.div_lt_iff_lt_mul (span_pos L), ← span_succ]
      exact hlast
    have hcover : ∀ w' A', Grown A w.store A' w' → (∀ y, first ≤ y → y ≤ last →
        y / span L < last / span L + 1 → Reaches w'.store A' (a + y)) →
        Covered A w.store a first last rcOk w' := fun w' A' hg hreach =>
      ⟨A', hg, fun _ y hy₁ hy₂ => hreach y hy₁ hy₂ (Nat.lt_succ_of_le (Nat.div_le_div_right hy₂))⟩
    have hslots : first / span L ≤ last / span L := Nat.div_le_div_right hle
    refine Safe.forEach_range' (fun j w' => ∃ A', Grown A w.store A' w' ∧ ∀ y, first ≤ y → y ≤ last →
        y / span L < j → Reaches w'.store A' (a + y)) ?_ ?_ ?_
    · rintro j w₁ hj hjlt ⟨A₁, hg₁, hreach₁⟩
      have hjle : j ≤ last / span L := by
        simp only [two_pow_l2v5Shift] at hjlt
        omega
      have hj32 : j < 32 := by
        have : last / span L < 32 := by
          rw [Nat.div_lt_iff_lt_mul (span_pos L), ← span_succ]
          exact hlast
        omega
      obtain ⟨hsf, hsl, hin⟩ := slotRange hle L j
      have hp : InnerSlot A₁ w₁.store q a L ⟨j, hj32⟩ := by
        refine ⟨hg₁.extend _ _ hq, h0, fun h => ?_, hg₁.live hlive⟩
        have := hroot h
        rw [keeperSlot] at this
        simp only
        omega
      have h₁ : Old A₁ w₁.store w₁ := ⟨hg₁.inv, .refl _ _⟩
      -- the key in the slot
      refine among_expectOk (Old A₁ w₁.store) (fun w' hw' => h₁.others he hw')
        (fun w' h' => h'.visible he _) (fun w' _ => by rw [exec_getSlot hk _ hj32]) fun w₂ h₂ => ?_
      rw [exec_getSlot hk _ hj32, ask_bind]
      simp only
      rw [h₂.same.inner hp.place h0]
      refine among_call (Old A₁ w₁.store) (fun w' hw' => h₂.others he hw') (fun w' h' => h'.visible he _)
        fun w₃ h₃ => ?_
      refine .bind (Safe.mono (?_ : Among env vis (Entered A₁ w₁.store (a + j * span L) L
        (firstIn L first j) (lastIn L last j)) _ _) ?_)
      · rcases hg₁.inv.shape.slots hp.place h0 ⟨j, hj32⟩ hp.usable with
          hvoid | ⟨p, g, M, hkey, hplace, hproot, hM, hrep, hdvd, hg⟩
        · have hcode : exec (.getL2v (.void)) w₃.store = ({ code := .exit .void }, w₃.store) := rfl
          rw [hvoid, hcode, if_pos fun h => (by cases h), check_pos rfl, done_bind]
          exact fillSlot_safe he h₃ hp hk hvoid hsf hsl
        · rw [hkey, exec_getL2v (leadsTo_guarded p g), (h₃.inv.shape.level hplace).1,
            if_neg fun h => h rfl]
          simp only
          rw [l2v5Shift, Nat.mul_div_cancel _ (by decide), check_pos rfl, done_bind]
          exact widenSlot_safe he h₃ hp hk hkey hplace hproot hM hrep hdvd hg hsf hsl
      · rintro (r | ⟨k', M, g⟩) w₄ h₄
        · obtain ⟨hr, A₂, hg₂⟩ := h₄
          simp only [pure_eq, Safe]
          rw [if_neg hr]
          exact ⟨A₂, hg₁.trans hg₂, fun h => absurd h hr⟩
        · obtain ⟨A₂, t, hg₂, hk', ht, htlive, htroot, hM, hlow, hup⟩ := h₄
          refine (ih hg₂.inv htlive ht hk' (by omega) (by omega) (fun h => absurd h htroot)
            (by omega)).mono ?_
          rintro r w₅ ⟨A₃, hg₃, hreach₃⟩
          have hg₁₃ := (hg₁.trans hg₂).trans hg₃
          by_cases hr : r = rcOk
          · rw [if_pos hr]
            refine ⟨A₃, hg₁₃, fun y hy₁ hy₂ hy => ?_⟩
            rcases Nat.lt_succ_iff_lt_or_eq.1 hy with hlt | heq
            · exact (hg₂.trans hg₃).reaches (hreach₁ y hy₁ hy₂ hlt)
            · obtain ⟨hyj, hyf, hyl⟩ := hin y hy₁ hy₂ heq
              have := hreach₃ hr (y - j * span L - g) (by omega) (by omega)
              rwa [show a + j * span L + g + (y - j * span L - g) = a + y by omega] at this
          · rw [if_neg hr]
            exact ⟨A₃, hg₁₃, fun h => absurd h hr⟩
    · rintro w' ⟨A', hg, hreach⟩
      refine hcover w' A' hg fun y hy₁ hy₂ hy => hreach y hy₁ hy₂ ?_
      simp only [two_pow_l2v5Shift]
      omega
    · refine ⟨A, .of_sameInner hw (.refl A w.store), fun y hy₁ _ hy => ?_⟩
      have := Nat.div_le_div_right (c := span L) hy₁
      simp only [two_pow_l2v5Shift] at hy
      omega

end CapROS.SuperNode
