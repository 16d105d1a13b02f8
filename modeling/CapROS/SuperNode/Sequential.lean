import CapROS.SuperNode.Deallocating

/-!
# One request after another

Requests to allocate and deallocate, in sequence, and keys that clients store in between. The bounds of
a request are the words of a message, of which the keeper gets 32 bits.

* `Supernode.Correct`, `correct_run`: the allocated addresses can be reached, distinct addresses lead to
  distinct slots, and the keys stay; no assertion fails.
* `allocate_granted`: a range is allocated if the bank does not refuse.
-/

namespace CapROS.SuperNode

open NodeKey Relation Calls

/-- A key to anything but a node below the root. -/
structure ClientKey where
  key : Key
  outside : ∀ c, objectOf key = some c → c ≤ root

/-- The nodes and the state of the keeper, with the addresses that have been allocated and not
deallocated since, and the keys that have been stored there since. -/
structure Supernode where
  store : Store
  g : GlobalState
  allocated : BitVec 32 → Bool
  stored : BitVec 32 → Option Key

/-- What can happen. -/
inductive Operation where
  | allocate (first last : BitVec 64)
  | deallocate (first last : BitVec 64)
  | swap (addr : BitVec 32) (key : ClientKey)

/-- The word of a message that has a bound. -/
def boundWord (x : BitVec 64) : BitVec 32 := x.setWidth 32

/-- The address is in the range. -/
def inRange (first last : BitVec 64) (x : BitVec 32) : Bool :=
  decide (boundWord first ≤ x ∧ x ≤ boundWord last)

namespace Supernode

/-- A step. It is `none` if an assertion fails. -/
def step (σ : Supernode) : Operation → Option Supernode
  | .allocate first last =>
      ((allocateRequest σ.g (boundWord first).toNat (boundWord last).toNat).run exec σ.store).map
        fun ((result, g), s) => { σ with
          store := s
          g := g
          allocated := fun x => σ.allocated x || (decide (result = rcOk) && inRange first last x) }
  | .deallocate first last =>
      ((deallocateRequest σ.g (boundWord first).toNat (boundWord last).toNat).run exec σ.store).map
        fun ((_, g), s) => {
          store := s
          g := g
          allocated := fun x => σ.allocated x && !inRange first last x
          stored := fun x => if inRange first last x then none else σ.stored x }
  | .swap addr k =>
      match clientSwap clientKey addr k.key σ.store with
      | some s => some { σ with
          store := s
          stored := if σ.allocated addr then Function.update σ.stored addr (some k.key)
            else σ.stored }
      | none => some σ

/-- The supernode when the keeper accepts requests. -/
def init (keeper : Key) (grants : ℕ → Bool) : Supernode where
  store := initStore keeper grants
  g := initState
  allocated := fun _ => false
  stored := fun _ => none

/-- What clients rely on. -/
structure Correct (σ : Supernode) : Prop where
  reachable : ∀ x, σ.allocated x = true → ∀ write, ∃ d i, clientWalk clientKey write x σ.store = .found d i
  distinct : ∀ {x y write write' d i}, clientWalk clientKey write x σ.store = .found d i →
    clientWalk clientKey write' y σ.store = .found d i → x = y
  kept : ∀ {x k}, σ.stored x = some k → clientFetch clientKey x σ.store = some k

/-- The nodes, with the keys that are stored. -/
def world (σ : Supernode) : World := ⟨σ.store, σ.stored, true⟩

structure Good (σ : Supernode) : Prop where
  managed : Managed (fun x => ∃ y : BitVec 32, y.toNat = x ∧ σ.allocated y = true) σ.g σ.world
  lowest : ∀ {y}, σ.allocated y = true → σ.g.lowestAllocated ≤ y.toNat
  stored : ∀ {x k}, σ.stored x = some k →
    σ.allocated x = true ∧ ∀ c, objectOf k = some c → c ≤ root

end Supernode

/-! ## The keeper alone -/

/-- Nobody comes between the calls. -/
def alone (_ : Request) (w w' : World) : Prop := w' = w

variable {α : Type} {post : α → World → Prop} {p : Program α} {s s' : Store} {w w' : World}
  {A : Places} {L N first last : ℕ} {g : GlobalState} {σ σ' : Supernode}

theorem others_alone : Others alone fun _ _ => True where
  keeps h hw := by
    rw [h]
    exact ⟨hw, .refl _ _⟩
  blocked h _ := h
  beforeBlock h _ := h
  beforeLevel h _ := h
  visible _ := trivial

theorem still_alone (w : World) : Still alone (fun _ _ => True) w := fun _ => ⟨trivial, fun _ h => h⟩

theorem run_execW (p : Program α) (w : World) :
    p.run execW w = (p.run exec w.store).map fun r => (r.1, { w with store := r.2 }) := by
  induction p generalizing w with
  | done a => rfl
  | call o next ih => exact ih _ _
  | stop => rfl

theorem run_of_among (h : Among alone (fun _ _ => True) post p w) :
    ∃ a s, p.run exec w.store = some (a, s) ∧ post a { w with store := s } := by
  have hrefl : ∀ (o : Request) (w : World), alone o w w := fun _ _ => rfl
  obtain ⟨a, w', hrun, hpost⟩ := Safe.run hrefl h
  rw [run_execW, Option.map_eq_some_iff] at hrun
  obtain ⟨⟨a', s⟩, hrun, heq⟩ := hrun
  cases heq
  exact ⟨a', s, hrun, hpost⟩

theorem growEmpty_alone {R : ℕ → Prop} (hw : Inv A w) (hroot : A root = some (0, 0))
    (hkept : ∀ x, w.kept x = none) (hR : ∀ x, ¬R x) (h0 : 0 < N) (hN : N ≤ 6) :
    Among alone (fun _ _ => True) (fun r w' => r = rcOk ∧ ∃ A', GrownTo R A' w' N)
      (growEmpty (l2v5Shift N)) w := by
  have hshift : l2v5Shift N < 32 := show N * 5 < 32 by omega
  rw [growEmpty]
  refine (still_alone w).expectOk (exec_setL2v leadsTo_krTree w.store hshift) rfl ?_
  set w₁ : World := { w with store := w.store.setNode root ((w.store.nodes root).setL2v (l2v5Shift N)) }
    with hw₁
  have hclear := clearSlots_still (w := w₁) (fun f => still_alone _) (List.range keeperSlot)
    (fun i hi => (List.mem_range.1 hi).trans (by decide)) (w₁.store.nodes root).slots
  rw [setRoot_self] at hclear
  refine .bind (hclear.mono ?_)
  rintro _ _ rfl
  refine ⟨rfl, Function.update A root (some (0, N)), ?_, Function.update_self _ _ _, fun x hx => absurd hx (hR x)⟩
  have hnode : w₁.store.nodes root = (w.store.nodes root).setL2v (l2v5Shift N) := setNode_nodes_self _ _ _
  refine hw.raiseEmpty (World.setRoot w₁ _).store hroot h0 hN hkept (fun q hq => ?_) rfl (fun i hi => ?_)
    ?_ ?_ ?_
  · rw [World.setRoot, setNode_nodes_of_ne _ _ hq, hw₁, setNode_nodes_of_ne _ _ hq]
  · rw [World.setRoot, setNode_nodes_self]
    exact if_pos (List.mem_range.2 (by rw [keeperSlot]; omega))
  · rw [World.setRoot, setNode_nodes_self]
    exact (congrArg NodeContent.l2v hnode).trans (l2v_setL2v _ hshift)
  · rw [World.setRoot, setNode_nodes_self]
    refine (congrArg NodeContent.hasKeeper hnode).trans ?_
    rw [hasKeeper_setL2v _ hshift, hw.shape.keeper hroot]
  · rw [World.setRoot, Store.blocked, setNode_nodes_self]
    refine (congrArg NodeContent.isBlocked hnode).trans ?_
    rw [isBlocked_setL2v _ hshift]
    exact hw.unblocked

namespace Supernode

theorem Good.nothing (h : Good σ) (htop : σ.g.topL2v5 = 0) (hlowest : nSlots ≤ σ.g.lowestAllocated)
    (y : BitVec 32) : σ.allocated y = false := by
  by_contra hne
  have hy : σ.allocated y = true := by simpa using hne
  obtain ⟨⟨A, hA, hroot, hreach⟩, -⟩ := h.managed
  obtain ⟨d, i, hlive, ⟨b, hd, hx⟩, -⟩ := hreach y.toNat ⟨y, rfl, hy⟩
  have hle := h.lowest hy
  rw [htop] at hroot
  obtain ⟨b', M, hd', -, hup, -⟩ := hA.shape.within hlive hroot
  rw [hd] at hd'
  cases hd'
  rw [nSlots] at hlowest
  omega

theorem inRange_eq_true {first last : BitVec 64} {x : BitVec 32} :
    inRange first last x = true ↔
      (boundWord first).toNat ≤ x.toNat ∧ x.toNat ≤ (boundWord last).toNat := decide_eq_true_iff

theorem Good.allocate (h : Good σ) (first last : BitVec 64) :
    ∃ σ', σ.step (.allocate first last) = some σ' ∧ Good σ' := by
  have hempty : σ.g.topL2v5 < neededHeight (boundWord last).toNat → σ.g.topL2v5 = 0 →
      nSlots ≤ σ.g.lowestAllocated → Among alone (fun _ _ => True) (fun r w' => r = rcOk ∧
        ∃ A', GrownTo (fun x => ∃ y : BitVec 32, y.toNat = x ∧ σ.allocated y = true) A' w'
          (neededHeight (boundWord last).toNat))
        (growEmpty (l2v5Shift (neededHeight (boundWord last).toNat))) σ.world := by
    intro hlt htop hlowest
    obtain ⟨⟨A, hA, hroot, -⟩, -⟩ := h.managed
    rw [htop] at hroot
    refine growEmpty_alone hA hroot (fun x => ?_) ?_ (by omega)
      (neededHeight_spec (boundWord last).isLt).1
    · cases hx : σ.stored x with
      | none => exact hx
      | some k =>
        have := (h.stored hx).1
        rw [h.nothing htop hlowest x] at this
        cases this
    · rintro x ⟨y, -, hy⟩
      rw [h.nothing htop hlowest y] at hy
      cases hy
  obtain ⟨⟨r, g⟩, s, hrun, hok, herr⟩ := run_of_among
    (allocateRequest_safe others_alone h.managed (boundWord last).isLt hempty (boundWord first).toNat)
  rw [step, show σ.store = σ.world.store from rfl, hrun]
  refine ⟨_, rfl, ?_⟩
  have hallocated : ∀ y, (σ.allocated y || (decide (r = rcOk) && inRange first last y)) = true ↔
      σ.allocated y = true ∨ (r = rcOk ∧ inRange first last y = true) := fun y => by
    rw [Bool.or_eq_true, Bool.and_eq_true, decide_eq_true_iff]
  by_cases hr : r = rcOk
  · obtain ⟨hmanaged, hlowest⟩ := hok hr
    refine ⟨hmanaged.mono ?_, fun {y} hy => ?_, fun hk => ?_⟩
    · rintro x ⟨y, rfl, hy⟩
      rcases (hallocated y).1 hy with hy | ⟨-, hy⟩
      · exact .inl ⟨y, rfl, hy⟩
      · exact .inr (inRange_eq_true.1 hy)
    · show g.lowestAllocated ≤ y.toNat
      simp only at hlowest
      rcases (hallocated y).1 hy with hy | ⟨-, hy⟩
      · have := h.lowest hy
        omega
      · have := inRange_eq_true.1 hy
        omega
    · exact ⟨(hallocated _).2 (.inl (h.stored hk).1), (h.stored hk).2⟩
  · obtain ⟨hmanaged, hlowest⟩ := herr hr
    have hsame : ∀ y, (σ.allocated y || (decide (r = rcOk) && inRange first last y)) = true →
        σ.allocated y = true := fun y hy => ((hallocated y).1 hy).resolve_right fun h => hr h.1
    refine ⟨hmanaged.mono ?_, fun {y} hy => ?_, fun hk => ?_⟩
    · rintro x ⟨y, rfl, hy⟩
      exact ⟨y, rfl, hsame y hy⟩
    · show g.lowestAllocated ≤ y.toNat
      simp only at hlowest
      rw [hlowest]
      exact h.lowest (hsame y hy)
    · exact ⟨(hallocated _).2 (.inl (h.stored hk).1), (h.stored hk).2⟩

end Supernode

theorem Shrunk.inv {lo hi : ℕ} (h : Shrunk A lo hi w.store s) (hw : Inv A w)
    {kept : BitVec 32 → Option Key} (hkeys : ∀ {x k}, kept x = some k → w.kept x = some k ∧
      (x.toNat < lo ∨ hi < x.toNat) ∧ ∀ c, objectOf k = some c → c ≤ root) :
    Inv A ⟨s, kept, w.swapped⟩ where
  shape := h.shape hw.shape
  kept {x k} hk := by
    obtain ⟨hkept, hx, hout⟩ := hkeys hk
    obtain ⟨d, i, hat, hslot⟩ := hw.kept hkept
    refine ⟨d, i, h.leads _ d i hat hx, ?_⟩
    rcases h.slots d i with heq | ⟨-, c, hc, hobj⟩
    · rw [heq, hslot]
    · rw [hslot] at hobj
      exact absurd (hout c hobj) (not_le.2 hc)
  unblocked := by
    rw [Store.blocked, isBlocked_congr (h.field root)]
    exact hw.unblocked
  untouched hs := by
    obtain ⟨hkept, hvoid⟩ := hw.untouched hs
    refine ⟨fun x => ?_, fun a ha i hi => h.void (hvoid a ha i hi)⟩
    by_contra hne
    obtain ⟨k, hk⟩ := Option.ne_none_iff_exists'.1 hne
    have := (hkeys hk).1
    rw [hkept x] at this
    cases this

/-- `OC_capros_SuperNode_deallocateRange`. What stays allocated is not below `lowestAllocated`. -/
theorem deallocateRequest_alone (first : ℕ) (hs : Shape s A) (hroot : A root = some (0, g.topL2v5))
    (hlastSlot : g.lastSlotInSupernode = lastSlotAt g.topL2v5) (hlast : last < 2 ^ 32) :
    Alone (fun r s' => Shrunk A first last s s' ∧ r.2.topL2v5 = g.topL2v5 ∧
      r.2.lastSlotInSupernode = g.lastSlotInSupernode ∧ ∀ y, y < 2 ^ 32 → g.lowestAllocated ≤ y →
        ¬(first ≤ y ∧ y ≤ last) → r.2.lowestAllocated ≤ y) (deallocateRequest g first last) s := by
  have hL := (hs.level hroot).2
  have hnothing : Shrunk A first last s s ∧ g.topL2v5 = g.topL2v5 ∧
      g.lastSlotInSupernode = g.lastSlotInSupernode ∧ ∀ y, y < 2 ^ 32 → g.lowestAllocated ≤ y →
        ¬(first ≤ y ∧ y ≤ last) → g.lowestAllocated ≤ y :=
    ⟨.refl A _ _ s, rfl, rfl, fun _ _ hy _ => hy⟩
  rw [deallocateRequest]
  by_cases hle : last < first
  · rw [if_pos hle]
    exact hnothing
  rw [if_neg hle]
  by_cases hin : first ≤ g.lastSlotInSupernode
  swap
  · rw [if_neg hin]
    exact hnothing
  rw [if_pos hin]
  set last' := min last g.lastSlotInSupernode with hlast'
  have hfits : last' / span g.topL2v5 < keeperSlot :=
    div_lt_of_le_lastSlotAt hL (by omega) (by omega)
  have hspan : last' < span (g.topL2v5 + 1) := by
    rw [Nat.div_lt_iff_lt_mul (span_pos _), keeperSlot] at hfits
    rw [span_succ]
    omega
  refine .bind ((deallocateRange_alone hs hroot leadsTo_krTree (show first ≤ last' by omega) hspan
    (fun _ => hfits) (hL.trans (by decide))).mono ?_)
  rintro r s' ⟨hshrunk, -⟩
  rw [Nat.zero_add, Nat.zero_add] at hshrunk
  have hwhole : Shrunk A first last s s' := hshrunk.mono le_rfl (by omega)
  split
  · refine ⟨hwhole, rfl, rfl, fun y hy hlowest hout => ?_⟩
    show max g.lowestAllocated ((last' + 1) % 2 ^ 32) ≤ y
    omega
  · exact ⟨hwhole, rfl, rfl, fun _ _ hy _ => hy⟩

/-! ## A bank that grants everything -/

/-- The bank has not refused. -/
def Granted (o : Request) (a : Answer) : Prop := o = .alloc1 → a.code = rcOk

/-- The bank will not refuse any more. -/
def Grants (s : Store) : Prop := ∀ n, s.asked ≤ n → s.grants n = true

theorem withNode_grants {k : Key} {s : Store} {f : ℕ → Answer × Store} (hs : Grants s)
    (hf : ∀ oid, Grants (f oid).2) : Grants (withNode k s f).2 := by
  unfold withNode
  split
  · split_ifs
    · exact hf _
    · exact hs
  · exact hs

theorem withSlot_grants {i : ℕ} {s : Store} {f : Fin 32 → Answer × Store} (hs : Grants s)
    (hf : ∀ i, Grants (f i).2) : Grants (withSlot i s f).2 := by
  unfold withSlot
  split_ifs
  · exact hf _
  · exact hs

theorem exec_grants (o : Request) (s : Store) (hs : Grants s) : Granted o (exec o s).1 ∧ Grants (exec o s).2 := by
  cases o with
  | alloc1 =>
    have hgrant : s.grants s.asked = true := hs _ le_rfl
    simp only [exec, hgrant, if_true]
    exact ⟨fun _ => rfl, fun n hn => hs n (Nat.le_of_succ_le hn)⟩
  | getSlot _ _ | swapSlot _ _ _ => exact ⟨(by cases ·), withNode_grants hs fun _ => withSlot_grants hs fun _ => hs⟩
  | setL2v node l2v =>
    refine ⟨(by cases ·), withNode_grants hs fun _ => ?_⟩
    split_ifs
    · exact hs
    · exact hs
  | makeGuarded node guard =>
    refine ⟨(by cases ·), withNode_grants hs fun _ => ?_⟩
    split
    · exact hs
    · exact hs
  | clone _ _ => exact ⟨(by cases ·), withNode_grants hs fun _ => withNode_grants hs fun _ => hs⟩
  | free1 _ | getL2v _ | getGuard _ | setBlocked _ | clearBlocked _ | clearKeeper _ =>
    exact ⟨(by cases ·), withNode_grants hs fun _ => hs⟩

theorem answers_alloc1 {α : Type} {post : α → Prop} {f g : Answer → Program α} (h : ∀ a, Answers Granted post (g a)) :
    Answers Granted post (ask .alloc1 >>= fun a => if a.code ≠ rcOk then f a else g a) := by
  intro a ha
  have hok : a.code = rcOk := ha rfl
  simp only [hok, Calls.andThen]
  exact h a

theorem growRoot_granted (shift : ℕ) : Answers Granted (· = rcOk) (growRoot shift) :=
  answers_alloc1 fun _ => .skip fun _ => .skip fun _ => .skip fun _ => .skip fun _ => .skip fun _ => .skip fun _ =>
    .skip fun _ => .skip fun _ => .skip fun _ => rfl

theorem ensureHeight_granted (g : GlobalState) (last : ℕ) :
    Answers Granted (fun r => r.1 = rcOk) (ensureHeight g last) := by
  unfold ensureHeight
  dsimp only
  split_ifs
  · have hgrow : Answers Granted (· = rcOk) (growEmpty (l2v5Shift (neededHeight last))) := .skip fun _ => .skip fun _ => rfl
    refine hgrow.bind ?_
    rintro _ rfl
    rfl
  · refine (growRoot_granted _).bind ?_
    rintro _ rfl
    rfl
  · rfl

theorem fillSlot_granted (thisNode : Key) (j slotFirst slotLast : ℕ) :
    Answers Granted (fun r => ∃ next, r = .ok next) (fillSlot thisNode j slotFirst slotLast) := by
  exact answers_alloc1 fun _ => .skip fun _ => .skip fun _ => .skip fun _ => ⟨_, rfl⟩

theorem widenSlot_granted (thisNode : Key) (thisL2v5 j : ℕ) (nextNode : Key) (nextL2v5 slotFirst slotLast : ℕ) :
    Answers Granted (fun r => ∃ next, r = .ok next)
      (widenSlot thisNode thisL2v5 j nextNode nextL2v5 slotFirst slotLast) := by
  refine .skip fun _ => .skip fun _ => .skip fun _ => ?_
  split_ifs
  · exact answers_alloc1 fun _ => .skip fun _ => .skip fun _ => .skip fun _ => .skip fun _ => .skip fun _ => ⟨_, rfl⟩
  · exact ⟨_, rfl⟩

theorem allocateRange_granted (regs : ℕ) (thisNode : Key) (thisL2v5 first last : ℕ) :
    Answers Granted (· = rcOk) (allocateRange regs thisNode thisL2v5 first last) := by
  induction regs generalizing thisNode thisL2v5 first last with
  | zero => 
    unfold allocateRange
    refine .skip fun _ => ?_
    split_ifs
    · rfl
    · exact .skip fun _ => .forEach _ fun j => trivial
  | succ regs ih =>
    unfold allocateRange
    refine .skip fun _ => ?_
    split_ifs
    · rfl
    · refine .skip fun _ => .forEach _ fun j => .skip fun _ => .skip fun _ => ?_
      refine Answers.bind (?_ : Answers Granted (fun r => ∃ next, r = .ok next) _) ?_
      · split_ifs
        · exact .skip fun _ => fillSlot_granted _ _ _ _
        · exact .skip fun _ => widenSlot_granted _ _ _ _ _ _ _
      · rintro _ ⟨next, rfl⟩
        exact ih _ _ _ _

theorem allocateRequest_granted (g : GlobalState) {first last : ℕ} (hle : first ≤ last) :
    Answers Granted (fun r => r.1 = rcOk) (allocateRequest g first last) := by
  unfold allocateRequest
  rw [if_neg (not_lt.2 hle)]
  refine (ensureHeight_granted g last).bind ?_
  rintro ⟨_, g⟩ rfl
  refine (allocateRange_granted _ _ _ _ _).bind ?_
  rintro _ rfl
  rfl

namespace Supernode

theorem Good.deallocate (h : Good σ) (first last : BitVec 64) :
    ∃ σ', σ.step (.deallocate first last) = some σ' ∧ Good σ' := by
  obtain ⟨⟨A, hA, hroot, hreach⟩, hlastSlot⟩ := h.managed
  obtain ⟨⟨r, g⟩, s, hrun, hshrunk, htop, hslot, hlowest⟩ := run_of_alone
    (deallocateRequest_alone (boundWord first).toNat hA.shape hroot hlastSlot (boundWord last).isLt)
  rw [step, show σ.store = σ.world.store from rfl, hrun]
  refine ⟨_, rfl, ?_⟩
  have hout : ∀ {y}, inRange first last y = false →
      ¬((boundWord first).toNat ≤ y.toNat ∧ y.toNat ≤ (boundWord last).toNat) := fun {y} hy hin => by
    rw [inRange_eq_true.2 hin] at hy
    cases hy
  have hallocated : ∀ y, (σ.allocated y && !inRange first last y) = true ↔
      σ.allocated y = true ∧ inRange first last y = false := fun y => by
    rw [Bool.and_eq_true, Bool.not_eq_true']
  have hstored : ∀ {x k}, (if inRange first last x then none else σ.stored x) = some k →
      inRange first last x = false ∧ σ.stored x = some k := fun {x k} hk => by
    cases hin : inRange first last x with
    | true =>
      rw [hin] at hk
      cases hk
    | false =>
      rw [hin] at hk
      exact ⟨rfl, hk⟩
  refine ⟨⟨⟨A, ?_, ?_, ?_⟩, ?_⟩, fun {y} hy => ?_, fun {x k} hk => ?_⟩
  · refine hshrunk.inv hA fun {x k} hk => ?_
    obtain ⟨hin, hk'⟩ := hstored hk
    have := hout hin
    exact ⟨hk', by omega, (h.stored hk').2⟩
  · rw [hroot]
    exact congrArg (fun L => some (0, L)) htop.symm
  · rintro x ⟨y, rfl, hy⟩
    obtain ⟨hy', hin⟩ := (hallocated y).1 hy
    obtain ⟨d, i, hat⟩ := hreach y.toNat ⟨y, rfl, hy'⟩
    have := hout hin
    exact ⟨d, i, hshrunk.leads _ d i hat (by omega)⟩
  · show g.lastSlotInSupernode = lastSlotAt g.topL2v5
    exact hslot.trans (hlastSlot.trans (congrArg lastSlotAt htop.symm))
  · obtain ⟨hy', hin⟩ := (hallocated y).1 hy
    exact hlowest y.toNat y.isLt (h.lowest hy') (hout hin)
  · obtain ⟨hin, hk'⟩ := hstored hk
    exact ⟨(hallocated x).2 ⟨(h.stored hk').1, hin⟩, (h.stored hk').2⟩

theorem Good.swap (h : Good σ) (addr : BitVec 32) (k : ClientKey) :
    ∃ σ', σ.step (.swap addr k) = some σ' ∧ Good σ' := by
  rw [step]
  split
  swap
  · exact ⟨σ, rfl, h⟩
  next s hswap =>
  refine ⟨_, rfl, ?_⟩
  obtain ⟨⟨A, hA, hroot, hreach⟩, hlastSlot⟩ := h.managed
  -- what is stored at the address now
  have hstored : ∀ {x k'}, (if σ.allocated addr then Function.update σ.stored addr (some k.key)
      else σ.stored) x = some k' →
      (x = addr ∧ k' = k.key ∧ σ.allocated addr = true) ∨ (x ≠ addr ∧ σ.stored x = some k') := by
    intro x k' hk
    cases hall : σ.allocated addr with
    | true =>
      rw [hall, if_pos rfl] at hk
      by_cases hx : x = addr
      · rw [hx, Function.update_self] at hk
        exact .inl ⟨hx, (Option.some.inj hk).symm, rfl⟩
      · rw [Function.update_of_ne hx] at hk
        exact .inr ⟨hx, hk⟩
    | false =>
      rw [hall, if_neg Bool.false_ne_true] at hk
      refine .inr ⟨?_, hk⟩
      rintro rfl
      rw [(h.stored hk).1] at hall
      cases hall
  obtain ⟨hinv, hframe⟩ := hA.clientSwap (.inl rfl) hswap fun x k' hk =>
    (hstored hk).imp (fun h => ⟨h.1, h.2.1⟩) id
  refine ⟨⟨⟨A, hinv, hroot, fun x hx => hframe.sameInner.reaches (hreach x hx)⟩, hlastSlot⟩, h.lowest,
    fun {x k'} hk => ?_⟩
  rcases hstored hk with ⟨rfl, rfl, hall⟩ | ⟨-, hk'⟩
  · exact ⟨hall, k.outside⟩
  · exact h.stored hk'

theorem Good.step (h : Good σ) (e : Operation) : ∃ σ', σ.step e = some σ' ∧ Good σ' := by
  cases e with
  | allocate first last => exact h.allocate first last
  | deallocate first last => exact h.deallocate first last
  | swap addr k => exact h.swap addr k

theorem Good.correct (h : Good σ) : Correct σ := by
  obtain ⟨⟨A, hA, -, hreach⟩, -⟩ := h.managed
  have hwalk : ∀ {d i} write addr, clientWalk clientKey write addr σ.store = .found d i ↔
      At σ.store A addr.toNat d i := clientWalk_found_iff hA.shape (.inl rfl)
  refine ⟨fun x hx write => ?_, fun {x y write write' d i} hx hy => ?_, fun {x k} hk => ?_⟩
  · obtain ⟨d, i, hat⟩ := hreach x.toNat ⟨x, rfl, hx⟩
    exact ⟨d, i, (hwalk write x).2 hat⟩
  · exact BitVec.eq_of_toNat_eq (((hwalk write x).1 hx).addr_inj ((hwalk write' y).1 hy))
  · obtain ⟨d, i, hat, hslot⟩ := hA.kept hk
    have hfetch := clientFetch_of_at hA.shape (.inl rfl) hat
    rw [hslot] at hfetch
    exact hfetch

theorem init_good (keeper : Key) (grants : ℕ → Bool) : Good (init keeper grants) := by
  obtain ⟨⟨A, hA, hroot, -⟩, hlast⟩ := initStore_managed keeper grants
  refine ⟨⟨⟨A, ⟨hA.shape, hA.kept, hA.unblocked, fun h => by cases h⟩, hroot, ?_⟩, hlast⟩, ?_, ?_⟩
  · rintro x ⟨y, -, hy⟩
    cases hy
  · intro y hy
    cases hy
  · intro x k hk
    cases hk

/-- Whatever is asked for and stored, no assertion fails, and the supernode is correct. -/
theorem correct_run (keeper : Key) (grants : ℕ → Bool) (operations : List Operation) :
    ∃ σ, operations.foldlM step (init keeper grants) = some σ ∧ Correct σ := by
  suffices hrun : ∀ σ, Good σ → ∃ σ', operations.foldlM step σ = some σ' ∧ Good σ' by
    obtain ⟨σ, hσ, hgood⟩ := hrun _ (init_good keeper grants)
    exact ⟨σ, hσ, hgood.correct⟩
  induction operations with
  | nil => exact fun σ h => ⟨σ, rfl, h⟩
  | cons e operations ih =>
    intro σ h
    obtain ⟨σ₁, hstep, h₁⟩ := h.step e
    obtain ⟨σ', hrun, h'⟩ := ih σ₁ h₁
    refine ⟨σ', ?_, h'⟩
    rw [List.foldlM_cons, hstep]
    exact hrun

/-- The bank grants what it is asked for, the tree grows, and another range is deallocated. The key stored at the
address 3 stays. -/
theorem run_granted : ∃ σ, [.allocate 0 5, .swap 3 ⟨numberKeyOf 0 0 7, fun _ h => by cases h⟩, .allocate 0 40,
    .deallocate 32 63].foldlM step (init .void fun _ => true) = some σ ∧ Correct σ ∧
    (σ.allocated 3 = true ∧ σ.allocated 31 = true ∧ σ.allocated 33 = false) ∧
    clientFetch clientKey 3 σ.store = some (numberKeyOf 0 0 7) := by
  obtain ⟨σ, hrun, hcorrect⟩ := correct_run .void (fun _ => true)
    [.allocate 0 5, .swap 3 ⟨numberKeyOf 0 0 7, fun _ h => by cases h⟩, .allocate 0 40, .deallocate 32 63]
  refine ⟨σ, hrun, hcorrect, ?_⟩
  have hvalues : (([.allocate 0 5, .swap 3 ⟨numberKeyOf 0 0 7, fun _ h => by cases h⟩, .allocate 0 40,
      .deallocate 32 63].foldlM step (init .void fun _ => true)).map fun σ =>
        ((σ.allocated 3, σ.allocated 31, σ.allocated 33), clientFetch clientKey 3 σ.store)) =
      some ((true, true, false), some (numberKeyOf 0 0 7)) := by decide +kernel
  rw [hrun] at hvalues
  obtain ⟨hallocated, hfetch⟩ := Prod.mk.inj (Option.some.inj hvalues)
  obtain ⟨h3, h'⟩ := Prod.mk.inj hallocated
  exact ⟨⟨h3, Prod.mk.inj h'⟩, hfetch⟩

/-- If the bank refuses nothing any more, a range that is requested is allocated. -/
theorem allocate_granted {first last : BitVec 64} (hs : Grants σ.store) (hle : boundWord first ≤ boundWord last)
    (hrun : σ.step (.allocate first last) = some σ') {x : BitVec 32} (hx : inRange first last x = true) :
    σ'.allocated x = true := by
  obtain ⟨⟨⟨r, g⟩, s⟩, hrequest, rfl⟩ := Option.map_eq_some_iff.1 hrun
  have hok := (allocateRequest_granted σ.g hle).run exec_grants hs hrequest
  simp only at hok
  subst hok
  simp [hx]

end Supernode

end CapROS.SuperNode
