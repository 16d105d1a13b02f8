import CapROS.SuperNode.Growth

/-!
# Clients and the keeper at the same time

Between two calls of the keeper, clients fetch and swap keys through their opaque key to the root. If
the root is blocked, the kernel hands their message to the keeper. A keeper that is busy does not take
it, and the client starts over; otherwise it does the same with its own key to the root.

* `consistent_run`: in careful runs, the history is consistent.
* `consistent_fails`: a key that is stored after the root has been cloned, is lost.
-/

namespace CapROS.SuperNode

open NodeKey Relation Calls

/-! ## Histories -/

inductive ClientOp where
  | fetch (addr : BitVec 32)
  | swap (addr : BitVec 32) (key : Key)

/-- What clients have been answered. A fetch that cannot reach the address is answered `none`, and
such a swap is not acknowledged. -/
inductive Event where
  | fetched (addr : BitVec 32) (answer : Option Key)
  | swapped (addr : BitVec 32) (key : Key)
  deriving DecidableEq

/-- The event is a swap. -/
def Event.isSwap : Event → Bool
  | swapped .. => true
  | fetched .. => false

/-- The key of the last swap at each address. The last event comes first. -/
def latest : List Event → BitVec 32 → Option Key
  | [] => fun _ => none
  | .swapped addr key :: rest => Function.update (latest rest) addr (some key)
  | .fetched .. :: rest => latest rest

/-- Every fetch sees the last swap at its address. -/
def Consistent : List Event → Prop
  | [] => True
  | .swapped .. :: rest => Consistent rest
  | .fetched addr answer :: rest =>
      (latest rest addr = none ∨ answer = latest rest addr) ∧ Consistent rest

instance Consistent.decidable : (h : List Event) → Decidable (Consistent h)
  | [] => .isTrue trivial
  | .swapped .. :: rest => decidable rest
  | .fetched addr answer :: rest =>
      have := decidable rest
      inferInstanceAs (Decidable ((latest rest addr = none ∨ answer = latest rest addr) ∧ _))

/-! ## The system -/

/-- The keeper waits for a request, or has a program to go on with. -/
inductive Keeper where
  | idle (g : GlobalState)
  | busy (p : Program (Result × GlobalState))

/-- The nodes, the keeper, and what clients have been answered. -/
structure System where
  store : Store
  keeper : Keeper
  history : List Event

/-- What can happen. -/
inductive Action where
  | client (op : ClientOp)
  /-- The keeper takes a request `allocateRange`. -/
  | request (first last : BitVec 32)
  /-- The keeper makes its next call, or ends the request. -/
  | keeper

namespace System

/-- An operation of a client, done with the key `k`. -/
def perform (k : Key) (op : ClientOp) (σ : System) : System :=
  match op with
  | .fetch addr => { σ with history := .fetched addr (clientFetch k addr σ.store) :: σ.history }
  | .swap addr key =>
      match clientSwap k addr key σ.store with
      | some s => { σ with store := s, history := .swapped addr key :: σ.history }
      | none => σ

def step (σ : System) : Action → Option System
  | .client op =>
      if σ.store.blocked then
        match σ.keeper with
        | .idle _ => some (σ.perform krTree op)
        | .busy _ => some σ
      else some (σ.perform clientKey op)
  | .request first last =>
      match σ.keeper with
      | .idle g => some { σ with keeper := .busy (allocateRequest g first.toNat last.toNat) }
      | .busy _ => none
  | .keeper =>
      match σ.keeper with
      | .idle _ => none
      | .busy (.done r) => some { σ with keeper := .idle r.2 }
      | .busy (.call o next) => some { σ with
          store := (exec o σ.store).2
          keeper := .busy (next (exec o σ.store).1) }
      | .busy .stop => none

/-- The system when the keeper accepts requests. -/
def init (keeper : Key) (grants : ℕ → Bool) : System where
  store := initStore keeper grants
  keeper := .idle initState
  history := []

end System

/-- The calls before which a root of level 0 must not change. -/
def onRoot : Request → Bool
  | .setBlocked _ => true
  | .setL2v .. => true
  | _ => false

/-- The next call of the keeper is one of these. -/
def Keeper.onRoot : Keeper → Bool
  | busy (.call o _) => SuperNode.onRoot o
  | _ => false

/-- The request makes an empty tree grow. -/
def Keeper.growsEmpty (last : ℕ) : Keeper → Prop
  | idle g => g.topL2v5 < neededHeight last ∧ g.topL2v5 = 0 ∧ nSlots ≤ g.lowestAllocated
  | busy _ => False

/-- While the root has the level 0, nothing is stored in it between the calls `clone` and `setBlocked`,
nor ever, if the keeper takes it for empty. -/
def Careful (σ : System) : Action → Prop
  | .client (.swap ..) =>
      σ.keeper.onRoot = true → σ.store.blocked = true ∨ (σ.store.nodes root).l2v ≠ 0
  | .client (.fetch _) => True
  | .request first last =>
      first ≤ last → σ.keeper.growsEmpty last.toNat → σ.history.any Event.isSwap = false
  | .keeper => True

/-- The states after careful runs. -/
inductive CarefulReach (σ₀ : System) : System → Prop
  | start : CarefulReach σ₀ σ₀
  | step {σ σ' : System} {a : Action} (h : CarefulReach σ₀ σ) (ha : Careful σ a)
      (hs : σ.step a = some σ') : CarefulReach σ₀ σ'

/-! ## The clients of a program -/

/-- A client stores a key before the call `o`. -/
def ClientStep (o : Request) (w w' : World) : Prop :=
  w.store.blocked = false ∧ (onRoot o = true → (w.store.nodes root).l2v ≠ 0) ∧
    ∃ addr k s, clientSwap clientKey addr k w.store = some s ∧
      w' = ⟨s, Function.update w.kept addr (some k), true⟩

/-- What clients store before the call `o`. -/
def clients (o : Request) : World → World → Prop := ReflTransGen (ClientStep o)

variable {σ σ' : System} {w w' : World} {A : Places} {o : Request} {g : GlobalState}

theorem ClientStep.keeps (h : ClientStep o w w') (hw : Inv A w) :
    Inv A w' ∧ Frame A w.store w'.store := by
  obtain ⟨-, -, addr, k, s, hswap, rfl⟩ := h
  refine hw.clientSwap (.inl rfl) hswap fun x k' hk' => ?_
  by_cases hx : x = addr
  · rw [hx, Function.update_self] at hk'
    exact .inl ⟨hx, (Option.some.inj hk').symm⟩
  · rw [Function.update_of_ne hx] at hk'
    exact .inr ⟨hx, hk'⟩

theorem clients_eq (h : clients o w w') (hno : ∀ w'', ¬ClientStep o w w'') : w' = w := by
  rcases ReflTransGen.cases_head h with rfl | ⟨w'', hstep, -⟩
  · rfl
  · exact absurd hstep (hno w'')

theorem others_clients : Others clients Visible where
  keeps h hw := by
    induction h with
    | refl => exact ⟨hw, .refl _ _⟩
    | tail _ hstep ih =>
      obtain ⟨hinv, hframe⟩ := hstep.keeps ih.1
      exact ⟨hinv, ih.2.trans hframe⟩
  blocked h hb := clients_eq h fun w'' hstep => by
    rw [hstep.1] at hb
    cases hb
  beforeBlock h hl := clients_eq h fun w'' hstep => hstep.2.1 rfl hl
  beforeLevel h hl := clients_eq h fun w'' hstep => hstep.2.1 rfl hl
  visible h := h

/-! ## Careful runs -/

/-- The nodes, with the keys that clients have stored. -/
def System.world (σ : System) : World := ⟨σ.store, latest σ.history, σ.history.any Event.isSwap⟩

/-- The keeper can go on, whatever the clients do. -/
def Keeper.Fine (w : World) : Keeper → Prop
  | idle g => Managed nowhere g w
  | busy p => Among clients Visible (fun r w' => Managed nowhere r.2 w') p w

structure Good (σ : System) : Prop where
  consistent : Consistent σ.history
  fine : σ.keeper.Fine σ.world

theorem Managed.client (h : Managed nowhere g w) (hstep : ClientStep o w w') : Managed nowhere g w' := by
  obtain ⟨⟨A, hA, hroot, -⟩, hlast⟩ := h
  exact ⟨⟨A, (hstep.keeps hA).1, hroot, fun _ hx => hx.elim⟩, hlast⟩

namespace Good

theorem inv (h : Good σ) (hb : σ.store.blocked = false) : ∃ A, Inv A σ.world := by
  obtain ⟨-, hfine⟩ := h
  unfold Keeper.Fine at hfine
  split at hfine
  · exact hfine.inv
  next p hp =>
    cases p with
    | done r => exact Managed.inv hfine
    | call o next => exact (hfine σ.world .refl).1 hb
    | stop => exact hfine.elim

theorem swap (h : Good σ) {addr : BitVec 32} {k : Key} {s : Store}
    (hb : σ.store.blocked = false) (hswap : clientSwap clientKey addr k σ.store = some s)
    (hcareful : σ.keeper.onRoot = true → (σ.store.nodes root).l2v ≠ 0) :
    Good { σ with store := s, history := .swapped addr k :: σ.history } := by
  obtain ⟨hconsistent, hfine⟩ := h
  refine ⟨hconsistent, ?_⟩
  have hstep : ∀ o, (onRoot o = true → (σ.store.nodes root).l2v ≠ 0) → ClientStep o σ.world
      (System.world { σ with store := s, history := .swapped addr k :: σ.history }) := fun o ho =>
    ⟨hb, ho, addr, k, s, hswap, rfl⟩
  unfold Keeper.Fine at hfine
  split at hfine
  next g hg =>
    rw [hg]
    exact hfine.client (hstep .alloc1 fun h => by cases h)
  next p hp =>
    rw [hp] at hcareful ⊢
    cases p with
    | done r => exact Managed.client hfine (hstep .alloc1 fun h => by cases h)
    | call o next =>
      exact Safe.others (fun _ _ _ => ReflTransGen.trans) hfine (.single (hstep o hcareful))
    | stop => exact hfine.elim

theorem fetch (h : Good σ) (hb : σ.store.blocked = false) (addr : BitVec 32) :
    Good { σ with history := .fetched addr (clientFetch clientKey addr σ.store) :: σ.history } := by
  refine ⟨⟨?_, h.consistent⟩, h.fine⟩
  cases hlatest : latest σ.history addr with
  | none => exact .inl rfl
  | some k =>
    right
    obtain ⟨A, hA⟩ := h.inv hb
    obtain ⟨d, i, hat, hslot⟩ := hA.kept hlatest
    have hfetch := clientFetch_of_at hA.shape (.inl rfl) hat
    rw [hslot] at hfetch
    exact hfetch

theorem step (h : Good σ) {a : Action} (ha : Careful σ a) (hs : σ.step a = some σ') : Good σ' := by
  cases a with
  | client op =>
    rw [System.step] at hs
    by_cases hb : σ.store.blocked = true
    · -- the keeper is busy while the root is blocked
      rw [if_pos hb] at hs
      cases hk : σ.keeper with
      | idle g =>
        have hfine := h.fine
        rw [hk] at hfine
        have := Managed.unblocked hfine
        exact absurd (hb.symm.trans this) (by decide)
      | busy p =>
        rw [hk] at hs
        cases hs
        exact h
    · rw [if_neg hb] at hs
      have hb' : σ.store.blocked = false := Bool.eq_false_iff.2 hb
      cases op with
      | fetch addr =>
        cases hs
        exact h.fetch hb' addr
      | swap addr k =>
        cases hs
        rw [System.perform]
        split
        next s hswap => exact h.swap hb' hswap fun hr => (ha hr).resolve_left hb
        next => exact h
  | request first last =>
    rw [System.step] at hs
    cases hk : σ.keeper with
    | busy p =>
      rw [hk] at hs
      cases hs
    | idle g =>
      rw [hk] at hs
      cases hs
      have hfine := h.fine
      rw [hk] at hfine
      refine ⟨h.consistent, ?_⟩
      by_cases hle : last.toNat < first.toNat
      · rw [allocateRequest, if_pos hle]
        exact hfine
      refine (allocateRequest_safe others_clients hfine last.isLt ?_ _).mono ?_
      · intro hlt htop hlowest
        obtain ⟨⟨A, hA, hroot, -⟩, -⟩ := hfine
        rw [htop] at hroot
        have hswapped := ha (not_lt.1 hle) (by
          rw [hk]
          exact ⟨hlt, htop, hlowest⟩)
        refine (growEmpty_safe others_clients hA hroot hswapped (by omega)
          (neededHeight_spec last.isLt).1).mono ?_
        rintro r w' ⟨hr, A', hA', hroot'⟩
        exact ⟨hr, A', hA', hroot', fun _ hx => hx.elim⟩
      · rintro r w' ⟨hok, herr⟩
        by_cases hr : r.1 = rcOk
        · exact (hok hr).1.mono fun x hx => hx.elim
        · exact (herr hr).1
  | keeper =>
    have hfine := h.fine
    rw [System.step] at hs
    cases hk : σ.keeper with
    | idle g =>
      rw [hk] at hs
      cases hs
    | busy p =>
      rw [hk] at hs hfine
      cases p with
      | done r =>
        cases hs
        exact ⟨h.consistent, hfine⟩
      | call o next =>
        cases hs
        exact ⟨h.consistent, (hfine σ.world .refl).2⟩
      | stop => cases hs

end Good

theorem init_good (keeper : Key) (grants : ℕ → Bool) : Good (System.init keeper grants) :=
  ⟨trivial, initStore_managed keeper grants⟩

/-- In every careful run, every fetch sees the last swap at its address. -/
theorem consistent_run (keeper : Key) (grants : ℕ → Bool) {σ : System}
    (h : CarefulReach (System.init keeper grants) σ) : Consistent σ.history := by
  suffices hgood : Good σ from hgood.consistent
  induction h with
  | start => exact init_good keeper grants
  | step _ ha hs ih => exact ih.step ha hs

/-! ## A key that is lost -/

instance Keeper.decidableGrowsEmpty (last : ℕ) : (k : Keeper) → Decidable (k.growsEmpty last)
  | idle g => inferInstanceAs (Decidable (g.topL2v5 < neededHeight last ∧ g.topL2v5 = 0 ∧
      nSlots ≤ g.lowestAllocated))
  | busy _ => .isFalse id

instance Careful.decidable (σ : System) : (a : Action) → Decidable (Careful σ a)
  | .client (.swap ..) => inferInstanceAs (Decidable (σ.keeper.onRoot = true →
      σ.store.blocked = true ∨ (σ.store.nodes root).l2v ≠ 0))
  | .client (.fetch _) => .isTrue trivial
  | .request first last => inferInstanceAs (Decidable (first ≤ last →
      σ.keeper.growsEmpty last.toNat → σ.history.any Event.isSwap = false))
  | .keeper => .isTrue trivial

/-- A step, if it is careful. -/
def System.carefulStep (σ : System) (a : Action) : Option System :=
  if Careful σ a then σ.step a else none

theorem carefulReach_foldlM {σ₀ : System} : ∀ (actions : List Action) {σ σ' : System},
    CarefulReach σ₀ σ → actions.foldlM System.carefulStep σ = some σ' → CarefulReach σ₀ σ'
  | [], σ, σ', h, hrun => by
      cases hrun
      exact h
  | a :: actions, σ, σ', h, hrun => by
      rw [List.foldlM_cons, Option.bind_eq_bind, Option.bind_eq_some_iff] at hrun
      obtain ⟨σ₁, hstep, hrun⟩ := hrun
      rw [System.carefulStep] at hstep
      split at hstep
      next ha => exact carefulReach_foldlM actions (h.step ha hstep) hrun
      next => cases hstep

/-- The supernode when the keeper accepts requests, with a bank that refuses nothing. -/
def freshSystem : System := .init .void fun _ => true

/-- A key that a client stores. -/
def storedKey : Key := numberKeyOf 0 0 7

/-- A client stores a key at the address 3, in a range that has been allocated, while the keeper makes
the tree grow. The keeper has cloned the root (4 steps) and is about to block it. -/
def lostSwap : List Action :=
  [.request 0 5, .keeper, .request 0 40, .keeper, .keeper, .keeper, .client (.swap 3 storedKey)] ++
    List.replicate 46 .keeper ++ [.client (.fetch 3)]

/-- Before the tree grows, the key is kept. -/
def keptSwap : List Action :=
  [.request 0 5, .keeper, .client (.swap 3 storedKey), .request 0 40] ++
    List.replicate 49 .keeper ++ [.client (.fetch 3)]

theorem lostSwap_history : (lostSwap.foldlM System.step freshSystem).map System.history =
    some [.fetched 3 (some .void), .swapped 3 storedKey] := by
  decide +kernel

theorem keptSwap_history : (keptSwap.foldlM System.carefulStep freshSystem).map System.history =
    some [.fetched 3 (some storedKey), .swapped 3 storedKey] := by
  decide +kernel

/-- A key that is stored before the keeper has cloned the root, is found when the tree has grown. -/
theorem consistent_run_growing : ∃ σ, CarefulReach freshSystem σ ∧
    σ.history = [.fetched 3 (some storedKey), .swapped 3 storedKey] ∧ Consistent σ.history := by
  obtain ⟨σ, hrun, hhistory⟩ := Option.map_eq_some_iff.1 keptSwap_history
  have hreach : CarefulReach freshSystem σ := carefulReach_foldlM keptSwap .start hrun
  exact ⟨σ, hreach, hhistory, consistent_run .void (fun _ => true) hreach⟩

/-- A key that is stored after the keeper has cloned the root, is lost. -/
theorem consistent_fails : ¬∀ (actions : List Action) (σ : System),
    actions.foldlM System.step freshSystem = some σ → Consistent σ.history := by
  intro h
  obtain ⟨σ, hrun, hhistory⟩ := Option.map_eq_some_iff.1 lostSwap_history
  have hconsistent := h lostSwap σ hrun
  rw [hhistory] at hconsistent
  revert hconsistent
  decide

end CapROS.SuperNode
