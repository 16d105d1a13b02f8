import CapROS.Kernel.Types
import CapROS.Theory.LinkedRing

/-!
# CPU reserves

A CPU reserve may run for some time in each period (`kern_CpuReserve.c`). One that has used up its time
goes on the list of inactive reserves, from which it is taken when its period ends. The list is a ring
of links with the head `InactiveList`, and the reserve with the earliest deadline should come first.

* `rliInsert`, `rliGetMin`, `rliRemoveMin`: the list.
* `resDeplenishReserve`, `doNeedReplenish`, `readyqReserveWakeup`: what the scheduler does with it.
* `InOrder`: what is expected of the list, and `reserves_run`: the runs in which it holds.
-/

namespace CapROS.Sched

open LinkedRing
open Function (update update_self update_apply update_of_ne)

def maxReserve : ℕ := 32

/-- The size of `itemBuffer`. -/
def itemCount : ℕ := 3

structure Reserve where
  index : ℕ
  isActive : Bool
  duration : ℕ
  period : ℕ
  nextDeadline : ℕ
  timeAcc : ℕ
  deriving DecidableEq, Repr

/-- A `Link`: the head of `InactiveList`, or that of an item. -/
inductive Loc where
  | head
  | item (i : ℕ)
  deriving DecidableEq, Repr

/-- `res_ReserveTable`, `itemBuffer` and the links of `InactiveList`. Reserves are known by their
position in the table. -/
structure State where
  table : ℕ → Reserve
  /-- The field `res` of the items. -/
  res : ℕ → Option ℕ
  next : Loc → Loc
  prev : Loc → Loc

namespace State

variable (s : State)

def setReserve (r : ℕ) (v : Reserve) : State := { s with table := update s.table r v }

@[simp]
theorem table_setReserve (r : ℕ) (v : Reserve) (i : ℕ) :
    (s.setReserve r v).table i = if i = r then v else s.table i := by
  simp [setReserve, update_apply]

/-- The reserve of an item. -/
def resAt : Loc → Except Halt ℕ
  | .head => .error .nullDeref
  | .item i =>
    match s.res i with
    | some r => .ok r
    | none => .error .nullDeref

end State

/-! ## The list -/

def linkInsertAfter (p l : Loc) (s : State) : State :=
  { s with
    next := update (update s.next p l) l (s.next p)
    prev := update (update s.prev (s.next p) l) l p }

def linkUnlink (l : Loc) (s : State) : State :=
  { s with
    next := update (update s.next (s.prev l) (s.next l)) l l
    prev := update (update s.prev (s.next l) (s.prev l)) l l }

def rliCreate (r : ℕ) (s : State) : Except Halt (ℕ × State) :=
  let index := (s.table r).index
  if index < itemCount then .ok (index, { s with res := update s.res index (some r) })
  else .error .outOfBounds

/-- The loop of `rli_insert`. -/
def insertLoop (it key : ℕ) (s : State) : ℕ → Loc → Except Halt State
  | 0, _ => .error .diverged
  | fuel + 1, ptr =>
      if s.next ptr ≠ .head then do
        let r ← s.resAt ptr
        if key < (s.table r).nextDeadline then .ok (linkInsertAfter .head (.item it) s)
        else insertLoop it key s fuel (s.next ptr)
      else .ok (linkInsertAfter ptr (.item it) s)

def rliInsert (it key : ℕ) (s : State) : Except Halt State :=
  if s.next .head = .head then .ok (linkInsertAfter .head (.item it) s)
  else insertLoop it key s (maxReserve + 1) (s.next .head)

def rliGetMin (s : State) : Except Halt (Option ℕ) :=
  if s.next .head = .head then .ok none
  else do
    let r ← s.resAt (s.next .head)
    .ok (some r)

def rliRemoveMin (s : State) : Except Halt State := do
  kassert (s.next .head ≠ .head)
  .ok (linkUnlink (s.next .head) s)

/-! ## The scheduler -/

/-- `res_SetActive` and `res_SetInactive`, as far as the table is concerned. -/
def resSetActive (ndx : ℕ) (b : Bool) (s : State) : State :=
  s.setReserve ndx { s.table ndx with isActive := b }

def resReplenishReserve (r : ℕ) (s : State) : State :=
  let v := s.table r
  let s := s.setReserve r { v with timeAcc := 0, nextDeadline := (v.nextDeadline + v.period) % 2 ^ 64 }
  resSetActive v.index true s

def resDeplenishReserve (r : ℕ) (s : State) : Except Halt State :=
  if (s.table r).duration ≤ (s.table r).timeAcc then do
    let (it, s) ← rliCreate r s
    rliInsert it (s.table r).nextDeadline s
  else .ok s

/-- The loop of `DoNeedReplenish`. -/
def replenishLoop (now : ℕ) : ℕ → State → Except Halt State
  | 0, _ => .error .diverged
  | fuel + 1, s => do
      match ← rliGetMin s with
      | none => .ok s
      | some r =>
        if (s.table r).nextDeadline ≤ now then
          let s ← rliRemoveMin (resReplenishReserve r s)
          replenishLoop now fuel s
        else .ok s

/-- `DoNeedReplenish`, at the time `now`. -/
def doNeedReplenish (now : ℕ) (s : State) : Except Halt State := replenishLoop now (maxReserve + 1) s

/-- `readyq_ReserveWakeup`, at the time `now`. -/
def readyqReserveWakeup (r now : ℕ) (s : State) : State :=
  let v := s.table r
  let s := s.setReserve r { v with timeAcc := 0, nextDeadline := (now + v.period) % 2 ^ 64 }
  resSetActive v.index true s

def indexFixup (s : State) : State :=
  { s with table := fun i => if i < maxReserve then { s.table i with index := i } else s.table i }

/-- `res_SetReserveInfo`, with the times in ticks. -/
def resSetReserveInfo (p d ndx : ℕ) (s : State) : State :=
  indexFixup (s.setReserve ndx
    { s.table ndx with period := p, duration := d, timeAcc := 0, isActive := true })

/-- The part of `res_ActivityTimeout` that charges the reserve for the time `t` that it has run. -/
def chargeReserve (r t : ℕ) (s : State) : State :=
  let v := s.table r
  if v.isActive then
    let s := s.setReserve r { v with timeAcc := (v.timeAcc + t) % 2 ^ 64 }
    if v.duration ≤ (v.timeAcc + t) % 2 ^ 64 then resSetActive v.index false s else s
  else s

/-! ## Runs -/

/-- What happens to the reserves. -/
inductive Op where
  | setReserveInfo (p d ndx : ℕ)
  | wakeup (r now : ℕ)
  | charge (r t : ℕ)
  | deplenish (r : ℕ)
  | removeMin
  | needReplenish (now : ℕ)
  deriving DecidableEq, Repr

/-- The reserve is one of the table. -/
def Op.Allowed : Op → Prop
  | .setReserveInfo _ _ ndx => ndx < maxReserve
  | .wakeup r _ | .charge r _ | .deplenish r => r < maxReserve
  | .removeMin | .needReplenish _ => True

instance : DecidablePred Op.Allowed
  | .setReserveInfo _ _ ndx => inferInstanceAs (Decidable (ndx < maxReserve))
  | .wakeup r _ | .charge r _ | .deplenish r => inferInstanceAs (Decidable (r < maxReserve))
  | .removeMin | .needReplenish _ => inferInstanceAs (Decidable True)

def step (s : State) : Op → Except Halt State
  | .setReserveInfo p d ndx => .ok (resSetReserveInfo p d ndx s)
  | .wakeup r now => .ok (readyqReserveWakeup r now s)
  | .charge r t => .ok (chargeReserve r t s)
  | .deplenish r => resDeplenishReserve r s
  | .removeMin => rliRemoveMin s
  | .needReplenish now => doNeedReplenish now s

/-- `res_AllocReserves`. -/
def init : State where
  table := fun i => ⟨i, false, 0, 0, 0, 0⟩
  res := fun _ => none
  next := id
  prev := id

/-! ## The list as a ring -/

variable {s s' : State} {xs ys : List ℕ} {it key r now : ℕ}

/-- The items on the list, from the first one on. -/
def Listed (s : State) (xs : List ℕ) : Prop := Ring s.next s.prev (.head :: xs.map .item)

theorem Listed.unique (h : Listed s xs) (h' : Listed s ys) : xs = ys :=
  List.map_injective_iff.2 (fun _ _ he => Loc.item.inj he) (Ring.unique h h')

theorem Listed.congr (h : Listed s xs) (hnext : s'.next = s.next) (hprev : s'.prev = s.prev) :
    Listed s' xs := by
  unfold Listed
  rw [hnext, hprev]
  exact h

theorem Listed.nodup (h : Listed s xs) : xs.Nodup :=
  (List.nodup_cons.1 (Ring.nodup h)).2.of_map _

theorem Listed.next_head (h : Listed s xs) : s.next .head = .head ↔ xs = [] := by
  rw [Ring.next_eq_self h (by simp)]
  simp

variable {i fuel : ℕ}

theorem Listed.next_head_cons (h : Listed s (i :: xs)) : s.next .head = .item i :=
  (Ring.next_mid [] h).1

theorem Listed.next_item {j : ℕ} (h : Listed s (ys ++ i :: j :: xs)) : s.next (.item i) = .item j := by
  have hr : Ring s.next s.prev ((Loc.head :: ys.map .item) ++ .item i :: .item j :: xs.map .item) := by
    simpa [Listed] using h
  exact (hr.next_mid _).1

theorem Listed.next_last (h : Listed s (ys ++ [i])) : s.next (.item i) = .head := by
  have hr : Ring s.next s.prev (Loc.head :: ys.map .item ++ [.item i]) := by
    simpa [Listed] using h
  exact (hr.next_last _).1

theorem item_notMem (hit : it ∉ xs) : Loc.item it ∉ Loc.head :: xs.map .item := by
  simpa using hit

theorem Listed.insertFirst (h : Listed s xs) (hit : it ∉ xs) :
    Listed (linkInsertAfter .head (.item it) s) (it :: xs) :=
  Ring.insertAfter (l := []) h (item_notMem hit)

theorem Listed.insertLast (h : Listed s (ys ++ [i])) (hit : it ∉ ys ++ [i]) :
    Listed (linkInsertAfter (.item i) (.item it) s) (ys ++ [i, it]) := by
  have hr : Ring s.next s.prev ((Loc.head :: ys.map .item) ++ .item i :: []) := by
    simpa [Listed] using h
  have hn : Loc.item it ∉ (Loc.head :: ys.map .item) ++ .item i :: [] := by
    simpa using hit
  unfold Listed
  rw [List.map_append, ← List.cons_append]
  exact hr.insertAfter hn

theorem Listed.removeFirst (h : Listed s (i :: xs)) :
    Listed (linkUnlink (s.next .head) s) xs := by
  rw [h.next_head_cons]
  have hr : Ring s.next s.prev ([Loc.head] ++ .item i :: xs.map .item) := h
  exact hr.remove

/-! ## Insertion -/

/-- Each item on the list is that of the reserve with its number. -/
def Placed (s : State) (xs : List ℕ) : Prop := ∀ i ∈ xs, i < itemCount ∧ s.res i = some i

/-- Some item but the last one has a later deadline than the new one, which then becomes the first
item. -/
def GoesFirst (s : State) (key : ℕ) (xs : List ℕ) : Prop :=
  ∃ i ∈ xs.dropLast, key < (s.table i).nextDeadline

instance (s : State) (key : ℕ) (xs : List ℕ) : Decidable (GoesFirst s key xs) :=
  inferInstanceAs (Decidable (∃ i ∈ xs.dropLast, _))

theorem insertLoop_spec (h : Listed s (ys ++ i :: xs)) (hp : Placed s (ys ++ i :: xs))
    (hfuel : xs.length < fuel) :
    insertLoop it key s fuel (.item i) =
      .ok (linkInsertAfter (if GoesFirst s key (i :: xs) then .head else .item (xs.getLastD i))
        (.item it) s) := by
  induction xs generalizing ys i fuel with
  | nil =>
    obtain ⟨fuel, rfl⟩ := Nat.exists_eq_succ_of_ne_zero hfuel.ne_bot
    have hlast : s.next (.item i) = .head := h.next_last
    simp [insertLoop, hlast, GoesFirst]
  | cons j xs ih =>
    obtain ⟨fuel, rfl⟩ := Nat.exists_eq_succ_of_ne_zero hfuel.ne_bot
    have hnext : s.next (.item i) = .item j := h.next_item
    have hres : s.resAt (.item i) = .ok i := by
      rw [State.resAt, (hp i (by simp)).2]
    have hne : s.next (.item i) ≠ .head := by simp [hnext]
    rw [insertLoop, if_pos hne, hres]
    by_cases hlt : key < (s.table i).nextDeadline
    · have hfirst : GoesFirst s key (i :: j :: xs) := ⟨i, by simp, hlt⟩
      rw [if_pos hfirst]
      exact if_pos hlt
    · have hiff : GoesFirst s key (i :: j :: xs) ↔ GoesFirst s key (j :: xs) := by
        simp [GoesFirst, hlt]
      have h' : Listed s ((ys ++ [i]) ++ j :: xs) := by simpa using h
      have hp' : Placed s ((ys ++ [i]) ++ j :: xs) := by simpa using hp
      have hrec := ih h' hp' (Nat.succ_lt_succ_iff.1 hfuel)
      change (if key < (s.table i).nextDeadline then _ else _) = _
      rw [if_neg hlt, hnext, hrec]
      simp only [hiff]
      cases xs <;> rfl

theorem cons_eq_concat (i : ℕ) (xs : List ℕ) : i :: xs = (i :: xs).dropLast ++ [xs.getLastD i] := by
  rcases List.eq_nil_or_concat xs with rfl | ⟨ys, b, rfl⟩
  · rfl
  · rw [List.concat_eq_append, ← List.cons_append, List.dropLast_concat]
    simp [List.getLastD_eq_getLast?]

/-- Where a new item goes. -/
def inserted (s : State) (it key : ℕ) (xs : List ℕ) : List ℕ :=
  if GoesFirst s key xs then it :: xs else xs ++ [it]

theorem rliInsert_spec (h : Listed s xs) (hp : Placed s xs) (hit : it ∉ xs)
    (hlen : xs.length ≤ maxReserve) :
    ∃ s', rliInsert it key s = .ok s' ∧ s'.table = s.table ∧ s'.res = s.res ∧
      Listed s' (inserted s it key xs) := by
  unfold rliInsert inserted
  cases xs with
  | nil =>
    rw [if_pos (h.next_head.2 rfl), if_neg (by simp [GoesFirst])]
    exact ⟨_, rfl, rfl, rfl, h.insertFirst hit⟩
  | cons i xs =>
    have hne : ¬s.next .head = .head := fun he => List.cons_ne_nil i xs (h.next_head.1 he)
    have hloop : insertLoop it key s (maxReserve + 1) (.item i) =
        .ok (linkInsertAfter (if GoesFirst s key (i :: xs) then .head else .item (xs.getLastD i))
          (.item it) s) := by
      apply @insertLoop_spec _ xs []
      · exact h
      · exact hp
      · simp at hlen; omega
    rw [if_neg hne, h.next_head_cons, hloop]
    refine ⟨_, rfl, rfl, rfl, ?_⟩
    split
    · exact h.insertFirst hit
    · rw [cons_eq_concat i xs] at h hit ⊢
      rw [List.append_assoc]
      exact h.insertLast hit

/-! ## The order of the list -/

/-- The list is in the order of the deadlines. -/
def Sorted (d : ℕ → ℕ) (xs : List ℕ) : Prop := xs.Pairwise fun i j => d i ≤ d j

/-- The deadlines of the reserves. -/
def State.deadline (s : State) (r : ℕ) : ℕ := (s.table r).nextDeadline

/-- What is expected of the list with the items `xs`: each reserve has its position as its index, the
items are those in the buffer at the index of their reserve, and they are in the order of the
deadlines. -/
structure InOrder (s : State) (xs : List ℕ) : Prop where
  listed : Listed s xs
  placed : Placed s xs
  index : ∀ r < maxReserve, (s.table r).index = r
  sorted : Sorted s.deadline xs

theorem Placed.length_le (h : Placed s xs) (hn : xs.Nodup) : xs.length ≤ itemCount := by
  have hsub : xs ⊆ List.range itemCount := fun i hi => List.mem_range.2 (h i hi).1
  simpa using (List.subperm_of_subset hn hsub).length_le

theorem inOrder_init : InOrder init [] where
  listed := ring_cons.2 ⟨by simp, List.isChain_cons_cons.2 ⟨⟨rfl, rfl⟩, .singleton _⟩⟩
  placed := by simp [Placed]
  index := fun _ _ => rfl
  sorted := .nil

theorem InOrder.congr (h : InOrder s xs) (hnext : s'.next = s.next) (hprev : s'.prev = s.prev)
    (hres : s'.res = s.res) (hindex : ∀ r < maxReserve, (s'.table r).index = r)
    (hsorted : Sorted s'.deadline xs) : InOrder s' xs where
  listed := h.listed.congr hnext hprev
  placed := fun i hi => by
    rw [hres]
    exact h.placed i hi
  index := hindex
  sorted := hsorted

theorem sorted_congr {d d' : ℕ → ℕ} (h : Sorted d xs) (hd : ∀ i ∈ xs, d' i = d i) : Sorted d' xs :=
  List.Pairwise.imp_of_mem (fun hi hj hle => by rwa [hd _ hi, hd _ hj]) h

theorem InOrder.getMin (h : InOrder s xs) : rliGetMin s = .ok xs.head? := by
  unfold rliGetMin
  cases xs with
  | nil => rw [if_pos (h.listed.next_head.2 rfl)]; rfl
  | cons i xs =>
    have hne : ¬s.next .head = .head := fun he => List.cons_ne_nil i xs (h.listed.next_head.1 he)
    rw [if_neg hne, h.listed.next_head_cons, State.resAt, (h.placed i (by simp)).2]
    rfl

theorem InOrder.head_le (h : InOrder s (i :: xs)) : ∀ j ∈ i :: xs, s.deadline i ≤ s.deadline j := by
  intro j hj
  rcases List.mem_cons.1 hj with rfl | hj
  · exact le_rfl
  · exact List.rel_of_pairwise_cons h.sorted hj

theorem rliRemoveMin_spec (hl : Listed s (i :: xs)) (hp : Placed s xs)
    (hindex : ∀ r < maxReserve, (s.table r).index = r) (hs : Sorted s.deadline xs) :
    ∃ s', rliRemoveMin s = .ok s' ∧ s'.table = s.table ∧ InOrder s' xs := by
  have hne : s.next .head ≠ .head := fun he => List.cons_ne_nil i xs (hl.next_head.1 he)
  refine ⟨linkUnlink (s.next .head) s, ?_, rfl, hl.removeFirst, hp, hindex, hs⟩
  rw [rliRemoveMin, kassert_pos hne]
  rfl

/-! ## What the operations do to the order -/

/-- The place at which `rli_insert` puts an item with this deadline is the right one. -/
def Fits (s : State) (key : ℕ) (xs : List ℕ) : Prop :=
  if GoesFirst s key xs then ∀ i ∈ xs, key ≤ s.deadline i else ∀ i ∈ xs, s.deadline i ≤ key

instance (s : State) (key : ℕ) (xs : List ℕ) : Decidable (Fits s key xs) :=
  inferInstanceAs (Decidable (if GoesFirst s key xs then ∀ i ∈ xs, _ else ∀ i ∈ xs, _))

theorem sorted_inserted_iff (h : Sorted s.deadline xs) :
    Sorted s.deadline (inserted s it (s.deadline it) xs) ↔ Fits s (s.deadline it) xs := by
  unfold inserted Fits Sorted
  split
  · rw [List.pairwise_cons]
    exact and_iff_left h
  · rw [List.pairwise_append]
    simp only [List.pairwise_singleton, List.mem_singleton, forall_eq, true_and]
    exact and_iff_right h

theorem mem_inserted : i ∈ inserted s it key xs ↔ i = it ∨ i ∈ xs := by
  unfold inserted
  split <;> simp [or_comm]

/-- A reserve that is not on the list is put there exactly if its item is in the buffer, and the list
is then in order exactly if the new item fits. -/
theorem InOrder.deplenish_iff (h : InOrder s xs) (hr : r < maxReserve) (hmem : r ∉ xs)
    (hdue : (s.table r).duration ≤ (s.table r).timeAcc) :
    (∃ s' ys, resDeplenishReserve r s = .ok s' ∧ InOrder s' ys) ↔
      r < itemCount ∧ Fits s (s.deadline r) xs := by
  have hindex : (s.table r).index = r := h.index r hr
  rw [resDeplenishReserve, if_pos hdue]
  simp only [rliCreate, hindex]
  by_cases hbuffer : r < itemCount
  · rw [if_pos hbuffer]
    let s₁ : State := { s with res := update s.res r (some r) }
    have hp : Placed s₁ xs := fun i hi => by
      have hne : i ≠ r := fun he => hmem (he ▸ hi)
      exact ⟨(h.placed i hi).1, (update_of_ne hne _ _).trans (h.placed i hi).2⟩
    have hlen : xs.length ≤ maxReserve :=
      (h.placed.length_le h.listed.nodup).trans (by decide)
    obtain ⟨s', hrun, htable, hres, hlisted⟩ :=
      @rliInsert_spec s₁ xs r (s.deadline r) h.listed hp hmem hlen
    have hdeadline : s'.deadline = s.deadline := funext fun i => by
      rw [State.deadline, htable, State.deadline]
    have hrun' : rliInsert r (s₁.table r).nextDeadline s₁ = .ok s' := hrun
    change (∃ s' ys, rliInsert r (s₁.table r).nextDeadline s₁ = .ok s' ∧ InOrder s' ys) ↔ _
    rw [hrun']
    constructor
    · rintro ⟨_, ys, ⟨⟩, hys⟩
      have hsorted := hys.sorted
      rw [hys.listed.unique hlisted, hdeadline] at hsorted
      exact ⟨hbuffer, (sorted_inserted_iff h.sorted).1 hsorted⟩
    · rintro ⟨-, hfits⟩
      refine ⟨s', _, rfl, hlisted, ?_, ?_, ?_⟩
      · intro i hi
        rw [hres]
        rcases mem_inserted.1 hi with rfl | hi
        · exact ⟨hbuffer, update_self _ _ _⟩
        · exact hp i hi
      · intro i hi
        rw [htable]
        exact h.index i hi
      · rw [hdeadline]
        exact (sorted_inserted_iff h.sorted).2 hfits
  · rw [if_neg hbuffer]
    refine iff_of_false ?_ fun hb => hbuffer hb.1
    rintro ⟨s', ys, hrun, -⟩
    cases hrun

theorem InOrder.replenish (h : InOrder s xs) (hfuel : xs.length < fuel) :
    ∃ s' ys, replenishLoop now fuel s = .ok s' ∧ InOrder s' ys ∧ ∀ i ∈ ys, now < s'.deadline i := by
  induction xs generalizing s fuel with
  | nil =>
    obtain ⟨fuel, rfl⟩ := Nat.exists_eq_succ_of_ne_zero hfuel.ne_bot
    refine ⟨s, [], ?_, h, by simp⟩
    rw [replenishLoop, h.getMin]
    rfl
  | cons i xs ih =>
    obtain ⟨fuel, rfl⟩ := Nat.exists_eq_succ_of_ne_zero hfuel.ne_bot
    rw [replenishLoop, h.getMin]
    by_cases hdue : s.deadline i ≤ now
    · have hmax : i < maxReserve := (h.placed i (by simp)).1.trans_le (by decide)
      have hnot : i ∉ xs := (List.nodup_cons.1 h.listed.nodup).1
      -- the replenished reserve may now be out of order, but it is the one that is removed
      have hother : ∀ j, j ≠ i → (resReplenishReserve i s).table j = s.table j := fun j hj => by
        simp [resReplenishReserve, resSetActive, h.index i hmax, hj]
      have hself : ((resReplenishReserve i s).table i).index = i := by
        simp [resReplenishReserve, resSetActive, h.index i hmax]
      have hremove : ∃ s', rliRemoveMin (resReplenishReserve i s) = .ok s' ∧
          s'.table = (resReplenishReserve i s).table ∧ InOrder s' xs := by
        refine rliRemoveMin_spec h.listed (fun j hj => h.placed j (List.mem_cons_of_mem i hj)) ?_ ?_
        · intro j hj
          rcases eq_or_ne j i with rfl | hne
          · exact hself
          · rw [hother j hne]
            exact h.index j hj
        · refine sorted_congr h.sorted.of_cons fun j hj => ?_
          rw [State.deadline, hother j fun he => hnot (he ▸ hj), State.deadline]
      obtain ⟨s₁, hrun, -, h₁⟩ := hremove
      obtain ⟨s', ys, hloop, hys, hlater⟩ := ih h₁ (by simpa using hfuel)
      refine ⟨s', ys, ?_, hys, hlater⟩
      change (if (s.table i).nextDeadline ≤ now then _ else _) = _
      rw [if_pos (show (s.table i).nextDeadline ≤ now from hdue), hrun]
      exact hloop
    · refine ⟨s, i :: xs, ?_, h, fun j hj => (not_le.1 hdue).trans_le (h.head_le j hj)⟩
      exact if_neg hdue

/-! ## Runs in which the list stays in order -/

/-- A reserve that goes on the list is not there yet, its item is in the buffer, and it fits. A reserve
on the list gets no deadline that is out of order. An item is only taken from a list with items. -/
def Op.Careful (s : State) : Op → Prop
  | .deplenish r => (s.table r).duration ≤ (s.table r).timeAcc →
      r < itemCount ∧ ∀ xs, Listed s xs → r ∉ xs ∧ Fits s (s.deadline r) xs
  | .wakeup r now => ∀ xs, Listed s xs →
      Sorted (update s.deadline r ((now + (s.table r).period) % 2 ^ 64)) xs
  | .removeMin => ¬Listed s []
  | .setReserveInfo _ _ _ | .charge _ _ | .needReplenish _ => True

theorem InOrder.of_table (h : InOrder s xs) (hnext : s'.next = s.next) (hprev : s'.prev = s.prev)
    (hres : s'.res = s.res) (hindex : ∀ r < maxReserve, (s'.table r).index = r)
    (hdeadline : ∀ r, (s'.table r).nextDeadline = (s.table r).nextDeadline) : InOrder s' xs :=
  h.congr hnext hprev hres hindex (sorted_congr h.sorted fun i _ => hdeadline i)

theorem InOrder.setReserve (h : InOrder s xs) {v : Reserve} (hindex : v.index = (s.table r).index)
    (hdeadline : v.nextDeadline = (s.table r).nextDeadline) : InOrder (s.setReserve r v) xs := by
  refine h.of_table rfl rfl rfl (fun i hi => ?_) fun i => ?_
  · rw [State.table_setReserve]
    split
    next he => rw [hindex, ← he, h.index i hi]
    next => exact h.index i hi
  · rw [State.table_setReserve]
    split
    next he => rw [hdeadline, he]
    next => rfl

theorem InOrder.setReserveInfo (h : InOrder s xs) (p d ndx : ℕ) :
    InOrder (resSetReserveInfo p d ndx s) xs := by
  have hset : InOrder (s.setReserve ndx
      { s.table ndx with period := p, duration := d, timeAcc := 0, isActive := true }) xs :=
    h.setReserve rfl rfl
  refine hset.of_table rfl rfl rfl (fun i hi => ?_) fun i => ?_
  · simp [resSetReserveInfo, indexFixup, hi]
  · rw [resSetReserveInfo, indexFixup]
    simp only
    split <;> rfl

theorem InOrder.setActive (h : InOrder s xs) (ndx : ℕ) (b : Bool) :
    InOrder (resSetActive ndx b s) xs :=
  h.setReserve rfl rfl

theorem InOrder.charge (h : InOrder s xs) (r t : ℕ) : InOrder (chargeReserve r t s) xs := by
  have hset : InOrder
      (s.setReserve r { s.table r with timeAcc := ((s.table r).timeAcc + t) % 2 ^ 64 }) xs :=
    h.setReserve rfl rfl
  unfold chargeReserve
  simp only
  split
  · split
    · exact hset.setActive _ _
    · exact hset
  · exact h

theorem InOrder.wakeup (h : InOrder s xs) (hr : r < maxReserve)
    (hsorted : Sorted (update s.deadline r ((now + (s.table r).period) % 2 ^ 64)) xs) :
    InOrder (readyqReserveWakeup r now s) xs := by
  have hindex : (s.table r).index = r := h.index r hr
  have hdeadline : (readyqReserveWakeup r now s).deadline =
      update s.deadline r ((now + (s.table r).period) % 2 ^ 64) := by
    funext i
    rcases eq_or_ne i r with rfl | hne
    · simp [State.deadline, readyqReserveWakeup, resSetActive, hindex]
    · simp [State.deadline, readyqReserveWakeup, resSetActive, hindex, hne]
  refine h.congr rfl rfl rfl (fun i hi => ?_) (by rw [hdeadline]; exact hsorted)
  rcases eq_or_ne i r with rfl | hne
  · simp [readyqReserveWakeup, resSetActive, hindex]
  · simp [readyqReserveWakeup, resSetActive, hindex, hne, h.index i hi]

theorem InOrder.step (h : InOrder s xs) {op : Op} (ha : op.Allowed) (hc : op.Careful s) :
    ∃ s' ys, step s op = .ok s' ∧ InOrder s' ys := by
  cases op with
  | setReserveInfo p d ndx => exact ⟨_, xs, rfl, h.setReserveInfo p d ndx⟩
  | wakeup r now => exact ⟨_, xs, rfl, h.wakeup ha (hc xs h.listed)⟩
  | charge r t => exact ⟨_, xs, rfl, h.charge r t⟩
  | deplenish r =>
    by_cases hdue : (s.table r).duration ≤ (s.table r).timeAcc
    · obtain ⟨hbuffer, hlist⟩ := hc hdue
      obtain ⟨hmem, hfits⟩ := hlist xs h.listed
      exact (h.deplenish_iff ha hmem hdue).2 ⟨hbuffer, hfits⟩
    · exact ⟨s, xs, if_neg hdue, h⟩
  | removeMin =>
    cases xs with
    | nil => exact absurd h.listed hc
    | cons i xs =>
      obtain ⟨s', hrun, -, h'⟩ := rliRemoveMin_spec h.listed
        (fun j hj => h.placed j (List.mem_cons_of_mem i hj)) h.index h.sorted.of_cons
      exact ⟨s', xs, hrun, h'⟩
  | needReplenish now =>
    obtain ⟨s', ys, hrun, h', -⟩ : ∃ s' ys, replenishLoop now (maxReserve + 1) s = .ok s' ∧ InOrder s' ys ∧
        ∀ i ∈ ys, now < s'.deadline i := h.replenish (((h.placed.length_le h.listed.nodup).trans (by decide)).trans_lt (Nat.lt_succ_self _))
    exact ⟨s', ys, hrun, h'⟩

inductive CarefulRun : State → Prop where
  | start : CarefulRun init
  | step {s s' : State} (op : Op) (h : CarefulRun s) (allowed : op.Allowed) (careful : op.Careful s)
      (next : step s op = .ok s') : CarefulRun s'

theorem CarefulRun.inOrder (h : CarefulRun s) : ∃ xs, InOrder s xs := by
  induction h with
  | start => exact ⟨[], inOrder_init⟩
  | step op _ allowed careful next ih =>
    obtain ⟨xs, h⟩ := ih
    obtain ⟨s', ys, hrun, h'⟩ := h.step allowed careful
    rw [next] at hrun
    cases hrun
    exact ⟨ys, h'⟩

/-- In every state that careful steps lead to the list is in order, `rli_getMin` returns a reserve with
the earliest deadline on it, and `DoNeedReplenish` leaves no reserve on it whose deadline has come. -/
theorem reserves_run (h : CarefulRun s) :
    ∃ xs, InOrder s xs ∧
      (∃ first, rliGetMin s = .ok first ∧ (first = none ↔ xs = []) ∧
        ∀ r, first = some r → r ∈ xs ∧ ∀ i ∈ xs, s.deadline r ≤ s.deadline i) ∧
      ∀ now, ∃ s' ys, doNeedReplenish now s = .ok s' ∧ InOrder s' ys ∧
        ∀ i ∈ ys, now < s'.deadline i := by
  obtain ⟨xs, hxs⟩ := h.inOrder
  refine ⟨xs, hxs, ⟨xs.head?, hxs.getMin, List.head?_eq_none_iff, ?_⟩, fun now => ?_⟩
  · intro r hr
    cases xs with
    | nil => cases hr
    | cons i xs =>
      cases hr
      exact ⟨by simp, hxs.head_le⟩
  · exact hxs.replenish
      (((hxs.placed.length_le hxs.listed.nodup).trans (by decide)).trans_lt (Nat.lt_succ_self _))

theorem listed_zero_one (hhead : s.next .head = .item 0 ∧ s.prev (.item 0) = .head)
    (hmid : s.next (.item 0) = .item 1 ∧ s.prev (.item 1) = .item 0)
    (hlast : s.next (.item 1) = .head ∧ s.prev .head = .item 1) : Listed s [0, 1] :=
  ring_cons.2 ⟨by simp, List.isChain_cons_cons.2 ⟨hhead, List.isChain_cons_cons.2 ⟨hmid,
    List.isChain_cons_cons.2 ⟨hlast, .singleton _⟩⟩⟩⟩

/-- Two reserves are woken up, use up their time of 0, and go on the list. At the time 200 only the deadline of
the first one has come. -/
theorem reserves_run_two : ∃ s s' ys, Listed s [0, 1] ∧ doNeedReplenish 200 s = .ok s' ∧
    rliGetMin s' = .ok (some 1) ∧ InOrder s' ys ∧ ∀ i ∈ ys, 200 < s'.deadline i := by
  let s1 := resSetReserveInfo 200 0 1 (resSetReserveInfo 100 0 0 init)
  have h1 : CarefulRun s1 := .step (.setReserveInfo 200 0 1)
    (.step (.setReserveInfo 100 0 0) .start (by decide) trivial rfl) (by decide) trivial rfl
  let s2 := readyqReserveWakeup 1 60 (readyqReserveWakeup 0 50 s1)
  have hnil : Listed s2 [] := inOrder_init.listed
  have h2 : CarefulRun s2 := by
    refine .step (.wakeup 1 60) (.step (.wakeup 0 50) h1 (by decide) (fun xs hxs => ?_) rfl) (by decide)
      (fun xs hxs => ?_) rfl
    · rw [hxs.unique hnil]
      exact .nil
    · rw [hxs.unique hnil]
      exact .nil
  obtain ⟨s3, h3, hlist3, hrun3⟩ : ∃ s3, CarefulRun s3 ∧ Listed s3 [0] ∧ resDeplenishReserve 0 s2 = .ok s3 := by
    refine ⟨_, .step (.deplenish 0) h2 (by decide) (fun _ => ⟨by decide, fun xs hxs => ?_⟩) rfl,
      hnil.insertFirst (by simp), rfl⟩
    rw [hxs.unique hnil]
    exact ⟨by simp, by decide⟩
  obtain rfl := Except.ok.inj hrun3
  obtain ⟨s4, s5, h4, hlist4, hrun5, hmin5⟩ : ∃ s4 s5, CarefulRun s4 ∧ Listed s4 [0, 1] ∧
      doNeedReplenish 200 s4 = .ok s5 ∧ rliGetMin s5 = .ok (some 1) := by
    refine ⟨_, _, .step (.deplenish 1) h3 (by decide) (fun _ => ⟨by decide, fun xs hxs => ?_⟩) rfl,
      listed_zero_one ⟨rfl, rfl⟩ ⟨rfl, rfl⟩ ⟨rfl, rfl⟩, rfl, rfl⟩
    rw [hxs.unique hlist3]
    exact ⟨by simp, by decide⟩
  obtain ⟨-, -, -, hrep⟩ := reserves_run h4
  obtain ⟨s', ys, hdone, hys, hlater⟩ := hrep 200
  obtain rfl := Except.ok.inj (hrun5.symm.trans hdone)
  exact ⟨s4, s5, ys, hlist4, hrun5, hmin5, hys, hlater⟩
inductive Run : State → Prop where
  | start : Run init
  | step {s s' : State} (op : Op) (h : Run s) (allowed : op.Allowed) (next : step s op = .ok s') : Run s'

/-- The second reserve on the list is put behind the first one, although its deadline is earlier. There
it stays after its deadline has come. -/
theorem reserves_run_fails : ∃ s, Run s ∧ Listed s [0, 1] ∧ rliGetMin s = .ok (some 0) ∧
    s.deadline 1 < s.deadline 0 ∧ doNeedReplenish 7 s = .ok s ∧ s.deadline 1 ≤ 7 := by
  have h₁ : Run _ := .step (.setReserveInfo 10 0 0) .start (by decide) rfl
  have h₂ : Run _ := .step (.wakeup 0 0) h₁ (by decide) rfl
  have h₃ : Run _ := .step (.deplenish 0) h₂ (by decide) rfl
  have h₄ : Run _ := .step (.setReserveInfo 5 0 1) h₃ (by decide) rfl
  have h₅ : Run _ := .step (.wakeup 1 0) h₄ (by decide) rfl
  have h₆ : Run _ := .step (.deplenish 1) h₅ (by decide) rfl
  exact ⟨_, h₆, listed_zero_one ⟨rfl, rfl⟩ ⟨rfl, rfl⟩ ⟨rfl, rfl⟩, rfl, by decide, rfl, by decide⟩

end CapROS.Sched
