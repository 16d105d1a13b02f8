import CapROS.Theory.Census
import Mathlib.Algebra.Order.Ring.Int

/-!
# Semaphores of the multi-threaded environment

The operations of `base/lib/cmte/semaphore.c`, and what the sync process of `sync.c` does for them. A thread
works on the count by atomic operations and, when the count says so, calls the sync process, which takes the
requests in any order. Operations of the threads on other objects change nothing here.
-/

namespace CapROS.Cmte

open Census
open Function (update update_self update_of_ne)

/-- A value as `int32_t`. -/
def int32 (x : ℤ) : ℤ := x.bmod (2 ^ 32)

theorem int32_of_range {x : ℤ} (hl : -2 ^ 31 ≤ x) (hr : x < 2 ^ 31) : int32 x = x :=
  Int.bmod_eq_of_le (by omega) (by omega)

/-- Where a thread is in the operations on a semaphore. -/
inductive Place where
  | idle
  /-- In the loop of `CMTESemaphore_tryDown`, with the count it saw last. -/
  | tryDown (newcnt : ℤ)
  /-- `CMTESemaphore_down` has made the count negative. -/
  | downNegative
  /-- The request `semaWait` is in flight. -/
  | semaWait
  /-- On the task list. -/
  | queued
  /-- The reply to `semaWait` is in flight. -/
  | woken
  /-- `CMTESemaphore_up` has found threads to wake. -/
  | upNegative
  /-- The request `semaWakeup` is in flight. -/
  | semaWakeup
  deriving DecidableEq

namespace Place

/-- The thread is to wait, and its request has not been taken. -/
def waits : Place → Bool
  | .downNegative | .semaWait => true
  | _ => false

/-- The thread is to wake another one, and its request has not been taken. -/
def wakes : Place → Bool
  | .upNegative | .semaWakeup => true
  | _ => false

/-- The thread has been woken and has not gone on. -/
def isWoken : Place → Bool
  | .woken => true
  | _ => false

end Place

/-- `struct CMTESemaphore`, and the threads. -/
structure Semaphore (T : Type) where
  count : ℤ
  wakeupsWaiting : ℤ
  taskList : List T
  place : T → Place
  /-- The sync process is in `lsync_mutex_unlock`, before `doSemaWakeup`. -/
  unlocking : Bool
  /-- The downs completed so far. -/
  downs : ℕ
  /-- The ups so far. -/
  ups : ℕ

/-- What happens: `lsyncTryUp` and `lsyncWakeup` are `lsync_mutex_unlock`. -/
inductive Action (T : Type) where
  | down (t : T)
  | callSemaWait (t : T)
  | semaWait (t : T)
  | resume (t : T)
  | readCount (t : T)
  | tryDown (t : T)
  | up (t : T)
  | callSemaWakeup (t : T)
  | semaWakeup (t : T)
  | lsyncTryUp
  | lsyncWakeup

namespace Semaphore

variable {T : Type} [DecidableEq T]

/-- `CMTESemaphore_init`, before any operation. -/
def init (v : ℤ) : Semaphore T := ⟨v, 0, [], fun _ => .idle, false, 0, 0⟩

/-- The thread goes to another place. -/
def move (s : Semaphore T) (t : T) (x : Place) : Semaphore T :=
  { s with place := update s.place t x }

@[simp] theorem move_count (s : Semaphore T) (t : T) (x : Place) : (s.move t x).count = s.count := rfl

@[simp] theorem move_wakeupsWaiting (s : Semaphore T) (t : T) (x : Place) :
    (s.move t x).wakeupsWaiting = s.wakeupsWaiting := rfl

@[simp] theorem move_taskList (s : Semaphore T) (t : T) (x : Place) :
    (s.move t x).taskList = s.taskList := rfl

@[simp] theorem move_downs (s : Semaphore T) (t : T) (x : Place) : (s.move t x).downs = s.downs := rfl

@[simp] theorem move_ups (s : Semaphore T) (t : T) (x : Place) : (s.move t x).ups = s.ups := rfl

def doSemaWakeup (s : Semaphore T) : Semaphore T :=
  match s.taskList with
  | [] => { s with wakeupsWaiting := int32 (s.wakeupsWaiting + 1) }
  | t :: l => { s.move t .woken with taskList := l }

def exec (s : Semaphore T) : Action T → Option (Semaphore T)
  | .down t =>
    if s.place t = .idle then
      let count := int32 (s.count - 1)
      if count < 0 then some { s.move t .downNegative with count := count }
      else some { s with count := count, downs := s.downs + 1 }
    else none
  | .callSemaWait t => if s.place t = .downNegative then some (s.move t .semaWait) else none
  | .semaWait t =>
    if s.place t = .semaWait ∧ s.unlocking = false then
      if 0 < s.wakeupsWaiting then
        -- The wakeup already came in.
        some { s.move t .woken with wakeupsWaiting := s.wakeupsWaiting - 1 }
      else some { s.move t .queued with taskList := s.taskList ++ [t] }
    else none
  | .resume t => if s.place t = .woken then some { s.move t .idle with downs := s.downs + 1 } else none
  | .readCount t => if s.place t = .idle then some (s.move t (.tryDown s.count)) else none
  | .tryDown t =>
    match s.place t with
    | .tryDown newcnt =>
      if newcnt ≤ 0 then some (s.move t .idle)
      else if s.count = newcnt then
        some { s.move t .idle with count := int32 (newcnt - 1), downs := s.downs + 1 }
      else some (s.move t (.tryDown s.count))
    | _ => none
  | .up t =>
    if s.place t = .idle then
      let count := int32 (s.count + 1)
      if count ≤ 0 then some { s.move t .upNegative with count := count, ups := s.ups + 1 }
      else some { s with count := count, ups := s.ups + 1 }
    else none
  | .callSemaWakeup t => if s.place t = .upNegative then some (s.move t .semaWakeup) else none
  | .semaWakeup t =>
    if s.place t = .semaWakeup ∧ s.unlocking = false then some (s.move t .idle).doSemaWakeup else none
  | .lsyncTryUp =>
    if s.unlocking = false then
      let count := int32 (s.count + 1)
      some { s with count := count, ups := s.ups + 1, unlocking := decide (count ≤ 0) }
    else none
  | .lsyncWakeup => if s.unlocking = true then some { s with unlocking := false }.doSemaWakeup else none

/-- The action does not overflow a counter. -/
def NoOverflow (s : Semaphore T) : Action T → Prop
  | .down _ => -2 ^ 31 < s.count
  | .up _ => s.count < 2 ^ 31 - 1
  | .lsyncTryUp => s.count < 2 ^ 31 - 1
  | .semaWakeup _ => s.taskList = [] → s.wakeupsWaiting < 2 ^ 31 - 1
  | .lsyncWakeup => s.taskList = [] → s.wakeupsWaiting < 2 ^ 31 - 1
  | _ => True

/-- The states after sequences of admitted actions on a semaphore initialised to `v`. -/
inductive Reach (v : ℤ) (admitted : Semaphore T → Action T → Prop) : Semaphore T → Prop where
  | init : Reach v admitted (init v)
  | step {s s'} (a : Action T) : Reach v admitted s → admitted s a → s.exec a = some s' → Reach v admitted s'

/-- No request is in flight, and no thread is between an atomic operation and the request after it. -/
def Quiet (s : Semaphore T) : Prop :=
  (∀ t, s.place t ≠ .downNegative ∧ s.place t ≠ .semaWait ∧ s.place t ≠ .upNegative ∧
    s.place t ≠ .semaWakeup) ∧ s.unlocking = false

/-! ## The invariant -/

variable {s s' : Semaphore T} {v : ℤ} {k k' : ℕ} {t : T} {x y : Place}

theorem queued_move (h : ∀ u, s.place u = .queued ↔ u ∈ s.taskList) (ht : s.place t = x) (hx : x ≠ .queued)
    (hy : y ≠ .queued) (u : T) : update s.place t y u = .queued ↔ u ∈ s.taskList := by
  by_cases hu : u = t
  · subst hu
    rw [update_self, ← h u, ht]
    exact iff_of_false hy hx
  · rw [update_of_ne hu, h]

variable [Fintype T]

/-- The invariant of a semaphore initialised to `v`, when the sync process is about to do `k` wakeups. -/
structure Inv (v : ℤ) (k : ℕ) (s : Semaphore T) : Prop where
  range : -2 ^ 31 ≤ s.count ∧ s.count < 2 ^ 31
  nonneg : 0 ≤ s.wakeupsWaiting ∧ s.wakeupsWaiting < 2 ^ 31
  /-- A thread waits for each unit that the count is below zero, and for each wakeup still to come. -/
  balance : (s.taskList.length : ℤ) + census Place.waits s.place =
    s.wakeupsWaiting + census Place.wakes s.place + s.unlocking.toNat + k + max 0 (-s.count)
  /-- What became of the downs. -/
  conservation : s.count + s.downs + census Place.isWoken s.place + census Place.waits s.place +
    s.taskList.length = v + s.ups
  exclusive : s.wakeupsWaiting = 0 ∨ s.taskList = []
  queued : ∀ t, s.place t = .queued ↔ t ∈ s.taskList
  nodup : s.taskList.Nodup

omit [DecidableEq T] in
theorem Inv.init (hv : 0 ≤ v ∧ v < 2 ^ 31) : Inv v 0 (init (T := T) v) where
  range := by constructor <;> simp only [Semaphore.init] <;> omega
  nonneg := by constructor <;> simp [Semaphore.init]
  balance := by
    rw [census_eq_zero fun _ => rfl, census_eq_zero fun _ => rfl]
    simp only [Semaphore.init, List.length_nil, Bool.toNat_false]
    omega
  conservation := by
    rw [census_eq_zero fun _ => rfl, census_eq_zero fun _ => rfl]
    simp [Semaphore.init]
  exclusive := .inl rfl
  queued t := by simp [Semaphore.init]
  nodup := List.nodup_nil

theorem census_move (ht : s.place t = x) (y : Place) :
    census Place.waits (update s.place t y) + x.waits.toNat =
        census Place.waits s.place + y.waits.toNat ∧
      census Place.wakes (update s.place t y) + x.wakes.toNat =
        census Place.wakes s.place + y.wakes.toNat ∧
      census Place.isWoken (update s.place t y) + x.isWoken.toNat =
        census Place.isWoken s.place + y.isWoken.toNat :=
  ht ▸ ⟨census_update _ _ _ _, census_update _ _ _ _, census_update _ _ _ _⟩

omit [DecidableEq T] in
theorem Inv.count (h : Inv v k s) {count : ℤ} {downs ups : ℕ} {unlocking : Bool}
    (hrange : -2 ^ 31 ≤ count ∧ count < 2 ^ 31)
    (hbalance : s.unlocking.toNat + k + max 0 (-s.count) = unlocking.toNat + k' + max 0 (-count))
    (hconservation : s.count + s.downs + ups = count + downs + s.ups) :
    Inv v k' { s with count := count, downs := downs, ups := ups, unlocking := unlocking } where
  range := hrange
  nonneg := h.nonneg
  balance := by
    have := h.balance
    dsimp only
    omega
  conservation := by
    have := h.conservation
    dsimp only
    omega
  exclusive := h.exclusive
  queued := h.queued
  nodup := h.nodup

theorem Inv.move (h : Inv v k s) (ht : s.place t = x) (hx : x ≠ .queued) (hy : y ≠ .queued) {count w : ℤ}
    {downs ups : ℕ} (hrange : -2 ^ 31 ≤ count ∧ count < 2 ^ 31) (hw : 0 ≤ w ∧ w ≤ s.wakeupsWaiting)
    (hbalance : s.wakeupsWaiting + x.wakes.toNat + k + max 0 (-s.count) + y.waits.toNat =
      w + y.wakes.toNat + k' + max 0 (-count) + x.waits.toNat)
    (hconservation : s.count + s.downs + ups + x.waits.toNat + x.isWoken.toNat =
      count + downs + s.ups + y.waits.toNat + y.isWoken.toNat) :
    Inv v k' { s.move t y with count := count, wakeupsWaiting := w, downs := downs, ups := ups } where
  range := hrange
  nonneg := ⟨hw.1, hw.2.trans_lt h.nonneg.2⟩
  balance := by
    have hbal := h.balance
    obtain ⟨hwaits, hwakes, -⟩ := census_move ht y
    simp only [Semaphore.move]
    omega
  conservation := by
    have hcons := h.conservation
    obtain ⟨hwaits, -, hwoken⟩ := census_move ht y
    simp only [Semaphore.move]
    omega
  exclusive := h.exclusive.imp_left fun h0 => by
    dsimp only
    omega
  queued := queued_move h.queued ht hx hy
  nodup := h.nodup

theorem Inv.pass (h : Inv v k s) (ht : s.place t = x) (hx : x ≠ .queued) (hy : y ≠ .queued)
    (hwakes : x.wakes.toNat + k + y.waits.toNat = y.wakes.toNat + k' + x.waits.toNat)
    (hwoken : x.waits.toNat + x.isWoken.toNat = y.waits.toNat + y.isWoken.toNat) : Inv v k' (s.move t y) :=
  h.move ht hx hy h.range ⟨h.nonneg.1, le_rfl⟩ (by omega) (by omega)

theorem Inv.queue (h : Inv v k s) (ht : s.place t = .semaWait) (hw : ¬0 < s.wakeupsWaiting) :
    Inv v k { s.move t .queued with taskList := s.taskList ++ [t] } := by
  have hnot : t ∉ s.taskList := fun hmem => by simpa [ht] using (h.queued t).2 hmem
  obtain ⟨hwaits, hwakes, hwoken⟩ := census_move ht .queued
  simp only [Place.waits, Place.wakes, Place.isWoken, Bool.toNat_true, Bool.toNat_false] at hwaits hwakes hwoken
  refine ⟨h.range, h.nonneg, ?_, ?_, .inl ?_, ?_, ?_⟩
  · have := h.balance
    simp only [Semaphore.move, List.length_append, List.length_singleton]
    omega
  · have := h.conservation
    simp only [Semaphore.move, List.length_append, List.length_singleton]
    omega
  · have := h.nonneg
    dsimp only [Semaphore.move]
    omega
  · intro u
    simp only [Semaphore.move, List.mem_append, List.mem_singleton]
    by_cases hu : u = t
    · simp [hu]
    · rw [update_of_ne hu, h.queued, or_iff_left hu]
  · exact List.nodup_append.2 ⟨h.nodup, List.nodup_singleton t, by
      intro a ha b hb heq
      exact hnot (List.mem_singleton.1 hb ▸ heq ▸ ha)⟩

/-- `doSemaWakeup` does one wakeup: it wakes the first thread on the task list, or keeps the wakeup. -/
theorem Inv.doSemaWakeup (h : Inv v 1 s) (hover : s.taskList = [] → s.wakeupsWaiting < 2 ^ 31 - 1) :
    Inv v 0 s.doSemaWakeup := by
  obtain ⟨count, w, taskList, place, unlocking, downs, ups⟩ := s
  obtain ⟨hrange, hnonneg, hbalance, hconservation, hexclusive, hqueued, hnodup⟩ := h
  dsimp only at *
  cases taskList with
  | nil =>
    have hlt := hover rfl
    simp only [Semaphore.doSemaWakeup]
    rw [int32_of_range (by omega) (by omega)]
    have hw : 0 ≤ w + 1 ∧ w + 1 < 2 ^ 31 := ⟨by omega, by omega⟩
    refine ⟨hrange, hw, ?_, hconservation, .inr rfl, hqueued, hnodup⟩
    dsimp only
    omega
  | cons t l =>
    have ht : place t = .queued := (hqueued t).2 List.mem_cons_self
    have hwaits := census_update Place.waits place t .woken
    have hwakes := census_update Place.wakes place t .woken
    have hwoken := census_update Place.isWoken place t .woken
    simp only [ht, Place.waits, Place.wakes, Place.isWoken, Bool.toNat_true, Bool.toNat_false]
      at hwaits hwakes hwoken
    obtain ⟨hnot, hl⟩ := List.nodup_cons.1 hnodup
    rw [List.length_cons] at hbalance hconservation
    refine ⟨hrange, hnonneg, ?_, ?_, .inl (hexclusive.resolve_right (List.cons_ne_nil t l)), ?_, hl⟩
    · simp only [Semaphore.doSemaWakeup, Semaphore.move]
      omega
    · simp only [Semaphore.doSemaWakeup, Semaphore.move]
      omega
    · intro u
      simp only [Semaphore.doSemaWakeup, Semaphore.move]
      by_cases hu : u = t
      · subst hu
        rw [update_self]
        exact iff_of_false (by simp) hnot
      · rw [update_of_ne hu, hqueued, List.mem_cons, or_iff_right hu]

theorem Inv.step (h : Inv v 0 s) (a : Action T) (hover : s.NoOverflow a) (hrun : s.exec a = some s') :
    Inv v 0 s' := by
  have hrange := h.range
  have hw := h.nonneg
  cases a with
  | down t =>
    have hlt : -2 ^ 31 < s.count := hover
    simp only [exec, Option.ite_none_right_eq_some] at hrun
    obtain ⟨ht, hrun⟩ := hrun
    rw [int32_of_range (by omega) (by omega)] at hrun
    by_cases hneg : s.count - 1 < 0
    · rw [if_pos hneg] at hrun
      obtain rfl := Option.some.inj hrun
      exact h.move ht (by simp) (by simp) ⟨by omega, by omega⟩ ⟨hw.1, le_rfl⟩
        (by simp [Place.waits, Place.wakes]; omega) (by simp [Place.waits, Place.isWoken]; omega)
    · rw [if_neg hneg] at hrun
      obtain rfl := Option.some.inj hrun
      exact h.count ⟨by omega, by omega⟩ (by omega) (by push_cast; omega)
  | callSemaWait t | readCount t | callSemaWakeup t =>
    simp only [exec, Option.ite_none_right_eq_some] at hrun
    obtain ⟨ht, hrun⟩ := hrun
    obtain rfl := Option.some.inj hrun
    exact h.pass ht (by simp) (by simp) rfl rfl
  | semaWait t =>
    simp only [exec, Option.ite_none_right_eq_some] at hrun
    obtain ⟨⟨ht, -⟩, hrun⟩ := hrun
    by_cases hpos : 0 < s.wakeupsWaiting
    · rw [if_pos hpos] at hrun
      obtain rfl := Option.some.inj hrun
      exact h.move ht (by simp) (by simp) hrange ⟨by omega, by omega⟩
        (by simp [Place.waits, Place.wakes]; omega) (by simp [Place.waits, Place.isWoken])
    · rw [if_neg hpos] at hrun
      obtain rfl := Option.some.inj hrun
      exact h.queue ht hpos
  | resume t =>
    simp only [exec, Option.ite_none_right_eq_some] at hrun
    obtain ⟨ht, hrun⟩ := hrun
    obtain rfl := Option.some.inj hrun
    exact h.move ht (by simp) (by simp) hrange ⟨hw.1, le_rfl⟩ (by simp [Place.waits, Place.wakes])
      (by simp [Place.waits, Place.isWoken]; omega)
  | tryDown t =>
    cases ht : s.place t with
    | tryDown newcnt =>
      simp only [exec, ht] at hrun
      by_cases hle : newcnt ≤ 0
      · rw [if_pos hle] at hrun
        obtain rfl := Option.some.inj hrun
        exact h.pass ht (by simp) (by simp) rfl rfl
      rw [if_neg hle] at hrun
      by_cases heq : s.count = newcnt
      · rw [if_pos heq, int32_of_range (by omega) (by omega)] at hrun
        obtain rfl := Option.some.inj hrun
        exact h.move ht (by simp) (by simp) ⟨by omega, by omega⟩ ⟨hw.1, le_rfl⟩
          (by simp [Place.waits, Place.wakes]; omega) (by simp [Place.waits, Place.isWoken]; omega)
      · rw [if_neg heq] at hrun
        obtain rfl := Option.some.inj hrun
        exact h.pass ht (by simp) (by simp) rfl rfl
    | _ => simp [exec, ht] at hrun
  | up t =>
    have hlt : s.count < 2 ^ 31 - 1 := hover
    simp only [exec, Option.ite_none_right_eq_some] at hrun
    obtain ⟨ht, hrun⟩ := hrun
    rw [int32_of_range (by omega) (by omega)] at hrun
    by_cases hneg : s.count + 1 ≤ 0
    · rw [if_pos hneg] at hrun
      obtain rfl := Option.some.inj hrun
      exact h.move ht (by simp) (by simp) ⟨by omega, by omega⟩ ⟨hw.1, le_rfl⟩
        (by simp [Place.waits, Place.wakes]; omega) (by simp [Place.waits, Place.isWoken]; omega)
    · rw [if_neg hneg] at hrun
      obtain rfl := Option.some.inj hrun
      exact h.count ⟨by omega, by omega⟩ (by omega) (by push_cast; omega)
  | semaWakeup t =>
    simp only [exec, Option.ite_none_right_eq_some] at hrun
    obtain ⟨⟨ht, -⟩, hrun⟩ := hrun
    obtain rfl := Option.some.inj hrun
    -- The request becomes a wakeup that the sync process is about to do.
    have hmove : Inv v 1 (s.move t .idle) := h.pass ht (by simp) (by simp) rfl rfl
    exact hmove.doSemaWakeup hover
  | lsyncTryUp =>
    have hlt : s.count < 2 ^ 31 - 1 := hover
    simp only [exec, Option.ite_none_right_eq_some] at hrun
    obtain ⟨hidle, hrun⟩ := hrun
    rw [int32_of_range (by omega) (by omega)] at hrun
    obtain rfl := Option.some.inj hrun
    refine h.count ⟨by omega, by omega⟩ ?_ (by push_cast; omega)
    rw [hidle]
    by_cases hneg : s.count + 1 ≤ 0
    · rw [decide_eq_true hneg, Bool.toNat_true, Bool.toNat_false]
      omega
    · rw [decide_eq_false hneg, Bool.toNat_false]
      omega
  | lsyncWakeup =>
    simp only [exec, Option.ite_none_right_eq_some] at hrun
    obtain ⟨hunlocking, hrun⟩ := hrun
    obtain rfl := Option.some.inj hrun
    have hcount : Inv v 1 { s with unlocking := false } :=
      h.count hrange (by simp [hunlocking]) rfl
    exact hcount.doSemaWakeup hover

theorem Reach.inv (hv : 0 ≤ v ∧ v < 2 ^ 31) (h : Reach v (fun s a => s.NoOverflow a) s) : Inv v 0 s := by
  induction h with
  | init => exact Inv.init hv
  | step a _ hover hrun ih => exact ih.step a hover hrun

omit [DecidableEq T] in
theorem Inv.downs_le (h : Inv v 0 s) : (s.downs : ℤ) ≤ v + s.ups := by
  have hbalance := h.balance
  have hconservation := h.conservation
  have hnonneg := h.nonneg
  omega

omit [DecidableEq T] in
theorem Inv.length_of_quiet (h : Inv v 0 s) (hquiet : s.Quiet) :
    (s.taskList.length : ℤ) = max 0 (-s.count) := by
  have hbalance := h.balance
  have hwaits : census Place.waits s.place = 0 := census_eq_zero fun t => by
    have := hquiet.1 t
    cases hplace : s.place t <;> simp_all [Place.waits]
  have hwakes : census Place.wakes s.place = 0 := census_eq_zero fun t => by
    have := hquiet.1 t
    cases hplace : s.place t <;> simp_all [Place.wakes]
  rw [hwaits, hwakes, hquiet.2, Bool.toNat_false] at hbalance
  have hnonneg := h.nonneg
  obtain h0 | hnil := h.exclusive
  · omega
  · rw [hnil, List.length_nil] at hbalance ⊢
    omega

end Semaphore

end CapROS.Cmte
