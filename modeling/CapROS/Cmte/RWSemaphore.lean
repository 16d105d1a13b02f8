import CapROS.Cmte.Semaphore

/-!
# Reader/writer semaphores of the multi-threaded environment

The operations of `base/lib/cmte/rwsem.c`, and `checkRwSem` of `sync.c`, which the sync process executes for
each request. Both try to get the lock by atomic operations on the activity. A thread that fails counts itself
as a contender and asks the sync process to wait; one that releases the lock and sees contenders asks it to
wake them. Any thread may release a lock that is held.
-/

namespace CapROS.Cmte

open Census
open Function (update update_self update_of_ne)

/-- What one turn of the loop of a trylock does. -/
inductive Try where
  | failed
  /-- The activity was as expected, and is changed. -/
  | got (activity : ℤ)
  /-- The activity was something else. -/
  | again (newcnt : ℤ)

/-- The loop of `CMTERWSemaphore_tryDownRead`. -/
def tryDownRead (activity newcnt : ℤ) : Try :=
  if newcnt < 0 then .failed
  else if activity = newcnt then .got (int32 (newcnt + 1))
  else .again activity

/-- The loop of `CMTERWSemaphore_tryDownWrite`. -/
def tryDownWrite (activity newcnt : ℤ) : Try :=
  if newcnt ≠ 0 then .failed
  else if activity = newcnt then .got (-1)
  else .again activity

/-- The loop of one of the two. -/
def tryDown (write : Bool) (activity newcnt : ℤ) : Try :=
  if write then tryDownWrite activity newcnt else tryDownRead activity newcnt

/-- Where a thread is in the operations on a reader/writer semaphore. -/
inductive RWPlace where
  | idle
  /-- In the loop of a trylock, with the activity it saw last; on failure `downRead` and `downWrite` go on. -/
  | tryDown (write block : Bool) (newcnt : ℤ)
  /-- The trylock of `downRead` or `downWrite` has failed. -/
  | failed (write : Bool)
  /-- A contender, whose request `rwsemWait` is to be sent or in flight. -/
  | rwsemWait (write : Bool)
  /-- On one of the lists of waiters. -/
  | queued
  /-- The reply to `rwsemWait` is in flight. -/
  | woken
  /-- The activity is changed, and the contenders are to be read. -/
  | released
  /-- The request `rwsemWakeup` is to be sent or in flight. -/
  | rwsemWakeup
  /-- The sync process has taken the request `rwsemWakeup`. -/
  | served
  deriving DecidableEq

namespace RWPlace

/-- A contender whose request has not been taken. -/
def contends : RWPlace → Bool
  | .rwsemWait _ => true
  | _ => false

/-- The thread has released the lock, and may still ask to wake the waiters. -/
def releases : RWPlace → Bool
  | .released | .rwsemWakeup => true
  | _ => false

end RWPlace

/-- Where the sync process is in `checkRwSem`: the writers come before the readers. -/
inductive SyncPlace where
  | idle
  /-- About to look at a list of waiters. -/
  | check (write : Bool)
  /-- In the loop of a trylock for the first waiter. -/
  | tryDown (write : Bool) (newcnt : ℤ)
  /-- The first waiter has got the lock. -/
  | got (write : Bool)
  /-- The first waiter is no longer a contender, and is to be woken. -/
  | wake (write : Bool)
  /-- `checkRwSem` has returned. -/
  | finish
  deriving DecidableEq

/-- The first waiter no longer counts as a contender. -/
def SyncPlace.wakes : SyncPlace → Bool
  | .wake _ => true
  | _ => false

/-- `struct CMTERWSemaphore`, its holders, the threads and the sync process. -/
structure RWSemaphore (T : Type) where
  activity : ℤ
  contenders : ℤ
  readWaiters : List T
  writeWaiters : List T
  /-- The threads that hold the lock for reading. -/
  readers : List T
  /-- The threads that hold the lock for writing. -/
  writers : List T
  place : T → RWPlace
  sync : SyncPlace
  /-- The thread that waits for the reply of the sync process. -/
  caller : Option T

/-- What happens: `sync` is the next step of `checkRwSem`. -/
inductive RWAction (T : Type) where
  | down (t : T) (write block : Bool)
  | tryDown (t : T)
  | contend (t : T)
  | rwsemWait (t : T)
  | resume (t : T)
  | upRead (t holder : T)
  | upWrite (t holder : T)
  | downgradeWrite (t holder : T)
  | readContenders (t : T)
  | rwsemWakeup (t : T)
  | sync

namespace RWSemaphore

variable {T : Type}

/-- `CMTERWSemaphore_init`, before any operation. -/
def init : RWSemaphore T := ⟨0, 0, [], [], [], [], fun _ => .idle, .idle, none⟩

/-- The list of waiters of a kind. -/
def waiters (s : RWSemaphore T) (write : Bool) : List T := if write then s.writeWaiters else s.readWaiters

/-- The threads get the lock. -/
def hold (s : RWSemaphore T) (write : Bool) (l : List T) : RWSemaphore T :=
  if write then { s with writers := l ++ s.writers } else { s with readers := l ++ s.readers }

/-- A waiter is put at the end of its list. -/
def enqueue (s : RWSemaphore T) (write : Bool) (t : T) : RWSemaphore T :=
  if write then { s with writeWaiters := s.writeWaiters ++ [t] }
  else { s with readWaiters := s.readWaiters ++ [t] }

section Exec

variable [DecidableEq T]

/-- The thread goes to another place. -/
def move (s : RWSemaphore T) (t : T) (x : RWPlace) : RWSemaphore T :=
  { s with place := update s.place t x }

/-- The next step of `checkRwSem`, or the reply after it. -/
def syncStep (s : RWSemaphore T) : Option (RWSemaphore T) :=
  match s.sync with
  | .idle => none
  | .check write =>
    if s.waiters write = [] then some { s with sync := if write then .check false else .finish }
    else some { s with sync := .tryDown write s.activity }
  | .tryDown write newcnt =>
    match Cmte.tryDown write s.activity newcnt with
    | .failed => some { s with sync := if write then .check false else .finish }
    | .got activity =>
      some ({ s with activity := activity, sync := .got write }.hold write ((s.waiters write).take 1))
    | .again newcnt => some { s with sync := .tryDown write newcnt }
  | .got write => some { s with contenders := int32 (s.contenders - 1), sync := .wake write }
  | .wake true =>
    match s.writeWaiters with
    | [] => none
    | t :: l => some { s.move t .woken with writeWaiters := l, sync := .finish }
  | .wake false =>
    match s.readWaiters with
    | [] => none
    | t :: l => some { s.move t .woken with readWaiters := l, sync := .check false }
  | .finish =>
    match s.caller with
    | none => some { s with sync := .idle }
    | some t => some { s.move t .idle with sync := .idle, caller := none }

def exec (s : RWSemaphore T) : RWAction T → Option (RWSemaphore T)
  | .down t write block =>
    if s.place t = .idle then some (s.move t (.tryDown write block s.activity)) else none
  | .tryDown t =>
    match s.place t with
    | .tryDown write block newcnt =>
      match Cmte.tryDown write s.activity newcnt with
      | .failed => some (s.move t (if block then .failed write else .idle))
      | .got activity => some ({ s.move t .idle with activity := activity }.hold write [t])
      | .again newcnt => some (s.move t (.tryDown write block newcnt))
    | _ => none
  | .contend t =>
    match s.place t with
    | .failed write => some { s.move t (.rwsemWait write) with contenders := int32 (s.contenders + 1) }
    | _ => none
  | .rwsemWait t =>
    match s.place t with
    | .rwsemWait write =>
      if s.sync = .idle then some { (s.move t .queued).enqueue write t with sync := .check true } else none
    | _ => none
  | .resume t => if s.place t = .woken then some (s.move t .idle) else none
  | .upRead t holder =>
    if s.place t = .idle ∧ holder ∈ s.readers then
      some { s.move t .released with
        activity := int32 (s.activity - 1), readers := s.readers.erase holder }
    else none
  | .upWrite t holder =>
    if s.place t = .idle ∧ holder ∈ s.writers then
      some { s.move t .released with
        activity := int32 (s.activity + 1), writers := s.writers.erase holder }
    else none
  | .downgradeWrite t holder =>
    if s.place t = .idle ∧ holder ∈ s.writers then
      some { s.move t .released with
        activity := int32 (s.activity + 2), writers := s.writers.erase holder, readers := holder :: s.readers }
    else none
  | .readContenders t =>
    if s.place t = .released then
      some (s.move t (if 0 < s.contenders then .rwsemWakeup else .idle))
    else none
  | .rwsemWakeup t =>
    if s.place t = .rwsemWakeup ∧ s.sync = .idle then
      some { s.move t .served with sync := .check true, caller := some t }
    else none
  | .sync => s.syncStep

/-- The action does not overflow a counter. -/
def NoOverflow (s : RWSemaphore T) : RWAction T → Prop
  | .tryDown t => ∀ block, s.place t = .tryDown false block s.activity → s.activity < 2 ^ 31 - 1
  | .contend _ => s.contenders < 2 ^ 31 - 1
  | .sync => s.sync = .tryDown false s.activity → s.activity < 2 ^ 31 - 1
  | _ => True

/-- The states after sequences of admitted actions. -/
inductive Reach (admitted : RWSemaphore T → RWAction T → Prop) : RWSemaphore T → Prop where
  | init : Reach admitted init
  | step {s s'} (a : RWAction T) : Reach admitted s → admitted s a → s.exec a = some s' → Reach admitted s'

end Exec

/-- No request is in flight or being served, and no thread is between an atomic operation and the request
after it. -/
def Quiet (s : RWSemaphore T) : Prop :=
  (∀ t, (∀ write, s.place t ≠ .failed write ∧ s.place t ≠ .rwsemWait write) ∧ s.place t ≠ .released ∧
    s.place t ≠ .rwsemWakeup) ∧ s.sync = .idle

/-! ## The trylocks -/

variable {activity newcnt activity' : ℤ} {write : Bool}

theorem tryDown_failed (h : Cmte.tryDown write activity newcnt = .failed) :
    (write = true ∧ newcnt ≠ 0) ∨ (write = false ∧ newcnt < 0) := by
  cases write with
  | true =>
    simp only [Cmte.tryDown, tryDownWrite, if_true] at h
    split_ifs at h with h0
    exact .inl ⟨rfl, h0⟩
  | false =>
    simp only [Cmte.tryDown, tryDownRead, Bool.false_eq_true, if_false] at h
    split_ifs at h with h0
    exact .inr ⟨rfl, h0⟩

theorem tryDown_again
    (h : Cmte.tryDown write activity newcnt = .again activity') : activity' = activity := by
  cases write with
  | true | false =>
    simp only [Cmte.tryDown, tryDownWrite, tryDownRead, Bool.false_eq_true, if_true, if_false] at h
    split_ifs at h
    exact (Try.again.inj h).symm

theorem tryDown_got (h : Cmte.tryDown write activity newcnt = .got activity') :
    activity = newcnt ∧ ((write = true ∧ activity = 0 ∧ activity' = -1) ∨
      (write = false ∧ 0 ≤ activity ∧ activity' = int32 (activity + 1))) := by
  cases write with
  | true =>
    simp only [Cmte.tryDown, tryDownWrite, if_true] at h
    split_ifs at h with h0 ha
    exact ⟨ha, .inl ⟨rfl, ha.trans (not_not.1 h0), (Try.got.inj h).symm⟩⟩
  | false =>
    simp only [Cmte.tryDown, tryDownRead, Bool.false_eq_true, if_false] at h
    split_ifs at h with h0 ha
    exact ⟨ha, .inr ⟨rfl, ha ▸ not_lt.1 h0, ha ▸ (Try.got.inj h).symm⟩⟩

/-! ## The invariant -/

/-- The holders are the readers that the activity counts, or one writer. -/
def Holders (activity : ℤ) (readers writers : List T) : Prop :=
  (writers = [] ∧ activity = readers.length) ∨ (writers.length = 1 ∧ readers = [] ∧ activity = -1)

/-- The lock is held, or a thread that has released it may still ask to wake the waiters. -/
def Covered (activity : ℤ) (place : T → RWPlace) : Prop :=
  activity ≠ 0 ∨ ∃ t, (place t).releases = true

end RWSemaphore

/-- While the sync process works for the first waiter, there is one. -/
def SyncPlace.Occupied {T : Type} (readWaiters writeWaiters : List T) : SyncPlace → Prop
  | .tryDown write _ | .got write | .wake write => (if write then writeWaiters else readWaiters) ≠ []
  | _ => True

/-- The sync process will not look at some waiter again, or has seen that the lock is held: a holder has to
wake the waiters. -/
def SyncPlace.Leaves {T : Type} (readWaiters writeWaiters : List T) : SyncPlace → Prop
  | .idle | .finish => readWaiters ≠ [] ∨ writeWaiters ≠ []
  | .check true => False
  | .tryDown true newcnt => newcnt ≠ 0
  -- The waiter that has got the lock will not be left.
  | .got true | .wake true => 2 ≤ (readWaiters ++ writeWaiters).length
  | .check false | .got false | .wake false => writeWaiters ≠ []
  | .tryDown false newcnt => writeWaiters ≠ [] ∨ newcnt < 0

theorem SyncPlace.not_leaves {T : Type} {readWaiters writeWaiters : List T} {sync : SyncPlace}
    (hoccupied : sync.Occupied readWaiters writeWaiters)
    (hlength : (readWaiters ++ writeWaiters).length ≤ sync.wakes.toNat) :
    ¬sync.Leaves readWaiters writeWaiters := by
  intro hleaves
  by_cases hwakes : sync.wakes = true
  · -- The one waiter is the one that is woken.
    rw [hwakes, Bool.toNat_true] at hlength
    cases sync with
    | wake write =>
      cases write with
      | true =>
        have htwo : 2 ≤ (readWaiters ++ writeWaiters).length := hleaves
        omega
      | false =>
        have hr := List.length_pos_iff.2 (show readWaiters ≠ [] from hoccupied)
        have hw := List.length_pos_iff.2 (show writeWaiters ≠ [] from hleaves)
        rw [List.length_append] at hlength
        omega
    | _ => simp [SyncPlace.wakes] at hwakes
  · rw [Bool.eq_false_of_not_eq_true hwakes, Bool.toNat_false] at hlength
    obtain ⟨rfl, rfl⟩ := List.append_eq_nil_iff.1 (List.length_eq_zero_iff.1 (Nat.le_zero.1 hlength))
    cases sync with
    | idle | finish => simp [SyncPlace.Leaves] at hleaves
    | check write => cases write <;> simp [SyncPlace.Leaves] at hleaves
    | tryDown write newcnt | got write | wake write => cases write <;> simp [SyncPlace.Occupied] at hoccupied

namespace RWSemaphore

variable {T : Type} [Fintype T]

structure Inv (s : RWSemaphore T) : Prop where
  range : s.activity < 2 ^ 31 ∧ s.contenders < 2 ^ 31
  holders : Holders s.activity s.readers s.writers
  contenders : s.contenders + s.sync.wakes.toNat =
    census RWPlace.contends s.place + (s.readWaiters ++ s.writeWaiters).length
  queued : ∀ t, s.place t = .queued ↔ t ∈ s.readWaiters ++ s.writeWaiters
  nodup : (s.readWaiters ++ s.writeWaiters).Nodup
  caller : ∀ t, s.caller = some t → s.place t = .served
  occupied : s.sync.Occupied s.readWaiters s.writeWaiters
  /-- No wakeup is lost. -/
  covered : s.sync.Leaves s.readWaiters s.writeWaiters → Covered s.activity s.place

theorem Inv.init : Inv (init (T := T)) where
  range := by constructor <;> simp [RWSemaphore.init]
  holders := .inl ⟨rfl, rfl⟩
  contenders := by
    rw [census_eq_zero fun _ => rfl]
    rfl
  queued t := by simp [RWSemaphore.init]
  nodup := List.nodup_nil
  caller t h := nomatch h
  occupied := trivial
  covered h := by simp [RWSemaphore.init, SyncPlace.Leaves] at h

section Moves

variable [DecidableEq T] {s s' : RWSemaphore T} {t : T} {x y : RWPlace}

variable {activity activity' contenders : ℤ} {place : T → RWPlace}

omit [Fintype T] in
theorem covered_of_releases (hy : y.releases = true) :
    Covered activity (update place t y) :=
  .inr ⟨t, by rw [update_self, hy]⟩

omit [Fintype T] in
theorem Covered.update (h : Covered activity place)
    (ht : place t = x) (hx : x.releases = false) (hactivity : activity ≠ 0 → activity' ≠ 0) :
    Covered activity' (update place t y) := by
  obtain h0 | ⟨u, hu⟩ := h
  · exact .inl (hactivity h0)
  · refine .inr ⟨u, ?_⟩
    have hne : u ≠ t := by
      rintro rfl
      rw [ht, hx] at hu
      exact Bool.false_ne_true hu
    rw [update_of_ne hne, hu]

omit [DecidableEq T] in
theorem Inv.caller_ne (h : Inv s) (ht : s.place t = x) (hx : x ≠ .served) : s.caller ≠ some t :=
  fun hcaller => hx (ht ▸ h.caller t hcaller)

variable {readers writers readWaiters writeWaiters : List T}

theorem Inv.move (h : Inv s) (ht : s.place t = x) (hx : x ≠ .queued) (hserved : s.caller ≠ some t)
    (hy : y ≠ .queued)
    (hrange : activity < 2 ^ 31 ∧ contenders < 2 ^ 31)
    (hholders : Holders activity readers writers)
    (hcontenders : contenders + x.contends.toNat = s.contenders + y.contends.toNat)
    (hcovered : s.sync.Leaves s.readWaiters s.writeWaiters → Covered s.activity s.place →
      Covered activity (update s.place t y)) :
    Inv { s.move t y with
      activity := activity, contenders := contenders, readers := readers, writers := writers } where
  range := hrange
  holders := hholders
  contenders := by
    have hcount := census_update RWPlace.contends s.place t y
    have := h.contenders
    rw [ht] at hcount
    dsimp only [RWSemaphore.move]
    omega
  queued u := by
    dsimp only [RWSemaphore.move]
    by_cases hu : u = t
    · subst hu
      rw [update_self, ← h.queued u, ht]
      exact iff_of_false hy hx
    · rw [update_of_ne hu, h.queued]
  nodup := h.nodup
  caller u hu := by
    have hcaller := h.caller u hu
    have hne : u ≠ t := by
      rintro rfl
      exact hserved hu
    dsimp only [RWSemaphore.move]
    rw [update_of_ne hne, hcaller]
  occupied := h.occupied
  covered hleaves := hcovered hleaves (h.covered hleaves)

omit [DecidableEq T] in
theorem Inv.sync (h : Inv s) {sync : SyncPlace}
    (hrange : activity < 2 ^ 31 ∧ contenders < 2 ^ 31) (hholders : Holders activity readers writers)
    (hcontenders : contenders + sync.wakes.toNat = s.contenders + s.sync.wakes.toNat)
    (hoccupied : sync.Occupied s.readWaiters s.writeWaiters)
    (hcovered : sync.Leaves s.readWaiters s.writeWaiters → Covered activity s.place) :
    Inv { s with activity := activity, contenders := contenders, readers := readers, writers := writers,
                 sync := sync } where
  range := hrange
  holders := hholders
  contenders := hcontenders.trans h.contenders
  queued := h.queued
  nodup := h.nodup
  caller := h.caller
  occupied := hoccupied
  covered := hcovered

variable {write : Bool}

theorem Inv.queue (h : Inv s) (ht : s.place t = .rwsemWait write) (hsync : s.sync = .idle)
    (hperm : (readWaiters ++ writeWaiters).Perm (t :: (s.readWaiters ++ s.writeWaiters))) :
    Inv { s.move t .queued with
      readWaiters := readWaiters, writeWaiters := writeWaiters, sync := .check true } := by
  have hnot : t ∉ s.readWaiters ++ s.writeWaiters := fun hmem => by simpa [ht] using (h.queued t).2 hmem
  refine ⟨h.range, h.holders, ?_, fun u => ?_, ?_, fun u hu => ?_, trivial, fun hleaves => hleaves.elim⟩
  · have hcount := census_update RWPlace.contends s.place t .queued
    have hcontenders := h.contenders
    have hlength := hperm.length_eq
    rw [ht] at hcount
    rw [hsync] at hcontenders
    rw [List.length_cons] at hlength
    simp only [RWPlace.contends, SyncPlace.wakes, Bool.toNat_true, Bool.toNat_false] at hcount hcontenders
    simp only [RWSemaphore.move, SyncPlace.wakes, Bool.toNat_false]
    omega
  · dsimp only [RWSemaphore.move]
    rw [hperm.mem_iff, List.mem_cons]
    by_cases hu : u = t
    · simp [hu]
    · rw [update_of_ne hu, h.queued, or_iff_right hu]
  · exact hperm.nodup_iff.2 (List.nodup_cons.2 ⟨hnot, h.nodup⟩)
  · have hcaller := h.caller u hu
    have hne : u ≠ t := by
      rintro rfl
      simp [ht] at hcaller
    dsimp only [RWSemaphore.move]
    rw [update_of_ne hne, hcaller]

theorem Inv.wake (h : Inv s) (hwakes : s.sync.wakes = true)
    {sync : SyncPlace} (hperm : (s.readWaiters ++ s.writeWaiters).Perm (t :: (readWaiters ++ writeWaiters)))
    (hsync : sync.wakes = false) (hoccupied : sync.Occupied readWaiters writeWaiters)
    (hleaves : sync.Leaves readWaiters writeWaiters → s.sync.Leaves s.readWaiters s.writeWaiters) :
    Inv { s.move t .woken with
      readWaiters := readWaiters, writeWaiters := writeWaiters, sync := sync } := by
  have ht : s.place t = .queued := (h.queued t).2 (hperm.mem_iff.2 List.mem_cons_self)
  obtain ⟨hnot, hnodup⟩ := List.nodup_cons.1 (hperm.nodup_iff.1 h.nodup)
  refine ⟨h.range, h.holders, ?_, fun u => ?_, hnodup, fun u hu => ?_, hoccupied, fun hl => ?_⟩
  · have hcount := census_update RWPlace.contends s.place t .woken
    have hcontenders := h.contenders
    have hlength := hperm.length_eq
    rw [ht] at hcount
    rw [hwakes, Bool.toNat_true] at hcontenders
    rw [List.length_cons] at hlength
    simp only [RWPlace.contends, Bool.toNat_false] at hcount
    simp only [RWSemaphore.move, hsync, Bool.toNat_false]
    omega
  · dsimp only [RWSemaphore.move]
    by_cases hu : u = t
    · subst hu
      rw [update_self]
      exact iff_of_false (by simp) hnot
    · rw [update_of_ne hu, h.queued, hperm.mem_iff, List.mem_cons, or_iff_right hu]
  · have hcaller := h.caller u hu
    have hne : u ≠ t := by
      rintro rfl
      simp [ht] at hcaller
    dsimp only [RWSemaphore.move]
    rw [update_of_ne hne, hcaller]
  · exact (h.covered (hleaves hl)).update ht rfl id

omit [Fintype T] [DecidableEq T] in
theorem Holders.got {newcnt : ℤ}
    (h : Holders activity readers writers) (hgot : Cmte.tryDown write activity newcnt = .got activity')
    (hlt : write = false → activity < 2 ^ 31 - 1) (t : T) :
    activity' ≠ 0 ∧ activity' < 2 ^ 31 ∧
      Holders activity' (if write then readers else t :: readers) (if write then t :: writers else writers) := by
  obtain ⟨-, ⟨rfl, h0, rfl⟩ | ⟨rfl, hle, rfl⟩⟩ := tryDown_got hgot
  · refine ⟨by omega, by omega, .inr ?_⟩
    obtain ⟨rfl, hr⟩ | ⟨-, -, hneg⟩ := h
    · have hnil : readers = [] := List.length_eq_zero_iff.1 (by omega)
      exact ⟨rfl, hnil, rfl⟩
    · omega
  · have hlt := hlt rfl
    rw [int32_of_range (by omega) (by omega)]
    refine ⟨by omega, by omega, .inl ?_⟩
    obtain ⟨rfl, hr⟩ | ⟨-, -, hneg⟩ := h
    · refine ⟨rfl, ?_⟩
      rw [if_neg Bool.false_ne_true, List.length_cons, hr]
      rfl
    · omega

omit [Fintype T] in
theorem Holders.upRead (h : Holders activity readers writers)
    (ht : t ∈ readers) : 0 < activity ∧ Holders (activity - 1) (readers.erase t) writers := by
  have hlength := List.length_erase_of_mem ht
  have hpos := List.length_pos_of_mem ht
  obtain ⟨rfl, hr⟩ | ⟨-, rfl, -⟩ := h
  · exact ⟨by omega, .inl ⟨rfl, by omega⟩⟩
  · simp at ht

omit [Fintype T] in
theorem Holders.upWrite (h : Holders activity readers writers)
    (ht : t ∈ writers) : activity = -1 ∧ readers = [] ∧ writers.erase t = [] := by
  have hlength := List.length_erase_of_mem ht
  obtain ⟨rfl, -⟩ | ⟨hone, rfl, ha⟩ := h
  · simp at ht
  · exact ⟨ha, rfl, List.length_eq_zero_iff.1 (by omega)⟩

omit [DecidableEq T] in
theorem Inv.not_leaves (h : Inv s) (hcontenders : ¬0 < s.contenders) :
    ¬s.sync.Leaves s.readWaiters s.writeWaiters := by
  have hcount := h.contenders
  exact SyncPlace.not_leaves h.occupied (by omega)

theorem Inv.syncStep (h : Inv s) (hover : s.NoOverflow .sync) (hrun : s.syncStep = some s') : Inv s' := by
  obtain ⟨activity, contenders, readWaiters, writeWaiters, readers, writers, place, sync, caller⟩ := s
  have hlt : sync = .tryDown false activity → activity < 2 ^ 31 - 1 := hover
  have hcontenders := h.contenders
  have hoccupied := h.occupied
  have hcovered := h.covered
  cases sync with
  | idle => simp [RWSemaphore.syncStep] at hrun
  | check write =>
    by_cases hnil : (if write then writeWaiters else readWaiters) = []
    · simp only [RWSemaphore.syncStep, waiters, if_pos hnil] at hrun
      obtain rfl := Option.some.inj hrun
      cases write with
      | true => exact h.sync h.range h.holders rfl trivial fun hleaves => (hleaves hnil).elim
      | false =>
        refine h.sync h.range h.holders rfl trivial fun hleaves => hcovered ?_
        exact hleaves.resolve_left (not_not.2 hnil)
    · simp only [RWSemaphore.syncStep, waiters, if_neg hnil] at hrun
      obtain rfl := Option.some.inj hrun
      refine h.sync h.range h.holders rfl hnil fun hleaves => ?_
      cases write with
      | true => exact .inl hleaves
      | false => exact hleaves.elim hcovered fun hneg => .inl (ne_of_lt hneg)
  | tryDown write newcnt =>
    cases htry : Cmte.tryDown write activity newcnt with
    | failed =>
      simp only [RWSemaphore.syncStep, htry] at hrun
      obtain rfl := Option.some.inj hrun
      obtain ⟨rfl, hne⟩ | ⟨rfl, hneg⟩ := tryDown_failed htry
      · exact h.sync h.range h.holders rfl trivial fun _ => hcovered hne
      · exact h.sync h.range h.holders rfl trivial fun _ => hcovered (.inr hneg)
    | again newcnt' =>
      obtain rfl := tryDown_again htry
      simp only [RWSemaphore.syncStep, htry] at hrun
      obtain rfl := Option.some.inj hrun
      refine h.sync h.range h.holders rfl hoccupied fun hleaves => ?_
      cases write with
      | true => exact .inl hleaves
      | false => exact hleaves.elim (fun hne => hcovered (.inl hne)) fun hneg => .inl (ne_of_lt hneg)
    | got activity' =>
      simp only [RWSemaphore.syncStep, htry] at hrun
      obtain rfl := Option.some.inj hrun
      have hgot := tryDown_got htry
      cases write with
      | true =>
        obtain ⟨t, l, hl⟩ := List.exists_cons_of_ne_nil hoccupied
        obtain ⟨hne, hrange, hholders⟩ := h.holders.got htry (fun hw => nomatch hw) t
        subst hl
        exact h.sync ⟨hrange, h.range.2⟩ hholders rfl hoccupied fun _ => .inl hne
      | false =>
        obtain ⟨t, l, hl⟩ := List.exists_cons_of_ne_nil hoccupied
        obtain ⟨hne, hrange, hholders⟩ :=
          h.holders.got htry (fun _ => hlt (by rw [hgot.1])) t
        subst hl
        exact h.sync ⟨hrange, h.range.2⟩ hholders rfl hoccupied fun _ => .inl hne
  | got write =>
    simp only [RWSemaphore.syncStep] at hrun
    obtain rfl := Option.some.inj hrun
    -- The first waiter is on its list, so it is among the contenders.
    have hpos : 0 < (readWaiters ++ writeWaiters).length := by
      refine List.length_pos_iff.2 fun hnil => ?_
      obtain ⟨hr, hw⟩ := List.append_eq_nil_iff.1 hnil
      cases write with
      | true => exact hoccupied hw
      | false => exact hoccupied hr
    have hrange := h.range.2
    dsimp only at hrange
    simp only [SyncPlace.wakes, Bool.toNat_false] at hcontenders
    rw [int32_of_range (by omega) (by omega)]
    refine h.sync ⟨h.range.1, by omega⟩ h.holders (by simp [SyncPlace.wakes]) hoccupied fun hleaves => ?_
    cases write with
    | true | false => exact hcovered hleaves
  | wake write =>
    cases write with
    | true =>
      obtain ⟨t, l, rfl⟩ := List.exists_cons_of_ne_nil hoccupied
      obtain rfl := Option.some.inj hrun
      refine h.wake rfl List.perm_middle rfl trivial fun hleaves => ?_
      have hpos : 0 < (readWaiters ++ l).length := by
        refine List.length_pos_iff.2 fun hnil => ?_
        obtain ⟨hr, hw⟩ := List.append_eq_nil_iff.1 hnil
        exact hleaves.elim (absurd hr) (absurd hw)
      show 2 ≤ (readWaiters ++ t :: l).length
      rw [List.length_append] at hpos ⊢
      rw [List.length_cons]
      omega
    | false =>
      obtain ⟨t, l, rfl⟩ := List.exists_cons_of_ne_nil hoccupied
      obtain rfl := Option.some.inj hrun
      exact h.wake rfl (List.Perm.refl _) rfl trivial id
  | finish =>
    cases hcaller : caller with
    | none =>
      subst hcaller
      obtain rfl := Option.some.inj hrun
      exact h.sync h.range h.holders rfl trivial hcovered
    | some t =>
      subst hcaller
      obtain rfl := Option.some.inj hrun
      have ht : place t = .served := h.caller t rfl
      -- The reply, and then the thread that gets it.
      have hreply : Inv (T := T) ⟨activity, contenders, readWaiters, writeWaiters, readers, writers, place,
          .idle, none⟩ :=
        ⟨h.range, h.holders, h.contenders, h.queued, h.nodup, (fun _ hu => nomatch hu), trivial, h.covered⟩
      exact hreply.move ht (by simp) (fun hu => nomatch hu) (by simp) h.range h.holders rfl
        fun _ hcov => hcov.update ht rfl id

theorem Inv.step (h : Inv s) (a : RWAction T) (hover : s.NoOverflow a) (hrun : s.exec a = some s') :
    Inv s' := by
  cases a with
  | down t write block =>
    simp only [exec, Option.ite_none_right_eq_some] at hrun
    obtain ⟨ht, hrun⟩ := hrun
    obtain rfl := Option.some.inj hrun
    exact h.move ht (by simp) (h.caller_ne ht (by simp)) (by simp) h.range h.holders rfl
      fun _ hcov => hcov.update ht rfl id
  | tryDown t =>
    cases ht : s.place t with
    | tryDown write block newcnt =>
      have hcaller := h.caller_ne ht (by simp)
      cases htry : Cmte.tryDown write s.activity newcnt with
      | failed =>
        simp only [exec, ht, htry] at hrun
        obtain rfl := Option.some.inj hrun
        cases block with
        | true | false =>
          exact h.move ht (by simp) hcaller (by simp) h.range h.holders rfl
            fun _ hcov => hcov.update ht rfl id
      | again newcnt' =>
        simp only [exec, ht, htry] at hrun
        obtain rfl := Option.some.inj hrun
        exact h.move ht (by simp) hcaller (by simp) h.range h.holders rfl
          fun _ hcov => hcov.update ht rfl id
      | got activity' =>
        simp only [exec, ht, htry] at hrun
        obtain rfl := Option.some.inj hrun
        have hgot := tryDown_got htry
        cases write with
        | true =>
          obtain ⟨hne, hrange, hholders⟩ := h.holders.got htry (fun hw => nomatch hw) t
          exact h.move ht (by simp) hcaller (by simp) ⟨hrange, h.range.2⟩ hholders rfl fun _ _ => .inl hne
        | false =>
          obtain ⟨hne, hrange, hholders⟩ :=
            h.holders.got htry (fun _ => hover block (by rw [ht, hgot.1])) t
          exact h.move ht (by simp) hcaller (by simp) ⟨hrange, h.range.2⟩ hholders rfl fun _ _ => .inl hne
    | _ => simp [exec, ht] at hrun
  | contend t =>
    have hlt : s.contenders < 2 ^ 31 - 1 := hover
    cases ht : s.place t with
    | failed write =>
      simp only [exec, ht] at hrun
      obtain rfl := Option.some.inj hrun
      have hcontenders := h.contenders
      have hle : s.sync.wakes.toNat ≤ 1 := Bool.toNat_le _
      rw [int32_of_range (by omega) (by omega)]
      exact h.move ht (by simp) (h.caller_ne ht (by simp)) (by simp) ⟨h.range.1, by omega⟩ h.holders
        (by simp [RWPlace.contends]) fun _ hcov => hcov.update ht rfl id
    | _ => simp [exec, ht] at hrun
  | rwsemWait t =>
    cases ht : s.place t with
    | rwsemWait write =>
      simp only [exec, ht, Option.ite_none_right_eq_some] at hrun
      obtain ⟨hidle, hrun⟩ := hrun
      obtain rfl := Option.some.inj hrun
      cases write with
      | true =>
        refine h.queue ht hidle ?_
        show (s.readWaiters ++ (s.writeWaiters ++ [t])).Perm _
        rw [← List.append_assoc]
        exact List.perm_append_singleton t _
      | false =>
        refine h.queue ht hidle ?_
        show (s.readWaiters ++ [t] ++ s.writeWaiters).Perm _
        rw [List.append_assoc]
        exact List.perm_middle
    | _ => simp [exec, ht] at hrun
  | resume t =>
    simp only [exec, Option.ite_none_right_eq_some] at hrun
    obtain ⟨ht, hrun⟩ := hrun
    obtain rfl := Option.some.inj hrun
    exact h.move ht (by simp) (h.caller_ne ht (by simp)) (by simp) h.range h.holders rfl
      fun _ hcov => hcov.update ht rfl id
  | upRead t holder =>
    simp only [exec, Option.ite_none_right_eq_some] at hrun
    obtain ⟨⟨ht, hholder⟩, hrun⟩ := hrun
    obtain rfl := Option.some.inj hrun
    obtain ⟨hpos, hholders⟩ := h.holders.upRead hholder
    have hrange := h.range
    rw [int32_of_range (by omega) (by omega)]
    exact h.move ht (by simp) (h.caller_ne ht (by simp)) (by simp) ⟨by omega, hrange.2⟩ hholders rfl
      fun _ _ => covered_of_releases rfl
  | upWrite t holder =>
    simp only [exec, Option.ite_none_right_eq_some] at hrun
    obtain ⟨⟨ht, hholder⟩, hrun⟩ := hrun
    obtain rfl := Option.some.inj hrun
    obtain ⟨hone, hreaders, hnil⟩ := h.holders.upWrite hholder
    have hactivity : int32 (s.activity + 1) = (s.readers.length : ℤ) := by
      rw [hone, hreaders]
      exact (by decide : int32 (-1 + 1) = 0)
    rw [hactivity]
    exact h.move ht (by simp) (h.caller_ne ht (by simp)) (by simp) ⟨by simp [hreaders], h.range.2⟩
      (.inl ⟨hnil, rfl⟩) rfl fun _ _ => covered_of_releases rfl
  | downgradeWrite t holder =>
    simp only [exec, Option.ite_none_right_eq_some] at hrun
    obtain ⟨⟨ht, hholder⟩, hrun⟩ := hrun
    obtain rfl := Option.some.inj hrun
    obtain ⟨hone, hreaders, hnil⟩ := h.holders.upWrite hholder
    have hactivity : int32 (s.activity + 2) = 1 := by
      rw [hone]
      exact (by decide : int32 (-1 + 2) = 1)
    rw [hactivity, hreaders]
    exact h.move ht (by simp) (h.caller_ne ht (by simp)) (by simp) ⟨by decide, h.range.2⟩
      (.inl ⟨hnil, rfl⟩) rfl fun _ _ => covered_of_releases rfl
  | readContenders t =>
    simp only [exec, Option.ite_none_right_eq_some] at hrun
    obtain ⟨ht, hrun⟩ := hrun
    obtain rfl := Option.some.inj hrun
    by_cases hpos : 0 < s.contenders
    · rw [if_pos hpos]
      exact h.move ht (by simp) (h.caller_ne ht (by simp)) (by simp) h.range h.holders rfl
        fun _ _ => covered_of_releases rfl
    · rw [if_neg hpos]
      exact h.move ht (by simp) (h.caller_ne ht (by simp)) (by simp) h.range h.holders rfl
        fun hleaves _ => (h.not_leaves hpos hleaves).elim
  | rwsemWakeup t =>
    simp only [exec, Option.ite_none_right_eq_some] at hrun
    obtain ⟨⟨ht, hidle⟩, hrun⟩ := hrun
    obtain rfl := Option.some.inj hrun
    -- The thread waits for the reply, and the sync process looks at all the waiters.
    have hcheck : Inv { s with sync := .check true } :=
      h.sync h.range h.holders (by simp [hidle, SyncPlace.wakes]) trivial fun hleaves => hleaves.elim
    have hmove : Inv { s.move t .served with sync := .check true } :=
      hcheck.move ht (by simp) (h.caller_ne ht (by simp)) (by simp) h.range h.holders rfl
        fun hleaves _ => hleaves.elim
    refine ⟨hmove.range, hmove.holders, hmove.contenders, hmove.queued, hmove.nodup, fun u hu => ?_, trivial,
      fun hleaves => hleaves.elim⟩
    obtain rfl := Option.some.inj hu
    exact update_self _ _ _
  | sync => exact h.syncStep hover hrun

theorem Reach.inv (h : Reach (fun s a => s.NoOverflow a) s) : Inv s := by
  induction h with
  | init => exact Inv.init
  | step a _ hover hrun ih => exact ih.step a hover hrun

end Moves

theorem Inv.exclusive {s : RWSemaphore T} (h : Inv s) (hw : s.writers ≠ []) :
    s.readers = [] ∧ s.writers.length = 1 := by
  obtain ⟨hnil, -⟩ | ⟨hone, hreaders, -⟩ := h.holders
  · exact absurd hnil hw
  · exact ⟨hreaders, hone⟩

theorem Inv.held_of_quiet {s : RWSemaphore T} (h : Inv s) (hquiet : s.Quiet)
    (hwaits : s.readWaiters ≠ [] ∨ s.writeWaiters ≠ []) : s.readers ≠ [] ∨ s.writers ≠ [] := by
  have hcovered := h.covered
  rw [hquiet.2] at hcovered
  obtain hne | ⟨t, ht⟩ := hcovered hwaits
  · obtain ⟨-, hlength⟩ | ⟨hone, -, -⟩ := h.holders
    · exact .inl fun hnil => hne (by rw [hlength, hnil, List.length_nil, Nat.cast_zero])
    · exact .inr (List.length_pos_iff.1 (by omega))
  · have hplace := hquiet.1 t
    cases hp : s.place t <;> simp_all [RWPlace.releases]

end RWSemaphore

end CapROS.Cmte
