import Mathlib.Algebra.Group.Nat.Defs
import Mathlib.Order.Fin.Basic

/-!
# The timer thread

The timers of `base/lib/cmte/timer.c`. One thread sleeps until the soonest expiration and calls the functions
of the timers that have expired. When another thread puts a sooner timer at the front of the list, it takes
the timer thread out of its sleep: it marks `timerThreadState`, releases `timerLock`, and then sets the program
counter of the timer thread to `DoJump`.
-/

namespace CapROS.Cmte

inductive TimerThreadState where
  | working
  | sleeping
  | teleporting
  deriving DecidableEq

/-- `CMTETime_t`. -/
abbrev CMTETime := Fin (2 ^ 64)

/-- `capros_Sleep_infiniteTime`. -/
def infiniteTime : CMTETime := ⟨2 ^ 64 - 1, by decide⟩

theorem le_infiniteTime (t : CMTETime) : t ≤ infiniteTime := Nat.le_sub_one_of_lt t.isLt

/-- The calls of `CMTEMutex_lock` in `timerThreadProc`. -/
inductive LockSite where
  /-- After `setjmp` has returned 0. -/
  | start
  /-- After `longjmp`. -/
  | jump
  /-- After the sleep. -/
  | wake
  /-- After a timer function. -/
  | call
  deriving DecidableEq

/-- Where the timer thread is. -/
inductive TimerPlace where
  /-- About to call `CMTEMutex_lock`. -/
  | before (site : LockSite)
  /-- In `CMTEMutex_lock`: the lock will be given to it. -/
  | locking (site : LockSite)
  /-- At the top of the outer loop. -/
  | looping
  /-- In the loop over the expired timers. -/
  | expiring
  /-- In a timer function. -/
  | calling
  | sleeping
  /-- Waiting for ever, while another thread teleports it. -/
  | parked
  /-- An assertion has failed. -/
  | failed
  deriving DecidableEq

/-- Where a thread is that works on a timer. -/
inductive CallerPlace (τ : Type) where
  | idle
  /-- In `CMTEMutex_lock` of `CMTETimer_delete`. -/
  | deleting (timer : τ)
  /-- In `CMTEMutex_lock` of `CMTETimer_setExpiration`. -/
  | setting (timer : τ) (expiration : CMTETime)
  /-- In `CMTETimer_delete`, with the lock. -/
  | inDelete (timer : τ)
  /-- In `CMTETimer_setExpiration`, with the lock. -/
  | inSet (timer : τ) (expiration : CMTETime)
  /-- In `update_soonest_wait`, after the lock has been released to teleport the timer thread. -/
  | teleporting
  deriving DecidableEq

/-- The timer thread has the lock. -/
def TimerPlace.holds : TimerPlace → Bool
  | .looping | .expiring | .parked => true
  | _ => false

/-- The timer thread is in its sleep, or has woken by itself and does not have the lock yet. -/
def TimerPlace.sleeps : TimerPlace → Bool
  | .sleeping | .before .wake | .locking .wake => true
  | _ => false

/-- The timer thread will look at the expiration times before it sleeps. -/
def TimerPlace.works : TimerPlace → Bool
  | .before .start | .locking .start | .before .call | .locking .call | .looping | .expiring | .calling => true
  | _ => false

/-- The timer thread has been teleported and does not have the lock yet. -/
def TimerPlace.jumps : TimerPlace → Bool
  | .before .jump | .locking .jump => true
  | _ => false

/-- The timer thread is in `CMTEMutex_lock`. -/
def TimerPlace.waits : TimerPlace → Bool
  | .locking _ => true
  | _ => false

/-- The timer thread is trying to get the lock. -/
def TimerPlace.acquires : TimerPlace → Bool
  | .before _ | .locking _ => true
  | _ => false

theorem TimerPlace.works_only {x : TimerPlace} (h : x.works = true) :
    x.sleeps = false ∧ x.jumps = false ∧ x ≠ .parked := by
  cases x with
  | before site | locking site => cases site <;> revert h <;> decide
  | _ => revert h; decide

variable {T τ : Type}

/-- The thread has the lock. -/
def CallerPlace.holds : CallerPlace τ → Bool
  | .inDelete _ | .inSet _ _ => true
  | _ => false

/-- The thread is trying to get the lock. -/
def CallerPlace.acquires : CallerPlace τ → Bool
  | .deleting _ | .setting _ _ => true
  | _ => false

/-- The timers, and the threads `T` besides the timer thread. As a caller the timer thread is `none`. -/
structure Timers (T τ : Type) where
  /-- The thread that has `timerLock`. -/
  holder : Option (Option T)
  timeWaitingFor : CMTETime
  /-- The list at `timerHead`, with the expirations. -/
  list : List (τ × CMTETime)
  timerThreadState : TimerThreadState
  timerThread : TimerPlace
  caller : Option T → CallerPlace τ
  /-- The timer thread has been teleported out of `CMTEMutex_lock`, and the lock will be given to it all the
  same. -/
  orphan : Bool

def getSoonestExpiration : List (τ × CMTETime) → CMTETime
  | [] => infiniteTime
  | (_, expiration) :: _ => expiration

/-- The loop of `CMTETimer_setExpiration` over the list: the timer comes before the first one that does not
expire sooner. -/
def insertTimer (timer : τ) (expiration : CMTETime) : List (τ × CMTETime) → List (τ × CMTETime)
  | [] => [(timer, expiration)]
  | (timer', expiration') :: l =>
      if expiration ≤ expiration' then (timer, expiration) :: (timer', expiration') :: l
      else (timer', expiration') :: insertTimer timer expiration l

/-- The timer expires no later than the first one on the list, so that it is inserted after `timerHead`. -/
def comesFirst (expiration : CMTETime) : List (τ × CMTETime) → Bool
  | [] => true
  | (_, expiration') :: _ => expiration ≤ expiration'

/-- The timer is the first one on the list, so that `timerHead` is before it. -/
def isFirst [DecidableEq τ] (timer : τ) : List (τ × CMTETime) → Bool
  | [] => false
  | (timer', _) :: _ => timer' = timer

def removeTimer [DecidableEq τ] (timer : τ) (l : List (τ × CMTETime)) : List (τ × CMTETime) :=
  l.eraseP fun t => t.1 = timer

/-! ## The list -/

variable {e : CMTETime} {l : List (τ × CMTETime)} {timer : τ}

theorem mem_insertTimer {t : τ × CMTETime}
    (h : t ∈ insertTimer timer e l) : t = (timer, e) ∨ t ∈ l := by
  induction l with
  | nil => exact .inl (by simpa [insertTimer] using h)
  | cons u l ih =>
    unfold insertTimer at h
    split_ifs at h
    · simpa using h
    · rcases List.mem_cons.1 h with rfl | h
      · exact .inr (by simp)
      · exact (ih h).imp_right fun h => by simp [h]

theorem sorted_insertTimer (h : l.Pairwise fun a b => a.2 ≤ b.2) (timer : τ)
    (e : CMTETime) : (insertTimer timer e l).Pairwise fun a b => a.2 ≤ b.2 := by
  induction l with
  | nil => simp [insertTimer]
  | cons u l ih =>
    obtain ⟨hu, hl⟩ := List.pairwise_cons.1 h
    unfold insertTimer
    split_ifs with he
    · refine List.pairwise_cons.2 ⟨fun t ht => ?_, h⟩
      rcases List.mem_cons.1 ht with rfl | ht
      · exact he
      · exact he.trans (hu t ht)
    · refine List.pairwise_cons.2 ⟨fun t ht => ?_, ih hl⟩
      rcases mem_insertTimer ht with rfl | ht
      · exact (not_le.1 he).le
      · exact hu t ht

theorem soonest_le (h : l.Pairwise fun a b => a.2 ≤ b.2)
    {l' : List (τ × CMTETime)} (hsub : l'.Sublist l) : getSoonestExpiration l ≤ getSoonestExpiration l' := by
  cases l' with
  | nil => exact le_infiniteTime _
  | cons t l' =>
    have ht : t ∈ l := hsub.subset (by simp)
    cases l with
    | nil => cases ht
    | cons u l =>
      rcases List.mem_cons.1 ht with rfl | ht
      · exact le_rfl
      · exact (List.pairwise_cons.1 h).1 t ht

theorem soonest_removeTimer [DecidableEq τ]
    (h : isFirst timer l = false) :
    getSoonestExpiration (removeTimer timer l) = getSoonestExpiration l := by
  unfold removeTimer
  cases l with
  | nil => rfl
  | cons t l =>
    rw [List.eraseP_cons_of_neg (by simpa [isFirst] using h)]
    rfl

theorem soonest_insertTimer
    (h : comesFirst e l = false) : getSoonestExpiration (insertTimer timer e l) = getSoonestExpiration l := by
  cases l with
  | nil => cases h
  | cons t l =>
    have hle : ¬e ≤ t.2 := by simpa [comesFirst] using h
    rw [insertTimer, if_neg hle]
    rfl

/-! ## The threads -/

inductive TimerAction (T τ : Type) where
  /-- The timer thread calls `CMTEMutex_lock`. -/
  | request
  /-- The timer thread gets the lock. -/
  | grant
  /-- The lock is given to the timer thread, which no longer waits for it. -/
  | grantOrphan
  /-- The timer thread goes to sleep. -/
  | sleep
  /-- The timer thread wakes by itself. -/
  | wake
  /-- One round of the loop over the expired timers. -/
  | expire
  /-- A timer function returns. -/
  | finish
  /-- `CMTETimer_delete` is called. -/
  | delete (c : Option T) (timer : τ)
  /-- `CMTETimer_setExpiration` is called. -/
  | setExpiration (c : Option T) (timer : τ) (expiration : CMTETime)
  /-- The thread gets the lock. -/
  | lock (c : Option T)
  /-- The thread changes the list, and `update_soonest_wait` releases the lock. -/
  | update (c : Option T)
  /-- The thread sets the program counter of the timer thread and restarts it. -/
  | teleport (c : Option T)

namespace Timers

variable [DecidableEq T] [DecidableEq τ]

/-- The state before `timerThreadProc` starts. -/
def init : Timers T τ := ⟨none, infiniteTime, [], .working, .before .start, fun _ => .idle, false⟩

/-- `CMTETimer_IsPending`. -/
def isPending (s : Timers T τ) (timer : τ) : Bool := s.list.any fun t => t.1 = timer

/-- The thread goes to another place. -/
def move (s : Timers T τ) (c : Option T) (x : CallerPlace τ) : Timers T τ :=
  { s with caller := Function.update s.caller c x }

/-- `update_soonest_wait`, up to the release of the lock. -/
def updateSoonestWait (s : Timers T τ) (c : Option T) (prevIsHead : Bool) : Timers T τ :=
  if prevIsHead ∧ getSoonestExpiration s.list < s.timeWaitingFor ∧ s.timerThreadState = .sleeping then
    { s.move c .teleporting with timerThreadState := .teleporting, holder := none }
  else { s.move c .idle with holder := none }

/-- What the timer thread does when it has got the lock. -/
def enter (s : Timers T τ) : LockSite → Timers T τ
  | .start => { s with timerThread := .looping }
  | .jump =>
      if s.timerThreadState = .teleporting then
        { s with timerThreadState := .working, timerThread := .looping }
      else { s with timerThread := .failed }
  | .wake =>
      match s.timerThreadState with
      | .working => { s with timerThread := .failed }
      | .teleporting => { s with timerThread := .parked }
      | .sleeping => { s with timerThreadState := .working, timerThread := .expiring }
  | .call => { s with timerThread := .expiring }

/-- The thread may call a procedure: the timer thread only does so in a timer function. -/
def MayCall (s : Timers T τ) (c : Option T) : Prop :=
  s.caller c = .idle ∧ (c = none → s.timerThread = .calling)

instance (s : Timers T τ) (c : Option T) : Decidable (s.MayCall c) := inferInstanceAs (Decidable (_ ∧ _))

def exec (s : Timers T τ) : TimerAction T τ → Option (Timers T τ)
  | .request =>
      match s.timerThread with
      | .before site => some { s with timerThread := .locking site }
      | _ => none
  | .grant =>
      match s.timerThread with
      | .locking site => if s.holder = none then some ({ s with holder := some none }.enter site) else none
      | _ => none
  | .grantOrphan =>
      if s.orphan = true ∧ s.holder = none then some { s with holder := some none, orphan := false } else none
  | .sleep =>
      if s.timerThread = .looping then
        if s.timerThreadState = .working then
          some { s with
            timeWaitingFor := getSoonestExpiration s.list, timerThreadState := .sleeping, holder := none,
            timerThread := .sleeping }
        else some { s with timerThread := .failed }
      else none
  | .wake =>
      -- A sleep until the infinite time does not end.
      if s.timerThread = .sleeping ∧ s.timeWaitingFor < infiniteTime then
        some { s with timerThread := .before .wake }
      else none
  | .expire =>
      if s.timerThread = .expiring then
        match s.list with
        | [] => some { s with timerThread := .looping }
        | (_, expiration) :: l =>
            if s.timeWaitingFor < expiration then some { s with timerThread := .looping }
            else some { s with list := l, holder := none, timerThread := .calling }
      else none
  | .finish =>
      if s.timerThread = .calling ∧ s.caller none = .idle then some { s with timerThread := .before .call }
      else none
  | .delete c timer =>
      if s.MayCall c then some (if s.isPending timer then s.move c (.deleting timer) else s) else none
  | .setExpiration c timer expiration =>
      if s.MayCall c then some (s.move c (.setting timer expiration)) else none
  | .lock c =>
      if s.holder = none then
        match s.caller c with
        | .deleting timer => some { s.move c (.inDelete timer) with holder := some c }
        | .setting timer expiration => some { s.move c (.inSet timer expiration) with holder := some c }
        | _ => none
      else none
  | .update c =>
      match s.caller c with
      | .inDelete timer =>
          if s.isPending timer then
            some ({ s with list := removeTimer timer s.list }.updateSoonestWait c (isFirst timer s.list))
          else some { s.move c .idle with holder := none }
      | .inSet timer expiration =>
          let l := removeTimer timer s.list
          some ({ s with list := insertTimer timer expiration l }.updateSoonestWait c
            (comesFirst expiration l))
      | _ => none
  | .teleport c =>
      if s.caller c = .teleporting then
        some { s.move c .idle with
          timerThread := .before .jump
          orphan := s.orphan || s.timerThread.waits }
      else none

/-- The runs whose actions are all admitted. -/
inductive Run (admitted : Timers T τ → TimerAction T τ → Prop) : Timers T τ → Prop
  | init : Run admitted init
  | step {s s' : Timers T τ} (a : TimerAction T τ) (h : Run admitted s) (ha : admitted s a)
      (hrun : s.exec a = some s') : Run admitted s'

/-- The timer thread is teleported before it has begun to acquire the lock after a sleep. -/
def Proper (s : Timers T τ) : TimerAction T τ → Prop
  | .teleport _ => s.timerThread = .sleeping ∨ s.timerThread = .before .wake
  | _ => True

structure Correct (s : Timers T τ) : Prop where
  noFailure : s.timerThread ≠ .failed
  noRelock : s.timerThread.acquires = true → s.holder ≠ some none
  noRelockCaller : ∀ c, (s.caller c).acquires = true → s.holder ≠ some c
  sorted : s.list.Pairwise fun a b => a.2 ≤ b.2
  recheck : s.holder = none → getSoonestExpiration s.list < s.timeWaitingFor →
    s.timerThreadState = .working ∨ s.timerThreadState = .teleporting

end Timers

end CapROS.Cmte
