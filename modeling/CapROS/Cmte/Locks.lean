import CapROS.Cmte.RWSemaphore

/-!
# The locks of the multi-threaded environment

Each semaphore and each reader/writer semaphore keeps its purpose in all runs in which no counter overflows.
The counters are 32 bits wide, and nothing stops an `up` of a semaphore whose count is the greatest.

* `locks_noOverflow`: the main result.
* `locks_fail`: the claim does not hold of all runs.
-/

namespace CapROS.Cmte

/-- What is claimed of a semaphore initialised to `v`. -/
structure Semaphore.Correct {T : Type} (v : ℤ) (s : Semaphore T) : Prop where
  /-- The downs that have completed are at most the initial value and the ups. -/
  bounded : s.downs ≤ v + s.ups
  /-- No wakeup is lost. -/
  waiting : s.Quiet → s.taskList.length = max 0 (-s.count)

structure RWSemaphore.Correct {T : Type} (s : RWSemaphore T) : Prop where
  /-- A writer is the only holder. -/
  exclusive : s.writers ≠ [] → s.readers = [] ∧ s.writers.length = 1
  /-- No wakeup is lost. -/
  held : s.Quiet → s.readWaiters ≠ [] ∨ s.writeWaiters ≠ [] → s.readers ≠ [] ∨ s.writers ≠ []

/-- The locks do what is claimed in the runs in which no counter overflows. -/
theorem locks_noOverflow {T : Type} [Fintype T] [DecidableEq T] {v : ℤ} {s : Semaphore T}
    {rw : RWSemaphore T} (hpos : 0 ≤ v) (hlt : v < 2 ^ 31) (hs : Semaphore.Reach v (fun s a => s.NoOverflow a) s)
    (hrw : RWSemaphore.Reach (fun s a => s.NoOverflow a) rw) : s.Correct v ∧ rw.Correct := by
  have hinv := hs.inv ⟨hpos, hlt⟩
  exact ⟨⟨hinv.downs_le, hinv.length_of_quiet⟩, ⟨hrw.inv.exclusive, hrw.inv.held_of_quiet⟩⟩

/-- A thread that waits for a semaphore, and another one that has got a lock for writing. -/
theorem locks_noOverflow_waiting : ∃ (s : Semaphore Bool) (rw : RWSemaphore Bool),
    s.taskList = [true] ∧ rw.writers = [false] ∧ s.Correct 0 ∧ rw.Correct := by
  have hdown := Semaphore.Reach.step (.down true)
    (@Semaphore.Reach.init Bool _ 0 fun s a => s.NoOverflow a) (by decide : (-2 ^ 31 : ℤ) < 0) rfl
  have hcall := hdown.step (.callSemaWait true) trivial rfl
  have hwait := hcall.step (.semaWait true) trivial rfl
  have hread := RWSemaphore.Reach.step (.down false true false)
    (@RWSemaphore.Reach.init Bool _ fun s a => s.NoOverflow a) trivial rfl
  have hwrite := hread.step (.tryDown false) (fun _ _ => (by decide : (0 : ℤ) < 2 ^ 31 - 1)) rfl
  exact ⟨_, _, rfl, rfl, locks_noOverflow le_rfl (by decide) hwait hwrite⟩

/-- One `up` of a semaphore initialised to the greatest `int`. The count becomes the least one, and the sync
process finds no thread to wake. -/
theorem locks_fail : ¬∀ {T : Type} [Fintype T] [DecidableEq T] {v : ℤ} {s : Semaphore T} {rw : RWSemaphore T},
    0 ≤ v → v < 2 ^ 31 → Semaphore.Reach v (fun _ _ => True) s → RWSemaphore.Reach (fun _ _ => True) rw →
    s.Correct v ∧ rw.Correct := by
  intro h
  have hup : Semaphore.Reach (2 ^ 31 - 1) (fun _ _ => True)
      (⟨-2 ^ 31, 0, [], Function.update (fun _ => .idle) () .upNegative, false, 0, 1⟩ : Semaphore Unit) :=
    .step (.up ()) .init trivial rfl
  have hcall := hup.step (.callSemaWakeup ()) trivial rfl
  have hwakeup := hcall.step (.semaWakeup ()) trivial rfl
  have hcorrect := (h (by decide) (by decide) hwakeup .init).1
  exact absurd (hcorrect.waiting ⟨fun t => by cases t; decide, rfl⟩) (by decide)

end CapROS.Cmte
