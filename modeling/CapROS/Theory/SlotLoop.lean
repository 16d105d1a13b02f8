import Mathlib.Data.Fin.Tuple.Basic

/-!
# Loops over the slots of an array

A loop that goes over an array from the first slot to the last, and computes each slot anew from that
slot alone. The computation may fail, which ends the loop.

* `run_eq_ok_iff`: the loop ends well when each slot does.
-/

namespace SlotLoop

variable {ε α β : Type}

/-- For each slot, from the first to the last: `y[i] = f(i, x[i])`. -/
def run : {n : ℕ} → (Fin n → α → Except ε β) → (Fin n → α) → Except ε (Fin n → β)
  | 0, _, _ => .ok Fin.elim0
  | _ + 1, f, x => do
    let first ← f 0 (x 0)
    let rest ← run (fun i => f i.succ) (fun i => x i.succ)
    .ok (Fin.cons first rest)

theorem run_eq_ok_iff {n : ℕ} {f : Fin n → α → Except ε β} {x : Fin n → α} {y : Fin n → β} :
    run f x = .ok y ↔ ∀ i, f i (x i) = .ok (y i) := by
  induction n with
  | zero =>
    refine ⟨fun _ i => i.elim0, fun _ => ?_⟩
    exact congrArg Except.ok (funext fun i => i.elim0)
  | succ n ih =>
    rw [Fin.forall_fin_succ]
    constructor
    · intro h
      cases hfirst : f 0 (x 0) with
      | error e =>
        simp only [run, hfirst] at h
        cases h
      | ok first =>
        cases hrest : run (fun i => f i.succ) (fun i => x i.succ) with
        | error e =>
          simp only [run, hfirst, hrest] at h
          cases h
        | ok rest =>
          simp only [run, hfirst, hrest] at h
          cases h
          exact ⟨rfl, ih.1 hrest⟩
    · rintro ⟨hfirst, hrest⟩
      have htail : run (fun i => f i.succ) (fun i => x i.succ) = .ok fun i => y i.succ := ih.2 hrest
      simp only [run, hfirst, htail]
      exact congrArg Except.ok (Fin.cons_self_tail y)

end SlotLoop
