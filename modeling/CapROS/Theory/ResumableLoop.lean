import Mathlib.Data.Nat.Notation
import Mathlib.Logic.Basic

/-!
# Loops that are left and entered again

A loop goes round with a step that may fail, until a stop condition holds. All that it knows is in
its state, so it can be left at a coarse stop condition and entered again with a finer one.

* `Descends`: a measure that each step makes smaller. With more fuel than the measure, `run_unfold`
  is the equation of the loop without fuel.
-/

namespace ResumableLoop

variable {σ φ : Type} (step : σ → Except φ σ) (out : φ)

/-- Go round with `step` until `stop` holds, at most `fuel` times. -/
def run (stop : σ → Bool) : (fuel : ℕ) → σ → Except φ σ
  | 0, _ => .error out
  | fuel + 1, s => if stop s then .ok s else step s >>= run stop fuel

/-- Each successful step makes the measure smaller. -/
def Descends (μ : σ → ℕ) : Prop := ∀ s s', step s = .ok s' → μ s' < μ s

variable {step out} {μ : σ → ℕ} {stop : σ → Bool}

/-- With enough fuel, its amount does not matter. -/
theorem run_fuel (hμ : Descends step μ) (n : ℕ) :
    ∀ (m : ℕ) (s : σ), μ s < n → μ s < m → run step out stop n s = run step out stop m s := by
  induction n with
  | zero => exact fun _ _ h => absurd h (Nat.not_lt_zero _)
  | succ n ih =>
    intro m s hn hm
    match m, hm with
    | m + 1, hm =>
      simp only [run]
      split
      · rfl
      · cases h : step s with
        | error f => rfl
        | ok s' =>
          have hlt := hμ s s' h
          exact ih m s' (by omega) (by omega)

/-- The equation of the loop. -/
theorem run_unfold (hμ : Descends step μ) {n : ℕ} {s : σ} (hn : μ s < n) :
    run step out stop n s = if stop s then .ok s else step s >>= run step out stop n := by
  match n, hn with
  | n + 1, hn =>
    rw [run]
    split
    · rfl
    · cases h : step s with
      | error f => rfl
      | ok s' =>
        have hlt := hμ s s' h
        exact run_fuel hμ n (n + 1) s' (by omega) (by omega)

/-- What each step preserves, or leaves to the failure, a loop does that has enough fuel. -/
theorem run_invariant {I : σ → Prop} {F : φ → Prop} (hμ : Descends step μ)
    (hok : ∀ s s', I s → step s = .ok s' → I s') (hfail : ∀ s f, I s → step s = .error f → F f)
    (n : ℕ) :
    ∀ {s : σ}, μ s < n → I s →
      (∀ s', run step out stop n s = .ok s' → I s') ∧
        ∀ f, run step out stop n s = .error f → F f := by
  induction n with
  | zero => exact fun h => absurd h (Nat.not_lt_zero _)
  | succ n ih =>
    intro s hn hI
    rw [run]
    split
    · refine ⟨fun s' h => ?_, fun f h => nomatch h⟩
      cases h
      exact hI
    · cases hstep : step s with
      | error f =>
        refine ⟨fun s' h => (nomatch h), fun g h => ?_⟩
        cases h
        exact hfail s f hI hstep
      | ok s' =>
        have hlt := hμ s s' hstep
        exact ih (by omega) (hok s s' hI hstep)

/-- A loop that is left at a coarser stop condition and entered again goes on as if it had not
been left. -/
theorem run_resume {coarse fine : σ → Bool} (hμ : Descends step μ)
    (hstop : ∀ s, fine s = true → coarse s = true) (n : ℕ) :
    ∀ (m : ℕ) (s : σ), μ s < n → μ s < m →
      (run step out coarse m s >>= run step out fine n) = run step out fine n s := by
  intro m
  induction m with
  | zero => exact fun _ _ h => absurd h (Nat.not_lt_zero _)
  | succ m ih =>
    intro s hn hm
    rw [run]
    by_cases hc : coarse s = true
    · rw [if_pos hc]
      rfl
    · -- Where the coarse condition fails, so does the fine one: both loops take the same step.
      have hf : ¬fine s = true := fun h => hc (hstop s h)
      rw [if_neg hc, run_unfold hμ hn, if_neg hf]
      cases h : step s with
      | error f => rfl
      | ok s' =>
        have hlt := hμ s s' h
        exact ih s' (by omega) (by omega)

variable (step out) in
/-- Enter the loop once for each stop condition, each time with the state it was left in. -/
def stages (fuel : ℕ) : List (σ → Bool) → σ → Except φ σ
  | [], s => .ok s
  | stop :: rest, s => run step out stop fuel s >>= stages fuel rest

/-- A loop with stops on the way ends as it does without them. -/
theorem stages_eq {fine : σ → Bool} (hμ : Descends step μ) (n : ℕ) (stops : List (σ → Bool))
    (hstop : ∀ coarse ∈ stops, ∀ s, fine s = true → coarse s = true) :
    ∀ s, μ s < n → stages step out n (stops ++ [fine]) s = run step out fine n s := by
  induction stops with
  | nil =>
    intro s hn
    simp only [List.nil_append, stages]
    cases run step out fine n s <;> rfl
  | cons coarse stops ih =>
    intro s hn
    have ih := ih fun c hc => hstop c (List.mem_cons_of_mem coarse hc)
    simp only [List.cons_append, stages]
    rw [← run_resume hμ (hstop coarse (by simp)) n n s hn hn]
    -- The measure where the loop was left is no more than it was.
    have hleft : ∀ s', run step out coarse n s = .ok s' → μ s' < n :=
      (run_invariant (I := fun t => μ t < n) (F := fun _ => True) hμ
        (fun a b ha hab => Nat.lt_trans (hμ a b hab) ha) (fun _ _ _ _ => trivial) n hn hn).1
    cases h : run step out coarse n s with
    | error f => rfl
    | ok s' => exact ih s' (hleft s' h)

end ResumableLoop
