import Mathlib.Data.List.Range

/-!
# Programs that make calls

A program calls on a service and goes on with what it answers. The state belongs to the service, and
between the calls of the program others may change it.

* `Calls`: the programs, a monad. `stop` is a failed assertion.
* `Safe.bind`, `Safe.forEach_range'`: the rules of sequences and loops.
* `Answers`: the rules where only the answers matter.
-/

/-- A program that makes calls in `O`, which are answered in `R`, and returns an `α`. -/
inductive Calls (O R α : Type) where
  | done (a : α)
  | call (o : O) (next : R → Calls O R α)
  /-- An assertion fails. -/
  | stop

namespace Calls

variable {O R α β σ : Type}

/-- Go on with `f`. -/
def andThen : Calls O R α → (α → Calls O R β) → Calls O R β
  | done a, f => f a
  | call o next, f => call o fun r => (next r).andThen f
  | stop, _ => stop

instance : Monad (Calls O R) where
  pure := done
  bind := andThen

/-- A call. -/
def ask (o : O) : Calls O R R := call o done

/-- `assert(p)`. -/
def check (p : Prop) [Decidable p] : Calls O R Unit := if p then done () else stop

/-- A loop over a list, which ends with the first answer that is not `ok`. -/
def forEach {ε : Type} [DecidableEq ε] (ok : ε) (body : ℕ → Calls O R ε) : List ℕ → Calls O R ε
  | [] => done ok
  | j :: js => do
      let result ← body j
      if result = ok then forEach ok body js else done result

/-- What the service does with a call. -/
abbrev Service (O R σ : Type) := O → σ → R × σ

/-- The program alone. -/
def run (exec : Service O R σ) : Calls O R α → σ → Option (α × σ)
  | done a, s => some (a, s)
  | call o next, s => run exec (next (exec o s).1) (exec o s).2
  | stop, _ => none

/-- The program stops nowhere and ends with `post`, if the others change the state by `env` only. As
long as a call is to be made, `inv` holds. -/
def Safe (exec : Service O R σ) (env : O → σ → σ → Prop) (inv : O → σ → Prop) (post : α → σ → Prop) :
    Calls O R α → σ → Prop
  | done a, s => post a s
  | call o next, s => ∀ s', env o s s' →
      inv o s' ∧ Safe exec env inv post (next (exec o s').1) (exec o s').2
  | stop, _ => False

@[simp]
theorem pure_eq (a : α) : (pure a : Calls O R α) = done a := rfl

@[simp]
theorem done_bind (a : α) (f : α → Calls O R β) : (done a >>= f) = f a := rfl

@[simp]
theorem call_bind (o : O) (next : R → Calls O R α) (f : α → Calls O R β) :
    (call o next >>= f) = call o fun r => next r >>= f := rfl

@[simp]
theorem ask_bind (o : O) (f : R → Calls O R β) : (ask o >>= f) = call o f := rfl

theorem check_pos {p : Prop} [Decidable p] (h : p) : (check p : Calls O R Unit) = done () := if_pos h

namespace Safe

variable {exec : Service O R σ} {env : O → σ → σ → Prop} {inv : O → σ → Prop} {s s' : σ}
  {post : α → σ → Prop} {p : Calls O R α}

theorem mono {post' : α → σ → Prop} (h : Safe exec env inv post p s)
    (hpost : ∀ a s, post a s → post' a s) : Safe exec env inv post' p s := by
  induction p generalizing s with
  | done a => exact hpost a s h
  | call o next ih =>
    intro s' hs
    obtain ⟨hinv, hnext⟩ := h s' hs
    exact ⟨hinv, ih _ hnext⟩
  | stop => exact h

theorem bind {f : α → Calls O R β} {post' : β → σ → Prop}
    (h : Safe exec env inv (fun a s => Safe exec env inv post' (f a) s) p s) :
    Safe exec env inv post' (p >>= f) s := by
  induction p generalizing s with
  | done a => exact h
  | call o next ih =>
    intro s' hs
    obtain ⟨hinv, hnext⟩ := h s' hs
    exact ⟨hinv, ih _ hnext⟩
  | stop => exact h.elim

/-- A loop over an interval: each round takes the invariant to the next number, or ends the loop. -/
theorem forEach_range' {ε : Type} [DecidableEq ε] {ok : ε} {body : ℕ → Calls O R ε}
    {post : ε → σ → Prop} (I : ℕ → σ → Prop) {a n : ℕ}
    (hbody : ∀ j s, a ≤ j → j < a + n → I j s →
      Safe exec env inv (fun r s => if r = ok then I (j + 1) s else post r s) (body j) s)
    (hend : ∀ s, I (a + n) s → post ok s) (h : I a s) :
    Safe exec env inv post (Calls.forEach ok body (List.range' a n)) s := by
  induction n generalizing a s with
  | zero => exact hend s h
  | succ n ih =>
    rw [List.range'_succ]
    refine bind ((hbody a s le_rfl (by omega) h).mono fun r s hr => ?_)
    by_cases hok : r = ok
    · rw [if_pos hok] at hr ⊢
      refine ih (fun j s hj hlt => hbody j s (by omega) (by omega)) (fun s hs => hend s ?_) hr
      rwa [show a + (n + 1) = a + 1 + n by omega]
    · rw [if_neg hok] at hr ⊢
      exact hr

/-- What the others do keeps a program that is about to make a call safe. -/
theorem others {o : O} {next : R → Calls O R α}
    (htrans : ∀ s s' s'', env o s s' → env o s' s'' → env o s s'')
    (h : Safe exec env inv post (call o next) s) (hs : env o s s') :
    Safe exec env inv post (call o next) s' :=
  fun s'' hs' => h s'' (htrans s s' s'' hs hs')

/-- A program that is safe comes to its end when it is alone. -/
theorem run (hrefl : ∀ o s, env o s s) (h : Safe exec env inv post p s) :
    ∃ a s', p.run exec s = some (a, s') ∧ post a s' := by
  induction p generalizing s with
  | done a => exact ⟨a, s, rfl, h⟩
  | call o next ih => exact ih _ (h s (hrefl o s)).2
  | stop => exact h.elim

end Safe

/-- If all answers are right, the program ends with `post` wherever it ends. -/
def Answers (right : O → R → Prop) (post : α → Prop) : Calls O R α → Prop
  | done a => post a
  | call o next => ∀ r, right o r → Answers right post (next r)
  | stop => True

namespace Answers

variable {right : O → R → Prop} {post : α → Prop} {post' : β → Prop} {p : Calls O R α} {f : α → Calls O R β}

theorem bind (h : Answers right post p) (hf : ∀ a, post a → Answers right post' (f a)) :
    Answers right post' (p >>= f) := by
  induction p with
  | done a => exact hf a h
  | call o next ih => exact fun r hr => ih r (h r hr)
  | stop => trivial

theorem skip (hf : ∀ a, Answers right post' (f a)) : Answers right post' (p >>= f) := by
  induction p with
  | done a => exact hf a
  | call o next ih => exact fun r _ => ih r
  | stop => trivial

theorem forEach {ε : Type} [DecidableEq ε] {ok : ε} {body : ℕ → Calls O R ε} (l : List ℕ)
    (h : ∀ j, Answers right (· = ok) (body j)) : Answers right (· = ok) (Calls.forEach ok body l) := by
  induction l with
  | nil => rfl
  | cons j l ih =>
    refine (h j).bind ?_
    rintro _ rfl
    rwa [if_pos rfl]

theorem run {exec : Service O R σ} {inv : σ → Prop} (hexec : ∀ o s, inv s → right o (exec o s).1 ∧ inv (exec o s).2)
    (h : Answers right post p) {s s' : σ} (hs : inv s) {a : α} (hrun : p.run exec s = some (a, s')) : post a := by
  induction p generalizing s with
  | done b =>
    cases hrun
    exact h
  | call o next ih => exact ih _ (h _ (hexec o s hs).1) (hexec o s hs).2 hrun
  | stop => cases hrun

end Answers
end Calls
