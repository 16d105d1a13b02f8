import Mathlib.Data.List.Basic

/-!
# Programs that return, yield or stop

A program of an event-driven system runs on a state and comes to one of three outcomes: it
returns a value, it gives up the processor (what it did to the state so far stays done, and it is
started over later), or the system stops.
-/

namespace Yielding

/-- What a program comes to. -/
inductive Outcome (ε σ α : Type) where
  /-- It returns `a`. -/
  | done (a : α) (s : σ)
  /-- It gives up the processor; nothing after that point is run. -/
  | yield (s : σ)
  /-- The system stops. -/
  | halt (e : ε) (s : σ)

/-- A program on states of type `σ`, which may stop for a reason in `ε`. -/
def Prog (ε σ α : Type) := σ → Outcome ε σ α

variable {ε σ α β : Type}

/-- The state in which a program ends. -/
def Outcome.state : Outcome ε σ α → σ
  | done _ s => s
  | yield s => s
  | halt _ s => s

@[simp]
theorem Outcome.state_done (a : α) (s : σ) : (done a s : Outcome ε σ α).state = s := rfl

@[simp]
theorem Outcome.state_yield (s : σ) : (yield s : Outcome ε σ α).state = s := rfl

@[simp]
theorem Outcome.state_halt (e : ε) (s : σ) : (halt e s : Outcome ε σ α).state = s := rfl

/-- Go on with `f` if the program returned. -/
def Outcome.andThen (o : Outcome ε σ α) (f : α → Prog ε σ β) : Outcome ε σ β :=
  match o with
  | done a s => f a s
  | yield s => yield s
  | halt e s => halt e s

instance : Monad (Prog ε σ) where
  pure a := fun s => .done a s
  bind m f := fun s => (m s).andThen f

/-- Read the state. -/
def Prog.get : Prog ε σ σ := fun s => .done s s

/-- Change the state. -/
def Prog.modify (f : σ → σ) : Prog ε σ Unit := fun s => .done () (f s)

/-- Give up the processor. -/
def Prog.yield : Prog ε σ α := fun s => .yield s

/-- Stop the system. -/
def Prog.halt (e : ε) : Prog ε σ α := fun s => .halt e s

/-- Go on when `p` holds, stop otherwise. -/
def Prog.check (p : Prop) [Decidable p] (e : ε) : Prog ε σ Unit :=
  if p then pure () else Prog.halt e

/-- The value if there is one, and a yield otherwise. -/
def Prog.ofOption (o : Option α) : Prog ε σ α :=
  match o with
  | some a => pure a
  | none => Prog.yield

/-- Run `m` if `p` holds. -/
def Prog.when (p : Prop) [Decidable p] (m : Prog ε σ Unit) : Prog ε σ Unit :=
  if p then m else pure ()

/-- Run `f` on the elements of a list, in their order. -/
def Prog.forEach {ι : Type} (f : ι → Prog ε σ Unit) : List ι → Prog ε σ Unit
  | [] => pure ()
  | i :: l => do
      f i
      Prog.forEach f l

@[simp]
theorem pure_apply (a : α) (s : σ) : (pure a : Prog ε σ α) s = .done a s := rfl

@[simp]
theorem bind_apply (m : Prog ε σ α) (f : α → Prog ε σ β) (s : σ) :
    (m >>= f) s = (m s).andThen f := rfl

@[simp]
theorem andThen_done (a : α) (s : σ) (f : α → Prog ε σ β) :
    (Outcome.done a s : Outcome ε σ α).andThen f = f a s := rfl

@[simp]
theorem andThen_yield (s : σ) (f : α → Prog ε σ β) :
    (Outcome.yield s : Outcome ε σ α).andThen f = .yield s := rfl

@[simp]
theorem andThen_halt (e : ε) (s : σ) (f : α → Prog ε σ β) :
    (Outcome.halt e s : Outcome ε σ α).andThen f = .halt e s := rfl

@[simp]
theorem get_apply (s : σ) : (Prog.get : Prog ε σ σ) s = .done s s := rfl

@[simp]
theorem modify_apply (f : σ → σ) (s : σ) : (Prog.modify f : Prog ε σ Unit) s = .done () (f s) := rfl

@[simp]
theorem yield_apply (s : σ) : (Prog.yield : Prog ε σ α) s = .yield s := rfl

@[simp]
theorem halt_apply (e : ε) (s : σ) : (Prog.halt e : Prog ε σ α) s = .halt e s := rfl

variable {p : Prop}

theorem check_pos [Decidable p] (h : p) (e : ε) :
    (Prog.check p e : Prog ε σ Unit) = pure () := if_pos h

theorem check_neg [Decidable p] (h : ¬p) (e : ε) :
    (Prog.check p e : Prog ε σ Unit) = Prog.halt e := if_neg h

theorem when_pos [Decidable p] (h : p) (m : Prog ε σ Unit) : Prog.when p m = m := if_pos h

theorem when_neg [Decidable p] (h : ¬p) (m : Prog ε σ Unit) :
    Prog.when p m = pure () := if_neg h

@[simp]
theorem ofOption_some (a : α) : (Prog.ofOption (some a) : Prog ε σ α) = pure a := rfl

@[simp]
theorem ofOption_none : (Prog.ofOption none : Prog ε σ α) = Prog.yield := rfl

/-- A postcondition for each kind of outcome. -/
def Outcome.Sat (Q : α → σ → Prop) (Y : σ → Prop) (E : ε → σ → Prop) : Outcome ε σ α → Prop
  | done a s => Q a s
  | yield s => Y s
  | halt e s => E e s

theorem sat_true (m : Prog ε σ α) (s : σ) :
    (m s).Sat (fun _ _ => True) (fun _ => True) fun _ _ => True := by
  cases m s <;> trivial

variable {o : Outcome ε σ α}

/-- The same postcondition for each kind of outcome is one of the final state. -/
theorem Outcome.sat_state {I : σ → Prop} :
    o.Sat (fun _ t => I t) I (fun _ t => I t) ↔ I o.state := by
  cases o <;> rfl

variable {E : ε → σ → Prop} {Y : σ → Prop}

/-- Weaker postconditions hold as well. -/
theorem Outcome.Sat.mono {Q Q' : α → σ → Prop} {Y' : σ → Prop}
    {E' : ε → σ → Prop} (h : o.Sat Q Y E) (hQ : ∀ a t, Q a t → Q' a t) (hY : ∀ t, Y t → Y' t)
    (hE : ∀ e t, E e t → E' e t) : o.Sat Q' Y' E' := by
  cases o with
  | done a t => exact hQ a t h
  | yield t => exact hY t h
  | halt e t => exact hE e t h

variable {Q : β → σ → Prop} {f : α → Prog ε σ β} {m : Prog ε σ α} {s : σ}

/-- The rule for sequences: the postcondition of the first part is the precondition of the
second. -/
theorem sat_bind {R : α → σ → Prop} (hm : (m s).Sat R Y E)
    (hf : ∀ a t, R a t → (f a t).Sat Q Y E) : ((m >>= f) s).Sat Q Y E := by
  rw [bind_apply]
  cases h : m s with
  | done a t =>
    rw [h] at hm
    exact hf a t hm
  | yield t | halt e t =>
    rw [h] at hm
    exact hm

theorem sat_ofOption_bind {o : Option α} (hY : Y s) (hf : ∀ a, o = some a → (f a s).Sat Q Y E) :
    ((Prog.ofOption o >>= f) s).Sat Q Y E := by
  cases o with
  | none => exact hY
  | some a => exact hf a rfl

theorem sat_when [Decidable p] {m : Prog ε σ Unit} {Q : Unit → σ → Prop}
    (hm : p → (m s).Sat Q Y E) (hn : ¬p → Q () s) :
    (Prog.when p m s).Sat Q Y E := by
  by_cases hp : p
  · rw [when_pos hp]
    exact hm hp
  · rw [when_neg hp]
    exact hn hp

theorem sat_ite [Decidable p] {n : Prog ε σ α} {Q : α → σ → Prop}
    (hm : p → (m s).Sat Q Y E) (hn : ¬p → (n s).Sat Q Y E) :
    ((if p then m else n) s).Sat Q Y E := by
  split
  · rename_i hp
    exact hm hp
  · rename_i hp
    exact hn hp

/-- The invariant `I` holds in whatever state `m` ends in. -/
def Preserves (I : σ → Prop) (m : Prog ε σ α) : Prop := ∀ s, I s → I (m s).state

variable {I : σ → Prop}

theorem preserves_pure (a : α) : Preserves I (pure a : Prog ε σ α) := fun _ h => h

theorem preserves_bind (hm : Preserves I m)
    (hf : ∀ a, Preserves I (f a)) : Preserves I (m >>= f) := by
  intro s hs
  apply Outcome.sat_state.1
  exact sat_bind (Outcome.sat_state.2 (hm s hs)) fun a t ht => Outcome.sat_state.2 (hf a t ht)

/-- The invariant may become a stronger one while the first part runs, if the second part only
has to keep that. -/
theorem preserves_bind_of_sat {J : α → σ → Prop}
    (hm : ∀ s, I s → (m s).Sat J I fun _ t => I t) (hf : ∀ a t, J a t → I (f a t).state) :
    Preserves I (m >>= f) := by
  intro s hs
  apply Outcome.sat_state.1
  exact sat_bind (hm s hs) fun a t ha => Outcome.sat_state.2 (hf a t ha)

theorem preserves_modify {f : σ → σ} (hf : ∀ s, I s → I (f s)) :
    Preserves I (Prog.modify f : Prog ε σ Unit) := hf

theorem preserves_yield : Preserves I (Prog.yield : Prog ε σ α) := fun _ h => h

theorem preserves_ofOption (o : Option α) : Preserves I (Prog.ofOption o : Prog ε σ α) := by
  cases o with
  | none => exact preserves_yield
  | some a => exact preserves_pure a

theorem preserves_get_bind {f : σ → Prog ε σ α} (hf : ∀ a, Preserves I (f a)) :
    Preserves I (Prog.get >>= f) := fun s hs => hf s s hs

section Maintains

/-- The invariant `I` holds when `m` returns or yields. Nothing is said of the state in which the
system stops. -/
def Maintains (I : σ → Prop) (m : Prog ε σ α) : Prop :=
  ∀ s, I s → (m s).Sat (fun _ t => I t) I fun _ _ => True

variable {m : Prog ε σ α}

theorem Preserves.maintains (hm : Preserves I m) : Maintains I m := fun s hs =>
  (Outcome.sat_state.2 (hm s hs)).mono (fun _ _ ht => ht) (fun _ ht => ht) fun _ _ _ => trivial

theorem maintains_pure (a : α) : Maintains I (pure a : Prog ε σ α) := fun _ h => h

theorem maintains_yield : Maintains I (Prog.yield : Prog ε σ α) := fun _ h => h

theorem maintains_halt (e : ε) : Maintains I (Prog.halt e : Prog ε σ α) := fun _ _ => trivial

theorem maintains_modify {f : σ → σ} (hf : ∀ s, I s → I (f s)) :
    Maintains I (Prog.modify f : Prog ε σ Unit) := hf

theorem maintains_bind {f : α → Prog ε σ β} (hm : Maintains I m)
    (hf : ∀ a, Maintains I (f a)) : Maintains I (m >>= f) := fun s hs =>
  sat_bind (hm s hs) hf

theorem maintains_get_bind {f : σ → Prog ε σ α} (hf : ∀ a, Maintains I (f a)) :
    Maintains I (Prog.get >>= f) := fun s hs => hf s s hs

variable {p : Prop}

theorem maintains_when [Decidable p] {m : Prog ε σ Unit} (hm : p → Maintains I m) :
    Maintains I (Prog.when p m) := by
  unfold Prog.when
  split
  · rename_i hp
    exact hm hp
  · exact maintains_pure ()

theorem maintains_ite [Decidable p] {n : Prog ε σ α} (hm : p → Maintains I m)
    (hn : ¬p → Maintains I n) : Maintains I (if p then m else n) := by
  split
  · rename_i hp
    exact hm hp
  · rename_i hp
    exact hn hp

variable {Y : σ → Prop} {e : ε} {f : Unit → Prog ε σ β} {s : σ}

/-- After a check, what was checked may be used. -/
theorem sat_check_bind [Decidable p]
    {Q : β → σ → Prop} (hf : p → (f () s).Sat Q Y fun _ _ => True) :
    ((Prog.check p e >>= f) s).Sat Q Y fun _ _ => True := by
  by_cases hp : p
  · rw [check_pos hp]
    exact hf hp
  · rw [check_neg hp]
    trivial

theorem sat_check [Decidable p] {Q : Unit → σ → Prop}
    (hp : p → Q () s) : ((Prog.check p e : Prog ε σ Unit) s).Sat Q Y fun _ _ => True := by
  unfold Prog.check
  split
  · rename_i h
    exact hp h
  · trivial

theorem maintains_check_bind [Decidable p]
    (hf : p → Maintains I (f ())) : Maintains I (Prog.check p e >>= f) := fun s hs =>
  sat_check_bind fun hp => hf hp s hs

theorem maintains_forEach {ι : Type} {f : ι → Prog ε σ Unit} (hf : ∀ i, Maintains I (f i))
    (l : List ι) : Maintains I (Prog.forEach f l) := by
  induction l with
  | nil => exact maintains_pure ()
  | cons i l ih => exact maintains_bind (hf i) fun _ => ih

end Maintains

section Untouched

variable {γ : Type} {g : σ → γ}

/-- The program leaves the part `g` of the state as it is. -/
def Untouched (g : σ → γ) (m : Prog ε σ α) : Prop := ∀ s, g (m s).state = g s

variable {m : Prog ε σ α}

theorem Untouched.preserves {P : γ → Prop} (hm : Untouched g m) :
    Preserves (fun s => P (g s)) m := by
  intro s hs
  simp only [hm s]
  exact hs

variable {f : α → Prog ε σ β}

/-- A program that leaves the part `g` alone runs first. -/
theorem Untouched.sat_bind (hm : Untouched g m) {s : σ}
    {Q : β → σ → Prop} {Y : σ → Prop} {E : ε → σ → Prop} (hY : ∀ t, g t = g s → Y t)
    (hE : ∀ e t, g t = g s → E e t) (hf : ∀ a t, g t = g s → (f a t).Sat Q Y E) :
    ((m >>= f) s).Sat Q Y E := by
  have hms := hm s
  rw [bind_apply]
  cases h : m s with
  | done a t =>
    rw [h] at hms
    exact hf a t hms
  | yield t =>
    rw [h] at hms
    exact hY t hms
  | halt e t =>
    rw [h] at hms
    exact hE e t hms

theorem untouched_pure (a : α) : Untouched g (pure a : Prog ε σ α) := fun _ => rfl

theorem untouched_modify {h : σ → σ} (hh : ∀ s, g (h s) = g s) :
    Untouched g (Prog.modify h : Prog ε σ Unit) := hh

theorem untouched_bind (hm : Untouched g m)
    (hf : ∀ a, Untouched g (f a)) : Untouched g (m >>= f) := by
  intro s
  have hms := hm s
  rw [bind_apply]
  cases h : m s with
  | done a t =>
    rw [h] at hms
    exact (hf a t).trans hms
  | yield t | halt e t =>
    rw [h] at hms
    exact hms

theorem untouched_get_bind {f : σ → Prog ε σ α} (hf : ∀ a, Untouched g (f a)) :
    Untouched g (Prog.get >>= f) := fun s => hf s s

theorem untouched_check (p : Prop) [Decidable p] (e : ε) :
    Untouched g (Prog.check p e : Prog ε σ Unit) := by
  intro s
  unfold Prog.check
  split <;> rfl

theorem untouched_when {p : Prop} [Decidable p] {m : Prog ε σ Unit} (hm : Untouched g m) :
    Untouched g (Prog.when p m) := by
  unfold Prog.when
  split
  · exact hm
  · exact untouched_pure ()

theorem untouched_forEach {ι : Type} {f : ι → Prog ε σ Unit} (hf : ∀ i, Untouched g (f i))
    (l : List ι) : Untouched g (Prog.forEach f l) := by
  induction l with
  | nil => exact untouched_pure ()
  | cons i l ih => exact untouched_bind (hf i) fun _ => ih

end Untouched

end Yielding
