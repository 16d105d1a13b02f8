import Mathlib.Data.List.Range
import Mathlib.Data.List.Nodup

/-!
# Scanning a bitmap

A loop that goes over the words of a bitmap and takes their set bits one by one, from the lowest,
until there are no more or enough have been taken. What it does with a bit may fail.
-/

namespace BitScan

variable {σ ε : Type}

/-- A state with a bitmap in it. -/
structure Scan (σ ε : Type) where
  bit : σ → ℕ → Bool
  /-- How many more bits are taken at most. -/
  room : σ → ℕ
  take : ℕ → σ → Except ε σ

/-- The lowest set bit among `width` bits. -/
def firstBit (bit : ℕ → Bool) (lo width : ℕ) : Option ℕ := (List.range' lo width).find? bit

/-- The loop over the set bits of a word. A word has at most as many as the fuel says. -/
def word (S : Scan σ ε) (lo width : ℕ) : ℕ → σ → Except ε σ
  | 0, s => .ok s
  | fuel + 1, s =>
      if S.room s = 0 then .ok s
      else
        match firstBit (S.bit s) lo width with
        | none => .ok s
        | some f => do
            let s ← S.take f s
            word S lo width fuel s

/-- The loop over the words. -/
def words (S : Scan σ ε) (width : ℕ) : ℕ → ℕ → σ → Except ε σ
  | 0, _, s => .ok s
  | n + 1, lo, s =>
      if S.room s = 0 then .ok s
      else do
        let s ← word S lo width width s
        words S width n (lo + width) s

/-- A bit that is taken is cleared, and counted. -/
structure Scan.Lawful (S : Scan σ ε) : Prop where
  bit : ∀ {f s s'}, S.take f s = .ok s' → S.bit s' = Function.update (S.bit s) f false
  room : ∀ {f s s'}, S.take f s = .ok s' → S.room s' = S.room s - 1

/-- The set bits among `len` bits from `lo` that are taken. -/
def firsts (S : Scan σ ε) (s : σ) (lo len : ℕ) : List ℕ :=
  ((List.range' lo len).filter (S.bit s)).take (S.room s)

/-- The bits are taken in order. -/
def takeAll (S : Scan σ ε) (fs : List ℕ) (s : σ) : Except ε σ := fs.foldlM (fun s f => S.take f s) s

variable {S : Scan σ ε} {s s' : σ} {f : ℕ} {fs : List ℕ}

@[simp]
theorem takeAll_nil : takeAll S [] s = .ok s := rfl

@[simp]
theorem takeAll_cons : takeAll S (f :: fs) s = S.take f s >>= takeAll S fs := rfl

theorem takeAll_append (fs gs : List ℕ) :
    takeAll S (fs ++ gs) s = takeAll S fs s >>= takeAll S gs := by
  rw [takeAll, List.foldlM_append]
  rfl

/-- A relation between the states before and after, if each bit keeps it. -/
theorem takeAll_rel {R : σ → Prop} (hstep : ∀ f ∈ fs, ∀ s s', R s → S.take f s = .ok s' → R s')
    (h : R s) (hs : takeAll S fs s = .ok s') : R s' := by
  induction fs generalizing s with
  | nil =>
    cases hs
    exact h
  | cons f fs ih =>
    rw [takeAll_cons] at hs
    cases htake : S.take f s with
    | error e =>
      rw [htake] at hs
      cases hs
    | ok s₁ =>
      rw [htake] at hs
      exact ih (fun g hg => hstep g (List.mem_cons_of_mem f hg))
        (hstep f (List.mem_cons_self ..) s s₁ h htake) hs

section Lawful

variable (hS : S.Lawful)
include hS

theorem takeAll_room (hs : takeAll S fs s = .ok s') : S.room s' = S.room s - fs.length := by
  induction fs generalizing s with
  | nil =>
    cases hs
    rfl
  | cons f fs ih =>
    rw [takeAll_cons] at hs
    cases htake : S.take f s with
    | error e =>
      rw [htake] at hs
      cases hs
    | ok s₁ =>
      rw [htake] at hs
      rw [ih hs, hS.room htake, List.length_cons]
      omega

/-- The other bits stay. -/
theorem takeAll_bit {g : ℕ} (hg : g ∉ fs) (hs : takeAll S fs s = .ok s') :
    S.bit s' g = S.bit s g := by
  refine takeAll_rel (R := fun s' => S.bit s' g = S.bit s g) ?_ rfl hs
  intro f hf s₁ s₂ h htake
  have hne : g ≠ f := fun he => hg (he ▸ hf)
  rw [hS.bit htake, Function.update_of_ne hne, h]

omit hS in
/-- Without the first of the set bits the others are left. -/
theorem filter_update {bit : ℕ → Bool} {xs : List ℕ} (hn : xs.Nodup)
    (h : xs.filter bit = f :: fs) : xs.filter (Function.update bit f false) = fs := by
  have hfs : f ∉ fs := by
    have := hn.filter bit
    rw [h, List.nodup_cons] at this
    exact this.1
  have heq : Function.update bit f false = fun g => decide (g ≠ f) && bit g := by
    ext g
    by_cases hg : g = f
    · simp [hg]
    · simp [hg]
  rw [heq, ← List.filter_filter, h, List.filter_cons_of_neg (by simp)]
  exact List.filter_eq_self.2 fun g hg => decide_eq_true fun he => hfs (he ▸ hg)

theorem word_eq {lo width fuel : ℕ} (hfuel : ((List.range' lo width).filter (S.bit s)).length ≤ fuel) :
    word S lo width fuel s = takeAll S (firsts S s lo width) s := by
  induction fuel generalizing s with
  | zero =>
    rw [firsts, List.length_eq_zero_iff.1 (Nat.le_zero.1 hfuel), List.take_nil]
    rfl
  | succ fuel ih =>
    rw [word]
    by_cases hroom : S.room s = 0
    · rw [if_pos hroom, firsts, hroom, List.take_zero]
      rfl
    · obtain ⟨r, hr⟩ : ∃ r, S.room s = r + 1 := ⟨S.room s - 1, by omega⟩
      have hfind : firstBit (S.bit s) lo width = ((List.range' lo width).filter (S.bit s)).head? := by
        rw [firstBit, List.head?_filter]
      rw [if_neg hroom, hfind, firsts, hr]
      cases hbits : (List.range' lo width).filter (S.bit s) with
      | nil => rfl
      | cons f fs =>
        rw [hbits, List.length_cons] at hfuel
        rw [List.head?_cons, List.take_succ_cons, takeAll_cons]
        change (S.take f s >>= word S lo width fuel) = _
        cases htake : S.take f s with
        | error e => rfl
        | ok s₁ =>
          have hrest : (List.range' lo width).filter (S.bit s₁) = fs := by
            rw [hS.bit htake]
            exact filter_update List.nodup_range' hbits
          have hroom₁ : S.room s₁ = r := by rw [hS.room htake, hr, Nat.add_sub_cancel]
          have hih := ih (s := s₁) (by rw [hrest]; omega)
          rw [firsts, hrest, hroom₁] at hih
          exact hih

/-- The loops take the first set bits in order. -/
theorem words_eq (width n lo : ℕ) (s : σ) :
    words S width n lo s = takeAll S (firsts S s lo (n * width)) s := by
  induction n generalizing lo s with
  | zero => simp [words, firsts]
  | succ n ih =>
    rw [words]
    by_cases hroom : S.room s = 0
    · rw [if_pos hroom, firsts, hroom, List.take_zero]
      rfl
    · have hword : word S lo width width s = takeAll S (firsts S s lo width) s :=
        word_eq hS ((List.length_filter_le _ _).trans_eq List.length_range')
      have hsplit : List.range' lo ((n + 1) * width) =
          List.range' lo width ++ List.range' (lo + width) (n * width) := by
        rw [Nat.succ_mul, Nat.add_comm, ← List.range'_append_1]
      rw [if_neg hroom, hword, firsts, firsts, hsplit, List.filter_append, List.take_append,
        takeAll_append]
      cases hfirst : takeAll S (((List.range' lo width).filter (S.bit s)).take (S.room s)) s with
      | error e => rfl
      | ok s₁ =>
        -- the bits of the later words are as before
        have hlater : (List.range' (lo + width) (n * width)).filter (S.bit s₁) =
            (List.range' (lo + width) (n * width)).filter (S.bit s) := by
          refine List.filter_congr fun g hg => takeAll_bit hS (fun hm => ?_) hfirst
          have hlow := List.mem_range'_1.1 (List.mem_of_mem_filter (List.mem_of_mem_take hm))
          have hhigh := List.mem_range'_1.1 hg
          omega
        have hroom₁ := takeAll_room hS hfirst
        rw [List.length_take] at hroom₁
        have heq : S.room s₁ = S.room s - ((List.range' lo width).filter (S.bit s)).length := by omega
        change words S width n (lo + width) s₁ = takeAll S _ s₁
        rw [ih, firsts, hlater, heq]

/-- What is preserved when one of the bits is taken that are set, the loops preserve. -/
theorem words_induct {R : σ → Prop} {width n lo : ℕ}
    (hstep : ∀ f ∈ firsts S s lo (n * width), ∀ s₁ s₂, R s₁ → S.bit s₁ f = true → 0 < S.room s₁ →
      S.take f s₁ = .ok s₂ → R s₂)
    (h : R s) (hs : words S width n lo s = .ok s') : R s' := by
  rw [words_eq hS] at hs
  have hn : (firsts S s lo (n * width)).Nodup :=
    (List.Nodup.filter _ List.nodup_range').sublist (List.take_sublist _ _)
  have hbits : ∀ f ∈ firsts S s lo (n * width), S.bit s f = true := fun f hf =>
    (List.mem_filter.1 (List.mem_of_mem_take hf)).2
  have hroom : (firsts S s lo (n * width)).length ≤ S.room s := List.length_take_le _ _
  generalize firsts S s lo (n * width) = fs at hstep hs hn hbits hroom
  -- the bits that are still to be taken are set, and there is room for them
  induction fs generalizing s with
  | nil =>
    cases hs
    exact h
  | cons f fs ih =>
    rw [takeAll_cons] at hs
    rw [List.nodup_cons] at hn
    rw [List.length_cons] at hroom
    cases htake : S.take f s with
    | error e =>
      rw [htake] at hs
      cases hs
    | ok s₁ =>
      rw [htake] at hs
      refine ih (hstep f (List.mem_cons_self ..) s s₁ h (hbits f (List.mem_cons_self ..)) (by omega)
        htake) (fun g hg => hstep g (List.mem_cons_of_mem f hg)) hs hn.2 (fun g hg => ?_) ?_
      · have hne : g ≠ f := fun he => hn.1 (he ▸ hg)
        rw [hS.bit htake, Function.update_of_ne hne]
        exact hbits g (List.mem_cons_of_mem f hg)
      · rw [hS.room htake]
        omega

end Lawful

end BitScan
