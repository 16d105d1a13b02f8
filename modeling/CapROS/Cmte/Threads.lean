import CapROS.Kernel.Types
import Mathlib.Algebra.Group.Nat.Defs
import Mathlib.Logic.Function.Basic

/-!
# Threads

The table of the threads of a program (`cmte/cmtethread.c`). `threadsAlloc` has a bit for each thread. The claims
about it fail: a creation that fails keeps its number and what it bought, and `destroyAll` takes the number that
`ffs32` gives, which counts from 0, for one that counts from 1.

* `threads_proper`: the runs in which what is claimed holds.
* `threads_lost`: it does not hold in all runs.
-/

namespace CapROS.Cmte.Threads

/-- A test of `ffs32`, on `num` and `word`. -/
def ffsStep (k : ℕ) (p : ℕ × ℕ) : ℕ × ℕ := if p.2 % 2 ^ k = 0 then (p.1 + k, p.2 / 2 ^ k) else p

def ffs32 (word : ℕ) : ℕ := (ffsStep 1 (ffsStep 2 (ffsStep 4 (ffsStep 8 (ffsStep 16 (0, word)))))).1

structure State where
  threadsAlloc : BitVec 32
  /-- The number of stack pages of each thread that exists. -/
  threads : ℕ → Option ℕ
  /-- The number of objects that are bought. A process counts as one. -/
  bought : ℕ

def stackPages (stackSize : ℕ) : ℕ := (stackSize + 4095) % 2 ^ 32 / 4096

/-- What a thread needs: the process, the pages, and a GPT for them if there is not just one. -/
def objects (pages : ℕ) : ℕ := 1 + if pages = 1 then 1 else pages + 1

/-- When there is only the first thread. -/
def State.init (pages : ℕ) : State := ⟨1#32, Function.update (fun _ => none) 0 (some pages), objects pages⟩

inductive Stop where
  | assertion
  /-- Memory is used that is not there. -/
  | fault
  | unending

inductive Answer where
  | ok (threadNum : ℕ)
  | noMoreThreads
  | requestError
  /-- An answer of the bank. -/
  | noSpace

/-- `CMTEThread_create`, when the bank has `granted` objects. -/
def create (stackSize granted : ℕ) (s : State) : Except Stop (Answer × State) :=
  if s.threadsAlloc = BitVec.allOnes 32 then .ok (.noMoreThreads, s)
  else
    let threadNum := ffs32 (~~~s.threadsAlloc).toNat
    let pages := stackPages stackSize
    let alloc := s.threadsAlloc ||| BitVec.twoPow 32 threadNum
    if granted = 0 then .ok (.noSpace, { s with threadsAlloc := alloc })
    else if 32 ≤ pages then .ok (.requestError, { s with threadsAlloc := alloc, bought := s.bought + 1 })
    else if granted < objects pages then
      .ok (.noSpace, { s with threadsAlloc := alloc, bought := s.bought + granted })
    -- The parameters are stored in the stack.
    else if pages = 0 then .error .fault
    else .ok (.ok threadNum, ⟨alloc, Function.update s.threads threadNum (some pages), s.bought + objects pages⟩)

/-- `lthread_destroy_internal`. -/
def destroyInternal (threadNum : ℕ) (s : State) : Except Stop State :=
  match s.threads threadNum with
  | none => .error .fault
  | some pages => .ok ⟨s.threadsAlloc &&& ~~~BitVec.twoPow 32 threadNum,
      Function.update s.threads threadNum none, s.bought - objects pages⟩

/-- `CMTEThread_destroyAll`, which thread 1 does. It does not outlive its own stack. -/
def destroyAll : ℕ → State → Except Stop State
  | 0, _ => .error .unending
  | fuel + 1, s =>
    let ta := s.threadsAlloc &&& ~~~3#32
    if ta = 0#32 then .ok s
    else if ffs32 ta.toNat - 1 = 1 then .error .fault
    else destroyInternal (ffs32 ta.toNat - 1) s >>= destroyAll fuel

inductive Op where
  | create (stackSize granted : ℕ)
  /-- `CMTEThread_exit` by a thread, which calls thread 1. -/
  | exit (threadNum : ℕ)
  | destroy (threadNum : ℕ)
  | destroyAll (fuel : ℕ)

def Op.run (s : State) : Op → Except Stop State
  | .create stackSize granted => Threads.create stackSize granted s >>= fun r => .ok r.2
  | .exit threadNum =>
    if s.threads 1 = none then .error .assertion
    else if threadNum = 1 then .error .unending
    else destroyInternal threadNum s
  | .destroy threadNum => if s.threads threadNum = none then .error .assertion else destroyInternal threadNum s
  | .destroyAll fuel => if s.threads 1 = none then .error .assertion else Threads.destroyAll fuel s

/-- The states after sequences of admitted calls. -/
inductive Run (admitted : State → Op → Prop) : State → Prop where
  | init (pages : ℕ) : Run admitted (.init pages)
  | step {s s' : State} (op : Op) : Run admitted s → admitted s op → op.run s = .ok s' → Run admitted s'

/-- What is claimed, for the calls that are admitted. -/
structure Correct (s : State) (admitted : Op → Prop) : Prop where
  alloc : ∀ i, s.threadsAlloc.getLsbD i = (s.threads i).isSome
  created : ∀ {size granted n s'}, admitted (.create size granted) → create size granted s = .ok (.ok n, s') →
    s.threads n = none ∧ n < 32
  failed : ∀ {size granted r s'}, admitted (.create size granted) → create size granted s = .ok (r, s') →
    (∀ n, r ≠ .ok n) → s'.threadsAlloc = s.threadsAlloc ∧ s'.bought = s.bought
  all : ∀ {fuel}, admitted (.destroyAll fuel) → ∃ fuel s', destroyAll fuel s = .ok s' ∧
    ∀ i, s'.threads i = if i < 2 then s.threads i else none

/-- A creation does not fail after it has a number, and `destroyAll` has nothing to destroy. -/
def Proper (s : State) : Op → Prop
  | .create stackSize granted => s.threadsAlloc ≠ BitVec.allOnes 32 →
      stackPages stackSize < 32 ∧ objects (stackPages stackSize) ≤ granted
  | .destroyAll _ => ∀ i, 2 ≤ i → s.threads i = none
  | _ => True

variable {s s' : State} {op : Op} {w k n size granted : ℕ} {p : ℕ × ℕ} {r : Answer}

theorem ffsStep_spec (hp : p.2 = w / 2 ^ p.1) (hne : p.2 % 2 ^ (k + k) ≠ 0) :
    (ffsStep k p).2 = w / 2 ^ (ffsStep k p).1 ∧ (ffsStep k p).2 % 2 ^ k ≠ 0 ∧ (ffsStep k p).1 ≤ p.1 + k := by
  unfold ffsStep
  split
  · rename_i hlow
    refine ⟨?_, fun hhigh => hne ?_, le_rfl⟩
    · rw [hp, Nat.div_div_eq_div_mul, ← pow_add]
    · rw [pow_add, Nat.mod_mul, hlow, hhigh, Nat.mul_zero]
  · exact ⟨hp, ‹_›, Nat.le_add_right _ _⟩

theorem ffs32_spec (h0 : w ≠ 0) (hlt : w < 2 ^ 32) : ffs32 w < 32 ∧ w.testBit (ffs32 w) = true := by
  have hstart : ((0, w) : ℕ × ℕ).2 % 2 ^ (16 + 16) ≠ 0 := by rwa [Nat.mod_eq_of_lt hlt]
  obtain ⟨hw, hne, h16⟩ := ffsStep_spec (by simp : ((0, w) : ℕ × ℕ).2 = w / 2 ^ 0) hstart
  obtain ⟨hw, hne, h8⟩ := ffsStep_spec (k := 8) hw hne
  obtain ⟨hw, hne, h4⟩ := ffsStep_spec (k := 4) hw hne
  obtain ⟨hw, hne, h2⟩ := ffsStep_spec (k := 2) hw hne
  obtain ⟨hw, hne, h1⟩ := ffsStep_spec (k := 1) hw hne
  refine ⟨?_, ?_⟩
  · unfold ffs32
    omega
  · rw [Nat.testBit_eq_decide_div_mod_eq, ffs32, ← hw]
    simpa using hne

def Inv (s : State) : Prop := ∀ i, s.threadsAlloc.getLsbD i = (s.threads i).isSome

theorem inv_init (pages : ℕ) : Inv (.init pages) := by
  intro i
  by_cases hi : i = 0
  · simp [State.init, hi]
  · simp [State.init, hi]

theorem Inv.destroyInternal (h : Inv s) (hrun : destroyInternal n s = .ok s') : Inv s' := by
  unfold Threads.destroyInternal at hrun
  split at hrun
  · cases hrun
  · cases hrun
    intro i
    have hi := h i
    by_cases hn : i = n
    · simp [hn]
    · by_cases hlt : i < 32
      · simp_all
      · simp_all

theorem Inv.free (h : Inv s) (hfull : s.threadsAlloc ≠ BitVec.allOnes 32) :
    ffs32 (~~~s.threadsAlloc).toNat < 32 ∧ s.threads (ffs32 (~~~s.threadsAlloc).toNat) = none := by
  have hne : (~~~s.threadsAlloc).toNat ≠ 0 := fun h0 => hfull (by
    have hzero : ~~~s.threadsAlloc = 0#32 := BitVec.eq_of_toNat_eq h0
    simpa using congrArg (~~~·) hzero)
  obtain ⟨hlt, hbit⟩ := ffs32_spec hne (~~~s.threadsAlloc).isLt
  have hclear : (~~~s.threadsAlloc).getLsbD (ffs32 (~~~s.threadsAlloc).toNat) = true := hbit
  have hnone := h (ffs32 (~~~s.threadsAlloc).toNat)
  simp_all

theorem Inv.create (h : Inv s) (hproper : Proper s (.create size granted)) (hrun : create size granted s = .ok (r, s')) :
    (s' = s ∧ ∀ n, r ≠ .ok n) ∨ ∃ n, r = .ok n ∧ s.threads n = none ∧ n < 32 ∧ Inv s' := by
  unfold Threads.create at hrun
  by_cases hfull : s.threadsAlloc = BitVec.allOnes 32
  · rw [if_pos hfull] at hrun
    cases hrun
    exact .inl ⟨rfl, fun n hn => Answer.noConfusion hn⟩
  obtain ⟨hlt, hnone⟩ := h.free hfull
  obtain ⟨hpages, hgranted⟩ := hproper hfull
  have hpos : 0 < objects (stackPages size) := Nat.add_pos_left Nat.one_pos _
  rw [if_neg hfull] at hrun
  rw [if_neg (by omega), if_neg (by omega), if_neg (by omega)] at hrun
  split_ifs at hrun
  cases hrun
  refine .inr ⟨_, rfl, hnone, hlt, fun i => ?_⟩
  have hi := h i
  generalize ffs32 (~~~s.threadsAlloc).toNat = n at hlt ⊢
  by_cases hn : i = n
  · simp [hn, hlt]
  · simp [hn, Ne.symm hn, hi]

/-- There is nothing to destroy. -/
theorem Inv.destroyAll (h : Inv s) (hnone : ∀ i, 2 ≤ i → s.threads i = none) (fuel : ℕ) :
    destroyAll (fuel + 1) s = .ok s := by
  have hzero : s.threadsAlloc &&& ~~~3#32 = 0#32 := by
    refine BitVec.eq_of_getLsbD_eq fun i hi => ?_
    rcases i with - | - | i
    · simp
    · simp
    · have hclear := h (i + 2)
      rw [hnone _ (Nat.le_add_left 2 i)] at hclear
      simp [hclear]
  exact if_pos hzero

theorem Run.inv (h : Run Proper s) : Inv s := by
  induction h with
  | init pages => exact inv_init pages
  | step op _ hproper hrun ih =>
    cases op with
    | create size granted =>
      obtain ⟨⟨r, s₁⟩, hcreate, hs⟩ := of_bind_ok hrun
      cases hs
      obtain ⟨rfl, -⟩ | ⟨n, -, -, -, hinv⟩ := ih.create hproper hcreate
      · exact ih
      · exact hinv
    | exit n | destroy n =>
      simp only [Op.run] at hrun
      split_ifs at hrun
      exact ih.destroyInternal hrun
    | destroyAll fuel =>
      simp only [Op.run] at hrun
      split_ifs at hrun
      cases fuel with
      | zero => cases hrun
      | succ fuel =>
        cases (ih.destroyAll hproper fuel).symm.trans hrun
        exact ih

/-- In the runs of proper calls, the table is right. -/
theorem threads_proper (h : Run Proper s) : Correct s (Proper s) where
  alloc := h.inv
  created hproper hrun := by
    obtain ⟨-, hnot⟩ | ⟨n, hn, hnone, hlt, -⟩ := h.inv.create hproper hrun
    · exact absurd rfl (hnot _)
    · cases hn
      exact ⟨hnone, hlt⟩
  failed hproper hrun hnot := by
    obtain ⟨rfl, -⟩ | ⟨n, hn, -⟩ := h.inv.create hproper hrun
    · exact ⟨rfl, rfl⟩
    · exact absurd hn (hnot n)
  all hproper := by
    refine ⟨1, s, h.inv.destroyAll hproper 0, fun i => ?_⟩
    split_ifs with hi
    · rfl
    · exact hproper i (not_lt.1 hi)

/-- Three threads are created, and after thread 2 has left its number is used again. -/
theorem threads_proper_reused : ∃ s, (List.range 5).map s.threads = [some 1, some 1, some 2, some 1, none] ∧
    Correct s (Proper s) := by
  have h1 : Run Proper _ := .step (.create 4096 2) (.init 1) (fun _ => by decide) rfl
  have h2 : Run Proper _ := .step (.create 4096 2) h1 (fun _ => by decide) rfl
  have h3 : Run Proper _ := .step (.create 4096 2) h2 (fun _ => by decide) rfl
  have h4 : Run Proper _ := .step (.exit 2) h3 trivial rfl
  have h5 : Run Proper _ := .step (.create 8192 4) h4 (fun _ => by decide) rfl
  exact ⟨_, rfl, threads_proper h5⟩
/-- A creation for which the bank has nothing sets the bit of thread 2. -/
theorem threads_lost : ¬∀ s, Run (fun _ _ => True) s → Correct s fun _ => True := by
  intro h
  have hone : Run (fun _ _ => True) ⟨3#32, Function.update (State.init 1).threads 1 (some 1), 4⟩ :=
    .step (.create 4096 2) (.init 1) trivial rfl
  have hlost : Run (fun _ _ => True) ⟨7#32, Function.update (State.init 1).threads 1 (some 1), 4⟩ :=
    .step (.create 4096 0) hone trivial rfl
  exact absurd ((h _ hlost).alloc 2) (by decide)

end CapROS.Cmte.Threads
