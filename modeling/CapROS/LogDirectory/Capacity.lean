import CapROS.LogDirectory.Partition
import Mathlib.Data.Set.Card

/-!
# The capacity of the log directory

`ld_numAvailableEntries` counts the nodes with entries of retired generations as available, but
`alloc_node` takes only nodes of the free list, and nothing puts the nodes of retired generations
there. A new object can be recorded exactly if there is a free node.

* `numAvailableEntries_eq`, `numAvailableEntries_exact`: what `ld_numAvailableEntries` counts.
* `reusable_iff`: when a positive count means that a new object can be recorded.
-/

namespace CapROS.LogDirectory

open LinkedTree LinkedTree.Tree

variable {D : Directory} {V : View} {g i r : ℕ}

/-- The primary location of some object is in a generation that meets a condition. -/
def HasEntry (D : Directory) (P : ℕ → Prop) : Prop :=
  ∃ oid, entryNode D oid ≠ 0 ∧ P (D.generation (entryNode D oid))

theorem Holds.entry_iff (h : Holds D V) {oid : ℕ} {P : ℕ → Prop} :
    entryNode D oid ≠ 0 ∧ P (D.generation (entryNode D oid)) ↔
      ∃ n, (n ∈ V.tree.addrs ∧ P (D.generation n)) ∧ (D.od n).oid = oid := by
  constructor
  · rintro ⟨h0, hP⟩
    obtain ⟨n, hn, ⟨hm, ho⟩ | ⟨rfl, -⟩⟩ := h.find oid
    · rw [h.entryNode_eq hm ho] at hP
      exact ⟨n, ⟨hm, hP⟩, ho⟩
    · rw [entryNode, hn] at h0
      exact absurd rfl h0
  · rintro ⟨n, ⟨hm, hP⟩, rfl⟩
    rw [h.entryNode_eq hm rfl]
    exact ⟨h.tree.ne_zero hm, hP⟩

theorem Holds.hasEntry (h : Holds D V) {P : ℕ → Prop} :
    HasEntry D P ↔ ∃ n ∈ V.tree.addrs, P (D.generation n) := by
  simp_rw [HasEntry, h.entry_iff]
  rw [exists_comm]
  simp only [exists_eq_right']

theorem Holds.fresh_iff (h : Holds D V) {oid : ℕ} : Fresh D V oid ↔ entryNode D oid = 0 := by
  obtain ⟨n, hn, ⟨hm, ho⟩ | ⟨rfl, hfresh⟩⟩ := h.find oid
  · rw [h.entryNode_eq hm ho]
    exact ⟨fun hf => absurd ho (hf n hm), fun h0 => absurd h0 (h.tree.ne_zero hm)⟩
  · rw [entryNode, hn]
    exact ⟨fun _ => rfl, fun _ => hfresh⟩

/-! ## Available entries -/

theorem sub32_eq {a b : ℕ} (ha : a < 2 ^ 32) (hab : b ≤ a) : sub32 a b = a - b := by
  rw [sub32, Nat.mod_eq_of_lt (hab.trans_lt ha),
    show a + (2 ^ 32 - b) = (a - b) + 2 ^ 32 by omega, Nat.add_mod_right,
    Nat.mod_eq_of_lt ((Nat.sub_le _ _).trans_lt ha)]

/-- The number of places of the table with generations newer than `r`. -/
def newerPlaces (D : Directory) (r : ℕ) : ℕ := min ldMaxGenerations (D.highestGeneration - r)

/-- No subtraction in the loop of `ld_numAvailableEntries` takes off more than there is. -/
def NoUnderflow (D : Directory) (generation : ℕ) : ℕ → ℕ → ℕ → Prop
  | 0, _, _ => True
  | places + 1, i, count =>
      i ≤ D.highestGeneration ∧ (sub32 D.highestGeneration i ≤ generation ∨
        (D.table i).count ≤ count ∧
          NoUnderflow D generation places (i + 1) (sub32 count (D.table i).count))

theorem availableFrom_eq (places count : ℕ) (hi : i + places = ldMaxGenerations)
    (hm : i ≤ newerPlaces D r) (hhigh : D.highestGeneration < 2 ^ 32) (hc : count < 2 ^ 32)
    (hle : ((List.range' i (newerPlaces D r - i)).map fun k => (D.table k).count).sum ≤ count) :
    NoUnderflow D r places i count ∧ availableFrom D r places i count =
      count - ((List.range' i (newerPlaces D r - i)).map fun k => (D.table k).count).sum := by
  induction places generalizing i count with
  | zero =>
    have hm15 : newerPlaces D r ≤ ldMaxGenerations := min_le_left _ _
    rw [availableFrom, show newerPlaces D r - i = 0 by omega]
    simp [NoUnderflow]
  | succ places ih =>
    have hdef : newerPlaces D r = min ldMaxGenerations (D.highestGeneration - r) := rfl
    have hhi : i ≤ D.highestGeneration := by omega
    rw [availableFrom, NoUnderflow]
    by_cases him : i = newerPlaces D r
    · -- the generation is retired
      have hle : sub32 D.highestGeneration i ≤ r := by
        rw [sub32_eq hhigh (by omega)]
        omega
      rw [if_pos hle, ← him, Nat.sub_self]
      simp [hhi, hle]
    · have hgt : ¬sub32 D.highestGeneration i ≤ r := by
        rw [sub32_eq hhigh (by omega)]
        omega
      have hrange : List.range' i (newerPlaces D r - i) =
          i :: List.range' (i + 1) (newerPlaces D r - (i + 1)) := by
        rw [show newerPlaces D r - i = (newerPlaces D r - (i + 1)) + 1 by omega, List.range'_succ]
      rw [hrange, List.map_cons, List.sum_cons] at hle ⊢
      obtain ⟨hno, heq⟩ :=
        ih (i := i + 1) (count - (D.table i).count) (by omega) (by omega) (by omega) (by omega)
      rw [if_neg hgt, sub32_eq hc (by omega), heq]
      exact ⟨⟨hhi, .inr ⟨by omega, hno⟩⟩, by omega⟩

theorem Holds.length_newer_le (h : Holds D V) (r : ℕ) :
    (V.tree.addrs.filter fun n => r < D.generation n).length ≤ D.numLogDirEntries := by
  have := List.length_filter_le (fun n => decide (r < D.generation n)) V.tree.addrs
  have := h.length
  omega

/-- `ld_numAvailableEntries` counts the nodes that have no entry of a generation newer than the
given one. -/
theorem numAvailableEntries_eq (h : Holds D V) (hhigh : D.highestGeneration < 2 ^ 32)
    (hN : D.numLogDirEntries < 2 ^ 32) :
    NoUnderflow D r ldMaxGenerations 0 D.numLogDirEntries ∧ numAvailableEntries D r =
      D.numLogDirEntries - (V.tree.addrs.filter fun n => r < D.generation n).length := by
  have hsum : ((List.range' 0 (newerPlaces D r - 0)).map fun k => (D.table k).count).sum =
      (V.tree.addrs.filter fun n => r < D.generation n).length := by
    have hm : newerPlaces D r ≤ ldMaxGenerations := min_le_left _ _
    rw [Nat.sub_zero, ← List.range_eq_range', h.sum_count_newest hm]
    refine congrArg List.length (List.filter_congr fun n hn => ?_)
    obtain ⟨i, hi, hni⟩ := h.exists_index hn
    have := h.chains.gen i hi n hni
    have hdef : newerPlaces D r = min ldMaxGenerations (D.highestGeneration - r) := rfl
    refine decide_eq_decide.2 ?_
    omega
  have hlen := h.length_newer_le r
  obtain ⟨hno, heq⟩ :=
    availableFrom_eq (r := r) (i := 0) ldMaxGenerations D.numLogDirEntries (by omega) (by omega) hhigh hN
      (by omega)
  rw [numAvailableEntries, heq, hsum]
  exact ⟨hno, rfl⟩

/-- The objects whose primary location is in a generation newer than `r`. -/
def entriesAfter (D : Directory) (r : ℕ) : Set ℕ :=
  {oid | entryNode D oid ≠ 0 ∧ r < D.generation (entryNode D oid)}

theorem Holds.encard_entriesAfter (h : Holds D V) :
    (entriesAfter D r).encard = (V.tree.addrs.filter fun n => r < D.generation n).length := by
  have hset : entriesAfter D r =
      (((V.tree.addrs.filter fun n => r < D.generation n).map fun n => (D.od n).oid).toFinset : Set ℕ) := by
    ext oid
    simpa [entriesAfter] using h.entry_iff (P := (r < ·))
  have hnodup : ((V.tree.addrs.filter fun n => r < D.generation n).map fun n => (D.od n).oid).Nodup :=
    List.pairwise_map.2 ((h.sorted.sublist List.filter_sublist).imp fun hlt => hlt.ne)
  rw [hset, Set.encard_coe_eq_coe_finsetCard, List.toFinset_card_of_nodup hnodup, List.length_map]

/-- In every state that is reached, the available entries are all except those of the objects in newer
generations, and the computation does not wrap. The variables are 32-bit ones. -/
theorem numAvailableEntries_exact {D₀ : Directory} (h0 : Initial D₀)
    (hreach : Reach (fun _ _ => True) D₀ D) (hhigh : D.highestGeneration < 2 ^ 32)
    (hN : D.numLogDirEntries < 2 ^ 32) (g : ℕ) :
    (entriesAfter D g).encard + (numAvailableEntries D g : ℕ∞) = D.numLogDirEntries ∧
      NoUnderflow D g ldMaxGenerations 0 D.numLogDirEntries := by
  obtain ⟨V, h⟩ := hreach.holds h0
  obtain ⟨hno, heq⟩ := numAvailableEntries_eq (r := g) h hhigh hN
  refine ⟨?_, hno⟩
  rw [h.encard_entriesAfter, heq, ← ENat.natCast_add, Nat.add_sub_cancel' (h.length_newer_le g)]

/-- Of the two objects that have been recorded one is in a newer generation. -/
theorem numAvailableEntries_exact_two : ∃ D, numAvailableEntries D 1 = 1 ∧
    (entriesAfter D 1).encard + (numAvailableEntries D 1 : ℕ∞) = 2 := by
  obtain ⟨D, hreach, hhigh, hN, havail⟩ : ∃ D, Reach (fun _ _ => True) (startup 2) D ∧
      D.highestGeneration = 2 ∧ D.numLogDirEntries = 2 ∧ numAvailableEntries D 1 = 1 :=
    ⟨_, reach_of_runIf [.record ⟨7, 0, 0, 0, 0⟩ 1, .record ⟨8, 0, 0, 0, 0⟩ 2] rfl, rfl, rfl, by decide⟩
  have hexact := numAvailableEntries_exact (initial_startup 2) hreach (by omega) (by omega) 1
  rw [hN] at hexact
  exact ⟨D, havail, hexact.1⟩

theorem Holds.roomy_iff (h : Holds D V) (hg : D.highestGeneration ≤ g) :
    Roomy D V g ↔ ¬HasEntry D fun e => e + ldMaxGenerations ≤ g := by
  rw [h.hasEntry, Roomy]
  push Not
  constructor
  · intro hr n hn
    obtain ⟨i, hi, hni⟩ := h.exists_index hn
    have := h.chains.gen i hi n hni
    by_cases hlt : D.highestGeneration < g
    · exact hr hlt n hn
    · omega
  · exact fun hr _ n hn => hr n hn

/-- `ld_recordLocation` finds no node exactly if the directory is full, nothing is too old for the
table, and the object is new. -/
theorem recordLocation_outOfNodes (h : Holds D V) {od : ObjectDescriptor}
    (hnew : entryNode D od.oid = 0) (hg : D.highestGeneration ≤ g) (hg0 : 0 < g) :
    recordLocation D od g = .error .outOfNodes ↔
      ¬D.logEntryCount < D.numLogDirEntries ∧ ¬HasEntry D fun e => e + ldMaxGenerations ≤ g := by
  have hroom := h.roomy_iff hg
  have hspare : Spare D g ↔ D.logEntryCount < D.numLogDirEntries := and_iff_left fun _ => hg0
  have hfresh := h.fresh_iff.2 hnew
  rw [← hroom, ← hspare]
  rcases recordLocation_spec h od g with
    ⟨-, -, hs, D', V', x, j, he, -⟩ | ⟨hr, he⟩ | ⟨hr, -, hs, he⟩ | ⟨-, hs, -, he⟩ | ⟨-, -, hs, he⟩
  · simp [he, (hs hfresh).1]
  · simp [he, hr]
  · simp [he, hr, hs]
  · simp [he, hs hfresh]
  · simp [he, hs.1]

/-- A positive number of available entries means that there is a node for a new object in the working
generation exactly if a node is free, or no entry is of a retired generation (or the recording stops
for an entry that is too old for the table). -/
theorem reusable_iff {D₀ : Directory} (h0 : Initial D₀) (hreach : Reach (fun _ _ => True) D₀ D)
    (hN : D.numLogDirEntries < 2 ^ 32) (hg : D.highestGeneration ≤ g) (hg32 : g < 2 ^ 32)
    (hret : D.lastRetiredGeneration < g) {od : ObjectDescriptor} (hnew : entryNode D od.oid = 0) :
    (0 < numAvailableEntries D D.lastRetiredGeneration →
        recordLocation D od g ≠ .error .outOfNodes) ↔
      D.logEntryCount < D.numLogDirEntries ∨
        (¬HasEntry D fun e => e ≤ D.lastRetiredGeneration) ∨
        HasEntry D fun e => e + ldMaxGenerations ≤ g := by
  obtain ⟨V, h⟩ := hreach.holds h0
  have hout := recordLocation_outOfNodes h hnew hg (by omega)
  by_cases hfree : D.logEntryCount < D.numLogDirEntries
  · simp [hout, hfree]
  -- the directory is full: what is available are the entries of retired generations
  have havail : 0 < numAvailableEntries D D.lastRetiredGeneration ↔
      HasEntry D fun e => e ≤ D.lastRetiredGeneration := by
    rw [(numAvailableEntries_eq h (hg.trans_lt hg32) hN).2, h.hasEntry]
    have hfull : D.numLogDirEntries = V.tree.addrs.length := by
      have := h.length
      have := h.count
      omega
    have hlen := List.length_filter_le (fun n => decide (D.lastRetiredGeneration < D.generation n))
      V.tree.addrs
    rw [hfull, Nat.sub_pos_iff_lt]
    constructor
    · intro hlt
      by_contra hno
      push Not at hno
      rw [List.filter_eq_self.2 fun n hn => by simpa using hno n hn] at hlt
      exact hlt.ne rfl
    · rintro ⟨n, hn, hle⟩
      refine hlen.lt_of_ne fun heq => ?_
      have := List.length_filter_eq_length_iff.1 heq n hn
      simp only [decide_eq_true_eq] at this
      omega
  rw [havail, ne_eq, hout, or_iff_right hfree, and_iff_right hfree, not_not, imp_iff_not_or]

/-- One node has the entry of an object in a retired generation, and the other one is free. -/
theorem reusable_iff_free : ∃ D, Reach (fun _ _ => True) (startup 2) D ∧ (D.lastRetiredGeneration = 1 ∧
    D.logEntryCount = 1) ∧ 0 < numAvailableEntries D 1 ∧ recordLocation D ⟨8, 0, 0, 0, 0⟩ 2 ≠ .error .outOfNodes := by
  obtain ⟨D, hreach, hret, hcount, hN, hg, hnew, havail⟩ : ∃ D, Reach (fun _ _ => True) (startup 2) D ∧
      D.lastRetiredGeneration = 1 ∧ D.logEntryCount = 1 ∧ D.numLogDirEntries = 2 ∧ D.highestGeneration ≤ 2 ∧
      entryNode D 8 = 0 ∧ 0 < numAvailableEntries D 1 :=
    ⟨_, reach_of_runIf [.record ⟨7, 0, 0, 0, 0⟩ 1, .retired 1] rfl, rfl, rfl, rfl, by decide, rfl, by decide⟩
  have hiff := reusable_iff (initial_startup 2) hreach (by omega) hg (by omega) (by omega)
    (show entryNode D (⟨8, 0, 0, 0, 0⟩ : ObjectDescriptor).oid = 0 from hnew)
  exact ⟨D, hreach, ⟨hret, hcount⟩, havail, hiff.2 (.inl (by omega)) (hret ▸ havail)⟩

/-- The only node has the entry of an object in a retired generation. -/
theorem retired_not_reusable :
    ¬∀ (D₀ D : Directory) (od : ObjectDescriptor) (g : ℕ), Initial D₀ →
      Reach (fun _ _ => True) D₀ D → D.numLogDirEntries < 2 ^ 32 → D.highestGeneration ≤ g →
      g < 2 ^ 32 → D.lastRetiredGeneration < g → entryNode D od.oid = 0 →
      0 < numAvailableEntries D D.lastRetiredGeneration →
        recordLocation D od g ≠ .error .outOfNodes := by
  intro hall
  obtain ⟨D, hreach, hN, h₁, h₂, h₃, h₄, h₅⟩ : ∃ D, Reach (fun _ _ => True) (startup 1) D ∧
      D.numLogDirEntries = 1 ∧ D.highestGeneration ≤ 2 ∧ D.lastRetiredGeneration < 2 ∧ entryNode D 8 = 0 ∧
      0 < numAvailableEntries D D.lastRetiredGeneration ∧
      recordLocation D ⟨8, 0, 0, 0, 0⟩ 2 = .error .outOfNodes :=
    ⟨_, reach_of_runIf [.record ⟨7, 0, 0, 0, 0⟩ 1, .retired 1] rfl, rfl, by decide, by decide, rfl,
      by decide, rfl⟩
  exact hall _ D ⟨8, 0, 0, 0, 0⟩ 2 (initial_startup 1) hreach (by omega) h₁ (by omega) h₂ h₃ h₄
    h₅

end CapROS.LogDirectory
