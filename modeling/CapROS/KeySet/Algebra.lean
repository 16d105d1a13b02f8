import CapROS.KeySet.Pairs

/-!
# The algebra of key sets

What the requests about two key sets are for: union, intersection and the subset test. The claim fails for the
union, which can add a key a second time, and for the subset test, which answers whether the passed set is a
subset of the invoked one. The intersection is right.

* `FiniteMap.pairStep`, `specStep`: the documented behaviour.
* `algebra_proper`: the runs of proper requests do what is documented.
* `algebra_fails`: not all runs do.
-/

namespace CapROS.KeySet

open Cells ShellSort
open Function (update update_self update_of_ne)

variable {mine theirs l : List Entry} {s s' t : KeySetStat} {map map' : KeyBits → Option UInt32} {capacity n : ℕ}

/-! ## The walks -/

/-- The entries are in order, without duplicates. -/
def Ordered (l : List Entry) : Prop := l.Pairwise fun e e' => e.w.rank < e'.w.rank

/-- There is an entry with the key. -/
def Has (l : List Entry) (k : KeyBits) : Prop := ∃ e ∈ l, e.w = k

instance (l : List Entry) (k : KeyBits) : Decidable (Has l k) := inferInstanceAs (Decidable (∃ e ∈ l, e.w = k))

variable {e e' : Entry} {k : KeyBits}

theorem has_cons : Has (e :: l) k ↔ e.w = k ∨ Has l k := by
  simp [Has]

theorem has_cons_iff (hne : e.w ≠ k) : Has (e :: l) k ↔ Has l k := by
  rw [has_cons, or_iff_right hne]

theorem Ordered.lt (h : Ordered (e :: l)) (he' : e' ∈ l) : e.w.rank < e'.w.rank :=
  (List.pairwise_cons.1 h).1 e' he'

theorem Ordered.le (h : Ordered (e :: l)) (he' : e' ∈ e :: l) : e.w.rank ≤ e'.w.rank := by
  obtain rfl | he' := List.mem_cons.1 he'
  · exact le_rfl
  · exact (h.lt he').le

theorem ne_of_rank_lt {k' : KeyBits} (h : k.rank < k'.rank) : k ≠ k' := fun heq => by
  rw [heq] at h
  omega

theorem not_has_of_lt (h : Ordered (e :: l)) (hk : k.rank ≤ e.w.rank) : ¬Has l k := by
  rintro ⟨e', he', rfl⟩
  have hlt := h.lt he'
  omega

theorem not_has_cons_of_lt (h : Ordered (e :: l)) (hk : k.rank < e.w.rank) :
    ¬Has (e :: l) k := by
  rw [has_cons]
  rintro (rfl | hhas)
  · omega
  · exact not_has_of_lt h hk.le hhas

theorem compare_cases (k k' : KeyBits) : (compare k k' = 0 ∧ k = k') ∨
    (compare k k' = 1 ∧ k'.rank < k.rank) ∨ (compare k k' = -1 ∧ k.rank < k'.rank) := by
  by_cases heq : compare k k' = 0
  · exact .inl ⟨heq, compare_eq_zero.1 heq⟩
  · rw [compare_eq] at heq ⊢
    split_ifs at heq ⊢ with hlt hgt
    · exact .inr (.inr ⟨rfl, hlt⟩)
    · exact .inr (.inl ⟨rfl, hgt⟩)
    · exact absurd rfl heq

section OrderedSets

variable (hmine : Ordered mine) (htheirs : Ordered theirs)
include hmine htheirs

theorem removeWalk_eq :
    removeWalk mine theirs = mine.filter fun e => Has theirs e.w := by
  fun_induction removeWalk mine theirs with
  | case1 => rfl
  | case2 my mine =>
    exact (List.filter_eq_nil_iff.2 fun e _ => by simp [Has]).symm
  | case3 my mine their theirs cmpres heq ih =>
    have hkey : my.w = their.w := compare_eq_zero.1 heq
    have hrest : ∀ e ∈ mine, (Has (their :: theirs) e.w ↔ Has theirs e.w) := by
      intro e he
      exact has_cons_iff (hkey ▸ ne_of_rank_lt (hmine.lt he))
    rw [ih hmine.of_cons htheirs.of_cons, List.filter_cons_of_pos (by simp [Has, hkey])]
    refine congrArg (my :: ·) (List.filter_congr fun e he => ?_)
    simp only [hrest e he]
  | case4 my mine their theirs cmpres hne hgt ih =>
    have hlt : their.w.rank < my.w.rank := compare_pos.1 hgt
    rw [ih hmine htheirs.of_cons]
    refine List.filter_congr fun e he => ?_
    have hiff : Has (their :: theirs) e.w ↔ Has theirs e.w :=
      has_cons_iff (ne_of_rank_lt (hlt.trans_le (hmine.le he)))
    simp only [hiff]
  | case5 my mine their theirs cmpres hne hgt ih =>
    have hlt : my.w.rank < their.w.rank := by
      obtain ⟨h0, -⟩ | ⟨h1, -⟩ | ⟨-, hlt⟩ := compare_cases my.w their.w
      · exact absurd h0 hne
      · exact absurd (h1 ▸ Int.one_pos : compare my.w their.w > 0) hgt
      · exact hlt
    rw [ih hmine.of_cons htheirs, List.filter_cons_of_neg (by simpa using not_has_cons_of_lt htheirs hlt)]

/-- The keys that both have come before those that only the other table has. -/
def Precede (mine theirs : List Entry) : Prop :=
  ∀ e ∈ theirs, ∀ e' ∈ theirs, Has mine e.w → ¬Has mine e'.w → e.w.rank < e'.w.rank

theorem addWalk_eq (hprecede : Precede mine theirs) :
    addWalk mine theirs = theirs.filter fun e => ¬Has mine e.w := by
  fun_induction addWalk mine theirs with
  | case1 theirs => exact (List.filter_eq_self.2 fun e _ => by simp [Has]).symm
  | case2 my mine => rfl
  | case3 my mine their theirs cmpres heq ih =>
    have hkey : my.w = their.w := compare_eq_zero.1 heq
    have hiff : ∀ e ∈ theirs, (Has (my :: mine) e.w ↔ Has mine e.w) := fun e he =>
      has_cons_iff (hkey ▸ ne_of_rank_lt (htheirs.lt he))
    rw [ih hmine.of_cons htheirs.of_cons, List.filter_cons_of_neg (by simp [Has, hkey])]
    · refine List.filter_congr fun e he => ?_
      simp only [hiff e he]
    · intro e he e' he' hhas hnot
      exact hprecede e (List.mem_cons_of_mem _ he) e' (List.mem_cons_of_mem _ he') ((hiff e he).2 hhas)
        fun h => hnot ((hiff e' he').1 h)
  | case4 my mine their theirs cmpres hne hgt ih =>
    obtain ⟨h0, -⟩ | ⟨h1, -⟩ | ⟨h1, -⟩ := compare_cases my.w their.w
    · exact absurd h0 hne
    · exact absurd (h1 ▸ hgt : (1 : ℤ) > 1) (by decide)
    · exact absurd (h1 ▸ hgt : (-1 : ℤ) > 1) (by decide)
  | case5 my mine their theirs cmpres hne hgt ih =>
    -- The key that is skipped is not in what is left of the other table.
    have hskip : ∀ e ∈ their :: theirs, my.w ≠ e.w := by
      intro e he heq
      obtain rfl | he' := List.mem_cons.1 he
      · exact hne (compare_eq_zero.2 heq)
      have hlt' := htheirs.lt he'
      obtain ⟨h0, -⟩ | ⟨-, hlt⟩ | ⟨-, hlt⟩ := compare_cases my.w their.w
      · exact hne h0
      · have hnew : ¬Has (my :: mine) their.w := not_has_cons_of_lt hmine hlt
        have := hprecede e he their List.mem_cons_self ⟨my, List.mem_cons_self, heq⟩ hnew
        omega
      · rw [heq] at hlt
        omega
    have hiff : ∀ e ∈ their :: theirs, (Has (my :: mine) e.w ↔ Has mine e.w) := fun e he =>
      has_cons_iff (hskip e he)
    rw [ih hmine.of_cons htheirs]
    · refine List.filter_congr fun e he => ?_
      simp only [hiff e he]
    · intro e he e' he' hhas hnot
      exact hprecede e he e' he' ((hiff e he).2 hhas) fun h => hnot ((hiff e' he').1 h)

/-- The comparison finds whether keys are missing on one side or the other, and whether a key is common. -/
theorem compareWalk_spec (f : Flags) :
    let g := compareWalk false mine theirs f
    (g.emptyintersect = true ↔ f.emptyintersect = true ∧ ∀ e ∈ mine, ¬Has theirs e.w) ∧
      (g.othermissing = true ↔ f.othermissing = true ∨ ∃ e ∈ mine, ¬Has theirs e.w) ∧
      (g.memissing = true ↔ f.memissing = true ∨ ∃ e ∈ theirs, ¬Has mine e.w) := by
  fun_induction compareWalk false mine theirs f with
  | case1 theirs f =>
    cases theirs with
    | nil => simp
    | cons their theirs => simp [Has]
  | case2 my mine f => simp [Has]
  | case3 my mine their theirs f cmpres heq f' hmismatch => exact absurd hmismatch.1 Bool.false_ne_true
  | case4 my mine their theirs f cmpres heq f' hmatch ih =>
    have hkey : my.w = their.w := compare_eq_zero.1 heq
    obtain ⟨he, ho, hm⟩ := ih hmine.of_cons htheirs.of_cons
    have hmineIff : ∀ e ∈ mine, (Has (their :: theirs) e.w ↔ Has theirs e.w) := fun e hmem =>
      has_cons_iff (hkey ▸ ne_of_rank_lt (hmine.lt hmem))
    have htheirsIff : ∀ e ∈ theirs, (Has (my :: mine) e.w ↔ Has mine e.w) := fun e hmem =>
      has_cons_iff (hkey ▸ ne_of_rank_lt (htheirs.lt hmem))
    refine ⟨he.trans (iff_of_false (fun h => Bool.false_ne_true h.1) fun h => ?_), ho.trans ?_, hm.trans ?_⟩
    · exact h.2 my List.mem_cons_self ⟨their, List.mem_cons_self, hkey.symm⟩
    · refine or_congr_right ?_
      rw [List.exists_mem_cons_iff, or_iff_right fun h => h ⟨their, List.mem_cons_self, hkey.symm⟩]
      exact exists_congr fun e => and_congr_right fun hmem => not_congr (hmineIff e hmem).symm
    · refine or_congr_right ?_
      rw [List.exists_mem_cons_iff, or_iff_right fun h => h ⟨my, List.mem_cons_self, hkey⟩]
      exact exists_congr fun e => and_congr_right fun hmem => not_congr (htheirsIff e hmem).symm
  | case5 my mine their theirs f cmpres hne hgt ih =>
    have hlt : their.w.rank < my.w.rank := compare_pos.1 hgt
    obtain ⟨he, ho, hm⟩ := ih hmine htheirs.of_cons
    have hiff : ∀ e ∈ my :: mine, (Has (their :: theirs) e.w ↔ Has theirs e.w) := fun e hmem =>
      has_cons_iff (ne_of_rank_lt (hlt.trans_le (hmine.le hmem)))
    refine ⟨he.trans (and_congr_right fun _ => ?_), ho.trans (or_congr_right ?_), hm.trans ?_⟩
    · exact forall₂_congr fun e hmem => not_congr (hiff e hmem).symm
    · exact exists_congr fun e => and_congr_right fun hmem => not_congr (hiff e hmem).symm
    · exact iff_of_true (.inl rfl) (.inr ⟨their, List.mem_cons_self, not_has_cons_of_lt hmine hlt⟩)
  | case6 my mine their theirs f cmpres hne hgt ih =>
    have hlt : my.w.rank < their.w.rank := by
      obtain ⟨h0, -⟩ | ⟨h1, -⟩ | ⟨-, hlt⟩ := compare_cases my.w their.w
      · exact absurd h0 hne
      · exact absurd (h1 ▸ Int.one_pos : compare my.w their.w > 0) hgt
      · exact hlt
    have hnew : ¬Has (their :: theirs) my.w := not_has_cons_of_lt htheirs hlt
    obtain ⟨he, ho, hm⟩ := ih hmine.of_cons htheirs
    have hiff : ∀ e ∈ their :: theirs, (Has (my :: mine) e.w ↔ Has mine e.w) := fun e hmem =>
      has_cons_iff (ne_of_rank_lt (hlt.trans_le (htheirs.le hmem)))
    refine ⟨he.trans (and_congr_right fun _ => ?_), ho.trans ?_, hm.trans (or_congr_right ?_)⟩
    · rw [List.forall_mem_cons, and_iff_right hnew]
    · exact iff_of_true (.inl rfl) (.inr ⟨my, List.mem_cons_self, hnew⟩)
    · exact exists_congr fun e => and_congr_right fun hmem => not_congr (hiff e hmem).symm

theorem compareSets_yes :
    compareSets false mine theirs = .setsEqual ∨ compareSets false mine theirs = .setContainsOtherSet ↔
      (∀ e ∈ theirs, Has mine e.w) ∧ ((∀ e ∈ mine, Has theirs e.w) ∨ theirs ≠ []) := by
  obtain ⟨he, ho, hm⟩ := compareWalk_spec hmine htheirs ⟨true, false, false, false⟩
  unfold compareSets
  generalize compareWalk false mine theirs ⟨true, false, false, false⟩ = g at he ho hm
  have hall : g.memissing = false ↔ ∀ e ∈ theirs, Has mine e.w := by
    rw [← Bool.not_eq_true, hm]
    simp
  have hall' : g.othermissing = false ↔ ∀ e ∈ mine, Has theirs e.w := by
    rw [← Bool.not_eq_true, ho]
    simp
  -- When no key of the passed set is missing, there is a common one unless the passed set is empty.
  have hcommon : g.memissing = false → (g.emptyintersect = false ↔ theirs ≠ []) := by
    intro hmissing
    rw [← Bool.not_eq_true, he]
    constructor
    · rintro h rfl
      exact h ⟨rfl, fun e _ => by simp [Has]⟩
    · intro hne hdisjoint
      obtain ⟨their, theirs, rfl⟩ := List.exists_cons_of_ne_nil hne
      obtain ⟨e, hmem, hkey⟩ := hall.1 hmissing their List.mem_cons_self
      exact hdisjoint.2 e hmem ⟨their, List.mem_cons_self, hkey.symm⟩
  rw [← hall, ← hall']
  simp only [Bool.false_eq_true, false_and, if_false]
  cases hmissing : g.memissing with
  | true =>
    refine iff_of_false ?_ fun h => Bool.false_ne_true h.1.symm
    split_ifs <;> simp_all
  | false =>
    rw [← hcommon hmissing]
    cases hother : g.othermissing with
    | true =>
      cases hempty : g.emptyintersect with
      | true | false => simp
    | false => simp

end OrderedSets

/-! ## The tables -/

theorem Represents.has_iff (h : Represents l map) : Has l k ↔ map k ≠ none := by
  rw [Option.ne_none_iff_exists']
  constructor
  · rintro ⟨e, he, rfl⟩
    exact ⟨e.data, (h _ _).2 he⟩
  · rintro ⟨d, hd⟩
    exact ⟨⟨k, d⟩, (h k d).1 hd, rfl⟩

theorem ordered_read_iff {table : ℕ → Entry} :
    Ordered (read table 0 n) ↔ ∀ p q, p < q → q < n → (table p).w.rank < (table q).w.rank := by
  rw [Ordered, read_eq_map, List.pairwise_map, List.pairwise_iff_getElem]
  simp only [List.length_range, List.getElem_range, Nat.zero_add]
  exact ⟨fun h p q hpq hq => h p q (hpq.trans hq) hq hpq, fun h p q _ hq hpq => h p q hpq hq⟩

theorem Valid.ordered (h : Valid s) : Ordered s.sortedEntries := by
  refine ordered_read_iff.2 fun p q hpq hq => lt_of_le_of_ne (h.sorted p q hpq hq) fun heq => ?_
  have hle : s.numSorted ≤ s.size := Nat.le_add_right _ _
  exact hpq.ne (h.index (by omega) (by omega) (rank_injective heq))

theorem Ordered.nodup (h : Ordered l) : (l.map (·.w)).Nodup :=
  List.pairwise_map.2 (h.imp fun hlt => ne_of_rank_lt hlt)

theorem sortedEntries_eq (h : s.numUnsorted = 0) : s.sortedEntries = s.entries := by
  rw [KeySetStat.entries, KeySetStat.size, h]
  rfl

theorem entries_appendAll (hend : l = [] ∨ s.end_of_table = s.size) :
    (s.appendAll l).entries = s.entries ++ l := by
  have hsize : (s.appendAll l).size = s.size + l.length := (Nat.add_assoc _ _ _).symm
  rw [KeySetStat.entries, hsize]
  obtain rfl | hend := hend
  · rw [List.append_nil, List.length_nil, Nat.add_zero, KeySetStat.entries]
    exact congrArg (fun table => read table 0 s.size) (write_nil _ _)
  · rw [KeySetStat.entries, ← hend]
    exact read_write_append (Nat.zero_le _) (by omega)

theorem Valid.appendAll (h : Valid s) (hend : l = [] ∨ s.end_of_table = s.size) (hl : (l.map (·.w)).Nodup)
    (hnew : ∀ e ∈ l, ¬Has s.entries e.w) : Valid (s.appendAll l) := by
  refine ⟨?_, fun p q hpq hq => ?_⟩
  · rw [entries_appendAll hend, List.map_append]
    refine List.nodup_append.2 ⟨h.nodup, hl, fun a ha b hb hab => ?_⟩
    obtain ⟨e, he, rfl⟩ := List.mem_map.1 ha
    obtain ⟨e', he', rfl⟩ := List.mem_map.1 hb
    exact hnew e' he' ⟨e, he, hab⟩
  · have hq : q < s.numSorted := hq
    have hsame : ∀ p ≤ q, (s.appendAll l).table p = s.table p := by
      intro p hp
      obtain rfl | hend := hend
      · exact congrFun (write_nil _ _) p
      · have hle : s.numSorted ≤ s.size := Nat.le_add_right _ _
        exact write_of_lt (by omega)
    rw [hsame p hpq.le, hsame q le_rfl]
    exact h.sorted p q hpq hq

theorem Represents.append (h : Represents l map) (h' : Represents theirs map') :
    Represents (l ++ theirs.filter fun e => ¬Has l e.w) fun k => (map k).or (map' k) := by
  intro k d
  rw [List.mem_append, List.mem_filter, Option.or_eq_some_iff, ← h k d, ← h' k d, decide_eq_true_iff,
    h.has_iff, not_not, and_comm (a := map k = none)]

theorem Represents.filter (h : Represents l map) (h' : Represents theirs map') :
    Represents (l.filter fun e => Has theirs e.w) fun k => if map' k = none then none else map k := by
  intro k d
  rw [List.mem_filter, ← h k d, decide_eq_true_iff, h'.has_iff]
  dsimp only
  split_ifs with hnone
  · simp [hnone]
  · simp [hnone]

theorem entries_removeKeysNotInSet (s : KeySetStat) (theirs : List Entry) :
    (s.removeKeysNotInSet theirs).entries = removeWalk s.sortedEntries theirs := by
  have hsize : (s.removeKeysNotInSet theirs).size = (removeWalk s.sortedEntries theirs).length := Nat.add_zero _
  rw [KeySetStat.entries, hsize]
  exact read_write s.table 0 (removeWalk s.sortedEntries theirs)

theorem Valid.removeKeysNotInSet (h : Valid s) (htheirs : Ordered theirs) : Valid (s.removeKeysNotInSet theirs) := by
  have hordered : Ordered (removeWalk s.sortedEntries theirs) := by
    rw [removeWalk_eq h.ordered htheirs]
    exact h.ordered.sublist List.filter_sublist
  refine ⟨entries_removeKeysNotInSet s theirs ▸ hordered.nodup, fun p q hpq hq => ?_⟩
  have hread := read_write s.table 0 (removeWalk s.sortedEntries theirs)
  rw [← hread] at hordered
  exact (ordered_read_iff.1 hordered p q hpq hq).le

/-! ## The documented behaviour -/

open Classical in
/-- The documented effect on the map of the invoked key set, and the result, for two valid sets. -/
noncomputable def specCombine (request : PairRequest) (map other : KeyBits → Option UInt32) :
    (KeyBits → Option UInt32) × ResultCode :=
  match request with
  | .addKeysFromSet => (fun k => (map k).or (other k), .ok)
  | .removeKeysNotInSet => (fun k => if other k = none then none else map k, .ok)
  | .isSubsetOfSet => (map, if ∀ k, map k ≠ none → other k ≠ none then .ok else .one)

theorem specCombine_self (request : PairRequest) (map : KeyBits → Option UInt32) :
    specCombine request map map = (map, .ok) := by
  cases request with
  | addKeysFromSet => simp [specCombine]
  | removeKeysNotInSet =>
    have hmap : (fun k => if map k = none then none else map k) = map := by
      funext k
      split_ifs with hnone
      · exact hnone.symm
      · rfl
    exact congrArg (·, ResultCode.ok) hmap
  | isSubsetOfSet =>
    rw [specCombine]
    exact congrArg (map, ·) (if_pos fun _ hk => hk)

open Classical in
/-- The documented effect on the map of the key set `i`, and the result. -/
noncomputable def specCase (maps : ℕ → FiniteMap) (i : ℕ) (msg : PairMsg) :
    (KeyBits → Option UInt32) × ResultCode :=
  let map := (maps i).map
  if msg.request ≠ .isSubsetOfSet ∧ msg.rdOnly = true then (map, .unknownRequest)
  else if (maps i).Invalid msg.version then (map, .setInvalid)
  else
    match msg.passed with
    | none => (map, .requestError)
    | some j =>
      if j ≠ i ∧ (maps j).Invalid msg.otherVersion then (map, .passedSetInvalid)
      else specCombine msg.request map (maps j).map

open Classical in
/-- The documented behaviour of the key set `i`. -/
noncomputable def specPair (maps : ℕ → FiniteMap) (i : ℕ) (msg : PairMsg) : FiniteMap × Response :=
  let out := specCase maps i msg
  (⟨out.1, if msg.version ≠ (maps i).version ∧ ¬(maps i).Invalid msg.version ∧ FiniteMap.Nonempty out.1 then
      msg.version else (maps i).version⟩, ⟨out.2, 0⟩)

/-- The documented behaviour of all the key sets: only the invoked one changes. -/
noncomputable def specStep (maps : ℕ → FiniteMap) : Action → (ℕ → FiniteMap) × Response
  | .single i msg => (update maps i ((maps i).step msg).1, ((maps i).step msg).2)
  | .pair i msg => (update maps i (specPair maps i msg).1, (specPair maps i msg).2)

/-- The union is computed, and there is room for it. -/
def AddProper (capacity : ℕ) (s t : KeySetStat) : Prop :=
  -- Of the keys of the passed set, those that are new come after the others.
  Precede s.entries t.entries ∧
    ∀ n, n = (t.entries.filter fun e => ¬Has s.entries e.w).length → n ≠ 0 →
      s.end_of_table = s.size ∧ s.end_of_table + n ≤ capacity

/-- Neither set is a proper part of the other one, or the passed one is empty. -/
def SubsetProper (s t : KeySetStat) : Prop :=
  ((∀ e ∈ s.entries, Has t.entries e.w) → ∀ e ∈ t.entries, Has s.entries e.w) ∧
    ((∀ e ∈ t.entries, Has s.entries e.w) → t.size ≠ 0 → ∀ e ∈ s.entries, Has t.entries e.w)

/-- The messages that are answered as documented. -/
def PairProper (capacity : ℕ) (sets : ℕ → KeySetStat) (i : ℕ) (msg : PairMsg) : Prop :=
  ¬(msg.request ≠ .isSubsetOfSet ∧ msg.rdOnly = true) → ¬(sets i).setInvalid msg.version →
    match msg.request with
    | .addKeysFromSet => ∀ j, msg.passed = some j → j ≠ i → ¬(sets j).setInvalid msg.otherVersion →
        AddProper capacity (sets i) (sets j)
    | .removeKeysNotInSet => True
    | .isSubsetOfSet => ∃ j, msg.passed = some j ∧
        (j ≠ i → ¬(sets j).setInvalid msg.otherVersion ∧ SubsetProper (sets i) (sets j))

def Action.Proper (capacity : ℕ) (sets : ℕ → KeySetStat) : Action → Prop
  | .single i msg => KeySet.Proper capacity (sets i) msg
  | .pair i msg => PairProper capacity sets i msg

/-! ## The simulation -/

variable {m : FiniteMap} {sets sets' : ℕ → KeySetStat} {maps : ℕ → FiniteMap} {msg : PairMsg} {i : ℕ}
  {version : UInt32}

theorem Sim.requireSorted (h : Sim s m) : Sim s.requireSorted m :=
  ⟨h.valid.requireSorted, h.represents.perm (entries_requireSorted s), (requireSorted_version s).trans h.version⟩

theorem getSegment_eq (h : ¬t.setInvalid version) : t.getSegment version = t.requireSorted := by
  rw [KeySetStat.getSegment, KeySetStat.setVersion, requireSorted_version, requireSorted_size]
  exact if_neg fun h' => h ⟨h'.1, h'.2.2⟩

theorem Precede.perm (h : Precede mine theirs) {mine' theirs' : List Entry} (hmine : mine'.Perm mine)
    (htheirs : theirs'.Perm theirs) : Precede mine' theirs' := by
  have hhas : ∀ k, Has mine' k ↔ Has mine k := fun k => by simp only [Has, hmine.mem_iff]
  intro e he e' he' hk hk'
  exact h e (htheirs.mem_iff.1 he) e' (htheirs.mem_iff.1 he') ((hhas _).1 hk) fun hnot => hk' ((hhas _).2 hnot)

theorem Sim.addKeysFromSet (h : Sim s m) (hsorted : s.numUnsorted = 0) (htheirs : Ordered theirs)
    (hrep : Represents theirs map') (hprecede : Precede s.entries theirs)
    (hroom : ∀ n, n = (theirs.filter fun e => ¬Has s.entries e.w).length → n ≠ 0 →
      s.end_of_table = s.size ∧ s.end_of_table + n ≤ capacity) :
    ∃ s', s.addKeysFromSet capacity theirs = some s' ∧ Valid s' ∧
      Represents s'.entries (fun k => (m.map k).or (map' k)) ∧
      s'.startKeyBitsVersion = s.startKeyBitsVersion := by
  have hwalk : addWalk s.sortedEntries theirs = theirs.filter fun e => ¬Has s.entries e.w := by
    have hordered := h.valid.ordered
    rw [sortedEntries_eq hsorted] at hordered ⊢
    exact addWalk_eq hordered htheirs hprecede
  have hcases : (theirs.filter fun e => ¬Has s.entries e.w) = [] ∨ s.end_of_table = s.size := by
    by_cases hnil : (theirs.filter fun e => ¬Has s.entries e.w) = []
    · exact .inl hnil
    · exact .inr (hroom _ rfl fun h0 => hnil (List.length_eq_zero_iff.1 h0)).1
  have hfits : (theirs.filter fun e => ¬Has s.entries e.w) = [] ∨
      s.end_of_table + (theirs.filter fun e => ¬Has s.entries e.w).length ≤ capacity := by
    by_cases hnil : (theirs.filter fun e => ¬Has s.entries e.w) = []
    · exact .inl hnil
    · exact .inr (hroom _ rfl fun h0 => hnil (List.length_eq_zero_iff.1 h0)).2
  have hnodup : ((theirs.filter fun e => ¬Has s.entries e.w).map (·.w)).Nodup :=
    Ordered.nodup (htheirs.sublist List.filter_sublist)
  have hvalid := h.valid.appendAll hcases hnodup fun e he => by simpa using (List.mem_filter.1 he).2
  refine ⟨_, by rw [KeySetStat.addKeysFromSet, hwalk]; exact if_pos hfits, hvalid.tidy, ?_, tidy_version _⟩
  refine Represents.perm ?_ (tidy_perm _)
  rw [entries_appendAll hcases]
  exact h.represents.append hrep

theorem Sim.combine (capacity : ℕ) (request : PairRequest) (h : Sim s m) (hsorted : s.numUnsorted = 0)
    (htheirs : Ordered theirs) (hrep : Represents theirs map')
    (hadd : request = .addKeysFromSet → Precede s.entries theirs ∧
      ∀ n, n = (theirs.filter fun e => ¬Has s.entries e.w).length → n ≠ 0 →
        s.end_of_table = s.size ∧ s.end_of_table + n ≤ capacity)
    (hsubset : request = .isSubsetOfSet →
      ((∀ e ∈ s.entries, Has theirs e.w) → ∀ e ∈ theirs, Has s.entries e.w) ∧
        ((∀ e ∈ theirs, Has s.entries e.w) → theirs ≠ [] → ∀ e ∈ s.entries, Has theirs e.w)) :
    ∃ s', KeySet.combine capacity request s theirs = some (s', (specCombine request m.map map').2) ∧
      Valid s' ∧ Represents s'.entries (specCombine request m.map map').1 ∧
      s'.startKeyBitsVersion = s.startKeyBitsVersion := by
  cases request with
  | addKeysFromSet =>
    obtain ⟨hprecede, hroom⟩ := hadd rfl
    obtain ⟨s', hrun, hvalid, hrep', hversion⟩ := h.addKeysFromSet hsorted htheirs hrep hprecede hroom
    exact ⟨s', by rw [KeySet.combine, hrun]; rfl, hvalid, hrep', hversion⟩
  | removeKeysNotInSet =>
    have hordered := h.valid.ordered
    refine ⟨_, rfl, h.valid.removeKeysNotInSet htheirs, ?_, rfl⟩
    rw [entries_removeKeysNotInSet, removeWalk_eq hordered htheirs, sortedEntries_eq hsorted]
    exact h.represents.filter hrep
  | isSubsetOfSet =>
    obtain ⟨hpart, hpart'⟩ := hsubset rfl
    have hordered := h.valid.ordered
    rw [sortedEntries_eq hsorted] at hordered
    have hall : (∀ e ∈ s.entries, Has theirs e.w) ↔ ∀ k, m.map k ≠ none → map' k ≠ none := by
      constructor
      · intro hall k hk
        obtain ⟨e, he, rfl⟩ := h.represents.has_iff.2 hk
        exact hrep.has_iff.1 (hall e he)
      · intro hall e he
        exact hrep.has_iff.2 (hall _ (h.represents.has_iff.1 ⟨e, he, rfl⟩))
    have hyes := compareSets_yes hordered htheirs
    refine ⟨s, ?_, h.valid, h.represents, rfl⟩
    simp only [KeySet.combine, specCombine, sortedEntries_eq hsorted]
    by_cases hsub : ∀ e ∈ s.entries, Has theirs e.w
    · rw [if_pos (hyes.2 ⟨hpart hsub, .inl hsub⟩), if_pos (hall.1 hsub)]
    · rw [if_neg fun h => hsub ?_, if_neg fun h => hsub (hall.2 h)]
      obtain ⟨hthere, hsub' | hne⟩ := hyes.1 h
      · exact hsub'
      · exact hpart' hthere hne

/-- The key sets after the work on a message: the invoked one has changed its entries as documented. -/
structure Worked (sets' sets : ℕ → KeySetStat) (maps : ℕ → FiniteMap) (i : ℕ) (map : KeyBits → Option UInt32) :
    Prop where
  others : ∀ j, j ≠ i → Sim (sets' j) (maps j)
  valid : Valid (sets' i)
  represents : Represents (sets' i).entries map
  version : (sets' i).startKeyBitsVersion = (sets i).startKeyBitsVersion

theorem Worked.refl (h : ∀ j, Sim (sets j) (maps j)) (i : ℕ) : Worked sets sets maps i (maps i).map :=
  ⟨fun j _ => h j, (h i).valid, (h i).represents, rfl⟩

theorem Worked.requireSorted (h : ∀ j, Sim (sets j) (maps j)) (i : ℕ) :
    Worked (update sets i (sets i).requireSorted) sets maps i (maps i).map := by
  refine ⟨fun j hj => ?_, ?_, ?_, ?_⟩
  · rw [update_of_ne hj]
    exact h j
  · rw [update_self]
    exact (h i).requireSorted.valid
  · rw [update_self]
    exact (h i).requireSorted.represents
  · rw [update_self]
    exact requireSorted_version _

theorem Worked.segment (h : ∀ j, Sim (sets j) (maps j)) {j : ℕ} (hji : j ≠ i) (ht : Sim t (maps j))
    (hvalid : Valid s) (hrep : Represents s.entries map)
    (hversion : s.startKeyBitsVersion = (sets i).startKeyBitsVersion) :
    Worked (update (update sets j t) i s) sets maps i map := by
  refine ⟨fun k hk => ?_, ?_, ?_, ?_⟩
  · rw [update_of_ne hk]
    obtain rfl | hkj := eq_or_ne k j
    · rw [update_self]
      exact ht
    · rw [update_of_ne hkj]
      exact h k
  · rw [update_self]
    exact hvalid
  · rw [update_self]
    exact hrep
  · rw [update_self]
    exact hversion

theorem AddProper.sorted (h : AddProper capacity s t) : Precede s.requireSorted.entries t.requireSorted.sortedEntries ∧
    ∀ n, n = (t.requireSorted.sortedEntries.filter fun e => ¬Has s.requireSorted.entries e.w).length → n ≠ 0 →
      s.requireSorted.end_of_table = s.requireSorted.size ∧ s.requireSorted.end_of_table + n ≤ capacity := by
  have hs := entries_requireSorted s
  have ht := entries_requireSorted t
  have hhas : ∀ k, Has s.requireSorted.entries k ↔ Has s.entries k := fun k => by simp only [Has, hs.mem_iff]
  rw [sortedEntries_eq (requireSorted_numUnsorted t), requireSorted_size, requireSorted_end_of_table]
  refine ⟨h.1.perm hs ht, fun n hn => h.2 n (hn.trans ?_)⟩
  simp only [hhas]
  exact (ht.filter _).length_eq

theorem SubsetProper.sorted (h : SubsetProper s t) :
    ((∀ e ∈ s.requireSorted.entries, Has t.requireSorted.sortedEntries e.w) →
        ∀ e ∈ t.requireSorted.sortedEntries, Has s.requireSorted.entries e.w) ∧
      ((∀ e ∈ t.requireSorted.sortedEntries, Has s.requireSorted.entries e.w) →
        t.requireSorted.sortedEntries ≠ [] →
          ∀ e ∈ s.requireSorted.entries, Has t.requireSorted.sortedEntries e.w) := by
  have hs := entries_requireSorted s
  have ht := entries_requireSorted t
  have hnil : t.requireSorted.entries ≠ [] → t.size ≠ 0 := fun hne hsize => hne (by
    rw [KeySetStat.entries, requireSorted_size, hsize]
    rfl)
  rw [sortedEntries_eq (requireSorted_numUnsorted t)]
  simp only [Has, hs.mem_iff, ht.mem_iff]
  exact ⟨h.1, fun hall hne => h.2 hall (hnil hne)⟩

theorem pairCase_spec (h : ∀ j, Sim (sets j) (maps j)) (hproper : PairProper capacity sets i msg) :
    ∃ sets', pairCase capacity sets i msg = some (sets', (specCase maps i msg).2) ∧
      Worked sets' sets maps i (specCase maps i msg).1 := by
  have hinvalid : ∀ j version, (maps j).Invalid version ↔ (sets j).setInvalid version :=
    fun j _ => (h j).invalid_iff
  unfold pairCase specCase
  simp only [hinvalid]
  by_cases hro : msg.request ≠ .isSubsetOfSet ∧ msg.rdOnly = true
  · rw [if_pos hro, if_pos hro]
    exact ⟨_, rfl, Worked.refl h i⟩
  by_cases hinv : (sets i).setInvalid msg.version
  · rw [if_neg hro, if_neg hro, if_pos hinv, if_pos hinv]
    exact ⟨_, rfl, Worked.refl h i⟩
  rw [if_neg hro, if_neg hro, if_neg hinv, if_neg hinv]
  have hproper := hproper hro hinv
  obtain ⟨rdOnly, version, otherVersion, passed, request⟩ := msg
  cases passed with
  | none =>
    have hrequest : request ≠ .isSubsetOfSet := by
      rintro rfl
      obtain ⟨j, hj, -⟩ := hproper
      exact absurd hj (by simp)
    simp only [verify, uncombined, if_neg hrequest]
    exact ⟨_, rfl, Worked.requireSorted h i⟩
  | some j =>
    by_cases hji : j = i
    · -- The set itself: nothing changes.
      subst hji
      have hok : uncombined request .keyToSelf = .ok := rfl
      simp only [verify, if_true, hok, ne_eq, not_true_eq_false, false_and, if_false, specCombine_self]
      exact ⟨_, rfl, Worked.requireSorted h j⟩
    by_cases hpassed : (sets j).setInvalid otherVersion
    · have hrequest : request ≠ .isSubsetOfSet := by
        rintro rfl
        obtain ⟨j', hj', hvalid⟩ := hproper
        obtain rfl := Option.some.inj hj'
        exact (hvalid hji).1 hpassed
      simp only [verify, if_neg hji, if_pos hpassed, uncombined, if_neg hrequest]
      rw [if_pos ⟨hji, hpassed⟩]
      exact ⟨_, rfl, Worked.requireSorted h i⟩
    · -- The passed set sorts its table, and the walk begins.
      have hsim := (h i).requireSorted
      have hsim' := (h j).requireSorted
      have hentries := sortedEntries_eq (requireSorted_numUnsorted (sets j))
      have hordered := hsim'.valid.ordered
      have hrep : Represents (sets j).requireSorted.sortedEntries (maps j).map := by
        rw [hentries]
        exact hsim'.represents
      obtain ⟨s', hrun, hvalid, hrep', hversion⟩ := Sim.combine capacity request hsim
        (requireSorted_numUnsorted _) hordered hrep
        (fun hreq => by
          subst hreq
          exact (hproper j rfl hji hpassed).sorted)
        (fun hreq => by
          subst hreq
          obtain ⟨j', hj', hboth⟩ := hproper
          obtain rfl := Option.some.inj hj'
          exact (hboth hji).2.sorted)
      simp only [verify, if_neg hji, if_neg hpassed, getSegment_eq hpassed, hrun]
      rw [if_neg fun hboth => hpassed hboth.2]
      exact ⟨_, rfl, Worked.segment h hji hsim' hvalid hrep' (hversion.trans (requireSorted_version _))⟩

theorem exec_spec (h : ∀ j, Sim (sets j) (maps j)) {a : Action} (hproper : a.Proper capacity sets) :
    ∃ sets', exec capacity sets a = some (sets', (specStep maps a).2) ∧
      ∀ j, Sim (sets' j) ((specStep maps a).1 j) := by
  cases a with
  | single i msg =>
    obtain ⟨s', hrun, hsim⟩ := (h i).step hproper
    refine ⟨_, by rw [exec, hrun]; rfl, fun j => ?_⟩
    obtain rfl | hj := eq_or_ne j i
    · simp only [specStep, update_self]
      exact hsim
    · simp only [specStep, update_of_ne hj]
      exact h j
  | pair i msg =>
    obtain ⟨sets', hrun, hwork⟩ := pairCase_spec h hproper
    refine ⟨_, by rw [exec, processPair, hrun]; rfl, fun j => ?_⟩
    obtain rfl | hj := eq_or_ne j i
    · simp only [specStep, update_self]
      classical
      exact Sim.setVersion hwork.valid hwork.represents (hwork.version.trans (h j).version) (h j).invalid_iff.symm
    · simp only [specStep, update_of_ne hj]
      exact hwork.others j hj

/-- The states of the key sets and of the maps after sequences of admitted messages. -/
inductive Runs (capacity : ℕ) (admitted : (ℕ → KeySetStat) → Action → Prop) :
    (ℕ → KeySetStat) → (ℕ → FiniteMap) → Prop where
  | init (versions : ℕ → UInt32) :
      Runs capacity admitted (fun i => .init (versions i)) fun i => ⟨fun _ => none, versions i⟩
  | step {sets maps sets' r} (a : Action) : Runs capacity admitted sets maps → admitted sets a →
      exec capacity sets a = some (sets', r) → Runs capacity admitted sets' (specStep maps a).1

theorem Runs.sim (h : Runs capacity (fun sets a => a.Proper capacity sets) sets maps) (i : ℕ) :
    Sim (sets i) (maps i) := by
  induction h generalizing i with
  | init versions => exact ⟨Valid.init _, Represents.init _, rfl⟩
  | step a _ hproper hrun ih =>
    obtain ⟨sets', hrun', hsim⟩ := exec_spec ih hproper
    rw [hrun] at hrun'
    obtain ⟨rfl, -⟩ := Prod.mk.inj (Option.some.inj hrun')
    exact hsim i

/-- What is claimed of the key sets, and of the messages that are admitted in their states. -/
structure AlgebraCorrect (capacity : ℕ) (admitted : Action → Prop) (sets : ℕ → KeySetStat)
    (maps : ℕ → FiniteMap) : Prop where
  /-- Each table is without duplicates, and its sorted part is sorted. -/
  valid : ∀ i, Valid (sets i)
  represents : ∀ i, Represents (sets i).entries (maps i).map
  /-- The answer is the documented one, and then the sets stand for the documented maps. -/
  answers : ∀ {a}, admitted a → ∃ sets', exec capacity sets a = some (sets', (specStep maps a).2) ∧
    ∀ i, Valid (sets' i) ∧ Represents (sets' i).entries ((specStep maps a).1 i).map
  /-- The entries of the other sets are the same. -/
  others : ∀ {i msg sets' r}, processPair capacity sets i msg = some (sets', r) →
    ∀ j, j ≠ i → (sets' j).entries.Perm (sets j).entries

theorem entries_setVersion {invalid : Prop} [Decidable invalid] :
    (s.setVersion version invalid).entries = s.entries := by
  unfold KeySetStat.setVersion
  split_ifs
  · rfl
  · rfl

theorem entries_pairCase {code : ResultCode} (hrun : pairCase capacity sets i msg = some (sets', code)) {j : ℕ}
    (hj : j ≠ i) : (sets' j).entries.Perm (sets j).entries := by
  unfold pairCase at hrun
  split_ifs at hrun with hro hinv
  · obtain ⟨rfl, -⟩ := Prod.mk.inj (Option.some.inj hrun)
    exact List.Perm.refl _
  · obtain ⟨rfl, -⟩ := Prod.mk.inj (Option.some.inj hrun)
    exact List.Perm.refl _
  · dsimp only at hrun
    split at hrun
    · rename_i k _
      obtain ⟨out, -, hout⟩ := Option.map_eq_some_iff.1 hrun
      obtain ⟨rfl, -⟩ := Prod.mk.inj hout
      rw [update_of_ne hj]
      -- Only the passed set has done anything.
      obtain rfl | hjk := eq_or_ne j k
      · rw [update_self, KeySetStat.getSegment, entries_setVersion]
        exact entries_requireSorted _
      · rw [update_of_ne hjk]
    · obtain ⟨rfl, -⟩ := Prod.mk.inj (Option.some.inj hrun)
      rw [update_of_ne hj]

theorem entries_of_ne {r : Response} (hrun : processPair capacity sets i msg = some (sets', r)) {j : ℕ}
    (hj : j ≠ i) : (sets' j).entries.Perm (sets j).entries := by
  obtain ⟨⟨sets₁, code⟩, hcase, hout⟩ := Option.map_eq_some_iff.1 hrun
  obtain ⟨rfl, -⟩ := Prod.mk.inj hout
  rw [update_of_ne hj]
  exact entries_pairCase hcase hj

/-- In the runs of proper messages, the key sets answer as documented. -/
theorem algebra_proper (h : Runs capacity (fun sets a => a.Proper capacity sets) sets maps) :
    AlgebraCorrect capacity (fun a => a.Proper capacity sets) sets maps where
  valid i := (h.sim i).valid
  represents i := (h.sim i).represents
  answers hproper := by
    obtain ⟨sets', hrun, hsim⟩ := exec_spec h.sim hproper
    exact ⟨sets', hrun, fun i => ⟨(hsim i).valid, (hsim i).represents⟩⟩
  others hrun _ hj := entries_of_ne hrun hj

/-- Two sets have one key in common, and then the set 0 becomes the intersection. -/
theorem algebra_proper_intersection : ∃ sets maps, ((sets 0).entries = [⟨⟨2, 0, 0, 0⟩, 8⟩] ∧
    (sets 1).entries = [⟨⟨2, 0, 0, 0⟩, 8⟩, ⟨⟨3, 0, 0, 0⟩, 9⟩]) ∧
    AlgebraCorrect 4 (fun a => a.Proper 4 sets) sets maps := by
  have h1 : Runs 4 (fun sets a => a.Proper 4 sets) _ _ :=
    .step (.single 0 (keyMsg 1 (.addKey 7))) (.init fun _ => 0) (fun _ _ _ => ⟨rfl, by decide⟩) rfl
  have h2 : Runs 4 (fun sets a => a.Proper 4 sets) _ _ :=
    .step (.single 0 (keyMsg 2 (.addKey 8))) h1 (fun _ _ _ => ⟨rfl, by decide⟩) rfl
  have h3 : Runs 4 (fun sets a => a.Proper 4 sets) _ _ :=
    .step (.single 1 (keyMsg 2 (.addKey 8))) h2 (fun _ _ _ => ⟨rfl, by decide⟩) rfl
  have h4 : Runs 4 (fun sets a => a.Proper 4 sets) _ _ :=
    .step (.single 1 (keyMsg 3 (.addKey 9))) h3 (fun _ _ _ => ⟨rfl, by decide⟩) rfl
  have h5 : Runs 4 (fun sets a => a.Proper 4 sets) _ _ :=
    .step (.pair 0 ⟨false, 0, 0, some 1, .removeKeysNotInSet⟩) h4 (fun _ _ => trivial) rfl
  exact ⟨_, _, ⟨by decide +kernel, by decide +kernel⟩, algebra_proper h5⟩

theorem isSubsetOfSet_empty (capacity : ℕ) (h : ∀ j, Sim (sets j) (maps j)) {j : ℕ} (hji : j ≠ i) (hempty : (sets i).size = 0)
    (hsize : (sets j).size ≠ 0) (hpassed : ¬(sets j).setInvalid version) :
    ∃ sets', exec capacity sets (.pair i ⟨false, version, version, some j, .isSubsetOfSet⟩) =
      some (sets', ⟨.one, 0⟩) := by
  have hsim := (h i).requireSorted
  have hsim' := (h j).requireSorted
  have hno := (compareSets_yes hsim.valid.ordered hsim'.valid.ordered).not.2 fun hyes => by
    have hmem : (sets j).requireSorted.table 0 ∈ (sets j).requireSorted.sortedEntries := by
      rw [sortedEntries_eq (requireSorted_numUnsorted _), mem_entries]
      exact ⟨0, by rw [requireSorted_size]; omega, rfl⟩
    obtain ⟨e, he, -⟩ := hyes.1 _ hmem
    rw [sortedEntries_eq (requireSorted_numUnsorted _), mem_entries, requireSorted_size, hempty] at he
    obtain ⟨p, hp, -⟩ := he
    exact absurd hp (Nat.not_lt_zero p)
  have hinv : ¬(sets i).setInvalid version := fun hinv => hinv.2 hempty
  simp only [exec, processPair, pairCase, verify, ne_eq, not_true_eq_false, false_and, if_false, if_neg hinv,
    if_neg hji, if_neg hpassed, combine, getSegment_eq hpassed, if_neg hno]
  exact ⟨_, rfl⟩

theorem specStep_isSubsetOfSet_empty {j : ℕ} (hempty : ¬FiniteMap.Nonempty (maps i).map)
    (hpassed : ¬(maps j).Invalid version) :
    (specStep maps (.pair i ⟨false, version, version, some j, .isSubsetOfSet⟩)).2 = ⟨.ok, 0⟩ := by
  have hinv : ¬(maps i).Invalid version := fun hinv => hempty hinv.2
  have hsub : ∀ k, (maps i).map k ≠ none → (maps j).map k ≠ none := fun k hk => absurd ⟨k, hk⟩ hempty
  simp only [specStep, specPair, specCase, ne_eq, not_true_eq_false, false_and, if_false, if_neg hinv]
  rw [if_neg fun hboth => hpassed hboth.2, specCombine, if_pos hsub]

/-- A key is added to the set 1, and then the set 0, which is empty, is asked whether it is a subset. -/
theorem algebra_fails : ¬∀ (sets : ℕ → KeySetStat) (maps : ℕ → FiniteMap), Runs 4 (fun _ _ => True) sets maps →
    AlgebraCorrect 4 (fun _ => True) sets maps := by
  intro h
  have hadded : Runs 4 (fun _ _ => True) _ _ :=
    Runs.step (.single 1 (keyMsg 1 (.addKey 7))) (.init fun _ => 0) trivial rfl
  have hsim := (@Runs.step 4 _ _ _ _ _ (.single 1 (keyMsg 1 (.addKey 7))) (.init fun _ => 0)
    (fun _ _ _ => ⟨rfl, by decide⟩) rfl : Runs 4 (fun sets a => a.Proper 4 sets) _ _).sim
  obtain ⟨sets', hrun, -⟩ := @AlgebraCorrect.answers _ _ _ _ (h _ _ hadded)
    (.pair 0 ⟨false, 0, 0, some 1, .isSubsetOfSet⟩) trivial
  obtain ⟨sets'', hrun'⟩ := @isSubsetOfSet_empty _ _ 0 0 4 hsim 1 (by decide) rfl (by decide) (by decide)
  rw [hrun] at hrun'
  have hcode := (Prod.mk.inj (Option.some.inj hrun')).2
  have hempty := (hsim 0).represents.nonempty_iff.not.2 (by decide)
  have hinv := (hsim 1).invalid_iff.not.2 (by decide : ¬KeySetStat.setInvalid _ 0)
  rw [specStep_isSubsetOfSet_empty hempty hinv] at hcode
  exact absurd hcode (by decide)

end CapROS.KeySet
