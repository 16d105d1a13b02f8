import CapROS.LogDirectory.Runs

/-!
# The log directory as a map

The log directory implements a finite map from the OIDs to the locations: in a run without scans,
with generations that do not decrease and within the capacity, no call fails, the tree stays a
red-black search tree, and `ld_findObject` finds what has been recorded last. The condition is that no
call ends with the removal of the root of a tree of two nodes. `remove_fixup` then returns early and
leaves the other node red, as the root, and the next node that is added stops the kernel.

* `refines_run`: every run that meets both refines the map.
-/

namespace CapROS.LogDirectory

open LinkedTree LinkedTree.Tree LinkedRing
open Function (update update_self update_of_ne update_eq_self)

/-- The location of each object with its generation. -/
abbrev LocationMap := ℕ → Option (ObjectDescriptor × ℕ)

/-- The map after a call. -/
def Op.apply (M : LocationMap) : Op → LocationMap
  | .record od generation => update M od.oid (some (od, generation))
  | .remove oid => update M oid none
  | .clear generation => fun oid => (M oid).filter fun e => generation < e.2
  | .resetScan _ | .findNext _ | .retired _ => M

/-- The directory is a red-black search tree with consistent links, and `ld_findObject` finds what is
in the map. -/
structure Refines (D : Directory) (M : LocationMap) : Prop where
  tree : ∃ t, Rep D.tree [] t ∧ RedBlack t ∧ Ascending (fun n => (D.od n).oid) t.addrs
  find : ∀ oid, findObject D oid = .ok ((M oid).map Prod.fst)

/-- The call stays within the capacity: there is a node for a new object, the entries that leave the
table are empty, and generations do not decrease. There is no scan. -/
def Within (D : Directory) : Op → Prop
  | .record od generation =>
      0 < generation ∧ D.highestGeneration ≤ generation ∧
        (∀ i < ldMaxGenerations, D.highestGeneration < generation →
          ldMaxGenerations - min (generation - D.highestGeneration) ldMaxGenerations ≤ i →
            (D.table i).head = 0) ∧
        (entryNode D od.oid = 0 → D.logEntryCount < D.numLogDirEntries)
  | .remove _ => True
  | .clear generation =>
      generation ≤ D.highestGeneration ∧ D.highestGeneration < generation + ldMaxGenerations
  | .retired generation => D.lastRetiredGeneration ≤ generation
  | .resetScan _ | .findNext _ => False

instance (D : Directory) : (op : Op) → Decidable (Within D op)
  | .record _ _ => inferInstanceAs (Decidable (_ ∧ _ ∧ _ ∧ _))
  | .remove _ => inferInstanceAs (Decidable True)
  | .clear _ => inferInstanceAs (Decidable (_ ∧ _))
  | .retired _ => inferInstanceAs (Decidable (_ ≤ _))
  | .resetScan _ | .findNext _ => inferInstanceAs (Decidable False)

/-- The calls of `tree_remove_node` for several places of the table. -/
def clearRemovals : List ℕ → Directory → List (Directory × ℕ)
  | [], _ => []
  | i :: is, D =>
      removalsAt D i ++
        match clearAt D i with
        | .ok D' => clearRemovals is D'
        | .error _ => []

/-- The calls of `tree_remove_node` that a call makes, each with the directory before it. -/
def removals (D : Directory) : Op → List (Directory × ℕ)
  | .remove oid => if entryNode D oid = 0 then [] else [(D, entryNode D oid)]
  | .clear generation =>
      let gti := D.highestGeneration - generation
      clearRemovals (List.range' gti (ldMaxGenerations - gti)) D
  | .record _ _ | .resetScan _ | .findNext _ | .retired _ => []

/-- The last node that the call removes is not the root of a tree of two nodes. -/
def KeepsBlackRoot (D : Directory) (op : Op) : Prop :=
  ∀ c ∈ (removals D op).getLast?, ¬(c.1.tree.root = c.2 ∧ c.1.logEntryCount = 2)

instance (D : Directory) (op : Op) : Decidable (KeepsBlackRoot D op) :=
  inferInstanceAs (Decidable (∀ c ∈ (removals D op).getLast?, ¬(_ ∧ _)))

/-- All calls meet the condition in the state in which they are made. -/
def Meets (P : Directory → Op → Prop) (D : Directory) : List Op → Prop
  | [] => True
  | op :: ops => P D op ∧ ∀ D' ∈ (op.run D).toOption, Meets P D' ops

instance decidableMeets (P : Directory → Op → Prop) [∀ D op, Decidable (P D op)] :
    (D : Directory) → (ops : List Op) → Decidable (Meets P D ops)
  | _, [] => inferInstanceAs (Decidable True)
  | D, op :: ops =>
      have : ∀ D', Decidable (Meets P D' ops) := fun D' => decidableMeets P D' ops
      inferInstanceAs (Decidable (_ ∧ ∀ D' ∈ (op.run D).toOption, Meets P D' ops))

variable {D D' : Directory} {V V' : View} {M : LocationMap} {chain : ℕ → Chain} {g i j k n x z : ℕ}

/-! ## The cursors stay null -/

/-- No scan is going on. -/
def NoScan (chain : ℕ → Chain) : Prop := ∀ k, (chain k).cursor = 0

theorem NoScan.takeOut (h : NoScan chain) (i : ℕ) (hz : z ≠ 0) : NoScan (takeOut chain i z) := by
  intro k
  unfold LogDirectory.takeOut
  by_cases hk : k = i
  · subst hk
    simp [Chain.unlink, h k, hz.symm]
  · simpa [hk] using h k

theorem NoScan.putIn (h : NoScan chain) (i z : ℕ) : NoScan (putIn chain i z) := by
  intro k
  unfold LogDirectory.putIn
  by_cases hk : k = i
  · subst hk
    simpa [Chain.link] using h k
  · simpa [hk] using h k

theorem NoScan.opened (h : NoScan chain) (D : Directory) (g : ℕ) : NoScan (opened D chain g) := by
  intro k
  unfold LogDirectory.opened shiftChain
  split_ifs
  · rfl
  · simp only
    split_ifs
    · rfl
    · exact h _
  · exact h k

theorem Removal.noScan (h : Holds D V) (hrem : Removal D V z D' V') (hs : NoScan V.chain) :
    NoScan V'.chain := by
  obtain ⟨i, hi, j, hj, y, -, hzi, -, hchain⟩ := hrem.chain
  have hz := h.chains.ne_zero i hi z hzi
  rw [hchain]
  refine NoScan.takeOut ?_ i hz
  unfold exchanged
  split_ifs
  · exact hs
  · exact (((hs.takeOut i hz).putIn j z).takeOut j hz).putIn i z

theorem Recorded.noScan {od : ObjectDescriptor} (hrec : Recorded D V od g x j D' V')
    (h' : Holds D' V') (hs : NoScan V.chain) : NoScan V'.chain := by
  have hx := h'.tree.ne_zero hrec.mem
  rcases hrec.chain with ⟨i, -, -, -, -, hchain⟩ | ⟨-, -, -, hchain⟩
  · rw [hchain]
    exact ((hs.opened D g).takeOut i hx).putIn j x
  · rw [hchain]
    exact (hs.opened D g).putIn j x

/-! ## The map -/

/-- The entries of the nodes are those of the map. -/
def MapOf (D : Directory) (V : View) (M : LocationMap) : Prop :=
  ∀ oid e, M oid = some e ↔
    ∃ n ∈ V.tree.addrs, (D.od n).oid = oid ∧ e = (D.od n, D.generation n)

theorem MapOf.eq_none (hm : MapOf D V M) {oid : ℕ} : M oid = none ↔ Fresh D V oid := by
  rw [Option.eq_none_iff_forall_ne_some]
  constructor
  · intro hne n hn hoid
    exact hne (D.od n, D.generation n) ((hm oid _).2 ⟨n, hn, hoid, rfl⟩)
  · intro hf e he
    obtain ⟨n, hn, hoid, -⟩ := (hm oid e).1 he
    exact hf n hn hoid

theorem MapOf.find (h : Holds D V) (hm : MapOf D V M) (oid : ℕ) :
    findObject D oid = .ok ((M oid).map Prod.fst) := by
  obtain ⟨n, hn, ⟨hmem, hoid⟩ | ⟨rfl, hfresh⟩⟩ := h.find oid
  · have hsome : M oid = some (D.od n, D.generation n) := (hm oid _).2 ⟨n, hmem, hoid, rfl⟩
    rw [findObject, hn, ok_bind, if_pos (h.tree.ne_zero hmem), hsome]
    rfl
  · have hnone : M oid = none := hm.eq_none.2 hfresh
    rw [findObject, hn, ok_bind, hnone]
    rfl

theorem Recorded.mapOf {od : ObjectDescriptor} (h : Holds D V) (hrec : Recorded D V od g x j D' V')
    (hm : MapOf D V M) : MapOf D' V' (Op.apply M (.record od g)) := by
  have hod : D'.od = update D.od x od := by rw [hrec.rest]
  have hgen : D'.generation = update D.generation x g := by rw [hrec.rest]
  -- the other nodes of the tree are those with other OIDs
  have hold : ∀ n, n ∈ V'.tree.addrs ∧ n ≠ x ↔ n ∈ V.tree.addrs ∧ (D.od n).oid ≠ od.oid := by
    intro n
    rcases hrec.chain with ⟨i, -, -, hoid, htree, -⟩ | ⟨hx, hfresh, hperm, -⟩
    · rw [htree]
      refine and_congr_right fun hn => not_congr ?_
      constructor
      · rintro rfl
        exact hoid
      · intro he
        exact h.oid_inj hn (htree ▸ hrec.mem) (he.trans hoid.symm)
    · rw [hperm.mem_iff, List.mem_cons]
      constructor
      · rintro ⟨hn, hne⟩
        exact ⟨hn.resolve_left hne, hfresh n (hn.resolve_left hne)⟩
      · rintro ⟨hn, -⟩
        exact ⟨.inr hn, fun he => hx (he ▸ hn)⟩
  intro oid e
  simp only [Op.apply, hod, hgen]
  by_cases ho : oid = od.oid
  · subst ho
    rw [update_self]
    constructor
    · intro he
      obtain rfl : (od, g) = e := by simpa using he
      exact ⟨x, hrec.mem, by simp, by simp⟩
    · rintro ⟨n, hn, hoid, rfl⟩
      by_cases hnx : n = x
      · subst hnx
        simp
      · rw [update_of_ne hnx] at hoid
        exact absurd hoid ((hold n).1 ⟨hn, hnx⟩).2
  · rw [update_of_ne ho, hm]
    constructor
    · rintro ⟨n, hn, rfl, rfl⟩
      obtain ⟨hn', hnx⟩ := (hold n).2 ⟨hn, ho⟩
      exact ⟨n, hn', by simp [hnx], by simp [hnx]⟩
    · rintro ⟨n, hn, hoid, rfl⟩
      have hnx : n ≠ x := by
        rintro rfl
        rw [update_self] at hoid
        exact ho hoid.symm
      rw [update_of_ne hnx] at hoid
      exact ⟨n, ((hold n).1 ⟨hn, hnx⟩).1, hoid, by simp [hnx]⟩

theorem Holds.exists_mapOf (h : Holds D V) : ∃ M, MapOf D V M := by
  classical
  refine ⟨fun oid => if hn : ∃ n ∈ V.tree.addrs, (D.od n).oid = oid then
    some (D.od hn.choose, D.generation hn.choose) else none, fun oid e => ?_⟩
  dsimp only
  split
  · rename_i hn
    obtain ⟨hmem, hoid⟩ := hn.choose_spec
    constructor
    · intro he
      exact ⟨_, hmem, hoid, (Option.some.inj he).symm⟩
    · rintro ⟨n, hn', hoid', rfl⟩
      rw [h.oid_inj hn' hmem (hoid'.trans hoid.symm)]
  · rename_i hn
    constructor
    · intro he
      cases he
    · rintro ⟨n, hn', hoid', -⟩
      exact absurd ⟨n, hn', hoid'⟩ hn

/-- `ld_findObject` finds a location that has been recorded, and of the other objects the same as before. -/
theorem recordLocation_find {od : ObjectDescriptor} (h : Holds D V) (hr : recordLocation D od g = .ok D') :
    ∃ V', Holds D' V' ∧ ∀ oid, findObject D' oid = if oid = od.oid then .ok (some od) else findObject D oid := by
  obtain ⟨M, hM⟩ := h.exists_mapOf
  obtain ⟨V₁, x, j, h₁, hrec⟩ := recordLocation_ok h hr
  have hM₁ := hrec.mapOf h hM
  refine ⟨V₁, h₁, fun oid => ?_⟩
  rw [hM₁.find h₁, hM.find h, Op.apply]
  by_cases ho : oid = od.oid
  · rw [if_pos ho, ho, update_self]
    rfl
  · rw [if_neg ho, update_of_ne ho]

theorem Removal.mapOf (h : Holds D V) (hz : z ∈ V.tree.addrs) (hrem : Removal D V z D' V')
    (hm : MapOf D V M) : MapOf D' V' (Op.apply M (.remove (D.od z).oid)) := by
  have hod : D'.od = D.od := by rw [hrem.rest]
  have hgen : D'.generation = D.generation := by rw [hrem.rest]
  intro oid e
  simp only [Op.apply, hod, hgen, hrem.addrs, (List.nodup_append'.1 h.nodup).1.mem_erase_iff]
  by_cases ho : oid = (D.od z).oid
  · subst ho
    rw [update_self]
    constructor
    · intro he
      cases he
    · rintro ⟨n, ⟨hne, hn⟩, hoid, -⟩
      exact absurd (h.oid_inj hn hz hoid) hne
  · rw [update_of_ne ho, hm]
    constructor
    · rintro ⟨n, hn, rfl, rfl⟩
      exact ⟨n, ⟨fun he => ho (by rw [he]), hn⟩, rfl, rfl⟩
    · rintro ⟨n, ⟨-, hn⟩, hoid, rfl⟩
      exact ⟨n, hn, hoid, rfl⟩

/-! ## Clearing generations -/

/-- The removal that a call ends with, or that the call removes nothing. -/
def EndsWith (calls : List (Directory × ℕ)) (D : Directory) (V : View) (D' : Directory) (V' : View) :
    Prop :=
  (calls = [] ∧ D' = D ∧ V' = V) ∨
    ∃ Dl Vl zl, (Dl, zl) ∈ calls.getLast? ∧ Holds Dl Vl ∧ Removal Dl Vl zl D' V'

theorem Cleared.mem_cons {is : List ℕ} {V₁ : View} (hcl : Cleared D V i D' V₁) (h : Holds D V)
    (h₁ : Holds D' V₁) (his : ∀ k ∈ is, k < ldMaxGenerations)
    (hmem : ∀ n, n ∈ V'.tree.addrs ↔ n ∈ V₁.tree.addrs ∧ ∀ k ∈ is, n ∉ (V₁.chain k).nodes) (n : ℕ) :
    n ∈ V'.tree.addrs ↔ n ∈ V.tree.addrs ∧ ∀ k ∈ i :: is, n ∉ (V.chain k).nodes := by
  have hgen : D'.generation = D.generation := by rw [hcl.rest]
  have hhigh : D'.highestGeneration = D.highestGeneration := by rw [hcl.rest]
  rw [hmem, hcl.mem]
  simp only [List.mem_cons, forall_eq_or_imp]
  constructor
  · rintro ⟨⟨hn, hni⟩, hall⟩
    refine ⟨hn, hni, fun k hk hnk => hall k hk ?_⟩
    rw [h₁.mem_chain (his k hk), hcl.mem, hgen, hhigh]
    exact ⟨⟨hn, hni⟩, h.chains.gen k (his k hk) n hnk⟩
  · rintro ⟨hn, hni, hall⟩
    refine ⟨⟨hn, hni⟩, fun k hk hnk => hall k hk ?_⟩
    rw [h₁.mem_chain (his k hk), hcl.mem, hgen, hhigh] at hnk
    rw [h.mem_chain (his k hk)]
    exact ⟨hn, hnk.2⟩

theorem clearAll_spec (is : List ℕ) (his : ∀ i ∈ is, i < ldMaxGenerations) (h : Holds D V)
    (hs : NoScan V.chain) :
    ∃ D' V', is.foldlM clearAt D = .ok D' ∧ Holds D' V' ∧ NoScan V'.chain ∧
      (∀ n, n ∈ V'.tree.addrs ↔ n ∈ V.tree.addrs ∧ ∀ i ∈ is, n ∉ (V.chain i).nodes) ∧
      D' = { D with
        tree := D'.tree, table := D'.table, next := D'.next, prev := D'.prev,
        freeList := D'.freeList, logEntryCount := D'.logEntryCount } ∧
      EndsWith (clearRemovals is D) D V D' V' := by
  induction is generalizing D V with
  | nil => exact ⟨D, V, rfl, h, hs, by simp, rfl, .inl ⟨rfl, rfl, rfl⟩⟩
  | cons i is ih =>
    have hi := his i (by simp)
    obtain ⟨D₁, V₁, h₁, hs₁, hcl, hrun⟩ := clearAt_spec (P := fun V => NoScan V.chain) h hi hs
      (fun h _ _ hrem hP => hrem.noScan h hP)
    have hok : clearAt D i = .ok D₁ := by
      rcases hrun with ⟨hD, -, hok, -⟩ | ⟨hok, -⟩
      · rw [hok, hD]
      · rw [hok, if_pos (hs₁ i)]
    obtain ⟨D', V', hfold, h', hs', hmem, hrest, hend⟩ := ih (fun i hi => his i (by simp [hi])) h₁ hs₁
    refine ⟨D', V', ?_, h', hs', ?_, ?_, ?_⟩
    · rw [List.foldlM_cons, hok, ok_bind, hfold]
    · exact hcl.mem_cons h h₁ (fun k hk => his k (by simp [hk])) hmem
    · rw [hrest, hcl.rest]
    · rw [clearRemovals, hok]
      rcases hend with ⟨hnil, rfl, rfl⟩ | ⟨Dl, Vl, zl, hlast, hl, hrem⟩
      · simp only [hnil, List.append_nil]
        rcases hrun with ⟨hD, hV, -, hrem⟩ | ⟨-, hlast⟩
        · exact .inl ⟨hrem, hD, hV⟩
        · exact .inr hlast
      · refine .inr ⟨Dl, Vl, zl, ?_, hl, hrem⟩
        rw [List.getLast?_append, Option.mem_def.1 hlast]
        rfl

theorem EndsWith.redBlack {calls : List (Directory × ℕ)} (hend : EndsWith calls D V D' V')
    (hrb : RedBlack V.tree)
    (hkeep : ∀ c ∈ calls.getLast?, ¬(c.1.tree.root = c.2 ∧ c.1.logEntryCount = 2)) :
    RedBlack V'.tree := by
  rcases hend with ⟨-, -, rfl⟩ | ⟨Dl, Vl, zl, hlast, hl, hrem⟩
  · exact hrb
  · have hk := hkeep _ hlast
    refine hrem.redBlack ?_
    rintro ⟨haddr, hlen⟩
    have hroot : Dl.tree.root = Vl.tree.addr := hl.tree.context
    exact hk ⟨hroot.trans haddr, hl.count.trans hlen⟩

/-- The nodes that are left when the chains of a generation and of all earlier ones are cleared. -/
theorem Holds.mem_cleared (h : Holds D V) (hg : g ≤ D.highestGeneration)
    (hmem : ∀ n, n ∈ V'.tree.addrs ↔ n ∈ V.tree.addrs ∧
      ∀ i ∈ List.range' (D.highestGeneration - g) (ldMaxGenerations - (D.highestGeneration - g)),
        n ∉ (V.chain i).nodes) (n : ℕ) :
    n ∈ V'.tree.addrs ↔ n ∈ V.tree.addrs ∧ g < D.generation n := by
  rw [hmem]
  refine and_congr_right fun hn => ?_
  obtain ⟨i, hi, hni⟩ := h.exists_index hn
  have hgi := h.chains.gen i hi n hni
  constructor
  · intro hall
    by_contra hle
    refine hall i ?_ hni
    rw [List.mem_range'_1]
    omega
  · intro hlt k hk hnk
    rw [List.mem_range'_1] at hk
    have := h.chains.gen k (by omega) n hnk
    omega

theorem mapOf_clear (h : Holds D V) (hm : MapOf D V M) (hg : g ≤ D.highestGeneration)
    (hmem : ∀ n, n ∈ V'.tree.addrs ↔ n ∈ V.tree.addrs ∧
      ∀ i ∈ List.range' (D.highestGeneration - g) (ldMaxGenerations - (D.highestGeneration - g)),
        n ∉ (V.chain i).nodes)
    (hrest : D' = { D with
      tree := D'.tree, table := D'.table, next := D'.next, prev := D'.prev,
      freeList := D'.freeList, logEntryCount := D'.logEntryCount }) :
    MapOf D' V' (Op.apply M (.clear g)) := by
  have hod : D'.od = D.od := by rw [hrest]
  have hgen : D'.generation = D.generation := by rw [hrest]
  have hmem' := h.mem_cleared hg hmem
  intro oid e
  simp only [Op.apply, hod, hgen, Option.filter_eq_some_iff, hm oid e, hmem', decide_eq_true_eq]
  constructor
  · rintro ⟨⟨n, hn, rfl, rfl⟩, hlt⟩
    exact ⟨n, ⟨hn, hlt⟩, rfl, rfl⟩
  · rintro ⟨n, ⟨hn, hlt⟩, rfl, rfl⟩
    exact ⟨⟨n, hn, rfl, rfl⟩, hlt⟩

/-! ## Runs -/

structure Keeps (D : Directory) (V : View) (M : LocationMap) : Prop where
  holds : Holds D V
  redBlack : RedBlack V.tree
  noScan : NoScan V.chain
  map : MapOf D V M

theorem Keeps.refines (h : Keeps D V M) : Refines D M :=
  ⟨⟨V.tree, h.holds.tree, h.redBlack, h.holds.sorted⟩, h.map.find h.holds⟩

theorem Initial.keeps (h : Initial D) : Keeps D .empty fun _ => none where
  holds := h.holds
  redBlack := ⟨rfl, 0, rfl⟩
  noScan := fun _ => rfl
  map oid e := by simp [View.empty, addrs]

theorem roomy_of_heads (h : Holds D V)
    (hheads : ∀ i < ldMaxGenerations, D.highestGeneration < g →
      ldMaxGenerations - min (g - D.highestGeneration) ldMaxGenerations ≤ i → (D.table i).head = 0) :
    Roomy D V g := by
  intro hlt n hn
  obtain ⟨i, hi, hni⟩ := h.exists_index hn
  have hg := h.chains.gen i hi n hni
  by_contra hold
  have hhead := hheads i hi hlt (by omega)
  rw [h.chains.entry i hi, Chain.entry, Chain.head] at hhead
  cases hc : (V.chain i).nodes with
  | nil => simp [hc] at hni
  | cons a xs =>
    rw [hc] at hhead
    exact h.chains.ne_zero i hi a (by simp [hc]) hhead

/-- A call within the capacity that meets the condition does not fail and keeps the invariant. -/
theorem Keeps.run (h : Keeps D V M) {op : Op} (hin : Within D op) (hkeep : KeepsBlackRoot D op) :
    ∃ D' V', op.run D = .ok D' ∧ Keeps D' V' (Op.apply M op) := by
  have hV := h.holds
  cases op with
  | record od g =>
    obtain ⟨hg0, hge, hheads, hspare⟩ := hin
    have hroom := roomy_of_heads hV hheads
    have hnew : Fresh D V od.oid → Spare D g ∧ RedBlack V.tree := by
      intro hfresh
      refine ⟨⟨hspare ?_, fun _ => hg0⟩, h.redBlack⟩
      obtain ⟨n, hn, ⟨hmem, hoid⟩ | ⟨rfl, -⟩⟩ := hV.find od.oid
      · exact absurd hoid (hfresh n hmem)
      · rw [entryNode, hn]
    have hmax : 0 < ldMaxGenerations := by decide
    rcases recordLocation_spec hV od g with
      ⟨-, -, -, D', V', x, j, hD', hV', hrec⟩ | ⟨hno, -⟩ | ⟨-, hf, hno, -⟩ | ⟨-, -, hold, -⟩ | ⟨-, -, hno, -⟩
    · exact ⟨D', V', hD', hV', hrec.redBlack h.redBlack, hrec.noScan hV' h.noScan,
        hrec.mapOf hV h.map⟩
    · exact absurd hroom hno
    · exact absurd (hnew hf).1 hno
    · omega
    · exact absurd h.redBlack hno.2
  | remove oid =>
    rcases removeObjectEntry_spec hV oid with ⟨hfresh, -, hrun⟩ | ⟨z, D', V', hz, hoid, hf, hrun, -, hV', hrem⟩
    · refine ⟨D, V, hrun, hV, h.redBlack, h.noScan, ?_⟩
      have hnone : M oid = none := h.map.eq_none.2 hfresh
      rw [Op.apply, ← hnone, update_eq_self]
      exact h.map
    · subst hoid
      refine ⟨D', V', hrun, hV', ?_, hrem.noScan hV h.noScan, hrem.mapOf hV hz h.map⟩
      have hz0 := hV.tree.ne_zero hz
      have hend : EndsWith (removals D (.remove (D.od z).oid)) D V D' V' := by
        refine .inr ⟨D, V, z, ?_, hV, hrem⟩
        rw [removals, hV.entryNode_eq hz rfl, if_neg hz0]
        rfl
      exact hend.redBlack h.redBlack hkeep
  | clear g =>
    obtain ⟨hg, hold⟩ := hin
    have hidx : getGenerationIndex D g = .ok (D.highestGeneration - g) :=
      getGenerationIndex_eq (by omega) (by omega)
    obtain ⟨D', V', hfold, hV', hs', hmem, hrest, hend⟩ := clearAll_spec
      (List.range' (D.highestGeneration - g) (ldMaxGenerations - (D.highestGeneration - g)))
      (fun i hi => by rw [List.mem_range'_1] at hi; omega) hV h.noScan
    refine ⟨D', V', ?_, hV', hend.redBlack h.redBlack hkeep, hs', mapOf_clear hV h.map hg hmem hrest⟩
    exact show clearGeneration D g = _ by rw [clearGeneration, hidx, ok_bind, hfold]
  | retired g =>
    have hg : D.lastRetiredGeneration ≤ g := hin
    refine ⟨{ D with lastRetiredGeneration := g }, V, ?_, ?_, h.redBlack, h.noScan, h.map⟩
    · exact show generationRetired D g = _ by rw [generationRetired, ensure_pos hg, ok_bind]
    · refine ⟨hV.tree, hV.fair, hV.sorted, ?_, hV.mem, hV.stack, hV.nodes, hV.count⟩
      exact ⟨hV.chains.ring, hV.chains.entry, hV.chains.gen, hV.chains.ne_zero⟩
  | resetScan g | findNext g => exact absurd hin id

/-- In a run from startup without scans, within the capacity, in which no call ends with the removal
of the root of a tree of two nodes, no call fails and the directory refines the map. -/
theorem refines_run (h0 : Initial D) (ops : List Op)
    (hops : Meets (fun D op => Within D op ∧ KeepsBlackRoot D op) D ops) :
    ∃ D', ops.foldlM Op.run D = .ok D' ∧ Refines D' (ops.foldl Op.apply fun _ => none) := by
  have hrun : ∀ (ops : List Op) (D : Directory) (V : View) (M : LocationMap), Keeps D V M →
      Meets (fun D op => Within D op ∧ KeepsBlackRoot D op) D ops →
      ∃ D' V', ops.foldlM Op.run D = .ok D' ∧ Keeps D' V' (ops.foldl Op.apply M) := by
    intro ops
    induction ops with
    | nil => exact fun D V M h _ => ⟨D, V, rfl, h⟩
    | cons op ops ih =>
      rintro D V M h ⟨⟨hin, hkeep⟩, hrest⟩
      obtain ⟨D₁, V₁, hop, h₁⟩ := h.run hin hkeep
      have hrest₁ := hrest D₁ (by rw [hop]; rfl)
      obtain ⟨D', V', hfold, h'⟩ := ih D₁ V₁ _ h₁ hrest₁
      refine ⟨D', V', ?_, h'⟩
      rw [List.foldlM_cons, hop, ok_bind, hfold]
  obtain ⟨D', V', hfold, h'⟩ := hrun ops D _ _ h0.keeps hops
  exact ⟨D', hfold, h'.refines⟩

/-- Three objects are recorded in two generations, and the first generation is cleared. -/
theorem refines_run_clear :
    ∃ D', [.record ⟨7, 0, 0, 40, 0⟩ 1, .record ⟨8, 0, 0, 41, 0⟩ 1, .record ⟨9, 0, 0, 42, 0⟩ 2,
        .remove 8, .clear 1].foldlM Op.run (startup 3) = .ok D' ∧
      findObject D' 9 = .ok (some ⟨9, 0, 0, 42, 0⟩) ∧ findObject D' 7 = .ok none := by
  obtain ⟨D', hrun, -, hfind⟩ := refines_run (initial_startup 3)
    [.record ⟨7, 0, 0, 40, 0⟩ 1, .record ⟨8, 0, 0, 41, 0⟩ 1, .record ⟨9, 0, 0, 42, 0⟩ 2,
      .remove 8, .clear 1] (by decide)
  exact ⟨D', hrun, hfind 9, hfind 7⟩

/-- Of two objects the one at the root is removed: the other one is left as a red root, and the next
new object stops the kernel. -/
theorem red_root :
    ¬∀ D, Initial D → ∀ ops, Meets Within D ops →
      ∃ D', ops.foldlM Op.run D = .ok D' ∧ Refines D' (ops.foldl Op.apply fun _ => none) := by
  intro hall
  obtain ⟨D', hrun, -⟩ := hall _ (initial_startup 3)
    [.record ⟨1, 0, 0, 0, 0⟩ 1, .record ⟨2, 0, 0, 0, 0⟩ 1, .remove 1, .record ⟨3, 0, 0, 0, 0⟩ 1]
    (by decide)
  have hfail : [.record ⟨1, 0, 0, 0, 0⟩ 1, .record ⟨2, 0, 0, 0, 0⟩ 1, .remove 1,
      .record ⟨3, 0, 0, 0, 0⟩ 1].foldlM Op.run (startup 3) = .error .assertion := rfl
  cases hrun

end CapROS.LogDirectory
