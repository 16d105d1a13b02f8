import CapROS.LogDirectory.Recording

/-!
# Runs of the log directory

The calls of the log directory, and the states they lead to from the state at startup. The invariant
holds in every state that is reached without a failure.

* `clearGeneration_spec`: the removal of whole generations.
-/

namespace CapROS.LogDirectory

open LinkedTree LinkedTree.Tree LinkedRing

/-- The calls that change the log directory. -/
inductive Op where
  | record (od : ObjectDescriptor) (generation : ℕ)
  | remove (oid : ℕ)
  | clear (generation : ℕ)
  | resetScan (generation : ℕ)
  | findNext (generation : ℕ)
  | retired (generation : ℕ)
  deriving DecidableEq, Repr

/-- The state after a call. -/
def Op.run (D : Directory) : Op → Except Failure Directory
  | .record od generation => recordLocation D od generation
  | .remove oid => removeObjectEntry D oid
  | .clear generation => clearGeneration D generation
  | .resetScan generation => LogDirectory.resetScan D generation
  | .findNext generation => do
      let (_, D) ← findNextObject D generation
      .ok D
  | .retired generation => generationRetired D generation

/-- The log directory at startup. -/
structure Initial (D : Directory) : Prop where
  root : D.tree.root = 0
  nilColor : D.tree.color 0 = .black
  nilChild : ∀ d, D.tree.child d 0 = 0
  freeList : D.freeList = 0
  table : D.table = fun _ => {}
  highest : D.highestGeneration = 0
  count : D.logEntryCount = 0
  retired : D.lastRetiredGeneration = 0

/-- A log directory at startup with so many nodes, all of whose fields are zero. -/
def startup (entries : ℕ) : Directory where
  numLogDirEntries := entries
  tree := ⟨0, fun _ _ => 0, fun _ => 0, fun _ => .black⟩
  generation := fun _ => 0
  od := fun _ => ⟨0, 0, 0, 0, 0⟩
  ppGenerationDelta := fun _ => 0
  ppLogLoc := fun _ => 0
  next := fun _ => 0
  prev := fun _ => 0
  freeList := 0
  table := fun _ => {}
  highestGeneration := 0
  logEntryCount := 0
  lastRetiredGeneration := 0

theorem initial_startup (entries : ℕ) : Initial (startup entries) :=
  ⟨rfl, rfl, fun _ => rfl, rfl, rfl, rfl, rfl, rfl⟩

/-- The states that are reached from `D` by calls that meet a condition, none of which fails. -/
inductive Reach (P : Directory → Op → Prop) (D : Directory) : Directory → Prop
  | refl : Reach P D D
  | step {D₁ D₂ : Directory} {op : Op} (h : Reach P D D₁) (hop : P D₁ op) (hrun : op.run D₁ = .ok D₂) :
      Reach P D D₂

/-- The state after calls that all meet the condition and do not fail. -/
def runIf (P : Directory → Op → Prop) [∀ D op, Decidable (P D op)] (D : Directory) :
    List Op → Option Directory
  | [] => some D
  | op :: ops =>
      if P D op then
        match op.run D with
        | .ok D' => runIf P D' ops
        | .error _ => none
      else none

/-- The node with the entry of an object, 0 if there is none. -/
def entryNode (D : Directory) (oid : ℕ) : ℕ :=
  match findNode D oid with
  | .ok n => n
  | .error _ => 0

variable {D D' : Directory} {V V' : View} {i j n z tn g : ℕ} {P : View → Prop}

variable {Q : Directory → Op → Prop} {op : Op}

theorem Reach.head {D₁ : Directory} (hop : Q D op)
    (hrun : op.run D = .ok D₁) (h : Reach Q D₁ D') : Reach Q D D' := by
  induction h with
  | refl => exact Reach.refl.step hop hrun
  | step _ hop' hrun' ih => exact ih.step hop' hrun'

theorem reach_of_runIf [∀ D op, Decidable (Q D op)] (ops : List Op)
    (h : runIf Q D ops = some D') : Reach Q D D' := by
  induction ops generalizing D with
  | nil =>
    obtain rfl : D = D' := by simpa [runIf] using h
    exact .refl
  | cons op ops ih =>
    unfold runIf at h
    split_ifs at h with hop
    split at h
    · rename_i D₁ hrun
      exact (ih h).head hop hrun
    · cases h

def View.empty : View := ⟨nil, fun _ => {}, []⟩

theorem Initial.holds (h : Initial D) : Holds D .empty where
  tree := ⟨h.root, trivial, by simp [View.empty, plug, addrs], h.nilColor, h.nilChild⟩
  fair := .inl ⟨rfl, 0, rfl⟩
  sorted := .nil
  chains := ⟨fun _ _ => .nil, fun _ _ => by rw [h.table]; rfl, by simp [View.empty], by simp [View.empty]⟩
  mem n := by simp [View.empty, addrs, Unchained]
  stack := h.freeList
  nodes := by simp [View.empty, addrs, h.highest]
  count := h.count

variable {x oid k a : ℕ}

theorem Holds.find_eq (h : Holds D V) (hx : x ∈ V.tree.addrs)
    (hoid : (D.od x).oid = oid) : findNode D oid = .ok x := by
  obtain ⟨n, hn, ⟨hm, ho⟩ | ⟨-, hfresh⟩⟩ := h.find oid
  · rw [hn, h.oid_inj hm hx (ho.trans hoid.symm)]
  · exact absurd hoid (hfresh x hx)

theorem Holds.entryNode_eq (h : Holds D V) (hx : x ∈ V.tree.addrs)
    (hoid : (D.od x).oid = oid) : entryNode D oid = x := by
  rw [entryNode, h.find_eq hx hoid]

/-! ## Removal -/

theorem removeObjectEntry_spec (h : Holds D V) (oid : ℕ) :
    (Fresh D V oid ∧ findNode D oid = .ok 0 ∧ removeObjectEntry D oid = .ok D) ∨
    ∃ z D' V', z ∈ V.tree.addrs ∧ (D.od z).oid = oid ∧ findNode D oid = .ok z ∧
      removeObjectEntry D oid = .ok D' ∧ treeRemoveNode D z = .ok D' ∧ Holds D' V' ∧
      Removal D V z D' V' := by
  obtain ⟨n, hn, ⟨hmem, hoid⟩ | ⟨rfl, hfresh⟩⟩ := h.find oid
  · right
    obtain ⟨D', V', hD', h', hrem⟩ := treeRemoveNode_spec h hmem
    refine ⟨n, D', V', hmem, hoid, hn, ?_, hD', h', hrem⟩
    rw [removeObjectEntry, hn, ok_bind, if_neg (h.tree.ne_zero hmem), hD']
  · left
    refine ⟨hfresh, hn, ?_⟩
    rw [removeObjectEntry, hn, ok_bind, if_pos rfl]

theorem removeObjectEntry_ok (h : Holds D V) (hrun : removeObjectEntry D oid = .ok D') :
    (D = D' ∧ Fresh D V oid) ∨
      ∃ z V', z ∈ V.tree.addrs ∧ (D.od z).oid = oid ∧ Holds D' V' ∧ Removal D V z D' V' := by
  rcases removeObjectEntry_spec h oid with ⟨hfresh, -, he⟩ | ⟨z, D₁, V₁, hz, hoid, -, he, -, h₁, hrem⟩
  · exact .inl ⟨Except.ok.inj (he.symm.trans hrun), hfresh⟩
  · obtain rfl : D₁ = D' := Except.ok.inj (he.symm.trans hrun)
    exact .inr ⟨z, V₁, hz, hoid, h₁, hrem⟩

theorem Holds.mem_chain (h : Holds D V) (hk : k < ldMaxGenerations) :
    a ∈ (V.chain k).nodes ↔ a ∈ V.tree.addrs ∧ D.generation a + k = D.highestGeneration := by
  constructor
  · intro ha
    exact ⟨h.mem_tree hk ha, h.chains.gen k hk a ha⟩
  · rintro ⟨ha, hg⟩
    obtain ⟨i, hi, hai⟩ := h.exists_index ha
    have := h.chains.gen i hi a hai
    obtain rfl : i = k := by omega
    exact hai

theorem Removal.mem_chain (h : Holds D V) (h' : Holds D' V') (hrem : Removal D V z D' V')
    (hk : k < ldMaxGenerations) : a ∈ (V'.chain k).nodes ↔ a ≠ z ∧ a ∈ (V.chain k).nodes := by
  have hgen : D'.generation = D.generation := by rw [hrem.rest]
  have hhigh : D'.highestGeneration = D.highestGeneration := by rw [hrem.rest]
  rw [h'.mem_chain hk, h.mem_chain hk, hrem.addrs,
    (List.nodup_append'.1 h.nodup).1.mem_erase_iff, hgen, hhigh, and_assoc]

/-- The calls of `tree_remove_node` that the loop of `ld_clearGeneration` makes, each with the
directory before it. -/
def chainRemovals : ℕ → Directory → ℕ → List (Directory × ℕ)
  | 0, _, _ => []
  | fuel + 1, D, tn =>
      if D.next tn ≠ tn then
        (D, D.next tn) ::
          match treeRemoveNode D (D.next tn) with
          | .ok D' => chainRemovals fuel D' tn
          | .error _ => []
      else [(D, tn)]

/-- What the removal of the nodes of a chain does. -/
structure Cleared (D : Directory) (V : View) (i : ℕ) (D' : Directory) (V' : View) : Prop where
  mem : ∀ n, n ∈ V'.tree.addrs ↔ n ∈ V.tree.addrs ∧ n ∉ (V.chain i).nodes
  rest : D' = { D with
    tree := D'.tree, table := D'.table, next := D'.next, prev := D'.prev,
    freeList := D'.freeList, logEntryCount := D'.logEntryCount }

/-- The loop of `ld_clearGeneration` removes all nodes of the chain. What every removal of a node of
the chain keeps is kept. -/
theorem clearChain_spec (fuel : ℕ) (h : Holds D V) (hi : i < ldMaxGenerations)
    (htn : tn ∈ (V.chain i).nodes) (hfuel : (V.chain i).nodes.length ≤ fuel) (hP : P V)
    (hstep : ∀ {D V z D' V'}, Holds D V → z ∈ (V.chain i).nodes → Holds D' V' →
      Removal D V z D' V' → P V → P V') :
    ∃ D' V', clearChain fuel D tn = .ok D' ∧ Holds D' V' ∧ P V' ∧ Cleared D V i D' V' ∧
      ∃ Dl Vl zl, (Dl, zl) ∈ (chainRemovals fuel D tn).getLast? ∧ Holds Dl Vl ∧
        Removal Dl Vl zl D' V' := by
  induction fuel generalizing D V with
  | zero =>
    have := List.length_pos_of_mem htn
    omega
  | succ fuel ih =>
    have hr := h.chains.ring i hi
    by_cases hself : D.next tn = tn
    · -- the last node of the chain
      have hone := (hr.next_eq_self htn).1 hself
      obtain ⟨D', V', hD', h', hrem⟩ := treeRemoveNode_spec h (h.mem_tree hi htn)
      refine ⟨D', V', ?_, h', hstep h htn h' hrem hP, ⟨?_, hrem.rest⟩, D, V, tn, ?_, h, hrem⟩
      · rw [clearChain, if_neg (not_not.2 hself), hD']
      · intro n
        rw [hrem.addrs, (List.nodup_append'.1 h.nodup).1.mem_erase_iff, hone, List.mem_singleton]
        tauto
      · rw [chainRemovals, if_neg (not_not.2 hself)]
        rfl
    · have hnx : D.next tn ∈ (V.chain i).nodes := hr.next_mem htn
      obtain ⟨D₁, V₁, hD₁, h₁, hrem⟩ := treeRemoveNode_spec h (h.mem_tree hi hnx)
      have htn₁ : tn ∈ (V₁.chain i).nodes := by
        rw [hrem.mem_chain h h₁ hi]
        exact ⟨Ne.symm hself, htn⟩
      have hlen : (V₁.chain i).nodes.length ≤ fuel := by
        have hsub : (V₁.chain i).nodes.Subperm ((V.chain i).nodes.erase (D.next tn)) := by
          refine (List.subperm_of_subset (h₁.chains.ring i hi).nodup ?_)
          intro a ha
          rw [hrem.mem_chain h h₁ hi] at ha
          rw [hr.nodup.mem_erase_iff]
          exact ha
        have := hsub.length_le
        rw [List.length_erase_of_mem hnx] at this
        omega
      obtain ⟨D', V', hloop, h', hP', hcl, Dl, Vl, zl, hlast, hl, hreml⟩ :=
        ih h₁ htn₁ hlen (hstep h hnx h₁ hrem hP)
      refine ⟨D', V', ?_, h', hP', ⟨?_, ?_⟩, Dl, Vl, zl, ?_, hl, hreml⟩
      · rw [clearChain, if_pos hself, hD₁, ok_bind, hloop]
      · intro n
        rw [hcl.mem, hrem.mem_chain h h₁ hi, hrem.addrs,
          (List.nodup_append'.1 h.nodup).1.mem_erase_iff]
        constructor
        · rintro ⟨⟨hne, hm⟩, hno⟩
          exact ⟨hm, fun hc => hno ⟨hne, hc⟩⟩
        · rintro ⟨hm, hno⟩
          refine ⟨⟨?_, hm⟩, fun hc => hno hc.2⟩
          rintro rfl
          exact hno hnx
      · rw [hcl.rest, hrem.rest]
      · rw [chainRemovals, if_pos hself, hD₁, List.getLast?_cons]
        simp only
        rw [Option.mem_def.1 hlast]
        rfl

/-- The calls of `tree_remove_node` that `ld_clearGeneration` makes for one place of the table. -/
def removalsAt (D : Directory) (gti : ℕ) : List (Directory × ℕ) :=
  if (D.table gti).head = 0 then [] else chainRemovals D.fuel D (D.table gti).head

theorem Cleared.nil (hi : i < ldMaxGenerations) (h : Holds D V) (h' : Holds D' V')
    (hcl : Cleared D V i D' V') : (V'.chain i).nodes = [] := by
  refine List.eq_nil_iff_forall_not_mem.2 fun a ha => ?_
  have hgen : D'.generation = D.generation := by rw [hcl.rest]
  have hhigh : D'.highestGeneration = D.highestGeneration := by rw [hcl.rest]
  rw [h'.mem_chain hi, hcl.mem, hgen, hhigh, h.mem_chain hi] at ha
  exact ha.1.2 ⟨ha.1.1, ha.2⟩

theorem clearAt_spec (h : Holds D V) (hi : i < ldMaxGenerations) (hP : P V)
    (hstep : ∀ {D V z D' V'}, Holds D V → z ∈ (V.chain i).nodes → Holds D' V' →
      Removal D V z D' V' → P V → P V') :
    ∃ D' V', Holds D' V' ∧ P V' ∧ Cleared D V i D' V' ∧
      (D' = D ∧ V' = V ∧ clearAt D i = .ok D ∧ removalsAt D i = [] ∨
        clearAt D i = (if (V'.chain i).cursor = 0 then .ok D' else .error .assertion) ∧
        ∃ Dl Vl zl, (Dl, zl) ∈ (removalsAt D i).getLast? ∧ Holds Dl Vl ∧ Removal Dl Vl zl D' V') := by
  have hentry := h.chains.entry i hi
  by_cases hhead : (D.table i).head = 0
  · refine ⟨D, V, h, hP, ⟨fun n => ?_, rfl⟩, .inl ⟨rfl, rfl, ?_, if_pos hhead⟩⟩
    · have hnil : (V.chain i).nodes = [] := by
        cases hc : (V.chain i).nodes with
        | nil => rfl
        | cons a xs =>
          rw [hentry, Chain.entry, Chain.head, hc] at hhead
          exact absurd hhead (h.chains.ne_zero i hi a (by simp [hc]))
      simp [hnil]
    · rw [clearAt]
      exact if_pos hhead
  · have hmem : (D.table i).head ∈ (V.chain i).nodes := by
      rw [hentry, Chain.entry, Chain.head] at hhead ⊢
      cases hc : (V.chain i).nodes with
      | nil => simp [hc] at hhead
      | cons a xs => simp
    have hlen : (V.chain i).nodes.length ≤ D.fuel := by
      have hsub : (V.chain i).nodes.Subperm V.tree.addrs :=
        List.subperm_of_subset (h.chains.ring i hi).nodup fun a ha => h.mem_tree hi ha
      have := hsub.length_le
      have := h.fuel
      omega
    obtain ⟨D', V', hloop, h', hP', hcl, hlast⟩ := clearChain_spec D.fuel h hi hmem hlen hP hstep
    refine ⟨D', V', h', hP', hcl, .inr ⟨?_, ?_⟩⟩
    · have hentry' := h'.chains.entry i hi
      have hnil := hcl.nil hi h h'
      have hhead' : (D'.table i).head = 0 := by
        rw [hentry', Chain.entry, Chain.head, hnil]
        rfl
      have hcursor : (D'.table i).cursor = (V'.chain i).cursor := by
        rw [hentry']
        rfl
      rw [clearAt]
      simp only [hhead, if_false, hloop, ok_bind, ensure_pos hhead', hcursor]
      split_ifs with hc
      · rw [ensure_pos hc, ok_bind]
      · rw [ensure_neg hc, error_bind]
    · rw [removalsAt, if_neg hhead]
      exact hlast

theorem clearAll_ok (is : List ℕ) (h : Holds D V) (hP : P V)
    (hclear : ∀ {D V i D'}, Holds D V → i ∈ is → P V → clearAt D i = .ok D' →
      ∃ V', Holds D' V' ∧ P V')
    (hrun : is.foldlM clearAt D = .ok D') : ∃ V', Holds D' V' ∧ P V' := by
  induction is generalizing D V with
  | nil =>
    cases show Except.ok D = Except.ok D' from hrun
    exact ⟨V, h, hP⟩
  | cons i is ih =>
    obtain ⟨D₁, hat, hrun⟩ := of_bind_ok hrun
    obtain ⟨V₁, h₁, hP₁⟩ := hclear h (by simp) hP hat
    exact ih h₁ hP₁ (fun h hi => hclear h (by simp [hi])) hrun

/-! ## Scans -/

/-- The chain of a generation in the table, with another cursor. -/
def setCursor (chain : ℕ → Chain) (i cursor : ℕ) : ℕ → Chain :=
  Function.update chain i { chain i with cursor := cursor }

theorem nodes_setCursor (chain : ℕ → Chain) (i cursor k : ℕ) :
    (setCursor chain i cursor k).nodes = (chain k).nodes := by
  unfold setCursor
  by_cases hk : k = i
  · subst hk
    simp
  · simp [hk]

theorem Holds.setCursor (h : Holds D V) (hi : i < ldMaxGenerations) (cursor : ℕ) :
    Holds { D with table := Function.update D.table i { D.table i with cursor := cursor } }
      { V with chain := setCursor V.chain i cursor } := by
  have hnodes := nodes_setCursor V.chain i cursor
  refine ⟨h.tree, h.fair, h.sorted, ⟨?_, ?_, ?_, ?_⟩, ?_, h.stack, h.nodes, h.count⟩
  · intro k hk
    rw [hnodes]
    exact h.chains.ring k hk
  · intro k hk
    by_cases hki : k = i
    · subst hki
      simp [LogDirectory.setCursor, h.chains.entry k hk, Chain.entry, Chain.head]
    · simp only [LogDirectory.setCursor, Function.update_of_ne hki]
      exact h.chains.entry k hk
  · intro k hk
    rw [hnodes]
    exact h.chains.gen k hk
  · intro k hk
    rw [hnodes]
    exact h.chains.ne_zero k hk
  · intro n
    simp only [Unchained, hnodes]
    exact h.mem n

theorem getGenerationIndex_ok {gti : ℕ} (h : getGenerationIndex D g = .ok gti) :
    gti < ldMaxGenerations ∧ g + gti = D.highestGeneration := by
  unfold getGenerationIndex at h
  by_cases hg : g ≤ D.highestGeneration ∧ D.highestGeneration - g < ldMaxGenerations
  · rw [ensure_pos hg, ok_bind] at h
    cases h
    omega
  · rw [ensure_neg hg, error_bind] at h
    cases h

theorem resetScan_spec (h : Holds D V) (hrun : resetScan D g = .ok D') :
    ∃ i < ldMaxGenerations, g + i = D.highestGeneration ∧
      Holds D' { V with chain := setCursor V.chain i (V.chain i).head } ∧
      D' = { D with table := D'.table } := by
  unfold resetScan at hrun
  cases hidx : getGenerationIndex D g with
  | error e =>
    rw [hidx, error_bind] at hrun
    cases hrun
  | ok i =>
    obtain ⟨hi, hg⟩ := getGenerationIndex_ok hidx
    rw [hidx, ok_bind] at hrun
    cases hrun
    refine ⟨i, hi, hg, ?_, rfl⟩
    have hc : (D.table i).head = (V.chain i).head := by
      rw [h.chains.entry i hi]
      rfl
    rw [← hc]
    exact h.setCursor hi _

/-- The cursor after the entry at the cursor has been returned. -/
def advanced (D : Directory) (C : Chain) : ℕ :=
  if D.next C.cursor = C.head then 0 else D.next C.cursor

theorem findNextObject_spec (h : Holds D V) {r : Option ObjectDescriptor}
    (hrun : findNextObject D g = .ok (r, D')) :
    ∃ i < ldMaxGenerations, g + i = D.highestGeneration ∧
      (((V.chain i).cursor = 0 ∧ r = none ∧ D' = D) ∨
        ((V.chain i).cursor ≠ 0 ∧ r = some (D.od (V.chain i).cursor) ∧
          Holds D' { V with chain := setCursor V.chain i (advanced D (V.chain i)) } ∧
          D' = { D with table := D'.table })) := by
  unfold findNextObject at hrun
  cases hidx : getGenerationIndex D g with
  | error e =>
    rw [hidx, error_bind] at hrun
    cases hrun
  | ok i =>
    obtain ⟨hi, hg⟩ := getGenerationIndex_ok hidx
    rw [hidx, ok_bind] at hrun
    have hentry := h.chains.entry i hi
    have hcur : (D.table i).cursor = (V.chain i).cursor := by rw [hentry]; rfl
    have hhead : (D.table i).head = (V.chain i).head := by rw [hentry]; rfl
    refine ⟨i, hi, hg, ?_⟩
    simp only at hrun
    by_cases hc : (D.table i).cursor = 0
    · rw [if_pos hc] at hrun
      cases hrun
      exact .inl ⟨hcur ▸ hc, rfl, rfl⟩
    · rw [if_neg hc] at hrun
      cases hrun
      refine .inr ⟨hcur ▸ hc, by rw [hcur], ?_, rfl⟩
      rw [advanced, ← hcur, ← hhead]
      exact h.setCursor hi _

/-! ## Every call -/

theorem Holds.run (h : Holds D V) (hrun : op.run D = .ok D') : ∃ V', Holds D' V' := by
  cases op with
  | record od g =>
    obtain ⟨V₁, x, j, hV₁, -⟩ := recordLocation_ok h hrun
    exact ⟨V₁, hV₁⟩
  | remove oid =>
    obtain ⟨rfl, -⟩ | ⟨z, V₁, -, -, h₁, -⟩ := removeObjectEntry_ok h hrun
    · exact ⟨V, h⟩
    · exact ⟨V₁, h₁⟩
  | clear g =>
    have hrun : clearGeneration D g = .ok D' := hrun
    obtain ⟨gti, hidx, hrun⟩ := of_bind_ok hrun
    obtain ⟨V', h', -⟩ := clearAll_ok (P := fun _ => True) _ h trivial (fun {D₁ V₁ i D₂} h₁ hi _ hat => by
      rw [List.mem_range'_1] at hi
      obtain ⟨D₃, V₃, h₃, -, -, ⟨rfl, rfl, hok, -⟩ | ⟨hok, -⟩⟩ :=
        clearAt_spec (P := fun _ => True) (i := i) h₁ (by omega) trivial fun _ _ _ _ _ => trivial
      · obtain rfl : D₃ = D₂ := by simpa [hok] using hat
        exact ⟨V₃, h₃, trivial⟩
      · rw [hok] at hat
        split_ifs at hat
        obtain rfl : D₃ = D₂ := by simpa using hat
        exact ⟨V₃, h₃, trivial⟩) hrun
    exact ⟨V', h'⟩
  | resetScan g =>
    obtain ⟨i, -, -, h', -⟩ := resetScan_spec h hrun
    exact ⟨_, h'⟩
  | findNext g =>
    have hrun : (findNextObject D g >>= fun r => .ok r.2) = .ok D' := hrun
    obtain ⟨r, hf, hrun⟩ := of_bind_ok hrun
    cases hrun
    obtain ⟨i, -, -, ⟨-, -, hD⟩ | ⟨-, -, h', -⟩⟩ := findNextObject_spec h (hf : _ = Except.ok (r.1, r.2))
    · exact ⟨V, hD ▸ h⟩
    · exact ⟨_, h'⟩
  | retired g =>
    have hrun : generationRetired D g = .ok D' := hrun
    unfold generationRetired at hrun
    by_cases hg : D.lastRetiredGeneration ≤ g
    · rw [ensure_pos hg, ok_bind] at hrun
      cases hrun
      refine ⟨V, h.tree, h.fair, h.sorted, ?_, h.mem, h.stack, h.nodes, h.count⟩
      exact ⟨h.chains.ring, h.chains.entry, h.chains.gen, h.chains.ne_zero⟩
    · rw [ensure_neg hg, error_bind] at hrun
      cases hrun

theorem Reach.holds (h0 : Initial D) (h : Reach Q D D') :
    ∃ V, Holds D' V := by
  induction h with
  | refl => exact ⟨_, h0.holds⟩
  | step _ _ hrun ih =>
    obtain ⟨V, hV⟩ := ih
    exact hV.run hrun

end CapROS.LogDirectory
