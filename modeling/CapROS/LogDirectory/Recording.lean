import CapROS.LogDirectory.Invariant

/-!
# Recording a location

`ld_recordLocation` makes room for the generation, and then either gives the node of the object a
new entry, or adds a node. It keeps the invariant whenever it succeeds.

* `updateNode_spec`, `addNode_spec`: the two cases of `binary_insert`.
-/

namespace CapROS.LogDirectory

open LinkedTree LinkedTree.Tree LinkedRing
open Function (update update_self update_of_ne)

variable {D D' : Directory} {V V' : View} {chain : ℕ → Chain} {od : ObjectDescriptor} {g i j x : ℕ}

/-! ## Making room for a generation -/

theorem initTable_loop (h0 : D.freeList = 0) (hN : D.logEntryCount = D.numLogDirEntries) (k : ℕ)
    (hk : k ≤ D.numLogDirEntries) :
    ∃ D', (List.range k).foldlM (fun D i => freeNode D (i + 1)) D = .ok D' ∧
      Stack D'.next 0 D'.freeList (List.range' 1 k).reverse ∧
      D'.logEntryCount = D.numLogDirEntries - k ∧
      D' = { D with
        next := D'.next, freeList := D'.freeList, logEntryCount := D'.logEntryCount } := by
  induction k with
  | zero => exact ⟨D, rfl, h0, by simpa using hN, rfl⟩
  | succ k ih =>
    obtain ⟨D', hloop, hstack, hcount, heq⟩ := ih (by omega)
    have hpos : 0 < D'.logEntryCount := by omega
    have hsucc : (List.range (k + 1)).foldlM (fun D i => freeNode D (i + 1)) D = .ok { D' with
        next := update D'.next (k + 1) D'.freeList
        freeList := k + 1
        logEntryCount := D'.logEntryCount - 1 } := by
      rw [List.range_succ, List.foldlM_append, hloop]
      simp only [ok_bind, List.foldlM_cons, freeNode, ensure_pos hpos, List.foldlM_nil]
      rfl
    refine ⟨_, hsucc, ?_, ?_, ?_⟩
    · rw [List.range'_concat, List.reverse_append]
      rw [Nat.one_mul, Nat.add_comm 1 k]
      refine hstack.push ?_ (by omega)
      rw [List.mem_reverse, List.mem_range'_1]
      omega
    · simp only
      omega
    · rw [heq]

theorem initTable_spec (h0 : D.freeList = 0) :
    ∃ D', initTable D = .ok D' ∧
      Stack D'.next 0 D'.freeList (List.range' 1 D.numLogDirEntries).reverse ∧
      D'.logEntryCount = 0 ∧
      D' = { D with
        table := fun _ => {}, next := D'.next, freeList := D'.freeList,
        logEntryCount := D'.logEntryCount } := by
  obtain ⟨D', hloop, hstack, hcount, heq⟩ := initTable_loop
    (D := { D with table := fun _ => {}, logEntryCount := D.numLogDirEntries }) h0 rfl
    D.numLogDirEntries le_rfl
  have hzero : D'.logEntryCount = 0 := by
    simp only at hcount
    omega
  refine ⟨D', ?_, hstack, hzero, heq⟩
  rw [initTable, hloop, ok_bind, ensure_pos hzero, ok_bind]

/-- The chains after the table has been moved. -/
def shiftChain (chain : ℕ → Chain) (ms : ℕ) : ℕ → Chain := fun i =>
  if i < ms then {} else chain (i - ms)

/-- The chains after room has been made for the generation. -/
def opened (D : Directory) (chain : ℕ → Chain) (generation : ℕ) : ℕ → Chain :=
  if D.highestGeneration < generation then
    if D.highestGeneration = 0 then fun _ => {}
    else shiftChain chain (min (generation - D.highestGeneration) ldMaxGenerations)
  else chain

/-- No entry is too old when the table is moved. -/
def Roomy (D : Directory) (V : View) (generation : ℕ) : Prop :=
  D.highestGeneration < generation →
    ∀ n ∈ V.tree.addrs, generation < D.generation n + ldMaxGenerations

/-- What the making of room for a generation leaves as it is. -/
structure Opened (D : Directory) (V : View) (g : ℕ) (D' : Directory) (V' : View) : Prop where
  tree : V'.tree = V.tree
  chain : V'.chain = opened D V.chain g
  free : V'.free =
    if D.highestGeneration = 0 ∧ 0 < g then (List.range' 1 D.numLogDirEntries).reverse else V.free
  rest : D' = { D with
    table := D'.table, next := D'.next, freeList := D'.freeList,
    highestGeneration := max D.highestGeneration g, logEntryCount := D'.logEntryCount }

theorem Holds.tree_nil (h : Holds D V) (h0 : D.highestGeneration = 0) : V.tree = nil ∧ V.free = [] := by
  have hp := h.nodes
  rw [if_pos h0, List.perm_nil, List.append_eq_nil_iff] at hp
  refine ⟨?_, hp.2⟩
  by_contra hne
  have := addr_mem hne
  rw [hp.1] at this
  cases this

variable {n tn oid : ℕ}

theorem mem_shiftChain {ms : ℕ} :
    n ∈ (shiftChain chain ms i).nodes ↔ ms ≤ i ∧ n ∈ (chain (i - ms)).nodes := by
  unfold shiftChain
  split_ifs with hi
  · simp only [List.not_mem_nil, false_iff]
    omega
  · simp only [iff_and_self]
    omega

theorem openGeneration_spec (h : Holds D V) (hroom : Roomy D V g) :
    ∃ D' V', openGeneration D g = .ok D' ∧ Holds D' V' ∧ Opened D V g D' V' := by
  by_cases hlt : D.highestGeneration < g
  · by_cases h0 : D.highestGeneration = 0
    · -- the first location is being recorded
      obtain ⟨ht, hf⟩ := h.tree_nil h0
      have hfree : D.freeList = 0 := by
        have := h.stack
        rw [hf] at this
        exact this
      have hg : 0 < g := by omega
      obtain ⟨D', hinit, hstack, hcount, heq⟩ := initTable_spec hfree
      refine ⟨{ D' with highestGeneration := g },
        ⟨V.tree, fun _ => {}, (List.range' 1 D.numLogDirEntries).reverse⟩, ?_, ?_, ?_⟩
      · rw [openGeneration, if_pos hlt, if_pos h0, hinit, ok_bind]
      · have htree : D'.tree = D.tree := by rw [heq]
        have hN : D'.numLogDirEntries = D.numLogDirEntries := by rw [heq]
        have htable : D'.table = fun _ => {} := by rw [heq]
        refine ⟨by rw [ht, ← ht, htree]; exact h.tree, h.fair, ?_, ?_, ?_, hstack, ?_, ?_⟩
        · rw [ht]
          exact .nil
        · refine ⟨fun i _ => .nil, ?_, by simp, by simp⟩
          intro i _
          rw [htable]
          rfl
        · intro n
          rw [ht]
          simp [addrs, Unchained]
        · simp only [hN, hg.ne', if_false, ht, addrs, List.nil_append]
          exact List.reverse_perm _
        · simp only [hcount, ht]
          rfl
      · refine ⟨rfl, ?_, ?_, ?_⟩
        · rw [opened, if_pos hlt, if_pos h0]
        · rw [if_pos ⟨h0, hg⟩]
        · rw [Nat.max_eq_right hlt.le]
          simp only
          rw [heq]
    · -- the table is moved
      generalize hms : min (g - D.highestGeneration) ldMaxGenerations = ms
      have hold : ∀ i < ldMaxGenerations, ldMaxGenerations - ms ≤ i → ∀ n, n ∉ (V.chain i).nodes := by
        intro i hi him n hn
        have h₁ := hroom hlt n (h.mem_tree hi hn)
        have h₂ := h.chains.gen i hi n hn
        omega
      have hhead : ∀ i < ldMaxGenerations, ldMaxGenerations - ms ≤ i → (D.table i).head = 0 := by
        intro i hi him
        rw [h.chains.entry i hi, Chain.entry, Chain.head]
        rw [List.eq_nil_iff_forall_not_mem.2 (hold i hi him)]
        rfl
      refine ⟨{ D with table := shiftTable D.table ms, highestGeneration := g },
        ⟨V.tree, shiftChain V.chain ms, V.free⟩, ?_, ?_, ?_⟩
      · rw [openGeneration, if_pos hlt, if_neg h0, hms]
        simp only [ensure_pos hhead, ok_bind]
      · have hin : ∀ i < ldMaxGenerations, ∀ n ∈ (shiftChain V.chain ms i).nodes,
            ms ≤ i ∧ i - ms < ldMaxGenerations ∧ n ∈ (V.chain (i - ms)).nodes := by
          intro i hi n hn
          rw [mem_shiftChain] at hn
          exact ⟨hn.1, by omega, hn.2⟩
        refine ⟨h.tree, h.fair, h.sorted, ⟨?_, ?_, ?_, ?_⟩, ?_, h.stack, ?_, h.count⟩
        · intro i hi
          simp only [shiftChain]
          split_ifs with hlt'
          · exact .nil
          · exact h.chains.ring _ (by omega)
        · intro i hi
          simp only [shiftTable, shiftChain]
          split_ifs with hlt'
          · rfl
          · exact h.chains.entry _ (by omega)
        · intro i hi n hn
          obtain ⟨h₁, h₂, h₃⟩ := hin i hi n hn
          have := h.chains.gen _ h₂ n h₃
          simp only
          omega
        · intro i hi n hn
          obtain ⟨-, h₂, h₃⟩ := hin i hi n hn
          exact h.chains.ne_zero _ h₂ n h₃
        · intro n
          rw [h.mem, not_iff_not]
          constructor
          · intro hu i hi hn
            obtain ⟨-, h₂, h₃⟩ := hin i hi n hn
            exact hu _ h₂ h₃
          · intro hu i hi hn
            by_cases him : ldMaxGenerations - ms ≤ i
            · exact hold i hi him n hn
            · refine hu (i + ms) (by omega) ?_
              rw [mem_shiftChain]
              exact ⟨by omega, by rwa [Nat.add_sub_cancel]⟩
        · have hp := h.nodes
          rw [if_neg h0] at hp
          have hg : g ≠ 0 := by omega
          simp only [hg, if_false]
          exact hp
      · refine ⟨rfl, ?_, ?_, ?_⟩
        · rw [opened, if_pos hlt, if_neg h0, hms]
        · rw [if_neg (fun hc => h0 hc.1)]
        · rw [Nat.max_eq_right hlt.le]
  · refine ⟨D, V, ?_, h, rfl, ?_, ?_, ?_⟩
    · rw [openGeneration, if_neg hlt]
    · rw [opened, if_neg hlt]
    · rw [if_neg]
      rintro ⟨h0, hg⟩
      omega
    · rw [Nat.max_eq_left (by omega)]

theorem openGeneration_full (h : Holds D V) (hroom : ¬Roomy D V g) :
    openGeneration D g = .error .tooManyGenerations := by
  unfold Roomy at hroom
  push Not at hroom
  obtain ⟨hlt, n, hn, hold⟩ := hroom
  have h0 : D.highestGeneration ≠ 0 := by
    intro h0
    rw [(h.tree_nil h0).1] at hn
    cases hn
  obtain ⟨i, hi, hni⟩ := h.exists_index hn
  have hgen := h.chains.gen i hi n hni
  have hhead : (D.table i).head ≠ 0 := by
    rw [h.chains.entry i hi, Chain.entry, Chain.head]
    cases hc : (V.chain i).nodes with
    | nil => simp [hc] at hni
    | cons a xs => exact h.chains.ne_zero i hi a (by simp [hc])
  rw [openGeneration, if_pos hlt, if_neg h0]
  have : ¬∀ i < ldMaxGenerations,
      ldMaxGenerations - min (g - D.highestGeneration) ldMaxGenerations ≤ i → (D.table i).head = 0 :=
    fun hall => hhead (hall i hi (by omega))
  simp only [ensure_neg this, error_bind]

/-! ## A new entry for a node -/

theorem getGenerationIndex_old (hg : g + ldMaxGenerations ≤ D.highestGeneration) :
    getGenerationIndex D g = .error .invalidGeneration := by
  have : ¬(g ≤ D.highestGeneration ∧ D.highestGeneration - g < ldMaxGenerations) := by omega
  rw [getGenerationIndex, ensure_neg this, error_bind]

theorem setPrevious_spec (od : ObjectDescriptor) (hi : i < ldMaxGenerations) (hx : D.generation x + i = D.highestGeneration)
    (hg : g ≤ D.highestGeneration) :
    ∃ D', setPrevious D x od g = .ok D' ∧
      D' = { D with ppGenerationDelta := D'.ppGenerationDelta, ppLogLoc := D'.ppLogLoc } := by
  unfold setPrevious
  split_ifs with hk
  · have hdelta : g - D.generation x < 0xff := by
      unfold ldMaxGenerations at hi
      omega
    rw [ensure_pos hdelta, ok_bind]
    exact ⟨_, rfl, rfl⟩
  · exact ⟨_, rfl, rfl⟩

/-- The node of the object gets the new entry. -/
theorem updateNode_spec (h : Holds D V) (hi : i < ldMaxGenerations) (hx : x ∈ (V.chain i).nodes)
    (hoid : (D.od x).oid = od.oid) (hj : j < ldMaxGenerations) (hg : g + j = D.highestGeneration) :
    ∃ D', updateNode D x od g = .ok D' ∧
      Holds D' ⟨V.tree, putIn (takeOut V.chain i x) j x, V.free⟩ ∧
      D' = { D with
        od := update D.od x od, generation := update D.generation x g
        ppGenerationDelta := D'.ppGenerationDelta, ppLogLoc := D'.ppLogLoc
        table := D'.table, next := D'.next, prev := D'.prev } := by
  have hc := h.chains
  have hgx := hc.gen i hi x hx
  have hnod := (hc.ring i hi).nodup
  obtain ⟨D₁, hun, hc₁, honly⟩ := unchainNode_spec hc hi hx
  have hfree := unchained_takeOut hc hi hx
  have hgx₁ : D₁.generation x + i = D₁.highestGeneration := by
    rw [honly.eq]
    exact hgx
  have hle₁ : g ≤ D₁.highestGeneration := by
    rw [honly.eq]
    exact le_of_add_le_left hg.le
  obtain ⟨D₂, hprev, heq₂⟩ := setPrevious_spec od hi hgx₁ hle₁
  have hc₂ : Chains D₂ (takeOut V.chain i x) := by
    rw [heq₂]
    exact ⟨hc₁.ring, hc₁.entry, hc₁.gen, hc₁.ne_zero⟩
  have hc₃ := hc₂.setEntry hfree od g
  have hg₃ : (setEntry D₂ x od g).generation x + j = (setEntry D₂ x od g).highestGeneration := by
    have hh : D₂.highestGeneration = D.highestGeneration := by
      rw [heq₂]
      simp only
      rw [honly.eq]
    simp only [setEntry, update_self, hh, hg]
  obtain ⟨D', hch, hc', heq', hnext'⟩ := chainNode_spec hc₃ hj hfree (hc.ne_zero i hi x hx) hg₃
  have hrest : D' = { D with
      od := update D.od x od, generation := update D.generation x g
      ppGenerationDelta := D'.ppGenerationDelta, ppLogLoc := D'.ppLogLoc
      table := D'.table, next := D'.next, prev := D'.prev } := by
    rw [heq']
    simp only [setEntry]
    rw [heq₂]
    simp only
    rw [honly.eq]
  refine ⟨D', ?_, ?_, hrest⟩
  · rw [updateNode, hun, ok_bind, hprev, ok_bind, hch]
  · refine ⟨?_, h.fair, ?_, hc', ?_, ?_, ?_, ?_⟩
    · rw [hrest]
      exact h.tree
    · have hkey : (fun n => (D'.od n).oid) = fun n => (D.od n).oid := by
        funext n
        rw [hrest]
        by_cases hn : n = x
        · subst hn
          simp [hoid]
        · simp [hn]
      rw [hkey]
      exact h.sorted
    · intro n
      rw [h.mem, not_iff_not]
      constructor
      · intro hu
        refine hu.move hnod ?_
        rintro rfl
        exact hu i hi hx
      · intro hu k hk hm
        by_cases hnk : n = x ∧ k = i
        · refine hu j hj ?_
          rw [mem_putIn]
          exact .inr ⟨hnk.1, rfl⟩
        · refine hu k hk ?_
          rw [mem_putIn, mem_takeOut hnod]
          exact .inl ⟨hm, hnk⟩
    · have hfl : D'.freeList = D.freeList := by rw [hrest]
      rw [hfl]
      refine h.stack.congr fun a ha => ?_
      have hua := h.unchained_free ha
      have hax : a ≠ x := by
        rintro rfl
        exact hua i hi hx
      rw [hnext' a (hua.out hnod) hax]
      have hD₂ : D₂.next = D₁.next := by rw [heq₂]
      simp only [setEntry, hD₂]
      exact honly.next a hua
    · rw [hrest]
      exact h.nodes
    · rw [hrest]
      exact h.count

theorem updateNode_old (h : Holds D V) (hi : i < ldMaxGenerations) (hx : x ∈ (V.chain i).nodes)
    (hg : g + ldMaxGenerations ≤ D.highestGeneration) :
    updateNode D x od g = .error .invalidGeneration := by
  obtain ⟨D₁, hun, -, honly⟩ := unchainNode_spec h.chains hi hx
  have hgx₁ : D₁.generation x + i = D₁.highestGeneration := by
    rw [honly.eq]
    exact h.chains.gen i hi x hx
  have hhigh₁ : D₁.highestGeneration = D.highestGeneration := by rw [honly.eq]
  obtain ⟨D₂, hprev, heq₂⟩ := setPrevious_spec (D := D₁) (g := g) od hi hgx₁ (by omega)
  have hhigh : D₂.highestGeneration = D.highestGeneration := by
    rw [heq₂]
    exact hhigh₁
  have hold : (setEntry D₂ x od g).generation x + ldMaxGenerations ≤
      (setEntry D₂ x od g).highestGeneration := by
    simpa [setEntry, hhigh] using hg
  rw [updateNode, hun, ok_bind, hprev, ok_bind, chainNode, getGenerationIndex_old hold, error_bind]

/-! ## A new node -/

variable {ctx : Context} {rest : List ℕ}

theorem insertNode_spec (h : Holds D V)
    (hctx : plug ctx nil = V.tree) (hfit : Fits (fun n => (D.od n).oid) od.oid ctx)
    (hfree : V.free = tn :: rest) (hj : j < ldMaxGenerations) (hg : g + j = D.highestGeneration) :
    ∃ D', insertNode D (Context.top ctx) od g = .ok (tn, D') ∧
      Rep D'.tree ctx (node (D.tree.color tn) nil tn nil) ∧ Chains D' (putIn V.chain j tn) ∧
      Stack D'.next 0 D'.freeList rest ∧
      D' = { D with
        tree := D'.tree
        od := update D.od tn od, generation := update D.generation tn g
        ppGenerationDelta := D'.ppGenerationDelta
        table := D'.table, next := D'.next, prev := D'.prev
        freeList := D'.freeList, logEntryCount := D.logEntryCount + 1 } := by
  have hstack := h.stack
  rw [hfree] at hstack
  obtain ⟨hfl, htn0, hrest⟩ := hstack
  have hun : Unchained V.chain tn := h.unchained_free (by simp [hfree])
  have hnod := h.nodup
  rw [hfree] at hnod
  have htn : tn ∉ V.tree.addrs := h.not_mem_tree (by simp [hfree])
  have htnrest : tn ∉ rest := (List.nodup_cons.1 (List.nodup_append'.1 hnod).2.1).1
  -- the state in which the node is chained
  let D₁ : Directory := setEntry { D with
    freeList := D.next D.freeList, logEntryCount := D.logEntryCount + 1
    ppGenerationDelta := update D.ppGenerationDelta tn 0 } tn od g
  have hc₁ : Chains D₁ V.chain := by
    refine Chains.setEntry ?_ hun od g
    exact ⟨h.chains.ring, h.chains.entry, h.chains.gen, h.chains.ne_zero⟩
  have hg₁ : D₁.generation tn + j = D₁.highestGeneration := by
    simp only [D₁, setEntry, update_self, hg]
  obtain ⟨D₂, hch, hc₂, heq₂, hnext₂⟩ := chainNode_spec hc₁ hj hun htn0 hg₁
  have htree₂ : D₂.tree = D.tree := by
    rw [heq₂]
    rfl
  have hod₂ : D₂.od = update D.od tn od := by
    rw [heq₂]
    rfl
  have hrep : Rep D.tree ctx nil := by
    rw [rep_plug, hctx]
    exact h.tree
  have htnctx : tn ∉ Context.addrs ctx := by
    intro hm
    refine htn ?_
    rw [← hctx, mem_addrs_plug]
    exact .inl hm
  have hleft : ∀ f, ctx.head? = some f →
      (decide (od.oid < (D₂.od (Context.top ctx)).oid) = true ↔ f.dir = .left) := by
    intro f hf
    cases ctx with
    | nil => cases hf
    | cons f' ctx =>
      obtain rfl : f' = f := by simpa using hf
      have hne : f'.addr ≠ tn := by
        rintro rfl
        exact htnctx (by simp [Context.addrs])
      rw [decide_eq_true_iff, hod₂, Context.top, update_of_ne hne]
      exact hfit.dir
  have hrep' := attachLeaf_spec hrep htn0 htnctx hleft
  have hroot := hrep'.parent_root (plug_ne_nil (.inr (by simp)))
  have hlinked : Context.top ctx ≠ 0 → ChildrenLinked
      (attachLeaf D.tree (decide (od.oid < (D₂.od (Context.top ctx)).oid)) tn (Context.top ctx))
      (Context.top ctx) := by
    intro h0
    cases ctx with
    | nil => exact absurd rfl h0
    | cons f ctx =>
      have hf := (rep_cons.1 hrep').linked
      obtain ⟨d, c, k, u⟩ := f
      cases d <;> exact childrenLinked_of_linked hf
  refine ⟨{ D₂ with
    tree := attachLeaf D.tree (decide (od.oid < (D₂.od (Context.top ctx)).oid)) tn (Context.top ctx) },
    ?_, hrep', ⟨hc₂.ring, hc₂.entry, hc₂.gen, hc₂.ne_zero⟩, ?_, ?_⟩
  · have hfl0 : D.freeList ≠ 0 := hfl ▸ htn0
    have hch' : chainNode (setEntry { D with
        freeList := D.next D.freeList, logEntryCount := D.logEntryCount + 1
        ppGenerationDelta := update D.ppGenerationDelta D.freeList 0 } D.freeList od g)
        D.freeList = .ok D₂ := by
      rw [hfl]
      have := hch
      simp only [D₁] at this
      rw [hfl] at this
      exact this
    subst hfl
    rw [insertNode, allocNode, ensure_pos hfl0, ok_bind, ok_bind]
    simp only [hch', ok_bind, htree₂, ensure_pos hlinked, ensure_pos hroot]
  · have hfl₂ : D₂.freeList = D.next tn := by
      rw [heq₂]
      simp only [D₁, setEntry]
      rw [hfl]
    simp only [hfl₂]
    refine hrest.congr fun a ha => ?_
    have hat : a ≠ tn := fun he => htnrest (he ▸ ha)
    exact hnext₂ a (h.unchained_free (by simp [hfree, ha])) hat
  · simp only
    rw [heq₂]
    rfl

theorem ascending_plug {key : ℕ → ℕ} {c : Color}
    (h : Fits key oid ctx) (hs : Ascending key (plug ctx nil).addrs) (hn : key n = oid) :
    Ascending key (plug ctx (node c nil n nil)).addrs := by
  rw [addrs_plug] at hs ⊢
  simp only [Ascending, addrs, List.append_nil, List.nil_append, List.append_assoc,
    List.singleton_append, List.pairwise_append, List.pairwise_cons] at hs ⊢
  refine ⟨hs.1, ⟨fun b hb => hn ▸ h.after b hb, hs.2.1⟩, ?_⟩
  intro a ha b hb
  rw [List.mem_cons] at hb
  rcases hb with rfl | hb
  · exact hn ▸ h.before a ha
  · exact hs.2.2 a ha b hb

/-- A node is added for an object that has none. -/
theorem addNode_spec (h : Holds D V)
    (hctx : plug ctx nil = V.tree) (hfit : Fits (fun n => (D.od n).oid) od.oid ctx)
    (hfree : V.free = tn :: rest) (hj : j < ldMaxGenerations) (hg : g + j = D.highestGeneration)
    (hrb : RedBlack V.tree) :
    ∃ D₁ L' t', insertNode D (Context.top ctx) od g = .ok (tn, D₁) ∧
      colorNewNode D₁.fuel D₁.tree tn = .ok L' ∧ RedBlack t' ∧
      t'.addrs.Perm (tn :: V.tree.addrs) ∧
      Holds { D₁ with tree := L' } ⟨t', putIn V.chain j tn, rest⟩ ∧
      D₁ = { D with
        tree := D₁.tree
        od := update D.od tn od, generation := update D.generation tn g
        ppGenerationDelta := D₁.ppGenerationDelta
        table := D₁.table, next := D₁.next, prev := D₁.prev
        freeList := D₁.freeList, logEntryCount := D.logEntryCount + 1 } := by
  obtain ⟨D₁, hins, hrep, hc, hstack, heq⟩ := insertNode_spec h hctx hfit hfree hj hg
  have hfuel : ctx.length < D₁.fuel := by
    have hlen := length_le_addrs ctx nil
    rw [hctx] at hlen
    have hf : D₁.fuel = D.fuel := by
      rw [heq]
      rfl
    have := h.fuel
    omega
  obtain ⟨L', t', hcol, hrep', hrb', haddrs⟩ :=
    colorNewNode_spec hrep (by rw [hctx]; exact hrb) hfuel
  have hperm : t'.addrs.Perm (tn :: V.tree.addrs) := by
    rw [haddrs, ← hctx, addrs_plug, addrs_plug]
    simp only [addrs, List.nil_append, List.append_nil, List.append_assoc, List.singleton_append]
    exact List.perm_middle
  have htn : tn ∉ V.tree.addrs := h.not_mem_tree (by simp [hfree])
  have hod : D₁.od = update D.od tn od := by rw [heq]
  refine ⟨D₁, L', t', hins, hcol, hrb', hperm, ?_, heq⟩
  refine ⟨hrep', .inl hrb', ?_, ⟨hc.ring, hc.entry, hc.gen, hc.ne_zero⟩, ?_, hstack, ?_, ?_⟩
  · rw [haddrs]
    have hold : ∀ a ∈ (plug ctx nil).addrs, D₁.od a = D.od a := by
      intro a ha
      rw [hctx] at ha
      have : a ≠ tn := fun he => htn (he ▸ ha)
      rw [hod, update_of_ne this]
    have hfit' : Fits (fun n => (D₁.od n).oid) od.oid ctx := by
      constructor
      · intro a ha
        rw [hold a (mem_addrs_plug.2 (.inl (Context.mem_sides.1 (List.mem_append_left _ ha))))]
        exact hfit.before a ha
      · intro a ha
        rw [hold a (mem_addrs_plug.2 (.inl (Context.mem_sides.1 (List.mem_append_right _ ha))))]
        exact hfit.after a ha
    refine ascending_plug hfit' ?_ (by simp [hod])
    have hs := h.sorted
    rw [← hctx] at hs
    refine hs.imp_of_mem fun {a b} ha hb hlt => ?_
    show (D₁.od a).oid < (D₁.od b).oid
    rw [hold a ha, hold b hb]
    exact hlt
  · intro n
    rw [hperm.mem_iff, List.mem_cons, h.mem]
    unfold Unchained
    push Not
    constructor
    · rintro (rfl | ⟨k, hk, hm⟩)
      · exact ⟨j, hj, mem_putIn.2 (.inr ⟨rfl, rfl⟩)⟩
      · exact ⟨k, hk, mem_putIn.2 (.inl hm)⟩
    · rintro ⟨k, hk, hm⟩
      rcases mem_putIn.1 hm with hm | ⟨rfl, -⟩
      · exact .inr ⟨k, hk, hm⟩
      · exact .inl rfl
  · have hp := h.nodes
    rw [hfree] at hp
    have hh : D₁.highestGeneration = D.highestGeneration := by rw [heq]
    have hN : D₁.numLogDirEntries = D.numLogDirEntries := by rw [heq]
    simp only [hh, hN]
    refine List.Perm.trans ?_ hp
    exact (hperm.append_right rest).trans List.perm_middle.symm
  · have hcount : D₁.logEntryCount = D.logEntryCount + 1 := by rw [heq]
    simp only [hcount, hperm.length_eq, List.length_cons, h.count]

theorem addNode_red {p : ℕ} (h : Holds D V)
    (hctx : plug ctx nil = V.tree) (hfit : Fits (fun n => (D.od n).oid) od.oid ctx)
    (hfree : V.free = tn :: rest) (hj : j < ldMaxGenerations) (hg : g + j = D.highestGeneration)
    (hred : V.tree = node .red nil p nil) :
    ∃ D₁, insertNode D (Context.top ctx) od g = .ok (tn, D₁) ∧
      colorNewNode D₁.fuel D₁.tree tn = .error .assertion := by
  obtain ⟨D₁, hins, hrep, -⟩ := insertNode_spec h hctx hfit hfree hj hg
  refine ⟨D₁, hins, ?_⟩
  obtain ⟨d, rfl⟩ : ∃ d, ctx = [⟨d, .red, p, nil⟩] := by
    rw [hred] at hctx
    match ctx with
    | [] => cases hctx
    | [⟨d, c, k, u⟩] =>
      cases d <;>
      · simp only [plug, Frame.fill, branch, node.injEq] at hctx
        obtain ⟨rfl, h₁, rfl, h₂⟩ := hctx
        first
        | exact ⟨.left, by rw [h₂]⟩
        | exact ⟨.right, by rw [h₁]⟩
    | f :: f' :: ctx =>
      have hlen := length_le_addrs (f :: f' :: ctx) nil
      rw [hctx] at hlen
      simp [addrs] at hlen
  exact colorNewNode_red hrep (by rw [Directory.fuel]; omega)

/-! ## `ld_recordLocation` -/

/-- The object has no entry. -/
def Fresh (D : Directory) (V : View) (oid : ℕ) : Prop := ∀ n ∈ V.tree.addrs, (D.od n).oid ≠ oid

theorem fresh_of_fits (hplug : plug ctx nil = V.tree)
    (hfit : Fits (fun n => (D.od n).oid) oid ctx) : Fresh D V oid := by
  intro n hn he
  rw [← hplug, mem_addrs_plug, ← Context.mem_sides, List.mem_append] at hn
  simp only [addrs, List.not_mem_nil, or_false] at hn
  rcases hn with hn | hn
  · exact (hfit.before n hn).ne he
  · exact (hfit.after n hn).ne' he

/-- A node is free, or will be when the free list has been chained. -/
def Spare (D : Directory) (generation : ℕ) : Prop :=
  D.logEntryCount < D.numLogDirEntries ∧ (D.highestGeneration = 0 → 0 < generation)

/-- The directory after the location of an object has been recorded in node `x`, which is in chain
`j` now. -/
structure Recorded (D : Directory) (V : View) (od : ObjectDescriptor) (g x j : ℕ) (D' : Directory)
    (V' : View) : Prop where
  mem : x ∈ V'.tree.addrs
  place : j < ldMaxGenerations ∧ g + j = max D.highestGeneration g
  /-- The node has had an entry of the object, or it is new. -/
  chain :
    (∃ i < ldMaxGenerations, x ∈ (opened D V.chain g i).nodes ∧ (D.od x).oid = od.oid ∧
      V'.tree = V.tree ∧ V'.chain = putIn (takeOut (opened D V.chain g) i x) j x) ∨
    (x ∉ V.tree.addrs ∧ Fresh D V od.oid ∧ V'.tree.addrs.Perm (x :: V.tree.addrs) ∧
      V'.chain = putIn (opened D V.chain g) j x)
  rest : D' = { D with
    tree := D'.tree
    od := update D.od x od, generation := update D.generation x g
    ppGenerationDelta := D'.ppGenerationDelta, ppLogLoc := D'.ppLogLoc
    table := D'.table, next := D'.next, prev := D'.prev, freeList := D'.freeList
    highestGeneration := max D.highestGeneration g, logEntryCount := D'.logEntryCount }
  redBlack : RedBlack V.tree → RedBlack V'.tree

theorem Holds.free_length (h : Holds D V) (h0 : D.highestGeneration ≠ 0) :
    V.free.length = D.numLogDirEntries - D.logEntryCount ∧ D.logEntryCount ≤ D.numLogDirEntries := by
  have hl := h.nodes.length_eq
  rw [if_neg h0, List.length_append, List.length_range', ← h.count] at hl
  omega

theorem Opened.spare (h : Holds D V) (ho : Opened D V g D' V') : V'.free ≠ [] ↔ Spare D g := by
  rw [ho.free, Spare]
  by_cases h0 : D.highestGeneration = 0
  · have ht := h.tree_nil h0
    have hcount : D.logEntryCount = 0 := by rw [h.count, ht.1]; rfl
    by_cases hg : 0 < g
    · rw [if_pos ⟨h0, hg⟩, hcount]
      simp only [ne_eq, List.reverse_eq_nil_iff, List.range'_eq_nil_iff]
      omega
    · rw [if_neg (fun hc => hg hc.2), ht.2]
      simp [h0, hg]
  · rw [if_neg (fun hc => h0 hc.1)]
    have := h.free_length h0
    rw [← List.length_pos_iff]
    omega

theorem Opened.highest (ho : Opened D V g D' V') :
    D'.highestGeneration = max D.highestGeneration g := by rw [ho.rest]

/-- `ld_recordLocation` records the location, or it stops the kernel: there is no room for the
generation, there is no free node, the generation is too old, or the only entry is a red root. -/
theorem recordLocation_spec (h : Holds D V) (od : ObjectDescriptor) (g : ℕ) :
    (Roomy D V g ∧ D.highestGeneration < g + ldMaxGenerations ∧
      (Fresh D V od.oid → Spare D g ∧ RedBlack V.tree) ∧
      ∃ D' V' x j, recordLocation D od g = .ok D' ∧ Holds D' V' ∧ Recorded D V od g x j D' V') ∨
    (¬Roomy D V g ∧ recordLocation D od g = .error .tooManyGenerations) ∨
    (Roomy D V g ∧ Fresh D V od.oid ∧ ¬Spare D g ∧ recordLocation D od g = .error .outOfNodes) ∨
    (Roomy D V g ∧ (Fresh D V od.oid → Spare D g) ∧ g + ldMaxGenerations ≤ D.highestGeneration ∧
      recordLocation D od g = .error .invalidGeneration) ∨
    (Roomy D V g ∧ Fresh D V od.oid ∧ (Spare D g ∧ ¬RedBlack V.tree) ∧
      recordLocation D od g = .error .assertion) := by
  have hmax : 0 < ldMaxGenerations := by decide
  by_cases hroom : Roomy D V g
  swap
  · refine .inr (.inl ⟨hroom, ?_⟩)
    rw [recordLocation, ensure_pos h.tree.nilColor, ok_bind, openGeneration_full h hroom, error_bind]
  obtain ⟨D₁, V₁, hopen, h₁, ho⟩ := openGeneration_spec h hroom
  have hod₁ : D₁.od = D.od := by rw [ho.rest]
  have hrec : recordLocation D od g = binaryInsert D₁ od g := by
    rw [recordLocation, ensure_pos h.tree.nilColor, ok_bind, hopen, ok_bind]
  have hroot : D₁.tree.root = V₁.tree.addr := h₁.tree.context
  have hhigh : D₁.highestGeneration = max D.highestGeneration g := ho.highest
  rw [hrec]
  have hsearch := insertSearch_spec (D := D₁) od.oid D₁.fuel h₁.tree h₁.sorted
    (Fits.nil _ _) (by have := h₁.fuel; omega)
  rcases hsearch with ⟨x, hx, hox, hfound⟩ | ⟨ctx, hunder, hplug, hfit⟩
  · -- the object has a node
    obtain ⟨i, hi, hxi⟩ := h₁.exists_index hx
    have hins : binaryInsert D₁ od g = updateNode D₁ x od g := by
      have hf : insertSearch D₁ od.oid D₁.fuel 0 D₁.tree.root = .ok (.found x) := by
        rw [hroot]
        exact hfound
      rw [binaryInsert, hf, ok_bind]
    have hnotfresh : ¬Fresh D V od.oid := by
      intro hfr
      rw [ho.tree] at hx
      refine hfr x hx ?_
      rw [← hod₁]
      exact hox
    rw [hins]
    by_cases hin : D.highestGeneration < g + ldMaxGenerations
    · refine .inl ⟨hroom, hin, fun hfr => absurd hfr hnotfresh, ?_⟩
      obtain ⟨j, hj, hgj⟩ : ∃ j < ldMaxGenerations, g + j = D₁.highestGeneration :=
        ⟨D₁.highestGeneration - g, by omega, by omega⟩
      obtain ⟨D', hD', h', heq⟩ := updateNode_spec h₁ hi hxi hox hj hgj
      refine ⟨D', _, x, j, hD', h', hx, ⟨hj, by rw [hgj, hhigh]⟩, .inl ⟨i, hi, ?_, ?_, ho.tree, ?_⟩,
        ?_, ?_⟩
      · rw [← ho.chain]
        exact hxi
      · rw [← hod₁]
        exact hox
      · rw [← ho.chain]
      · rw [heq, ho.rest]
      · intro hrb
        simp only
        rw [ho.tree]
        exact hrb
    · refine .inr (.inr (.inr (.inl ⟨hroom, fun hfr => absurd hfr hnotfresh, by omega, ?_⟩)))
      exact updateNode_old h₁ hi hxi (by omega)
  · -- the object has none
    have hu : insertSearch D₁ od.oid D₁.fuel 0 D₁.tree.root = .ok (.under (Context.top ctx)) := by
      rw [hroot]
      exact hunder
    have hinserted {tn : ℕ} {D₂ : Directory} (hin : insertNode D₁ (Context.top ctx) od g = .ok (tn, D₂)) :
        binaryInsert D₁ od g = (do
          let L ← colorNewNode D₂.fuel D₂.tree tn
          .ok { D₂ with tree := L }) := by
      rw [binaryInsert, hu, ok_bind]
      simp only [hin, ok_bind]
    have hrefused {e : Failure} (hin : insertNode D₁ (Context.top ctx) od g = .error e) :
        binaryInsert D₁ od g = .error e := by
      rw [binaryInsert, hu, ok_bind]
      simp only [hin, error_bind]
    have hfresh : Fresh D V od.oid := by
      intro n hn
      rw [← hod₁]
      exact fresh_of_fits hplug hfit n (ho.tree ▸ hn)
    by_cases hspare : Spare D g
    swap
    · refine .inr (.inr (.inl ⟨hroom, hfresh, hspare, ?_⟩))
      have hnil : V₁.free = [] := by
        by_contra hne
        exact hspare ((ho.spare h).1 hne)
      have hfl : ¬D₁.freeList ≠ 0 := by
        have := h₁.stack
        rw [hnil] at this
        exact not_not.2 this
      refine hrefused ?_
      rw [insertNode, allocNode, ensure_neg hfl, error_bind, error_bind]
    · obtain ⟨tn, rest, hfree⟩ : ∃ tn rest, V₁.free = tn :: rest :=
        List.exists_cons_of_ne_nil ((ho.spare h).2 hspare)
      by_cases hin : D.highestGeneration < g + ldMaxGenerations
      · obtain ⟨j, hj, hgj⟩ : ∃ j < ldMaxGenerations, g + j = D₁.highestGeneration :=
          ⟨D₁.highestGeneration - g, by omega, by omega⟩
        by_cases hrb : RedBlack V.tree
        · refine .inl ⟨hroom, hin, fun _ => ⟨hspare, hrb⟩, ?_⟩
          have hrb₁ : RedBlack V₁.tree := by rwa [ho.tree]
          obtain ⟨D₂, L', t', hin₂, hcol, hrb', hperm, h', heq⟩ :=
            addNode_spec h₁ hplug hfit hfree hj hgj hrb₁
          rw [ho.tree] at hperm
          have htn : tn ∉ V.tree.addrs := by
            rw [← ho.tree]
            exact h₁.not_mem_tree (by simp [hfree])
          refine ⟨_, _, tn, j, ?_, h', hperm.mem_iff.2 (by simp), ⟨hj, by rw [hgj, hhigh]⟩,
            .inr ⟨htn, hfresh, hperm, by rw [← ho.chain]⟩, ?_, fun _ => hrb'⟩
          · rw [hinserted hin₂, hcol, ok_bind]
          · simp only
            rw [heq, ho.rest]
        · refine .inr (.inr (.inr (.inr ⟨hroom, hfresh, ⟨hspare, hrb⟩, ?_⟩)))
          obtain ⟨p, hp⟩ := h.fair.resolve_left hrb
          obtain ⟨D₂, hin₂, hcol⟩ :=
            addNode_red h₁ hplug hfit hfree hj hgj (by rw [ho.tree]; exact hp)
          rw [hinserted hin₂, hcol, error_bind]
      · refine .inr (.inr (.inr (.inl ⟨hroom, fun _ => hspare, by omega, ?_⟩)))
        have hstack := h₁.stack
        rw [hfree] at hstack
        have hfl : D₁.freeList ≠ 0 := hstack.1 ▸ hstack.2.1
        have hold : ∀ D : Directory, D.highestGeneration = D₁.highestGeneration →
            ∀ n, D.generation n = g → chainNode D n = .error .invalidGeneration := by
          intro D hD n hn
          rw [chainNode, hn, getGenerationIndex_old (by omega), error_bind]
        refine hrefused ?_
        rw [insertNode, allocNode, ensure_pos hfl, ok_bind, ok_bind]
        simp only
        rw [hold _ (by simp [setEntry]) _ (by simp [setEntry]), error_bind]

theorem recordLocation_ok (h : Holds D V) {od : ObjectDescriptor} (hrun : recordLocation D od g = .ok D') :
    ∃ V' x j, Holds D' V' ∧ Recorded D V od g x j D' V' := by
  rcases recordLocation_spec h od g with
    ⟨-, -, -, D₁, V₁, x, j, h₁, hV₁, hrec⟩ | ⟨-, he⟩ | ⟨-, -, -, he⟩ | ⟨-, -, -, he⟩ | ⟨-, -, -, he⟩
  · obtain rfl : D₁ = D' := Except.ok.inj (h₁.symm.trans hrun)
    exact ⟨V₁, x, j, hV₁, hrec⟩
  all_goals
    rw [he] at hrun
    cases hrun

end CapROS.LogDirectory
