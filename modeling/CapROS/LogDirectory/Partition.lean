import CapROS.LogDirectory.Runs

/-!
# The chains partition the log directory

In every state that is reached each node of the tree is in one chain, that of its generation, and the
counts are those of the chains. A cursor is null or in its own chain as long as no call takes the
only node of a chain out of it while the cursor is there: `unchain_node` then leaves the cursor on
the node.

* `partitioned_run`: the property holds in every state of a run whose calls meet the condition.
-/

namespace CapROS.LogDirectory

open LinkedTree LinkedTree.Tree LinkedRing

/-- The circular list with this head, 0 for the empty one, has the nodes `xs`. -/
def Circular (D : Directory) (head : ℕ) (xs : List ℕ) : Prop :=
  Ring D.next D.prev xs ∧ xs.head? = if head = 0 then none else some head

/-- The nodes of the tree, the chains and the free list are these, and the chains partition the
nodes of the tree. -/
structure Partition (D : Directory) (t : Tree) (chain : ℕ → List ℕ) (free : List ℕ) : Prop where
  tree : Rep D.tree [] t
  circular : ∀ i < ldMaxGenerations, Circular D (D.table i).head (chain i)
  stack : Stack D.next 0 D.freeList free
  /-- Every node of the tree is in the chain of its generation and in no other. -/
  unique : ∀ n ∈ t.addrs, ∃ i < ldMaxGenerations, D.generation n + i = D.highestGeneration ∧
    n ∈ chain i ∧ ∀ k < ldMaxGenerations, n ∈ chain k → k = i
  mem_tree : ∀ i < ldMaxGenerations, ∀ n ∈ chain i, n ∈ t.addrs
  count : ∀ i < ldMaxGenerations, (D.table i).count = (chain i).length
  size : D.logEntryCount = t.addrs.length
  sum : D.logEntryCount = ((List.range ldMaxGenerations).map fun i => (D.table i).count).sum
  free : ∀ n ∈ t.addrs, n ∉ free
  cursor : ∀ i < ldMaxGenerations, (D.table i).cursor = 0 ∨ (D.table i).cursor ∈ chain i

/-- The chains partition the log directory. -/
def Partitioned (D : Directory) : Prop := ∃ t chain free, Partition D t chain free

/-- The cursor of the chain of `n` is on `n`, and `n` is the only node of the chain. -/
def Stranded (D : Directory) (n : ℕ) : Prop :=
  D.next n = n ∧ (D.table (D.highestGeneration - D.generation n)).cursor = n

instance (D : Directory) (n : ℕ) : Decidable (Stranded D n) := inferInstanceAs (Decidable (_ ∧ _))

/-- The call does not take the only node of a chain out of it while the cursor is there. -/
def KeepsCursor (D : Directory) : Op → Prop
  | .record od generation =>
      entryNode D od.oid ≠ 0 → D.generation (entryNode D od.oid) ≠ generation →
        ¬Stranded D (entryNode D od.oid)
  | .remove oid => entryNode D oid ≠ 0 → ¬Stranded D (entryNode D oid)
  | .clear _ | .resetScan _ | .findNext _ | .retired _ => True

instance (D : Directory) : (op : Op) → Decidable (KeepsCursor D op)
  | .record _ _ => inferInstanceAs (Decidable (_ → _ → _))
  | .remove _ => inferInstanceAs (Decidable (_ → _))
  | .clear _ | .resetScan _ | .findNext _ | .retired _ => inferInstanceAs (Decidable True)

variable {D D' : Directory} {V V' : View} {C : Chain} {chain : ℕ → Chain} {i j k n x z : ℕ}

/-! ## Cursors -/

/-- The cursor is null or in the chain. -/
def CursorOk (C : Chain) : Prop := C.cursor = 0 ∨ C.cursor ∈ C.nodes

theorem cursorOk_empty : CursorOk {} := .inl rfl

theorem CursorOk.link (h : CursorOk C) (n : ℕ) : CursorOk (C.link n) :=
  h.imp id fun hm => mem_link.2 (.inr hm)

theorem CursorOk.unlink (h : CursorOk C) (hnod : C.nodes.Nodup) (hn : n ∈ C.nodes)
    (hs : ¬(C.nodes = [n] ∧ C.cursor = n)) : CursorOk (C.unlink n) := by
  unfold CursorOk
  simp only [Chain.unlink]
  by_cases hcn : C.cursor = n
  · -- the cursor moves on
    obtain ⟨l, r, hlr⟩ := List.append_of_mem hn
    have hnod' := hnod
    rw [hlr, List.nodup_middle, List.nodup_cons, List.mem_append, not_or] at hnod'
    obtain ⟨a, m, ham⟩ : ∃ a m, r ++ l = a :: m := by
      refine List.exists_cons_of_ne_nil fun hnil => hs ⟨?_, hcn⟩
      rw [List.append_eq_nil_iff] at hnil
      rw [hlr, hnil.1, hnil.2, List.nil_append]
    have ha : a ∈ r ++ l := by simp [ham]
    rw [List.mem_append] at ha
    have hafter : after n C.nodes = a := by
      rw [hlr, after_split hnod'.1.1, ham]
      rfl
    rw [if_pos hcn, hafter, mem_unlink hnod]
    split_ifs with hhead
    · exact .inl rfl
    · refine .inr ⟨?_, ?_⟩
      · rintro rfl
        exact ha.elim hnod'.1.2 hnod'.1.1
      · rw [hlr]
        rcases ha with ha | ha <;> simp [ha]
  · rw [if_neg hcn, mem_unlink hnod]
    split_ifs with hhead
    · exact .inl rfl
    · exact h.imp id fun hm => ⟨hcn, hm⟩

theorem nodup_link (hnod : C.nodes.Nodup) (hn : n ∉ C.nodes) : (C.link n).nodes.Nodup :=
  (perm_link n C.nodes).nodup_iff.2 (List.nodup_cons.2 ⟨hn, hnod⟩)

theorem nodup_unlink (hnod : C.nodes.Nodup) (n : ℕ) : (C.unlink n).nodes.Nodup :=
  (perm_unlink n C.nodes).nodup_iff.2 (hnod.erase n)

theorem CursorOk.link_unlink (h : CursorOk C) (hnod : C.nodes.Nodup) (hn : n ∉ C.nodes)
    (hn0 : n ≠ 0) : CursorOk ((C.link n).unlink n) := by
  refine (h.link n).unlink (nodup_link hnod hn) (mem_link.2 (.inl rfl)) ?_
  rintro ⟨hone, hcur⟩
  have hlen : (C.link n).nodes.length = C.nodes.length + 1 := length_link
  rw [hone] at hlen
  have hnil : C.nodes = [] := List.length_eq_zero_iff.1 (by simpa using hlen)
  have hcur : C.cursor = n := hcur
  rcases h with h | h
  · exact hn0 (hcur.symm.trans h)
  · rw [hnil] at h
    cases h

theorem not_mem_unlink (hnod : C.nodes.Nodup) : n ∉ (C.unlink n).nodes := by
  intro hm
  exact ((mem_unlink hnod).1 hm).1 rfl

theorem takeOut_self : takeOut chain i n i = (chain i).unlink n := by simp [takeOut]

theorem takeOut_of_ne (h : k ≠ i) : takeOut chain i n k = chain k := by simp [takeOut, h]

theorem putIn_self : putIn chain i n i = (chain i).link n := by simp [putIn]

theorem putIn_of_ne (h : k ≠ i) : putIn chain i n k = chain k := by simp [putIn, h]

theorem Removal.cursor (h : Holds D V) (hrem : Removal D V z D' V') (hi : i < ldMaxGenerations)
    (hz : z ∈ (V.chain i).nodes) (hk : k < ldMaxGenerations) (hc : CursorOk (V.chain k))
    (hs : k = i → ¬((V.chain i).nodes = [z] ∧ (V.chain i).cursor = z)) : CursorOk (V'.chain k) := by
  obtain ⟨i', hi', j, hj, y, -, hzi, hyj, hchain⟩ := hrem.chain
  obtain rfl := h.chains.index_eq hi hi' hz hzi
  have hz0 := h.chains.ne_zero i hi z hz
  have hnod := (h.chains.ring k hk).nodup
  rw [hchain, exchanged]
  by_cases hki : k = i
  · subst hki
    have h₁ : CursorOk ((V.chain k).unlink z) := hc.unlink hnod hz (hs rfl)
    have hnod₁ := nodup_unlink hnod z
    have hout₁ := not_mem_unlink (n := z) hnod
    rw [takeOut_self]
    split_ifs with hyz
    · exact h₁
    · rw [putIn_self]
      by_cases hkj : k = j
      · -- both nodes are in the same chain
        subst hkj
        rw [takeOut_self, putIn_self, takeOut_self]
        have hlink : (((V.chain k).unlink z).link z).nodes.Nodup := nodup_link hnod₁ hout₁
        exact (h₁.link_unlink hnod₁ hout₁ hz0).link_unlink (nodup_unlink hlink z)
          (not_mem_unlink hlink) hz0
      · rw [takeOut_of_ne hkj, putIn_of_ne hkj, takeOut_self]
        exact h₁.link_unlink hnod₁ hout₁ hz0
  · rw [takeOut_of_ne hki]
    split_ifs with hyz
    · exact hc
    · rw [putIn_of_ne hki]
      by_cases hkj : k = j
      · subst hkj
        rw [takeOut_self, putIn_self, takeOut_of_ne hki]
        exact hc.link_unlink hnod (fun hm => hki (h.chains.index_eq hk hi hm hz)) hz0
      · rw [takeOut_of_ne hkj, putIn_of_ne hkj, takeOut_of_ne hki]
        exact hc

/-- All cursors are null or in their chains. -/
def CursorsOk (V : View) : Prop := ∀ k < ldMaxGenerations, CursorOk (V.chain k)

theorem Holds.stranded (h : Holds D V) (hi : i < ldMaxGenerations) (hn : n ∈ (V.chain i).nodes) :
    Stranded D n ↔ (V.chain i).nodes = [n] ∧ (V.chain i).cursor = n := by
  have hg := h.chains.gen i hi n hn
  have hidx : D.highestGeneration - D.generation n = i := by omega
  rw [Stranded, (h.chains.ring i hi).next_eq_self hn, hidx, h.chains.entry i hi]
  rfl

/-! ## Recording and clearing -/

theorem opened_eq (D : Directory) (chain : ℕ → Chain) (g i : ℕ) :
    opened D chain g i = {} ∨ ∃ k ≤ i, opened D chain g i = chain k := by
  unfold opened
  split_ifs
  · exact .inl rfl
  · unfold shiftChain
    split_ifs
    · exact .inl rfl
    · exact .inr ⟨_, Nat.sub_le _ _, rfl⟩
  · exact .inr ⟨i, le_rfl, rfl⟩

theorem CursorsOk.opened (h : CursorsOk V) (g : ℕ) (hk : k < ldMaxGenerations) :
    CursorOk (opened D V.chain g k) := by
  rcases opened_eq D V.chain g k with he | ⟨m, hm, he⟩
  · rw [he]
    exact cursorOk_empty
  · rw [he]
    exact h m (hm.trans_lt hk)

theorem opened_gen (h : Holds D V) {g : ℕ} (hi : i < ldMaxGenerations)
    (hx : x ∈ (opened D V.chain g i).nodes) : D.generation x + i = max D.highestGeneration g := by
  unfold opened at hx
  split_ifs at hx with h₁ h₂
  · cases hx
  · rw [mem_shiftChain] at hx
    have := h.chains.gen _ (by omega) x hx.2
    omega
  · have := h.chains.gen i hi x hx
    omega

theorem Recorded.cursors {od : ObjectDescriptor} {g : ℕ} (h : Holds D V) (hc : CursorsOk V)
    (hrec : Recorded D V od g x j D' V') (hop : KeepsCursor D (.record od g)) : CursorsOk V' := by
  intro k hk
  obtain ⟨hj, hgj⟩ := hrec.place
  rcases hrec.chain with ⟨i, hi, hxi, hoid, htree, hchain⟩ | ⟨-, -, -, hchain⟩
  · have hgi := opened_gen h hi hxi
    have hx0 : x ≠ 0 := h.tree.ne_zero (htree ▸ hrec.mem)
    obtain ⟨m, hmi, hm⟩ : ∃ m ≤ i, opened D V.chain g i = V.chain m := by
      refine (opened_eq D V.chain g i).resolve_left fun he => ?_
      rw [he] at hxi
      cases hxi
    have hmi := hmi.trans_lt hi
    rw [hm] at hxi
    have hnod := (h.chains.ring m hmi).nodup
    have hci := hc m hmi
    rw [hchain]
    by_cases hji : j = i
    · -- the node goes back into its chain
      subst hji
      by_cases hkj : k = j
      · subst hkj
        rw [putIn_self, takeOut_self, hm]
        by_cases hs : (V.chain m).nodes = [x] ∧ (V.chain m).cursor = x
        · right
          have hafter : after x [x] = x := after_split (l := []) (by simp)
          simp [Chain.link, Chain.unlink, hs.1, hs.2, LinkedRing.unlink, lastFirst, LinkedRing.link,
            hafter, hx0]
        · exact (hci.unlink hnod hxi hs).link x
      · rw [putIn_of_ne hkj, takeOut_of_ne hkj]
        exact hc.opened g hk
    · have hs : ¬((V.chain m).nodes = [x] ∧ (V.chain m).cursor = x) := by
        rw [← h.stranded hmi hxi]
        have hop' : entryNode D od.oid ≠ 0 → D.generation (entryNode D od.oid) ≠ g →
          ¬Stranded D (entryNode D od.oid) := hop
        rw [h.entryNode_eq (h.mem_tree hmi hxi) hoid] at hop'
        exact hop' hx0 (by omega)
      by_cases hkj : k = j
      · subst hkj
        rw [putIn_self, takeOut_of_ne hji]
        exact (hc.opened g hk).link x
      · rw [putIn_of_ne hkj]
        by_cases hki : k = i
        · subst hki
          rw [takeOut_self, hm]
          exact hci.unlink hnod hxi hs
        · rw [takeOut_of_ne hki]
          exact hc.opened g hk
  · rw [hchain]
    by_cases hkj : k = j
    · subst hkj
      rw [putIn_self]
      exact (hc.opened g hk).link x
    · rw [putIn_of_ne hkj]
      exact hc.opened g hk

theorem clearAt_cursors (h : Holds D V) (hi : i < ldMaxGenerations) (hc : CursorsOk V)
    (hrun : clearAt D i = .ok D') : ∃ V', Holds D' V' ∧ CursorsOk V' := by
  obtain ⟨D₁, V₁, h₁, hc₁, hcl, ⟨rfl, rfl, hok, -⟩ | ⟨hok, -⟩⟩ :=
    clearAt_spec (P := fun V => ∀ k < ldMaxGenerations, k ≠ i → CursorOk (V.chain k)) h hi
      (fun k hk _ => hc k hk)
      (fun h hz _ hrem hP k hk hki => hrem.cursor h hi hz hk (hP k hk hki) fun he => absurd he hki)
  · obtain rfl : D₁ = D' := by simpa [hok] using hrun
    exact ⟨V₁, h₁, hc⟩
  · rw [hok] at hrun
    split_ifs at hrun with hcur
    obtain rfl : D₁ = D' := by simpa using hrun
    refine ⟨V₁, h₁, fun k hk => ?_⟩
    by_cases hki : k = i
    · subst hki
      exact .inl hcur
    · exact hc₁ k hk hki

/-! ## Runs -/

theorem CursorsOk.run (h : Holds D V) (hc : CursorsOk V) {op : Op} (hop : KeepsCursor D op)
    (hrun : op.run D = .ok D') : ∃ V', Holds D' V' ∧ CursorsOk V' := by
  cases op with
  | record od g =>
    obtain ⟨V₁, x, j, hV₁, hrec⟩ := recordLocation_ok h hrun
    exact ⟨V₁, hV₁, hrec.cursors h hc hop⟩
  | remove oid =>
    obtain ⟨rfl, -⟩ | ⟨z, V₁, hz, hoid, h₁, hrem⟩ := removeObjectEntry_ok h hrun
    · exact ⟨V, h, hc⟩
    · obtain ⟨i, hi, hzi⟩ := h.exists_index hz
      have hs : entryNode D oid ≠ 0 → ¬Stranded D (entryNode D oid) := hop
      rw [h.entryNode_eq hz hoid] at hs
      have hs := hs (h.tree.ne_zero hz)
      rw [h.stranded hi hzi] at hs
      exact ⟨V₁, h₁, fun k hk => hrem.cursor h hi hzi hk (hc k hk) fun _ => hs⟩
  | clear g =>
    have hrun : clearGeneration D g = .ok D' := hrun
    obtain ⟨gti, hidx, hrun⟩ := of_bind_ok hrun
    refine clearAll_ok (P := CursorsOk) _ h hc (fun {D₁ V₁ i D₂} h₁ hi hc₁ hat => ?_) hrun
    rw [List.mem_range'_1] at hi
    exact clearAt_cursors h₁ (by omega) hc₁ hat
  | resetScan g =>
    obtain ⟨i, hi, -, h', -⟩ := resetScan_spec h hrun
    refine ⟨_, h', fun k hk => ?_⟩
    by_cases hki : k = i
    · subst hki
      simp only [setCursor, Function.update_self, CursorOk, Chain.head]
      cases (V.chain k).nodes <;> simp
    · simp only [setCursor, Function.update_of_ne hki]
      exact hc k hk
  | findNext g =>
    have hrun : (findNextObject D g >>= fun r => .ok r.2) = .ok D' := hrun
    obtain ⟨r, hf, hrun⟩ := of_bind_ok hrun
    cases hrun
    obtain ⟨i, hi, -, ⟨-, -, hD⟩ | ⟨hcur, -, h', -⟩⟩ :=
      findNextObject_spec h (hf : _ = Except.ok (r.1, r.2))
    · exact ⟨V, hD ▸ h, hc⟩
    · refine ⟨_, h', fun k hk => ?_⟩
      by_cases hki : k = i
      · subst hki
        simp only [setCursor, Function.update_self, CursorOk, advanced]
        split_ifs
        · exact .inl rfl
        · exact .inr ((h.chains.ring k hk).next_mem ((hc k hk).resolve_left hcur))
      · simp only [setCursor, Function.update_of_ne hki]
        exact hc k hk
  | retired g =>
    have hrun : generationRetired D g = .ok D' := hrun
    unfold generationRetired at hrun
    by_cases hg : D.lastRetiredGeneration ≤ g
    · rw [ensure_pos hg, ok_bind] at hrun
      cases hrun
      refine ⟨V, ⟨h.tree, h.fair, h.sorted, ?_, h.mem, h.stack, h.nodes, h.count⟩, hc⟩
      exact ⟨h.chains.ring, h.chains.entry, h.chains.gen, h.chains.ne_zero⟩
    · rw [ensure_neg hg, error_bind] at hrun
      cases hrun

theorem Holds.sum_count_newest (h : Holds D V) {m : ℕ} (hm : m ≤ ldMaxGenerations) :
    ((List.range m).map fun i => (D.table i).count).sum =
      (V.tree.addrs.filter fun n => D.highestGeneration < D.generation n + m).length := by
  have hlt : ∀ i ∈ List.range m, i < ldMaxGenerations := fun i hi => (List.mem_range.1 hi).trans_le hm
  have hnod : ((List.range m).flatMap fun i => (V.chain i).nodes).Nodup := by
    rw [List.nodup_flatMap]
    refine ⟨fun i hi => (h.chains.ring i (hlt i hi)).nodup, ?_⟩
    refine (List.nodup_range (n := m)).pairwise_of_forall_ne ?_
    intro i hi j hj hij a hai haj
    exact hij (h.chains.index_eq (hlt i hi) (hlt j hj) hai haj)
  have hperm : ((List.range m).flatMap fun i => (V.chain i).nodes).Perm
      (V.tree.addrs.filter fun n => D.highestGeneration < D.generation n + m) := by
    rw [List.perm_ext_iff_of_nodup hnod ((List.nodup_append'.1 h.nodup).1.filter _)]
    intro a
    simp only [List.mem_flatMap, List.mem_filter, decide_eq_true_eq]
    constructor
    · rintro ⟨i, hi, ha⟩
      have := h.chains.gen i (hlt i hi) a ha
      exact ⟨h.mem_tree (hlt i hi) ha, by have := List.mem_range.1 hi; omega⟩
    · rintro ⟨ha, hg⟩
      obtain ⟨i, hi, hai⟩ := h.exists_index ha
      have := h.chains.gen i hi a hai
      exact ⟨i, List.mem_range.2 (by omega), hai⟩
  rw [← hperm.length_eq, List.length_flatMap]
  refine congrArg List.sum (List.map_congr_left fun i hi => ?_)
  rw [h.chains.entry i (hlt i hi)]
  rfl

theorem Holds.sum_count (h : Holds D V) :
    ((List.range ldMaxGenerations).map fun i => (D.table i).count).sum = V.tree.addrs.length := by
  rw [h.sum_count_newest le_rfl, List.filter_eq_self.2]
  intro n hn
  obtain ⟨i, hi, hni⟩ := h.exists_index hn
  have := h.chains.gen i hi n hni
  simp only [decide_eq_true_eq]
  omega

/-- The invariant, and that the cursors are in their chains, say that the chains partition the
directory. -/
theorem Holds.partitioned (h : Holds D V) (hc : CursorsOk V) : Partitioned D := by
  refine ⟨V.tree, fun i => (V.chain i).nodes, V.free, h.tree, ?_, h.stack, ?_, ?_, ?_, h.count, ?_, ?_, ?_⟩
  · intro i hi
    refine ⟨h.chains.ring i hi, ?_⟩
    have hhead : (D.table i).head = (V.chain i).nodes.headD 0 := by
      rw [h.chains.entry i hi]
      rfl
    rw [hhead]
    cases hn : (V.chain i).nodes with
    | nil => rfl
    | cons a xs =>
      have ha : a ≠ 0 := h.chains.ne_zero i hi a (by simp [hn])
      simp [ha]
  · intro n hn
    obtain ⟨i, hi, hni⟩ := h.exists_index hn
    exact ⟨i, hi, h.chains.gen i hi n hni, hni, fun k hk hnk => h.chains.index_eq hk hi hnk hni⟩
  · exact fun i hi n hn => h.mem_tree hi hn
  · intro i hi
    rw [h.chains.entry i hi]
    rfl
  · rw [h.sum_count, h.count]
  · exact fun n hn hf => (List.nodup_append'.1 h.nodup).2.2 hn hf
  · intro i hi
    have hcur : (D.table i).cursor = (V.chain i).cursor := by
      rw [h.chains.entry i hi]
      rfl
    rw [hcur]
    exact hc i hi

/-- In a run from startup in which no call takes the only node of a chain out of it while the cursor
is there, the chains partition the log directory in every state. -/
theorem partitioned_run (h0 : Initial D) (h : Reach KeepsCursor D D') : Partitioned D' := by
  have hinv : ∃ V, Holds D' V ∧ CursorsOk V := by
    induction h with
    | refl => exact ⟨_, h0.holds, fun _ _ => .inl rfl⟩
    | step _ hop hrun ih =>
      obtain ⟨V, hV, hc⟩ := ih
      exact hc.run hV hop hrun
  obtain ⟨V, hV, hc⟩ := hinv
  exact hV.partitioned hc

/-- Two objects are recorded, and one is removed during a scan. -/
theorem partitioned_run_remove :
    ∃ D', Reach KeepsCursor (startup 2) D' ∧ D'.logEntryCount = 1 ∧ Partitioned D' := by
  have h : Reach KeepsCursor (startup 2) _ := reach_of_runIf
    [.record ⟨7, 0, 0, 0, 0⟩ 1, .record ⟨8, 0, 0, 0, 0⟩ 1, .resetScan 1, .remove 7] rfl
  exact ⟨_, h, rfl, partitioned_run (initial_startup 2) h⟩

/-- The only object of a generation is removed during a scan: the cursor stays on the free node. -/
theorem cursor_stranded :
    ¬∀ D D', Initial D → Reach (fun _ _ => True) D D' → Partitioned D' := by
  intro hall
  obtain ⟨D', hreach, hcursor, hhead⟩ : ∃ D', Reach (fun _ _ => True) (startup 1) D' ∧
      (D'.table 0).cursor = 1 ∧ (D'.table 0).head = 0 :=
    ⟨_, reach_of_runIf [.record ⟨7, 0, 0, 0, 0⟩ 1, .resetScan 1, .remove 7] rfl, rfl, rfl⟩
  obtain ⟨t, chain, free, hp⟩ := hall _ _ (initial_startup 1) hreach
  have hcirc := (hp.circular 0 (by decide)).2
  have hcur := hp.cursor 0 (by decide)
  rw [hhead, if_pos rfl, List.head?_eq_none_iff] at hcirc
  rw [hcursor, hcirc] at hcur
  simp at hcur

end CapROS.LogDirectory
