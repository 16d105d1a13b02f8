import CapROS.LogDirectory.Partition

/-!
# Scans of a generation

A scan of a generation returns the nodes from the cursor to the end of the chain. Locations may be
recorded and entries removed during the scan. The part of the chain that is still to be returned
keeps the nodes that stay in the generation if no call takes a node out of the chain while the cursor
is at the head, none takes out the head, and no call records an object that is still to be returned
anew in the generation: such an object goes behind the cursor.

* `scanComplete_of_quiet`: an object that stays in the generation is returned exactly once.
-/

namespace CapROS.LogDirectory

open LinkedTree LinkedTree.Tree LinkedRing

/-- The nodes from `n` on, up to the end of the chain. -/
def walk (D : Directory) (head : ℕ) : ℕ → ℕ → List ℕ
  | 0, _ => []
  | fuel + 1, n => n :: if D.next n = head then [] else walk D head fuel (D.next n)

/-- The nodes that a scan of the chain at one place of the table has still to return. -/
def pending (D : Directory) (gti : ℕ) : List ℕ :=
  if (D.table gti).cursor = 0 then []
  else walk D (D.table gti).head D.fuel (D.table gti).cursor

/-- The primary location of the object is in the generation. -/
def Located (D : Directory) (oid generation : ℕ) : Prop :=
  entryNode D oid ≠ 0 ∧ D.generation (entryNode D oid) = generation

/-- The node that `tree_remove_node` takes out of the tree for `z`. -/
def splicedNode (D : Directory) (z : ℕ) : ℕ :=
  match nodeToSplice D.fuel D.tree z with
  | .ok y => y
  | .error _ => 0

/-- While a scan of the generation is going on, the call takes no node out of its chain when the
cursor is at the head, and it does not take the head out. It does not record an object that is still
to be returned anew in the generation. -/
def Quiet (generation : ℕ) (D : Directory) : Op → Prop
  | .record od w =>
      let gti := D.highestGeneration - generation
      let n := entryNode D od.oid
      (D.table gti).cursor ≠ 0 → n ≠ 0 → D.generation n = generation →
        (D.table gti).cursor ≠ (D.table gti).head ∧ n ≠ (D.table gti).head ∧
          (w = generation → n ∉ pending D gti)
  | .remove oid =>
      let gti := D.highestGeneration - generation
      let z := entryNode D oid
      (D.table gti).cursor ≠ 0 → z ≠ 0 →
        (D.generation z = generation ∨ D.generation (splicedNode D z) = generation →
          (D.table gti).cursor ≠ (D.table gti).head) ∧
        (D.generation z = generation → z ≠ (D.table gti).head)
  | .clear _ | .resetScan _ | .findNext _ | .retired _ => False

instance (generation : ℕ) (D : Directory) : (op : Op) → Decidable (Quiet generation D op)
  | .record _ _ => inferInstanceAs (Decidable (_ → _ → _ → _ ∧ _ ∧ _))
  | .remove _ => inferInstanceAs (Decidable (_ → _ → _ ∧ _))
  | .clear _ | .resetScan _ | .findNext _ | .retired _ => inferInstanceAs (Decidable False)

/-- `ld_recordLocation` or `ld_removeObjectEntry`. -/
def IsChange (_ : Directory) : Op → Prop
  | .record _ _ | .remove _ => True
  | .clear _ | .resetScan _ | .findNext _ | .retired _ => False

instance (D : Directory) : (op : Op) → Decidable (IsChange D op)
  | .record _ _ | .remove _ => inferInstanceAs (Decidable True)
  | .clear _ | .resetScan _ | .findNext _ | .retired _ => inferInstanceAs (Decidable False)

/-- A scan from the state after `ld_resetScan`, or a later one, until `ld_findNextObject` returns
null, with calls in between. The lists have what is returned, with the state in which it is, and all
the states. -/
inductive Scan (g : ℕ) (Q : Directory → Op → Prop) :
    Directory → List (Directory × ObjectDescriptor) → List Directory → Prop
  | done {D D' : Directory} (h : findNextObject D g = .ok (none, D')) : Scan g Q D [] [D]
  | next {D D' : Directory} {od : ObjectDescriptor} {returned : List (Directory × ObjectDescriptor)}
      {states : List Directory} (h : findNextObject D g = .ok (some od, D'))
      (rest : Scan g Q D' returned states) : Scan g Q D ((D, od) :: returned) (D :: states)
  | change {D D' : Directory} {op : Op} {returned : List (Directory × ObjectDescriptor)}
      {states : List Directory} (hop : Q D op) (h : op.run D = .ok D')
      (rest : Scan g Q D' returned states) : Scan g Q D returned (D :: states)

/-- The scan in which so many calls of `ld_findNextObject`, and calls that meet the condition, come
in this order before the last one. -/
def scanIf (g : ℕ) (Q : Directory → Op → Prop) [∀ D op, Decidable (Q D op)] :
    List (Option Op) → Directory → Option (List (Directory × ObjectDescriptor) × List Directory)
  | [], D =>
      match findNextObject D g with
      | .ok (none, _) => some ([], [D])
      | _ => none
  | none :: calls, D =>
      match findNextObject D g with
      | .ok (some od, D') => (scanIf g Q calls D').map fun r => ((D, od) :: r.1, D :: r.2)
      | _ => none
  | some op :: calls, D =>
      if Q D op then
        match op.run D with
        | .ok D' => (scanIf g Q calls D').map fun r => (r.1, D :: r.2)
        | .error _ => none
      else none

/-- Every object that stays in the generation is returned exactly once, and every object that is
returned is in the generation then. -/
structure ScanComplete (g : ℕ) (returned : List (Directory × ObjectDescriptor))
    (states : List Directory) : Prop where
  once : ∀ oid, (∀ D ∈ states, Located D oid g) → (returned.map fun r => r.2.oid).count oid = 1
  located : ∀ r ∈ returned, Located r.1 r.2.oid g ∧ r.1.od (entryNode r.1 r.2.oid) = r.2

variable {D D' : Directory} {V V' : View} {C : Chain} {chain : ℕ → Chain} {a c g i j k n x z : ℕ}
  {l r : List ℕ}

theorem scan_of_scanIf {Q : Directory → Op → Prop} [∀ D op, Decidable (Q D op)]
    {returned : List (Directory × ObjectDescriptor)} {states : List Directory}
    (calls : List (Option Op)) (h : scanIf g Q calls D = some (returned, states)) :
    Scan g Q D returned states := by
  induction calls generalizing D returned states with
  | nil =>
    unfold scanIf at h
    split at h
    · rename_i hf
      cases h
      exact .done hf
    · cases h
  | cons call calls ih =>
    cases call with
    | none =>
      unfold scanIf at h
      split at h
      · rename_i hf
        obtain ⟨⟨r, s⟩, hr, he⟩ := Option.map_eq_some_iff.1 h
        cases he
        exact .next hf (ih hr)
      · cases h
    | some op =>
      unfold scanIf at h
      split_ifs at h with hop
      split at h
      · rename_i hrun
        obtain ⟨⟨r, s⟩, hr, he⟩ := Option.map_eq_some_iff.1 h
        cases he
        exact .change hop hrun (ih hr)
      · cases h

/-! ## What is still to be returned -/

namespace Chain

/-- The nodes from the cursor to the end of the chain. -/
def pending (C : Chain) : List ℕ :=
  if C.cursor = 0 then [] else C.nodes.dropWhile (· ≠ C.cursor)

end Chain

theorem dropWhile_split (hc : c ∉ l) : (l ++ c :: r).dropWhile (· ≠ c) = c :: r := by
  rw [List.dropWhile_append_of_pos]
  · simp
  · intro b hb
    have : b ≠ c := fun he => hc (he ▸ hb)
    simpa using this

theorem pending_null (h : C.cursor = 0) : C.pending = [] := if_pos h

theorem pending_split (h0 : C.cursor ≠ 0) (hn : C.nodes = l ++ C.cursor :: r) (hl : C.cursor ∉ l) :
    C.pending = C.cursor :: r := by
  rw [Chain.pending, if_neg h0]
  conv_lhs => rw [hn]
  exact dropWhile_split hl

theorem CursorOk.split (h : CursorOk C) (h0 : C.cursor ≠ 0) (hnod : C.nodes.Nodup) :
    ∃ l r, C.nodes = l ++ C.cursor :: r ∧ C.cursor ∉ l ∧ C.cursor ∉ r ∧ C.pending = C.cursor :: r := by
  obtain ⟨l, r, hlr⟩ := List.append_of_mem (h.resolve_left h0)
  have hnod' := hnod
  rw [hlr, List.nodup_middle, List.nodup_cons, List.mem_append, not_or] at hnod'
  exact ⟨l, r, hlr, hnod'.1.1, hnod'.1.2, pending_split h0 hlr hnod'.1.1⟩

/-- The scan is over, or the cursor has left the head. -/
def Away (C : Chain) : Prop := C.cursor ≠ 0 → C.cursor ≠ C.head

/-- From `C` to `C'` the scan keeps the nodes other than `n`. -/
structure Steady (C C' : Chain) (n : ℕ) : Prop where
  cursor : CursorOk C'
  away : Away C → Away C'
  pending : ∀ a, a ≠ n → (a ∈ C'.pending ↔ a ∈ C.pending)

theorem Steady.refl (h : CursorOk C) (n : ℕ) : Steady C C n := ⟨h, id, fun _ _ => .rfl⟩

theorem Steady.trans {C₁ C₂ : Chain} (h₁ : Steady C C₁ n) (h₂ : Steady C₁ C₂ n) : Steady C C₂ n :=
  ⟨h₂.cursor, fun h => h₂.away (h₁.away h), fun a ha => (h₂.pending a ha).trans (h₁.pending a ha)⟩

theorem steady_link (h : CursorOk C) (hnod : C.nodes.Nodup) (hn : n ∉ C.nodes) : Steady C (C.link n) n := by
  refine ⟨h.link n, ?_, ?_⟩
  · intro ha h0
    have h0 : C.cursor ≠ 0 := h0
    have hne : C.cursor ≠ C.head := ha h0
    have hmem := h.resolve_left h0
    simp only [Chain.head, Chain.link] at hne ⊢
    cases hc : C.nodes with
    | nil => simp [hc] at hmem
    | cons b xs => simpa [hc, LinkedRing.link] using hne
  · intro a ha
    by_cases h0 : C.cursor = 0
    · rw [pending_null h0, pending_null (C := C.link n) h0]
    · obtain ⟨l, r, hlr, hl, -, hp⟩ := h.split h0 hnod
      have hcn : C.cursor ≠ n := fun he => hn (by rw [← he, hlr]; simp)
      rw [hp]
      cases l with
      | nil =>
        -- the cursor is at the head: the new node comes after it
        have hnodes : (C.link n).nodes = [] ++ C.cursor :: n :: r := by
          simp [Chain.link, hlr, LinkedRing.link]
        rw [pending_split (C := C.link n) h0 hnodes (by simp)]
        simp only [Chain.link, List.mem_cons]
        tauto
      | cons b l =>
        have hnodes : (C.link n).nodes = (b :: n :: l) ++ C.cursor :: r := by
          simp [Chain.link, hlr, LinkedRing.link]
        have hl' : C.cursor ∉ b :: n :: l := by
          simp only [List.mem_cons, not_or] at hl ⊢
          exact ⟨hl.1, hcn, hl.2⟩
        rw [pending_split (C := C.link n) h0 hnodes hl']
        rfl

theorem steady_unlink (h : CursorOk C) (hnod : C.nodes.Nodup) (hz : ∀ a ∈ C.nodes, a ≠ 0)
    (hn : n ∈ C.nodes) (haway : Away C) (hhead : C.cursor ≠ 0 → n ≠ C.head) :
    Steady C (C.unlink n) n := by
  have hn0 := hz n hn
  by_cases h0 : C.cursor = 0
  · have hc' : (C.unlink n).cursor = 0 := by simp [Chain.unlink, h0, hn0.symm]
    exact ⟨.inl hc', fun _ hne => absurd hc' hne, fun a _ => by rw [pending_null h0, pending_null hc']⟩
  obtain ⟨l, r, hlr, hl, hr, hp⟩ := h.split h0 hnod
  have hne := haway h0
  have hnh := hhead h0
  -- the head is before the cursor
  obtain ⟨b, l, rfl⟩ : ∃ b m, l = b :: m := by
    refine List.exists_cons_of_ne_nil ?_
    rintro rfl
    simp [Chain.head, hlr] at hne
  have hhd : C.head = b := by simp [Chain.head, hlr]
  rw [hhd] at hne hnh
  have hun : (C.unlink n).nodes = b :: (l ++ C.cursor :: r).erase n := by
    simp only [Chain.unlink]
    rw [hlr, List.cons_append, LinkedRing.unlink, if_neg hnh.symm]
  have hcur : (C.unlink n).cursor =
      (let c := if C.cursor = n then after n C.nodes else C.cursor
       if c = b then 0 else c) := by
    simp only [Chain.unlink] at hun ⊢
    rw [hun]
    rfl
  have hhd' : (C.unlink n).head = b := by rw [Chain.head, hun]; rfl
  have hnod' := hnod
  rw [hlr] at hnod'
  simp only [List.mem_cons, not_or] at hl
  by_cases hcn : C.cursor = n
  · -- the cursor moves on
    have herase : (l ++ C.cursor :: r).erase n = l ++ r := by
      rw [← hcn, List.erase_append_right _ hl.2, List.erase_cons_head]
    have hafter : after n C.nodes = (r ++ b :: l).headD n := by
      rw [hlr, ← hcn, after_split (by simpa using hl)]
    simp only [hcn, if_true, hafter] at hcur
    cases r with
    | nil =>
      have hc' : (C.unlink n).cursor = 0 := by simpa using hcur
      refine ⟨.inl hc', fun _ hc => absurd hc' hc, fun a ha => ?_⟩
      rw [pending_null hc', hp, hcn]
      simp [ha]
    | cons e r =>
      have heb : e ≠ b := by
        rintro rfl
        simp at hnod'
      have hc' : (C.unlink n).cursor = e := by simpa [heb] using hcur
      have he0 : e ≠ 0 := hz e (by simp [hlr])
      have hnodes : (C.unlink n).nodes = (b :: l) ++ (C.unlink n).cursor :: r := by
        rw [hun, herase, hc']
        rfl
      have hel : (C.unlink n).cursor ∉ b :: l := by
        rw [hc']
        intro hm
        exact (List.nodup_append'.1 hnod').2.2 hm (by simp)
      refine ⟨.inr ?_, fun _ _ => by rw [hc', hhd']; exact heb, fun a ha => ?_⟩
      · rw [hnodes]
        simp
      · rw [pending_split (hc' ▸ he0) hnodes hel, hp, hc', hcn]
        simp [ha]
  · -- the cursor stays
    have hc' : (C.unlink n).cursor = C.cursor := by simpa [hcn, hne] using hcur
    obtain ⟨l', r', herase, hl', hr'⟩ : ∃ l' r', (l ++ C.cursor :: r).erase n = l' ++ C.cursor :: r' ∧
        C.cursor ∉ l' ∧ ∀ a, a ≠ n → (a ∈ r' ↔ a ∈ r) := by
      by_cases hnl : n ∈ l
      · refine ⟨l.erase n, r, List.erase_append_left _ hnl, ?_, fun _ _ => .rfl⟩
        exact fun hm => hl.2 (List.mem_of_mem_erase hm)
      · refine ⟨l, r.erase n, ?_, hl.2, fun a ha => List.mem_erase_of_ne ha⟩
        rw [List.erase_append_right _ hnl, List.erase_cons_tail (by simpa using hcn)]
    have hnodes : (C.unlink n).nodes = (b :: l') ++ (C.unlink n).cursor :: r' := by
      rw [hun, herase, hc']
      rfl
    have hcl : (C.unlink n).cursor ∉ b :: l' := by
      rw [hc', List.mem_cons, not_or]
      exact ⟨hne, hl'⟩
    refine ⟨.inr ?_, fun _ _ => by rw [hc', hhd']; exact hne, fun a ha => ?_⟩
    · rw [hnodes]
      simp
    · rw [pending_split (hc' ▸ h0) hnodes hcl, hp, hc', List.mem_cons, List.mem_cons, hr' a ha]

theorem steady_link_unlink (h : CursorOk C) (hnod : C.nodes.Nodup) (hz : ∀ a ∈ C.nodes, a ≠ 0)
    (hn : n ∉ C.nodes) (hn0 : n ≠ 0) (haway : Away C) : Steady C ((C.link n).unlink n) n := by
  have hlink := steady_link h hnod hn
  refine hlink.trans (steady_unlink hlink.cursor (nodup_link hnod hn) ?_ (mem_link.2 (.inl rfl))
    (hlink.away haway) ?_)
  · intro a ha
    rcases mem_link.1 ha with rfl | ha
    · exact hn0
    · exact hz a ha
  · intro h0
    have hmem : C.cursor ∈ C.nodes := h.resolve_left h0
    simp only [Chain.head, Chain.link]
    cases hc : C.nodes with
    | nil => simp [hc] at hmem
    | cons b xs =>
      rw [hc] at hn
      simp only [LinkedRing.link, List.headD_cons]
      exact fun he => hn (by simp [he])

theorem pending_advanced (h : CursorOk C) (hr : Ring D.next D.prev C.nodes)
    (hz : ∀ a ∈ C.nodes, a ≠ 0) (h0 : C.cursor ≠ 0) :
    C.pending = C.cursor :: ({ C with cursor := advanced D C } : Chain).pending ∧
      CursorOk { C with cursor := advanced D C } := by
  obtain ⟨l, r, hlr, hl, hcr, hp⟩ := h.split h0 hr.nodup
  have hnext : D.next C.cursor = (r ++ l).headD C.cursor := by
    rw [← after_eq hr (h.resolve_left h0)]
    conv_lhs => rw [hlr]
    exact after_split hl
  have hnod := hr.nodup
  rw [hlr] at hnod
  cases r with
  | nil =>
    have hhead : D.next C.cursor = C.head := by
      rw [hnext, Chain.head, hlr]
      cases l <;> rfl
    have hadv : advanced D C = 0 := by rw [advanced, if_pos hhead]
    refine ⟨?_, .inl hadv⟩
    rw [hp, pending_null hadv]
  | cons e r =>
    have hnext : D.next C.cursor = e := hnext
    have hhead : e ≠ C.head := by
      rw [Chain.head, hlr]
      cases l with
      | nil =>
        simp only [List.nil_append, List.headD_cons]
        rintro rfl
        simp at hnod
      | cons b l =>
        rintro rfl
        simp at hnod
    have hadv : advanced D C = e := by rw [advanced, hnext, if_neg hhead]
    have he0 : e ≠ 0 := hz e (by simp [hlr])
    have hel : e ∉ l ++ [C.cursor] := by
      rw [List.append_cons] at hnod
      intro hm
      exact (List.nodup_append'.1 hnod).2.2 hm (by simp)
    have hnodes : C.nodes = (l ++ [C.cursor]) ++ e :: r := by rw [hlr]; simp
    refine ⟨?_, .inr ?_⟩
    · rw [hp, hadv, pending_split (C := { C with cursor := e }) he0 hnodes hel]
    · show advanced D C ∈ C.nodes
      rw [hadv, hlr]
      simp

theorem walk_eq {r : List ℕ} (fuel : ℕ) (hr : Ring D.next D.prev (l ++ n :: r)) (hfuel : r.length < fuel) :
    walk D ((l ++ n :: r).headD 0) fuel n = n :: r := by
  induction fuel generalizing l n r with
  | zero => omega
  | succ fuel ih =>
    rw [walk]
    cases r with
    | nil =>
      have hnext : D.next n = (l ++ [n]).headD 0 := by
        cases l with
        | nil => exact hr.next_single.1
        | cons b l => exact (hr.next_last _).1
      rw [if_pos hnext]
    | cons e r =>
      have hnext : D.next n = e := (hr.next_mid _).1
      have hnod := hr.nodup
      have hne : e ≠ (l ++ n :: e :: r).headD 0 := by
        cases l with
        | nil | cons b l =>
          rintro rfl
          simp at hnod
      have ih := ih (l := l ++ [n]) (n := e) (r := r) (by simpa using hr) (by simpa using hfuel)
      rw [List.append_assoc] at ih
      rw [hnext, if_neg hne]
      exact congrArg (n :: ·) ih

theorem Holds.pending (h : Holds D V) (hi : i < ldMaxGenerations) (hc : CursorOk (V.chain i)) :
    pending D i = (V.chain i).pending := by
  have hentry := h.chains.entry i hi
  have hcur : (D.table i).cursor = (V.chain i).cursor := by
    rw [hentry]
    rfl
  have hhead : (D.table i).head = (V.chain i).head := by
    rw [hentry]
    rfl
  rw [LogDirectory.pending, hcur, hhead]
  by_cases h0 : (V.chain i).cursor = 0
  · rw [if_pos h0, pending_null h0]
  · have hr := h.chains.ring i hi
    obtain ⟨l, r, hlr, -, -, hp⟩ := hc.split h0 hr.nodup
    have hlen : r.length < D.fuel := by
      have hsub := (List.subperm_of_subset hr.nodup fun a ha => h.mem_tree hi ha).length_le
      have := h.fuel
      rw [hlr, List.length_append, List.length_cons] at hsub
      omega
    rw [hlr] at hr
    rw [if_neg h0, hp, Chain.head]
    conv_lhs => rw [hlr]
    exact walk_eq D.fuel hr hlen

/-! ## The entry of an object that stays -/

variable {oid w i' : ℕ}

theorem Holds.located (h : Holds D V) (hi : i < ldMaxGenerations) (hg : g + i = D.highestGeneration)
    : Located D oid g ↔ ∃ n ∈ (V.chain i).nodes, (D.od n).oid = oid := by
  constructor
  · rintro ⟨h0, hgen⟩
    obtain ⟨n, hn, ⟨hm, ho⟩ | ⟨rfl, -⟩⟩ := h.find oid
    · rw [h.entryNode_eq hm ho] at hgen
      exact ⟨n, (h.mem_chain hi).2 ⟨hm, by omega⟩, ho⟩
    · rw [entryNode, hn] at h0
      exact absurd rfl h0
  · rintro ⟨n, hn, ho⟩
    have hm := h.mem_tree hi hn
    have hgen := h.chains.gen i hi n hn
    rw [Located, h.entryNode_eq hm ho]
    exact ⟨h.tree.ne_zero hm, by omega⟩

theorem opened_place (h : Holds D V) (hi : i < ldMaxGenerations) (hc : CursorOk (V.chain i))
    (hg : g + i = D.highestGeneration) (hi' : i' < ldMaxGenerations)
    (hg' : g + i' = max D.highestGeneration w) : opened D V.chain w i' = V.chain i := by
  unfold opened
  split_ifs with hlt h0
  · -- nothing has been recorded
    have hnil : (V.chain i).nodes = [] := by
      refine List.eq_nil_iff_forall_not_mem.2 fun a ha => ?_
      have := h.mem_tree hi ha
      rw [(h.tree_nil h0).1] at this
      cases this
    have hcur : (V.chain i).cursor = 0 := by
      refine hc.resolve_right fun hm => ?_
      rw [hnil] at hm
      cases hm
    exact Chain.ext hnil.symm hcur.symm
  · have hms : min (w - D.highestGeneration) ldMaxGenerations = w - D.highestGeneration := by omega
    rw [shiftChain, hms, if_neg (by omega)]
    exact congrArg V.chain (by omega)
  · exact congrArg V.chain (by omega)

/-! ## The calls during a scan -/

theorem not_mem_pending_link (h : CursorOk C) (haway : Away C) (hnod : C.nodes.Nodup) (hn : n ∉ C.nodes) :
    n ∉ (C.link n).pending := by
  by_cases h0 : C.cursor = 0
  · rw [pending_null (C := C.link n) h0]
    exact List.not_mem_nil
  · obtain ⟨l, r, hlr, hl, hr, hp⟩ := h.split h0 hnod
    have hne := haway h0
    rw [hlr] at hn
    cases l with
    | nil => simp [Chain.head, hlr] at hne
    | cons b l =>
      have hnodes : (C.link n).nodes = (b :: n :: l) ++ C.cursor :: r := by
        simp [Chain.link, hlr, LinkedRing.link]
      have hl' : C.cursor ∉ b :: n :: l := by
        simp only [List.mem_cons, List.mem_append, not_or] at hl hn ⊢
        exact ⟨hl.1, Ne.symm hn.2.1, hl.2⟩
      rw [pending_split (C := C.link n) h0 hnodes hl']
      simp only [List.mem_cons, List.mem_append, not_or] at hn
      show n ∉ C.cursor :: r
      rw [List.mem_cons, not_or]
      exact hn.2

/-- The scan keeps the nodes that are in the chain before and after. -/
structure ScanKept (C C' : Chain) : Prop where
  cursor : CursorOk C'
  pending : ∀ a ∈ C.nodes, a ∈ C'.nodes → (a ∈ C'.pending ↔ a ∈ C.pending)

theorem Steady.kept {C' : Chain} (h : Steady C C' n)
    (hn : n ∈ C.nodes → n ∈ C'.nodes → (n ∈ C'.pending ↔ n ∈ C.pending)) : ScanKept C C' := by
  refine ⟨h.cursor, fun a ha ha' => ?_⟩
  by_cases han : a = n
  · subst han
    exact hn ha ha'
  · exact h.pending a han

variable {od : ObjectDescriptor}

theorem Recorded.kept (h : Holds D V)
    (hrec : Recorded D V od w x j D' V') (hi : i < ldMaxGenerations)
    (hg : g + i = D.highestGeneration) (hi' : i' < ldMaxGenerations)
    (hg' : g + i' = max D.highestGeneration w) (hc : CursorOk (V.chain i))
    (hq : Quiet g D (.record od w)) : ScanKept (V.chain i) (V'.chain i') := by
  have hnod := (h.chains.ring i hi).nodup
  have hplace := opened_place h hi hc hg hi' hg'
  obtain ⟨-, hgj⟩ := hrec.place
  have hout : x ∉ (V.chain i).nodes → ScanKept (V.chain i) ((V.chain i).link x) := fun hx =>
    (steady_link hc hnod hx).kept fun hm _ => absurd hm hx
  rcases hrec.chain with ⟨i₀, hi₀, hx, hoid, -, hchain⟩ | ⟨hx, -, -, hchain⟩
  · have hgx := opened_gen h hi₀ hx
    rw [hchain]
    by_cases hii : i₀ = i'
    · -- the node is in the chain that is scanned
      subst hii
      rw [hplace] at hx
      have hxt := h.mem_tree hi hx
      have hx0 := h.tree.ne_zero hxt
      have hcur : (D.table (D.highestGeneration - g)).cursor = (V.chain i).cursor := by
        rw [show D.highestGeneration - g = i by omega, h.chains.entry i hi]
        rfl
      have hhead : (D.table (D.highestGeneration - g)).head = (V.chain i).head := by
        rw [show D.highestGeneration - g = i by omega, h.chains.entry i hi]
        rfl
      have hpend : pending D (D.highestGeneration - g) = (V.chain i).pending := by
        rw [show D.highestGeneration - g = i by omega, h.pending hi hc]
      have hq' : (V.chain i).cursor ≠ 0 → (V.chain i).cursor ≠ (V.chain i).head ∧
          x ≠ (V.chain i).head ∧ (w = g → x ∉ (V.chain i).pending) := by
        intro h0
        have := hq
        simp only [Quiet, hcur, hhead, hpend, h.entryNode_eq hxt hoid] at this
        exact this h0 hx0 (by omega)
      have haway : Away (V.chain i) := fun h0 => (hq' h0).1
      have hun := steady_unlink hc hnod (h.chains.ne_zero i hi) hx haway fun h0 => (hq' h0).2.1
      have hnot : x ∉ ((V.chain i).unlink x).nodes := not_mem_unlink hnod
      by_cases hj : j = i₀
      · -- it goes back into it
        subst hj
        rw [putIn_self, takeOut_self, hplace]
        refine (hun.trans (steady_link hun.cursor (nodup_unlink hnod x) hnot)).kept fun _ _ => ?_
        have h₁ := not_mem_pending_link hun.cursor (hun.away haway) (nodup_unlink hnod x) hnot
        have h₂ : x ∉ (V.chain i).pending := by
          by_cases h0 : (V.chain i).cursor = 0
          · rw [pending_null h0]
            exact List.not_mem_nil
          · exact (hq' h0).2.2 (by omega)
        exact ⟨fun hm => absurd hm h₁, fun hm => absurd hm h₂⟩
      · rw [putIn_of_ne (Ne.symm hj), takeOut_self, hplace]
        exact hun.kept fun _ hm => absurd hm hnot
    · have hx' : x ∉ (V.chain i).nodes := by
        intro hm
        have := h.chains.gen i hi x hm
        omega
      by_cases hj : j = i'
      · subst hj
        rw [putIn_self, takeOut_of_ne (Ne.symm hii), hplace]
        exact hout hx'
      · rw [putIn_of_ne (Ne.symm hj), takeOut_of_ne (Ne.symm hii), hplace]
        exact (Steady.refl hc x).kept fun _ _ => .rfl
  · have hx' : x ∉ (V.chain i).nodes := fun hm => hx (h.mem_tree hi hm)
    rw [hchain]
    by_cases hj : j = i'
    · subst hj
      rw [putIn_self, hplace]
      exact hout hx'
    · rw [putIn_of_ne (Ne.symm hj), hplace]
      exact (Steady.refl hc x).kept fun _ _ => .rfl

theorem Removal.kept (h : Holds D V) (hrem : Removal D V z D' V') (hz : z ∈ V.tree.addrs)
    (hoid : (D.od z).oid = oid) (hi : i < ldMaxGenerations) (hg : g + i = D.highestGeneration)
    (hc : CursorOk (V.chain i)) (hq : Quiet g D (.remove oid)) :
    ScanKept (V.chain i) (V'.chain i) := by
  obtain ⟨k, hk, j, hj, y, hsplice, hzk, hyj, hchain⟩ := hrem.chain
  have hnod := (h.chains.ring i hi).nodup
  have hz0 := h.tree.ne_zero hz
  have hzero := h.chains.ne_zero i hi
  have hidx : D.highestGeneration - g = i := by omega
  have hcur : (D.table i).cursor = (V.chain i).cursor := by
    rw [h.chains.entry i hi]
    rfl
  have hhead : (D.table i).head = (V.chain i).head := by
    rw [h.chains.entry i hi]
    rfl
  have hgz := h.chains.gen k hk z hzk
  have hgy := h.chains.gen j hj y hyj
  have hy : splicedNode D z = y := by rw [splicedNode, hsplice]
  have hq' : (V.chain i).cursor ≠ 0 →
      (k = i ∨ j = i → (V.chain i).cursor ≠ (V.chain i).head) ∧ (k = i → z ≠ (V.chain i).head) := by
    intro h0
    have := hq
    simp only [Quiet, hidx, hcur, hhead, h.entryNode_eq hz hoid, hy] at this
    obtain ⟨h₁, h₂⟩ := this h0 hz0
    exact ⟨fun hki => h₁ (hki.imp (fun _ => by omega) fun _ => by omega), fun _ => h₂ (by omega)⟩
  have haway : k = i ∨ j = i → Away (V.chain i) := fun hki h0 => (hq' h0).1 hki
  suffices hs : Steady (V.chain i) (V'.chain i) z ∧ (k = i → z ∉ (V'.chain i).nodes) by
    refine hs.1.kept fun hm hm' => absurd hm' (hs.2 ?_)
    exact h.chains.index_eq hk hi hzk hm
  rw [hchain, exchanged]
  by_cases hki : k = i
  · subst hki
    have hun := steady_unlink hc hnod hzero hzk (haway (.inl rfl)) fun h0 => (hq' h0).2 rfl
    have hnod₁ := nodup_unlink hnod z
    have hout₁ : z ∉ ((V.chain k).unlink z).nodes := not_mem_unlink hnod
    have hzero₁ : ∀ a ∈ ((V.chain k).unlink z).nodes, a ≠ 0 :=
      fun a ha => hzero a ((mem_unlink hnod).1 ha).2
    have haway₁ := hun.away (haway (.inl rfl))
    rw [takeOut_self]
    split_ifs with hyz
    · exact ⟨hun, fun _ => hout₁⟩
    · rw [putIn_self]
      -- the node is put in for a while, once or twice
      have hlu := hun.trans (steady_link_unlink hun.cursor hnod₁ hzero₁ hout₁ (h.tree.ne_zero hz) haway₁)
      have hnod₂ := nodup_link hnod₁ hout₁
      by_cases hkj : k = j
      · subst hkj
        rw [takeOut_self, putIn_self, takeOut_self]
        have hout₂ : z ∉ ((((V.chain k).unlink z).link z).unlink z).nodes := not_mem_unlink hnod₂
        have hnod₃ := nodup_unlink hnod₂ z
        have hzero₃ : ∀ a ∈ ((((V.chain k).unlink z).link z).unlink z).nodes, a ≠ 0 := by
          intro a ha
          obtain ⟨hne, ha⟩ := (mem_unlink hnod₂).1 ha
          exact hzero₁ a ((mem_link.1 ha).resolve_left hne)
        exact ⟨hlu.trans (steady_link_unlink hlu.cursor hnod₃ hzero₃ hout₂ hz0
          (hlu.away (haway (.inl rfl)))), fun _ => not_mem_unlink (nodup_link hnod₃ hout₂)⟩
      · rw [takeOut_of_ne hkj, putIn_of_ne hkj, takeOut_self]
        exact ⟨hlu, fun _ => not_mem_unlink hnod₂⟩
  · refine ⟨?_, fun he => absurd he hki⟩
    have hki' : i ≠ k := Ne.symm hki
    rw [takeOut_of_ne hki']
    split_ifs with hyz
    · exact .refl hc z
    · rw [putIn_of_ne hki']
      by_cases hji : j = i
      · subst hji
        have hzj : z ∉ (V.chain j).nodes := fun hm => hki (h.chains.index_eq hk hi hzk hm)
        rw [takeOut_self, putIn_self, takeOut_of_ne hki']
        exact steady_link_unlink hc hnod hzero hzj hz0 (haway (.inr rfl))
      · rw [takeOut_of_ne (Ne.symm hji), putIn_of_ne (Ne.symm hji), takeOut_of_ne hki']
        exact .refl hc z

/-- The entry of an object that stays in the generation stays in its node. -/
def EntryKept (D D' : Directory) (C C' : Chain) (g : ℕ) : Prop :=
  ∀ n ∈ C.nodes, Located D' (D.od n).oid g → n ∈ C'.nodes ∧ (D'.od n).oid = (D.od n).oid

theorem Recorded.entryKept (h : Holds D V) (h' : Holds D' V')
    (hrec : Recorded D V od w x j D' V') (hi : i < ldMaxGenerations) (hi' : i' < ldMaxGenerations)
    (hg' : g + i' = max D.highestGeneration w) : EntryKept D D' (V.chain i) (V'.chain i') g := by
  intro n hn hloc
  have hnt := h.mem_tree hi hn
  have hod : D'.od = Function.update D.od x od := by rw [hrec.rest]
  have hhigh : D'.highestGeneration = max D.highestGeneration w := by rw [hrec.rest]
  have htree : n ∈ V'.tree.addrs := by
    rcases hrec.chain with ⟨-, -, -, -, ht, -⟩ | ⟨-, -, hp, -⟩
    · rwa [ht]
    · exact hp.mem_iff.2 (.tail _ hnt)
  have hoid : (D'.od n).oid = (D.od n).oid := by
    rw [hod]
    by_cases hnx : n = x
    · subst hnx
      rw [Function.update_self]
      rcases hrec.chain with ⟨-, -, -, ho, -⟩ | ⟨hno, -⟩
      · exact ho.symm
      · exact absurd hnt hno
    · rw [Function.update_of_ne hnx]
  refine ⟨?_, hoid⟩
  have hgen := hloc.2
  rw [h'.entryNode_eq htree hoid] at hgen
  exact (h'.mem_chain hi').2 ⟨htree, by omega⟩

theorem Removal.entryKept (h : Holds D V) (h' : Holds D' V') (hrem : Removal D V z D' V')
    (hz : z ∈ V.tree.addrs) (hi : i < ldMaxGenerations) :
    EntryKept D D' (V.chain i) (V'.chain i) g := by
  intro n hn hloc
  have hod : D'.od = D.od := by rw [hrem.rest]
  have hnt := h.mem_tree hi hn
  refine ⟨(hrem.mem_chain h h' hi).2 ⟨?_, hn⟩, by rw [hod]⟩
  -- the entry of the node that is removed is gone
  rintro rfl
  obtain ⟨m, hm, ⟨hmt, ho⟩ | ⟨rfl, -⟩⟩ := h'.find (D.od n).oid
  · rw [hod] at ho
    rw [hrem.addrs, (List.nodup_append'.1 h.nodup).1.mem_erase_iff] at hmt
    exact hmt.1 (h.oid_inj hmt.2 hnt ho)
  · have h0 := hloc.1
    rw [entryNode, hm] at h0
    exact h0 rfl

variable {op : Op}

theorem quiet_step (h : Holds D V) (hi : i < ldMaxGenerations)
    (hg : g + i = D.highestGeneration) (hc : CursorOk (V.chain i)) (hop : Quiet g D op)
    (hrun : op.run D = .ok D') (hnew : D'.highestGeneration < g + ldMaxGenerations) :
    ∃ V' i', Holds D' V' ∧ i' < ldMaxGenerations ∧ g + i' = D'.highestGeneration ∧
      ScanKept (V.chain i) (V'.chain i') ∧ EntryKept D D' (V.chain i) (V'.chain i') g := by
  cases op with
  | record od w =>
    obtain ⟨V₁, x, j, hV₁, hrec⟩ := recordLocation_ok h hrun
    have hhigh : D'.highestGeneration = max D.highestGeneration w := by rw [hrec.rest]
    obtain ⟨i', hi', hg'⟩ : ∃ i' < ldMaxGenerations, g + i' = max D.highestGeneration w :=
      ⟨D'.highestGeneration - g, by omega, by omega⟩
    exact ⟨V₁, i', hV₁, hi', by rw [hhigh, hg'], hrec.kept h hi hg hi' hg' hc hop,
      hrec.entryKept h hV₁ hi hi' hg'⟩
  | remove oid =>
    obtain ⟨rfl, -⟩ | ⟨z, V₁, hz, hoid, h₁, hrem⟩ := removeObjectEntry_ok h hrun
    · refine ⟨V, i, h, hi, hg, (Steady.refl hc 0).kept fun _ _ => .rfl, ?_⟩
      exact fun n hn _ => ⟨hn, rfl⟩
    · have hhigh : D'.highestGeneration = D.highestGeneration := by rw [hrem.rest]
      exact ⟨V₁, i, h₁, hi, by rw [hhigh, hg], hrem.kept h hz hoid hi hg hc hop,
        hrem.entryKept h h₁ hz hi⟩
  | clear _ | resetScan _ | findNext _ | retired _ => exact hop.elim

theorem quiet_highest (h : Holds D V) (hop : Quiet g D op) (hrun : op.run D = .ok D') :
    D.highestGeneration ≤ D'.highestGeneration := by
  cases op with
  | record od w =>
    obtain ⟨V₁, x, j, -, hrec⟩ := recordLocation_ok h hrun
    rw [hrec.rest]
    exact le_max_left _ _
  | remove oid =>
    obtain ⟨rfl, -⟩ | ⟨z, V₁, -, -, -, hrem⟩ := removeObjectEntry_ok h hrun
    · exact le_rfl
    · rw [hrem.rest]
  | clear _ | resetScan _ | findNext _ | retired _ => exact hop.elim

/-! ## Whole scans -/

variable {returned : List (Directory × ObjectDescriptor)} {states : List Directory}

theorem Scan.mem (h : Scan g (Quiet g) D returned states) : D ∈ states := by
  cases h <;> exact List.mem_cons_self

theorem Scan.highest (hs : Scan g (Quiet g) D returned states) (h : Holds D V) :
    D.highestGeneration < g + ldMaxGenerations := by
  induction hs generalizing V with
  | done hf | next hf _ _ =>
    obtain ⟨i, hi, hg, -⟩ := findNextObject_spec h hf
    omega
  | change hop hrun _ ih =>
    obtain ⟨V', h'⟩ := h.run hrun
    exact (quiet_highest h hop hrun).trans_lt (ih h')

/-- From any state of the scan on, an object that stays is returned once if it is still to be
returned, and otherwise not at all. -/
theorem Scan.count (hs : Scan g (Quiet g) D returned states) (h : Holds D V)
    (hi : i < ldMaxGenerations) (hg : g + i = D.highestGeneration) (hc : CursorOk (V.chain i)) :
    ∀ n ∈ (V.chain i).nodes, (∀ D₁ ∈ states, Located D₁ (D.od n).oid g) →
      (returned.map fun r => r.2.oid).count (D.od n).oid =
        if n ∈ (V.chain i).pending then 1 else 0 := by
  induction hs generalizing V i with
  | done hf =>
    intro n _ _
    obtain ⟨k, hk, hgk, ⟨h0, -⟩ | ⟨-, hr, -⟩⟩ := findNextObject_spec h hf
    · obtain rfl : k = i := by omega
      simp [pending_null h0]
    · cases hr
  | @next D D' od returned states hf rest ih =>
    intro n hn hstay
    obtain ⟨k, hk, hgk, ⟨-, hr, -⟩ | ⟨h0, hr, h', hD'⟩⟩ := findNextObject_spec h hf
    · cases hr
    obtain rfl : k = i := by omega
    obtain rfl : od = D.od (V.chain k).cursor := by simpa using hr
    have hod : D'.od = D.od := by rw [hD']
    have hhigh : D'.highestGeneration = D.highestGeneration := by rw [hD']
    obtain ⟨hp, hc'⟩ := pending_advanced hc (h.chains.ring k hk) (h.chains.ne_zero k hk) h0
    have hchain : setCursor V.chain k (advanced D (V.chain k)) k =
        { V.chain k with cursor := advanced D (V.chain k) } := Function.update_self ..
    have ih := ih h' hk (by rw [hhigh, hg]) (by simp only [hchain]; exact hc') n
      (by simp only [hchain]; exact hn)
      (by rw [hod]; exact fun D₁ h₁ => hstay D₁ (.tail _ h₁))
    simp only [hchain, hod] at ih
    have hnodup : ((V.chain k).pending).Nodup := by
      obtain ⟨l, r, hlr, -, -, hp'⟩ := hc.split h0 (h.chains.ring k hk).nodup
      rw [hp']
      have := (h.chains.ring k hk).nodup
      rw [hlr] at this
      exact (List.nodup_append'.1 this).2.1
    rw [hp, List.nodup_cons] at hnodup
    rw [hp, List.map_cons, List.count_cons, ih]
    by_cases hnc : n = (V.chain k).cursor
    · subst hnc
      simp [hnodup.1]
    · have hne : (D.od (V.chain k).cursor).oid ≠ (D.od n).oid := fun he =>
        hnc (h.oid_inj (h.mem_tree hk hn) (h.mem_tree hk (hc.resolve_left h0)) he.symm)
      simp [hne, hnc]
  | @change D D' op returned states hop hrun rest ih =>
    intro n hn hstay
    obtain ⟨V₁, h₁⟩ := h.run hrun
    obtain ⟨V', i', h', hi', hg', hk, he⟩ := quiet_step h hi hg hc hop hrun (rest.highest h₁)
    obtain ⟨hn', hoid⟩ := he n hn (hstay D' (.tail _ rest.mem))
    have ih := ih h' hi' hg' hk.cursor n hn' (by rw [hoid]; exact fun D₁ hm => hstay D₁ (.tail _ hm))
    rw [hoid] at ih
    rw [ih]
    exact if_congr (hk.pending n hn hn') rfl rfl

theorem Scan.located (hs : Scan g (Quiet g) D returned states) (h : Holds D V)
    (hi : i < ldMaxGenerations) (hg : g + i = D.highestGeneration) (hc : CursorOk (V.chain i)) :
    ∀ r ∈ returned, Located r.1 r.2.oid g ∧ r.1.od (entryNode r.1 r.2.oid) = r.2 := by
  induction hs generalizing V i with
  | done _ => simp
  | @next D D' od returned states hf rest ih =>
    obtain ⟨k, hk, hgk, ⟨-, hr, -⟩ | ⟨h0, hr, h', hD'⟩⟩ := findNextObject_spec h hf
    · cases hr
    obtain rfl : k = i := by omega
    obtain rfl : od = D.od (V.chain k).cursor := by simpa using hr
    have hhigh : D'.highestGeneration = D.highestGeneration := by rw [hD']
    obtain ⟨-, hc'⟩ := pending_advanced hc (h.chains.ring k hk) (h.chains.ne_zero k hk) h0
    have hchain : setCursor V.chain k (advanced D (V.chain k)) k =
        { V.chain k with cursor := advanced D (V.chain k) } := Function.update_self ..
    have hmem := hc.resolve_left h0
    intro r hrm
    rcases List.mem_cons.1 hrm with rfl | hrm
    · refine ⟨(h.located hk hg).2 ⟨_, hmem, rfl⟩, ?_⟩
      rw [h.entryNode_eq (h.mem_tree hk hmem) rfl]
    · exact ih h' hk (by rw [hhigh, hg]) (by simp only [hchain]; exact hc') r hrm
  | @change D D' op returned states hop hrun rest ih =>
    obtain ⟨V₁, h₁⟩ := h.run hrun
    obtain ⟨V', i', h', hi', hg', hk, -⟩ := quiet_step h hi hg hc hop hrun (rest.highest h₁)
    exact ih h' hi' hg' hk.cursor

/-- In a scan whose calls are quiet every object that stays in the generation is returned exactly
once, and every object that is returned is in the generation then. -/
theorem scanComplete_of_quiet {D₀ D₁ : Directory} (h0 : Initial D₀)
    (hreach : Reach (fun _ _ => True) D₀ D) (hreset : resetScan D g = .ok D₁)
    (hs : Scan g (Quiet g) D₁ returned states) : ScanComplete g returned states := by
  obtain ⟨V, h⟩ := hreach.holds h0
  obtain ⟨i, hi, hg, h₁, hD₁⟩ := resetScan_spec h hreset
  have hhigh : D₁.highestGeneration = D.highestGeneration := by rw [hD₁]
  have hchain : setCursor V.chain i (V.chain i).head i =
      { V.chain i with cursor := (V.chain i).head } := Function.update_self ..
  have hhead : (V.chain i).head = 0 ∧ (V.chain i).nodes = [] ∨
      (V.chain i).head ≠ 0 ∧ ∃ xs, (V.chain i).nodes = (V.chain i).head :: xs := by
    rw [Chain.head]
    cases hn : (V.chain i).nodes with
    | nil => exact .inl ⟨rfl, rfl⟩
    | cons a xs => exact .inr ⟨h.chains.ne_zero i hi a (by simp [hn]), xs, rfl⟩
  have hc : CursorOk { V.chain i with cursor := (V.chain i).head } := by
    rcases hhead with ⟨hz, -⟩ | ⟨-, xs, hxs⟩
    · exact .inl hz
    · refine .inr ?_
      show (V.chain i).head ∈ (V.chain i).nodes
      rw [hxs]
      exact List.mem_cons_self
  rw [← hchain] at hc
  have hg₁ : g + i = D₁.highestGeneration := by rw [hhigh, hg]
  refine ⟨fun oid hstay => ?_, hs.located h₁ hi hg₁ hc⟩
  obtain ⟨n, hn, rfl⟩ := (h₁.located hi hg₁).1 (hstay D₁ hs.mem)
  rw [hs.count h₁ hi hg₁ hc n hn hstay, if_pos]
  -- at the start every node is still to be returned
  simp only [hchain] at hn ⊢
  rcases hhead with ⟨-, hnil⟩ | ⟨hne, xs, hxs⟩
  · rw [hnil] at hn
    cases hn
  · rw [pending_split (C := { V.chain i with cursor := (V.chain i).head }) (l := []) hne hxs
      List.not_mem_nil]
    show n ∈ (V.chain i).head :: xs
    rw [← hxs]
    exact hn

/-- An object is recorded in the generation during the scan. -/
theorem scanComplete_of_quiet_record :
    ∃ D D₁ returned states, resetScan D 1 = .ok D₁ ∧ Scan 1 (Quiet 1) D₁ returned states ∧
      returned.map (fun r => r.2.oid) = [7, 8] ∧ ScanComplete 1 returned states := by
  obtain ⟨D, D₁, returned, states, hreach, hreset, hs, hret⟩ : ∃ D D₁ returned states,
      Reach (fun _ _ => True) (startup 3) D ∧ resetScan D 1 = .ok D₁ ∧
      scanIf 1 (Quiet 1) [none, some (.record ⟨9, 0, 0, 0, 0⟩ 1), none] D₁ =
        some (returned, states) ∧
      returned.map (fun r => r.2.oid) = [7, 8] :=
    ⟨_, _, _, _, reach_of_runIf
      [.record ⟨7, 0, 0, 0, 0⟩ 1, .record ⟨8, 0, 0, 0, 0⟩ 1] rfl, rfl, rfl, rfl⟩
  have hs := scan_of_scanIf _ hs
  exact ⟨D, D₁, returned, states, hreset, hs, hret,
    scanComplete_of_quiet (initial_startup 3) hreach hreset hs⟩

/-- Another object of the generation is removed before the first call of `ld_findNextObject`: the
cursor is at the head, and it is set to null. -/
theorem scan_cut_short :
    ¬∀ (D₀ D D₁ : Directory) (g : ℕ) (returned : List (Directory × ObjectDescriptor))
      (states : List Directory), Initial D₀ → Reach (fun _ _ => True) D₀ D →
        resetScan D g = .ok D₁ → Scan g IsChange D₁ returned states →
          ScanComplete g returned states := by
  intro hall
  obtain ⟨D, D₁, returned, states, hreach, hreset, hs, hret, hstay⟩ : ∃ D D₁ returned states,
      Reach (fun _ _ => True) (startup 2) D ∧ resetScan D 1 = .ok D₁ ∧
      scanIf 1 IsChange [some (.remove 8)] D₁ = some (returned, states) ∧ returned = [] ∧
      ∀ D ∈ states, Located D 7 1 := by
    refine ⟨_, _, _, _, reach_of_runIf
      [.record ⟨7, 0, 0, 0, 0⟩ 1, .record ⟨8, 0, 0, 0, 0⟩ 1] rfl, rfl, rfl, rfl, ?_⟩
    intro D hD
    rcases List.mem_cons.1 hD with rfl | hD
    · exact ⟨by decide, rfl⟩
    · rw [List.mem_singleton.1 hD]
      exact ⟨by decide, rfl⟩
  have hc := hall _ _ _ 1 _ _ (initial_startup 2) hreach hreset (scan_of_scanIf _ hs)
  have hone := hc.once 7 hstay
  rw [hret] at hone
  cases hone

end CapROS.LogDirectory
