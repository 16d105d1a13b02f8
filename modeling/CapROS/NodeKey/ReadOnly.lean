import CapROS.NodeKey.Basic

/-!
# Read-only and discreet keys

What a read-only Node key, and a key that `Discrim.verify` reports as discreet, can be used for. A
read-only Node key still sets the `l2v`, the keeper and the blocked state of its node; GPT keys do
not test for the restriction at all; and the keys fetched through a weak key are not weakened. A
run of messages that makes none of these requests changes nothing and yields discreet keys only.

* `nodeRequest_harmless`, `gptRequest_harmless`: the requests that are harmless.
* `readOnly_authority`: the exact requests for read-only Node keys, and the runs of messages.
-/

namespace CapROS.NodeKey

open Yielding

/-! ## Permission bits -/

variable {k : Key}

theorem hasPerm_restrict (p : BitVec 5) {mask : BitVec 5} (h : k.hasPerm mask) :
    (k.restrict p).hasPerm mask := by
  unfold Key.hasPerm Key.restrict at *
  rw [decide_eq_true_eq] at *
  contrapose! h
  ext i hi
  have hbit := congrArg (fun v => v[i]) h
  simp only [BitVec.getElem_and, BitVec.getElem_or] at hbit
  simp only [BitVec.getElem_and]
  grind

/-- `k'` has the type of `k` and all its restrictions. -/
def AtMost (k' k : Key) : Prop :=
  k'.keyType = k.keyType ∧ ∀ mask, k.hasPerm mask → k'.hasPerm mask

theorem atMost_restrict (k : Key) (p : BitVec 5) : AtMost (k.restrict p) k :=
  ⟨rfl, fun _ h => hasPerm_restrict p h⟩

theorem atMost_setGuardData (k : Key) (guard l2g : ℕ) : AtMost (k.setGuardData guard l2g) k :=
  ⟨rfl, fun _ h => h⟩

theorem discreet_of_atMost {k' : Key} (h : AtMost k' k) (hk : discreet k) : discreet k' := by
  obtain ⟨htype, hperm⟩ := h
  unfold discreet at *
  rw [htype]
  split at hk
  · exact hperm _ hk
  · rename_i hnode
    simp only [Bool.and_eq_true, Key.isNoCall] at hk ⊢
    exact ⟨⟨hperm _ hk.1.1, hperm _ hk.1.2⟩, hperm _ hk.2⟩
  · simp only [Bool.and_eq_true, Key.isNoCall] at hk ⊢
    exact ⟨⟨hperm _ hk.1.1, hperm _ hk.1.2⟩, hperm _ hk.2⟩
  all_goals first | rfl | exact absurd hk (by simp)

/-! ## Handlers that change nothing -/

section Harmless

variable {P : Reply → Prop} {w : World} {k : Key} {oid : ℕ} {c : NodeContent} {m : Message}

/-- The handler leaves the state as it is, and a reply satisfies `P`. -/
def Harmless (P : Reply → Prop) (w : World) (h : Handler Reply) : Prop :=
  (h w).Sat (fun r w' => w' = w ∧ P r) (fun w' => w' = w) fun _ w' => w' = w

theorem harmless_get_bind {f : World → Handler Reply} (h : Harmless P w (f w)) :
    Harmless P w (Prog.get >>= f) := h

theorem harmless_readNode_bind {f : NodeContent → Handler Reply}
    (h : Harmless P w (f (w.nodes oid).content)) : Harmless P w (readNode oid >>= f) := h

theorem harmless_answer (hP : ∀ code n, P (.ret code n none)) (code : ExitCode) (n : ℕ) :
    Harmless P w (answer code n) := ⟨rfl, hP code n⟩

theorem harmless_answerType (hP : ∀ code n, P (.ret code n none)) (t : KeyType) :
    Harmless P w (answerType t) := ⟨rfl, hP .ok _⟩

variable {k' : Key}

theorem harmless_answerKey (hP : P (.ret .ok 0 (some k'))) :
    Harmless P w (answerKey k') := ⟨rfl, hP⟩

theorem harmless_invokeGateOrVoid (hP : ∀ code n, P (.ret code n none))
    {passed : Option Key} (hgate : isGateKey k' → P (.gate k' passed)) :
    Harmless P w (invokeGateOrVoid k' passed) := by
  unfold invokeGateOrVoid
  split
  · rename_i h
    exact ⟨rfl, hgate h⟩
  · exact harmless_answer hP _ _

theorem harmless_checkKeeper (hP : ∀ code n, P (.ret code n none))
    (hgate : c.hasKeeper → isGateKey (c.slots keeperSlot) → P (.gate (c.slots keeperSlot) none)) :
    Harmless P w (checkKeeper c) := by
  unfold checkKeeper
  split
  · rename_i h
    exact harmless_invokeGateOrVoid hP (hgate h)
  · exact harmless_answer hP _ _

theorem harmless_withSlot (hP : ∀ code n, P (.ret code n none)) {w1 : BitVec 32}
    {f : Fin 32 → Handler Reply} (hf : ∀ h : w1.toNat < 32, Harmless P w (f ⟨w1.toNat, h⟩)) :
    Harmless P w (withSlot w1 f) := by
  unfold withSlot
  split
  · exact hf _
  · exact harmless_answer hP _ _

theorem harmless_makeGuarded (hP : ∀ code n, P (.ret code n none))
    (hself : ∀ k', AtMost k' k → P (.ret .ok 0 (some k'))) : Harmless P w (makeGuarded k m) := by
  unfold makeGuarded
  split
  · exact harmless_answer hP _ _
  · exact harmless_answerKey (hself _ (atMost_setGuardData k _ _))

theorem walk_write_fault {nodes : ℕ → Node} (hro : k.hasPerm nodeReadOnly) (addr : BitVec 32) :
    ∃ code, walk nodes true k addr = .fault code := by
  have hbits : (0 ||| k.keyPerms) &&& nodeReadOnly ≠ 0 := by
    simpa [Key.hasPerm] using hro
  unfold walk walkFrom
  split
  · exact ⟨_, rfl⟩
  · exact ⟨_, if_pos ⟨rfl, hbits⟩⟩

theorem harmless_walk_write (hP : ∀ code n, P (.ret code n none)) (hro : k.hasPerm nodeReadOnly) :
    Harmless P w (walkExtended k m true) := by
  refine harmless_get_bind ?_
  obtain ⟨code, hwalk⟩ : ∃ code, walk w.nodes true k m.w1 = .fault code :=
    walk_write_fault hro m.w1
  rw [hwalk]
  exact harmless_answer hP _ _

theorem harmless_walk_read (hP : ∀ code n, P (.ret code n none))
    (hwalk : ∀ o slot, walk w.nodes false k m.w1 = .found o slot →
      P (.ret .ok 0 (some ((w.nodes o).content.slots slot)))) :
    Harmless P w (walkExtended k m false) := by
  refine harmless_get_bind ?_
  split
  · exact harmless_answer hP _ _
  · rename_i o slot hfound
    exact harmless_answerKey (hwalk o slot hfound)

theorem harmless_memoryKey (hP : ∀ code n, P (.ret code n none))
    (hself : ∀ k', AtMost k' k → P (.ret .ok 0 (some k'))) : Harmless P w (memoryKey k m) := by
  unfold memoryKey
  split
  · exact harmless_answer hP _ _
  · split
    · exact harmless_answer hP _ _
    · exact harmless_answerKey (hself _ (atMost_restrict k _))
  · exact harmless_makeGuarded hP hself
  · exact harmless_answer hP _ _
  · exact harmless_answer hP _ _

end Harmless

/-! ## Node keys -/

section NodeRequests

variable {P : Reply → Prop} {w : World} {k : Key} {oid : ℕ} {c : NodeContent} {m : Message}

/-- The requests of `NodeKey` that change the node without a test of `readOnly`. -/
def writesUnchecked (m : Message) : Prop :=
  match m.op with
  | .nodeSetL2v => m.w1.toNat < 32
  | .nodeSetKeeper | .nodeClearKeeper | .nodeSetBlocked | .nodeClearBlocked => True
  | _ => False

/-- The message goes to the keeper of the node, if there is one. -/
def goesToKeeper (k : Key) (c : NodeContent) (m : Message) : Prop :=
  match m.op with
  | .nodeReduce => False
  | .nodeGetSlotExtended | .nodeSwapSlotExtended => k.hasPerm memoryOpaque ∧ c.isBlocked
  | .nodeGetSlot | .nodeSwapSlot | .nodeWriteNumber | .nodeGetL2v | .nodeSetL2v
  | .nodeMakeGuarded | .nodeGetGuard | .nodeSetKeeper | .nodeClearKeeper | .nodeSetBlocked
  | .nodeClearBlocked | .nodeClone => k.hasPerm memoryOpaque
  | _ => True

variable {h : Handler Reply}

theorem harmless_unlessOpaque (hk : k.hasPerm memoryOpaque →
      Harmless P w (checkKeeper c)) (hh : ¬k.hasPerm memoryOpaque → Harmless P w h) :
    Harmless P w (unlessOpaque k c h) := by
  unfold unlessOpaque
  split
  · rename_i ho
    exact hk ho
  · rename_i ho
    exact hh ho

theorem harmless_unlessFetch (hP : ∀ code n, P (.ret code n none)) (hro : k.hasPerm nodeReadOnly)
    : Harmless P w (unlessFetch k h) := by
  unfold unlessFetch
  rw [if_pos hro]
  exact harmless_answer hP _ _

/-- The requests to a read-only Node key that do not change the node, and the replies to them. -/
theorem nodeRequest_harmless (hro : k.hasPerm nodeReadOnly)
    (hwrite : k.hasPerm memoryOpaque ∨ ¬writesUnchecked m)
    (hP : ∀ code n, P (.ret code n none))
    (hgate : goesToKeeper k c m → c.hasKeeper → isGateKey (c.slots keeperSlot) →
      P (.gate (c.slots keeperSlot) none))
    (hself : ∀ k', AtMost k' k → P (.ret .ok 0 (some k')))
    (hslot : m.op = .nodeGetSlot → ¬k.hasPerm memoryOpaque → ∀ h : m.w1.toNat < 32,
      P (.ret .ok 0 (some (c.slots ⟨m.w1.toNat, h⟩))))
    (hwalk : m.op = .nodeGetSlotExtended → ∀ o slot, walk w.nodes false k m.w1 = .found o slot →
      P (.ret .ok 0 (some ((w.nodes o).content.slots slot)))) :
    Harmless P w (nodeRequest k oid c m) := by
  have hopaque : ∀ h : Handler Reply, (k.hasPerm memoryOpaque → goesToKeeper k c m) →
      (¬k.hasPerm memoryOpaque → Harmless P w h) → Harmless P w (unlessOpaque k c h) :=
    fun h hg hh => harmless_unlessOpaque (fun ho => harmless_checkKeeper hP (hgate (hg ho))) hh
  have hno : ¬writesUnchecked m ∨ k.hasPerm memoryOpaque := hwrite.symm
  unfold nodeRequest
  cases hop : m.op with
  | getType =>
    simp only
    split
    · rename_i hk
      exact harmless_invokeGateOrVoid hP (hgate (by simp [goesToKeeper, hop]) hk)
    · exact harmless_answerType hP _
  | nodeGetSlot =>
    refine hopaque _ (by simp [goesToKeeper, hop]) fun ho => harmless_withSlot hP fun h => ?_
    exact harmless_answerKey (hslot hop ho h)
  | nodeSwapSlot =>
    exact hopaque _ (by simp [goesToKeeper, hop]) fun _ => harmless_unlessFetch hP hro
  | nodeGetSlotExtended =>
    simp only
    split
    · rename_i hb
      exact harmless_checkKeeper hP (hgate (by simpa [goesToKeeper, hop] using hb))
    · exact harmless_walk_read hP (hwalk hop)
  | nodeSwapSlotExtended =>
    simp only
    split
    · rename_i hb
      exact harmless_checkKeeper hP (hgate (by simpa [goesToKeeper, hop] using hb))
    · exact harmless_walk_write hP hro
  | nodeReduce =>
    simp only
    split
    · exact harmless_answer hP _ _
    · exact harmless_answerKey (hself _ (atMost_restrict k _))
  | nodeWriteNumber =>
    exact hopaque _ (by simp [goesToKeeper, hop]) fun _ => harmless_unlessFetch hP hro
  | nodeGetL2v =>
    exact hopaque _ (by simp [goesToKeeper, hop]) fun _ => harmless_answer hP _ _
  | nodeSetL2v =>
    refine hopaque _ (by simp [goesToKeeper, hop]) fun ho => ?_
    have hrange : ¬m.w1.toNat < 32 := by simpa [writesUnchecked, hop, ho] using hno
    rw [if_neg hrange]
    exact harmless_answer hP _ _
  | nodeMakeGuarded =>
    exact hopaque _ (by simp [goesToKeeper, hop]) fun _ => harmless_makeGuarded hP hself
  | nodeGetGuard =>
    exact hopaque _ (by simp [goesToKeeper, hop]) fun _ => harmless_answer hP _ _
  | nodeSetKeeper | nodeClearKeeper | nodeSetBlocked | nodeClearBlocked =>
    refine hopaque _ (by simp [goesToKeeper, hop]) fun ho => absurd hno ?_
    simp [writesUnchecked, hop, ho]
  | nodeClone =>
    exact hopaque _ (by simp [goesToKeeper, hop]) fun _ => harmless_unlessFetch hP hro
  | _ => exact harmless_checkKeeper hP (hgate (by simp [goesToKeeper, hop]))

end NodeRequests

/-! ## GPT and Page keys -/

section GptRequests

variable {P : Reply → Prop} {w : World} {k : Key} {oid : ℕ} {c : NodeContent} {m : Message}

/-- The requests of `GPTKey` that change the GPT, none of which tests `readOnly`. -/
def gptWrites (m : Message) : Prop :=
  match m.op with
  | .gptSetL2v | .gptSetSlot | .gptSetWindow | .gptClone | .gptSetKeeper | .gptClearKeeper
  | .gptSetBackground | .gptClearBackground => True
  | _ => False

theorem harmless_gptUnlessOpaque (hP : ∀ code n, P (.ret code n none)) {h : Handler Reply}
    (hh : ¬k.hasPerm memoryOpaque → Harmless P w h) : Harmless P w (gptUnlessOpaque k h) := by
  unfold gptUnlessOpaque
  split
  · exact harmless_answer hP _ _
  · rename_i ho
    exact hh ho

theorem gptRequest_harmless (hwrite : k.hasPerm memoryOpaque ∨ ¬gptWrites m)
    (hP : ∀ code n, P (.ret code n none))
    (hself : ∀ k', AtMost k' k → P (.ret .ok 0 (some k')))
    (hslot : m.op = .gptGetSlot → ¬k.hasPerm memoryOpaque → ∀ h : m.w1.toNat < 32,
      P (.ret .ok 0 (some (c.slots ⟨m.w1.toNat, h⟩)))) :
    Harmless P w (gptRequest k oid c m) := by
  unfold gptRequest
  cases hop : m.op with
  | gptGetL2v => exact harmless_gptUnlessOpaque hP fun _ => harmless_answer hP _ _
  | gptGetSlot =>
    refine harmless_gptUnlessOpaque hP fun ho => harmless_withSlot hP fun h => ?_
    exact harmless_answerKey (hslot hop ho h)
  | gptSetL2v | gptSetSlot | gptSetWindow | gptClone | gptSetKeeper | gptClearKeeper
  | gptSetBackground | gptClearBackground =>
    refine harmless_gptUnlessOpaque hP fun ho => absurd hwrite ?_
    simp [gptWrites, hop, ho]
  | getType => exact harmless_answerType hP _
  | _ => exact harmless_memoryKey hP hself

theorem pageKey_harmless (hro : k.hasPerm memoryReadOnly)
    (hP : ∀ code n, P (.ret code n none))
    (hself : ∀ k', AtMost k' k → P (.ret .ok 0 (some k'))) (htype : k.keyType = .page) :
    Harmless P w (pageKey k m) := by
  have hfetch : ∀ h : Handler Reply, Harmless P w (unlessReadOnly k h) := by
    intro h
    unfold unlessReadOnly
    rw [if_pos hro]
    exact harmless_answer hP _ _
  unfold pageKey
  split
  · exact harmless_answer hP _ _
  · split
    · exact harmless_answerType hP _
    · exact hfetch _
    · exact hfetch _
    · refine harmless_get_bind ?_
      split
      · exact harmless_answer hP _ _
      · exact harmless_answerKey (hself _ ⟨htype.symm, fun _ h => h⟩)
    · exact harmless_memoryKey hP hself

theorem numberKey_harmless (hP : ∀ code n, P (.ret code n none)) :
    Harmless P w (numberKey m) := by
  unfold numberKey
  split
  · exact harmless_answer hP _ _
  · exact harmless_answerType hP _
  · exact harmless_answer hP _ _

theorem discrimKey_harmless (hP : ∀ code n, P (.ret code n none)) :
    Harmless P w (discrimKey m) := by
  unfold discrimKey
  split
  · exact harmless_answer hP _ _
  · exact harmless_answer hP _ _
  · exact harmless_answer hP _ _
  · exact harmless_answerType hP _
  · exact harmless_answer hP _ _

end GptRequests

/-! ## The requests that a read-only Node key should turn down -/

section ReadOnlyNode

/-- A system in which every node has void keys only, and is dirty. -/
def voidWorld (l2vField : BitVec 8) : World where
  nodes _ := ⟨⟨fun _ => .void, l2vField⟩, true, false⟩
  pages _ := fun _ => 0
  canDirty _ := true
  potMates _ := []
  nthPage _ _ := none
  typeCode _ := 0
  ckptActive := false
  saved _ := ⟨fun _ => .void, l2vField⟩
  written _ := none

@[simp]
theorem content_setContent (w : World) (oid : ℕ) (c : NodeContent) :
    ((w.setContent oid c).nodes oid).content = c := by
  simp [World.setContent]

variable {k : Key} {oid : ℕ}

theorem writesUnchecked_changes (hobj : objectOf k = some oid) {m : Message}
    (ho : ¬k.hasPerm memoryOpaque) (hm : writesUnchecked m) :
    ∃ l2vField, ((nodeKey k m (voidWorld l2vField)).state.nodes oid).content.l2vField ≠
      l2vField := by
  unfold writesUnchecked at hm
  unfold nodeKey
  rw [hobj]
  cases hop : m.op <;> simp only [hop] at hm
  case nodeSetL2v =>
    refine ⟨if m.w1.toNat = 0 then 1 else 0, ?_⟩
    simp only [readNode, nodeRequest, hop, unlessOpaque, if_neg ho, if_pos hm, writeNode, answer,
      bind_apply, get_apply, andThen_done, pure_apply, modify_apply, Outcome.state_done,
      content_setContent, NodeContent.setL2v, voidWorld]
    split
    · rename_i h0
      rw [h0]
      decide
    · rename_i h0
      intro h
      have h' := congrArg BitVec.toNat h
      simp only [l2vMask, BitVec.zero_and, BitVec.sub_zero, BitVec.zero_add, BitVec.toNat_ofNat,
        BitVec.ofNat_eq_ofNat, Nat.reducePow, Nat.zero_mod] at h'
      omega
  case nodeSetKeeper =>
    refine ⟨0, ?_⟩
    simp only [readNode, nodeRequest, hop, unlessOpaque, if_neg ho, nodeSetSlot, ensureWritable,
      writeNode, answer, bind_apply, get_apply, andThen_done, pure_apply, modify_apply,
      Outcome.state_done, content_setContent, NodeContent.setBit, NodeContent.setSlot, voidWorld,
      Bool.false_eq_true, not_false_eq_true, and_self, if_true]
    decide
  case nodeClearKeeper =>
    refine ⟨nodeKeeper, ?_⟩
    simp only [readNode, nodeRequest, hop, unlessOpaque, if_neg ho, writeNode, answer, bind_apply,
      get_apply, andThen_done, pure_apply, modify_apply, Outcome.state_done, content_setContent,
      NodeContent.clearBit, voidWorld]
    decide
  case nodeSetBlocked =>
    refine ⟨0, ?_⟩
    simp only [readNode, nodeRequest, hop, unlessOpaque, if_neg ho, writeNode, answer, bind_apply,
      get_apply, andThen_done, pure_apply, modify_apply, Outcome.state_done, content_setContent,
      NodeContent.setBit, voidWorld]
    decide
  case nodeClearBlocked =>
    refine ⟨nodeBlocked, ?_⟩
    simp only [readNode, nodeRequest, hop, unlessOpaque, if_neg ho, writeNode, answer, bind_apply,
      get_apply, andThen_done, pure_apply, modify_apply, Outcome.state_done, content_setContent,
      NodeContent.clearBit, voidWorld]
    decide

/-- A read-only Node key never changes its node, just if the key is opaque or the message is none
of those that write without a test. -/
theorem nodeKey_keeps_iff (hro : k.hasPerm nodeReadOnly)
    (hobj : objectOf k = some oid) (m : Message) :
    (∀ w, ((nodeKey k m w).state.nodes oid).content = (w.nodes oid).content) ↔
      k.hasPerm memoryOpaque ∨ ¬writesUnchecked m := by
  constructor
  · intro h
    by_contra hne
    simp only [not_or, not_not] at hne
    obtain ⟨l2vField, hl⟩ := writesUnchecked_changes hobj hne.1 hne.2
    exact hl (congrArg NodeContent.l2vField (h (voidWorld l2vField)))
  · intro hwrite w
    have hharm : Harmless (fun _ => True) w (nodeKey k m) := by
      unfold nodeKey
      rw [hobj]
      refine harmless_readNode_bind (nodeRequest_harmless hro hwrite ?_ ?_ ?_ ?_ ?_)
      all_goals
        intros
        trivial
    unfold Harmless at hharm
    cases hrun : nodeKey k m w with
    | done r w' =>
      rw [hrun] at hharm
      rw [Outcome.state_done, hharm.1]
    | yield w' =>
      rw [hrun] at hharm
      rw [Outcome.state_yield, show w' = w from hharm]
    | halt e w' =>
      rw [hrun] at hharm
      rw [Outcome.state_halt, show w' = w from hharm]

end ReadOnlyNode

/-! ## Sequences of messages -/

/-- What the holder of some keys has come to: the state of the system, and the keys held. -/
structure Holder where
  world : World
  held : List Key

/-- The keys that a reply brings. -/
def Reply.keys : Reply → List Key
  | .ret _ _ (some k) => [k]
  | .ret _ _ none => []
  | .gate _ _ => []

/-- The holder sends a message through one of the keys held. A message that is passed on to a
keeper is in the hands of another process, which may do anything. -/
inductive Step (s : Holder) (k : Key) (m : Message) : Holder → Prop where
  | reply {h : Handler Reply} {r : Reply} {w' : World} (hk : k ∈ s.held)
      (hsend : send k m = some h) (hrun : h s.world = .done r w')
      (hret : ∀ keeper passed, r ≠ .gate keeper passed) : Step s k m ⟨w', r.keys ++ s.held⟩
  | yield {h : Handler Reply} {w' : World} (hk : k ∈ s.held) (hsend : send k m = some h)
      (hrun : h s.world = .yield w') : Step s k m ⟨w', s.held⟩
  | keeper {h : Handler Reply} {keeper : Key} {passed : Option Key} {w' : World} (hk : k ∈ s.held)
      (hsend : send k m = some h) (hrun : h s.world = .done (.gate keeper passed) w')
      (s' : Holder) : Step s k m s'

/-- The request does none of what goes wrong: it does not write through a key that should not
allow it, does not call a keeper, and does not fetch a key that would need to be weakened. -/
def StepOk (w : World) (k : Key) (m : Message) : Prop :=
  ∀ oid, objectOf k = some oid →
    match k.keyType with
    | .node =>
        (k.hasPerm memoryOpaque ∨ ¬writesUnchecked m) ∧
        (goesToKeeper k (w.nodes oid).content m → (w.nodes oid).content.hasKeeper →
          ¬isGateKey ((w.nodes oid).content.slots keeperSlot)) ∧
        (m.op = .nodeGetSlot → ¬k.hasPerm memoryOpaque → ∀ h : m.w1.toNat < 32,
          discreet ((w.nodes oid).content.slots ⟨m.w1.toNat, h⟩)) ∧
        (m.op = .nodeGetSlotExtended → ∀ o slot, walk w.nodes false k m.w1 = .found o slot →
          discreet ((w.nodes o).content.slots slot))
    | .gpt =>
        (k.hasPerm memoryOpaque ∨ ¬gptWrites m) ∧
        (m.op = .gptGetSlot → ¬k.hasPerm memoryOpaque → ∀ h : m.w1.toNat < 32,
          discreet ((w.nodes oid).content.slots ⟨m.w1.toNat, h⟩))
    | _ => True

/-- A run of messages all of which are in order. -/
inductive OkRun (s : Holder) : Holder → Prop where
  | refl : OkRun s s
  | step {t u : Holder} {k : Key} {m : Message} (hrun : OkRun s t) (hok : StepOk t.world k m)
      (hstep : Step t k m u) : OkRun s u

/-- A reply that brings discreet keys only, and not from a keeper. -/
def Reply.Discreet : Reply → Prop
  | .ret _ _ key => ∀ k, key = some k → discreet k
  | .gate _ _ => False

theorem Reply.Discreet.keys {r : Reply} (hr : r.Discreet) : ∀ k ∈ r.keys, discreet k := by
  intro k hk
  cases r with
  | ret code n key =>
    cases key with
    | none => exact absurd hk List.not_mem_nil
    | some k₀ => exact List.mem_singleton.1 hk ▸ hr k₀ rfl
  | gate keeper passed => exact absurd hk List.not_mem_nil

variable {m : Message}

theorem send_harmless {w : World} {h : Handler Reply}
    (hk : discreet k) (hok : StepOk w k m) (hsend : send k m = some h) :
    Harmless Reply.Discreet w h := by
  have hP : ∀ code n, Reply.Discreet (.ret code n none) := fun _ _ _ h => absurd h (by simp)
  have hkey : ∀ k', discreet k' → Reply.Discreet (.ret .ok 0 (some k')) :=
    fun k' hk' k'' he => Option.some.inj he ▸ hk'
  have hself : ∀ k', AtMost k' k → Reply.Discreet (.ret .ok 0 (some k')) :=
    fun k' hle => hkey k' (discreet_of_atMost hle hk)
  unfold send at hsend
  split at hsend <;> (try obtain rfl := Option.some.inj hsend)
  · -- a Node key
    rename_i htype
    unfold nodeKey
    split
    · exact harmless_answer hP _ _
    · rename_i oid hoid
      have hok' := hok oid hoid
      rw [htype] at hok'
      obtain ⟨hwrite, hgate, hslot, hwalk⟩ := hok'
      have hro : k.hasPerm nodeReadOnly := by
        simp only [discreet, htype, Bool.and_eq_true] at hk
        exact hk.2
      refine harmless_readNode_bind (nodeRequest_harmless hro hwrite hP ?_ hself ?_ ?_)
      · exact fun hg hkeep hgk => absurd hgk (hgate hg hkeep)
      · exact fun hop ho h => hkey _ (hslot hop ho h)
      · exact fun hop o slot hw => hkey _ (hwalk hop o slot hw)
  · -- a GPT key
    rename_i htype
    unfold gptKey
    split
    · exact harmless_answer hP _ _
    · rename_i oid hoid
      have hok' := hok oid hoid
      rw [htype] at hok'
      obtain ⟨hwrite, hslot⟩ := hok'
      have hro : k.hasPerm memoryReadOnly := by
        simp only [discreet, htype, Bool.and_eq_true] at hk
        exact hk.1.1
      refine harmless_readNode_bind ?_
      rw [if_neg fun hcall => hcall.2.2.1 hro]
      exact gptRequest_harmless hwrite hP hself fun hop ho h => hkey _ (hslot hop ho h)
  · -- a Page key
    rename_i htype
    have hro : k.hasPerm memoryReadOnly := by
      simpa only [discreet, htype] using hk
    exact pageKey_harmless hro hP hself htype
  · exact numberKey_harmless hP
  · exact discrimKey_harmless hP
  · exact harmless_answer hP _ _
  · cases hsend

variable {s s' : Holder}

theorem step_preserves
    (hheld : ∀ k ∈ s.held, discreet k) (hok : StepOk s.world k m) (hstep : Step s k m s') :
    s'.world = s.world ∧ ∀ k ∈ s'.held, discreet k := by
  cases hstep with
  | reply hk hsend hrun hret =>
    rename_i h r w'
    have hsat := send_harmless (hheld k hk) hok hsend
    unfold Harmless at hsat
    rw [hrun] at hsat
    refine ⟨hsat.1, fun k' hk' => ?_⟩
    rcases List.mem_append.1 hk' with hk' | hk'
    · exact hsat.2.keys k' hk'
    · exact hheld k' hk'
  | yield hk hsend hrun =>
    have hsat := send_harmless (hheld k hk) hok hsend
    unfold Harmless at hsat
    rw [hrun] at hsat
    exact ⟨hsat, hheld⟩
  | keeper hk hsend hrun =>
    have hsat := send_harmless (hheld k hk) hok hsend
    unfold Harmless at hsat
    rw [hrun] at hsat
    exact hsat.2.elim

theorem okRun_preserves (hheld : ∀ k ∈ s.held, discreet k) (hrun : OkRun s s') :
    s'.world = s.world ∧ ∀ k ∈ s'.held, discreet k := by
  induction hrun with
  | refl => exact ⟨rfl, hheld⟩
  | step _ hok hstep ih =>
    obtain ⟨hworld, hkeys⟩ := step_preserves ih.2 hok hstep
    exact ⟨hworld.trans ih.1, hkeys⟩

/-- A read-only Node key never changes its node, just if the key is opaque or the message is not
`setL2v` (with a valid argument), `setKeeper`, `clearKeeper`, `setBlocked` or `clearBlocked`. And
in every run of messages through discreet keys and the keys obtained through them, none of which
writes through a key without a test, calls a keeper, or fetches a key that would have to be
weakened, nothing changes and all keys are discreet. -/
theorem readOnly_authority (k : Key) (oid : ℕ) (m : Message) (s s' : Holder)
    (hnode : k.keyType = .node) (hro : k.hasPerm nodeReadOnly) (hobj : objectOf k = some oid)
    (hheld : ∀ k ∈ s.held, discreet k) (hrun : OkRun s s') :
    ((∀ w h, send k m = some h → ((h w).state.nodes oid).content = (w.nodes oid).content) ↔
      k.hasPerm memoryOpaque ∨ ¬writesUnchecked m) ∧
    (∀ oid, (s'.world.nodes oid).content = (s.world.nodes oid).content) ∧
      s'.world.pages = s.world.pages ∧ ∀ k ∈ s'.held, discreet k := by
  obtain ⟨hworld, hkeys⟩ := okRun_preserves hheld hrun
  have hsend : send k m = some (nodeKey k m) := by
    simp only [send, hnode]
  refine ⟨?_, by simp [hworld], by rw [hworld], hkeys⟩
  rw [← nodeKey_keeps_iff hro hobj m]
  refine ⟨fun h w => h w _ hsend, fun h w handler heq => ?_⟩
  obtain rfl := Option.some.inj (hsend.symm.trans heq)
  exact h w

/-- A Node key with the restrictions `readOnly`, `noCall` and `weak` of memory keys. -/
def discreetNodeKey : Key := ⟨.node, 14, 0, .prep 0⟩

/-- The holder of a discreet Node key fetches a slot of an empty node. -/
theorem readOnly_authority_getSlot :
    (∀ w h, send discreetNodeKey { op := .nodeGetSlot } = some h →
      ((h w).state.nodes 0).content = (w.nodes 0).content) ∧
    ∀ k ∈ (⟨voidWorld 0, [Key.void, discreetNodeKey]⟩ : Holder).held, discreet k := by
  have hrun : nodeKey discreetNodeKey { op := .nodeGetSlot } (voidWorld 0) =
      .done (.ret .ok 0 (some .void)) (voidWorld 0) := rfl
  have hret : ∀ keeper passed, Reply.ret .ok 0 (some .void) ≠ .gate keeper passed := by simp
  have hheld : discreetNodeKey ∈ (⟨voidWorld 0, [discreetNodeKey]⟩ : Holder).held := by simp
  have hstep := Step.reply hheld rfl hrun hret
  have hok : StepOk (voidWorld 0) discreetNodeKey { op := .nodeGetSlot } := by
    intro oid _
    refine ⟨.inr (by simp [writesUnchecked]), ?_, fun _ _ _ => rfl, fun h => by simp at h⟩
    intro h _
    exact absurd h (show ¬discreetNodeKey.hasPerm memoryOpaque by decide)
  have h := readOnly_authority discreetNodeKey 0 { op := .nodeGetSlot } _ _ rfl (by decide) rfl
    (by decide) (.step .refl hok hstep)
  exact ⟨h.1.2 (.inr (by simp [writesUnchecked])), h.2.2.2⟩

/-- `setBlocked` through a Node key that is read-only, and discreet as well, changes the node. -/
theorem discreet_node_key_writes :
    discreetNodeKey.hasPerm nodeReadOnly ∧ discreet discreetNodeKey ∧
      ((nodeKey discreetNodeKey { op := .nodeSetBlocked } (voidWorld 0)).state.nodes
        0).content.isBlocked ≠ ((voidWorld 0).nodes 0).content.isBlocked := by
  decide

end CapROS.NodeKey
