import CapROS.NodeKey.Basic

/-!
# Node and GPT requests between demarcation and the end of a checkpoint

The checkpoint of a node consists of what the node held at demarcation. A node that was dirty then
is kernel-read-only until it has been cleaned, so its content must not change before that; and a
change must mark the node dirty, or it is lost when the node is stolen. `node_EnsureWritable` sees
to both, but some requests do without it.

* `evolves_nodeKey`, `evolves_gptKey`: a request makes such changes only, if it calls
  `node_EnsureWritable` or finds the node writeable.
* `okRun_intact`: every run whose requests are of this kind keeps checkpoints intact.
-/

namespace CapROS.NodeKey

open Yielding
open Function (update update_self update_of_ne update_eq_self)

/-! ## Changes that keep checkpoints intact -/

section Evolves

/-- The node is dirty and not kernel-read-only. -/
def World.Writable (w : World) (oid : ℕ) : Prop := (w.nodes oid).dirty ∧ ¬(w.nodes oid).kro

/-- The smallest changes: clean a kernel-read-only node, mark a node dirty that is not
kernel-read-only, change the content of a writeable node. -/
inductive Micro (w : World) : World → Prop where
  | clean (oid : ℕ) : Micro w (w.cleanKRO oid)
  | dirty (oid : ℕ) (h : ¬(w.nodes oid).kro) : Micro w (w.setDirty oid)
  | write (oid : ℕ) (h : w.Writable oid) (c : NodeContent) : Micro w (w.setContent oid c)

/-- A sequence of such changes. -/
inductive Evolves (w : World) : World → Prop where
  | refl : Evolves w w
  | step {w₁ w₂ : World} (h : Evolves w w₁) (hm : Micro w₁ w₂) : Evolves w w₂

variable {w w₀ w₁ : World} {oid : ℕ}

theorem cleanKRO_of_not_kro (h : ¬(w.nodes oid).kro) : w.cleanKRO oid = w := if_neg h

theorem cleanKRO_kro (w : World) (oid : ℕ) : ¬((w.cleanKRO oid).nodes oid).kro := by
  unfold World.cleanKRO
  split
  · simp
  · rename_i h
    exact h

variable {o : ℕ}

theorem cleanKRO_nodes_of_ne (w : World) (h : o ≠ oid) :
    (w.cleanKRO oid).nodes o = w.nodes o := by
  unfold World.cleanKRO
  split
  · simp [h]
  · rfl

theorem cleanKRO_nodes_of_not_kro (h : ¬(w.nodes o).kro) :
    (w.cleanKRO oid).nodes o = w.nodes o := by
  by_cases ho : o = oid
  · subst ho
    rw [cleanKRO_of_not_kro h]
  · exact cleanKRO_nodes_of_ne w ho

theorem cleanKRO_content (w : World) (o : ℕ) :
    ((w.cleanKRO oid).nodes o).content = (w.nodes o).content := by
  by_cases ho : o = oid
  · subst ho
    unfold World.cleanKRO
    split
    · simp
    · rfl
  · rw [cleanKRO_nodes_of_ne w ho]

theorem Micro.writable (h : Micro w w₁) (hw : w.Writable oid) : w₁.Writable oid := by
  cases h with
  | clean o =>
    unfold World.Writable at *
    rw [cleanKRO_nodes_of_not_kro hw.2]
    exact hw
  | dirty o _ =>
    unfold World.Writable World.setDirty at *
    by_cases ho : oid = o
    · subst ho
      simpa using hw.2
    · simpa [ho] using hw
  | write o _ c =>
    unfold World.Writable World.setContent at *
    by_cases ho : oid = o
    · subst ho
      simpa using hw
    · simpa [ho] using hw

theorem Micro.content (h : Micro w w₁) :
    (w₁.nodes oid).content = (w.nodes oid).content ∨ w₁.Writable oid := by
  cases h with
  | clean o => exact .inl (cleanKRO_content w oid)
  | dirty o _ =>
    left
    by_cases ho : oid = o
    · subst ho
      simp [World.setDirty]
    · simp [World.setDirty, ho]
  | write o hw c =>
    by_cases ho : oid = o
    · subst ho
      exact .inr ((Micro.write oid hw c).writable hw)
    · left
      simp [World.setContent, ho]

theorem Evolves.content (h : Evolves w w₁) (oid : ℕ) :
    (w₁.nodes oid).content = (w.nodes oid).content ∨ w₁.Writable oid := by
  induction h with
  | refl => exact .inl rfl
  | step _ hm ih =>
    rcases ih with ih | ih
    · rcases hm.content with hc | hw
      · exact .inl (hc.trans ih)
      · exact .inr hw
    · exact .inr (hm.writable ih)

theorem evolves_foldl_cleanKRO (h : Evolves w₀ w) (l : List ℕ) :
    Evolves w₀ (l.foldl World.cleanKRO w) := by
  induction l generalizing w with
  | nil => exact h
  | cons o l ih => exact ih (h.step (.clean o))

theorem foldl_cleanKRO_not_kro (h : ¬(w.nodes oid).kro) (l : List ℕ) :
    ¬((l.foldl World.cleanKRO w).nodes oid).kro := by
  induction l generalizing w with
  | nil => exact h
  | cons o l ih =>
    refine ih ?_
    rw [cleanKRO_nodes_of_not_kro h]
    exact h

end Evolves

/-! ## Requests -/

section Requests

variable {w₀ w : World} {oid : ℕ} {k : Key} {c : NodeContent} {m : Message}

/-- The changes so far are in order, and the node is now writeable. -/
def Prepared (w₀ : World) (oid : ℕ) (w : World) : Prop := Evolves w₀ w ∧ w.Writable oid

theorem setDirty_writable (h : ¬(w.nodes oid).kro) : (w.setDirty oid).Writable oid := by
  simpa [World.Writable, World.setDirty] using h

theorem ensureWritable_sat (h : Evolves w₀ w) :
    (ensureWritable oid w).Sat (fun _ w' => Prepared w₀ oid w') (Evolves w₀)
      fun _ w' => Evolves w₀ w' := by
  unfold ensureWritable
  split
  · rename_i hw
    exact ⟨h, hw⟩
  split
  · exact h
  split
  · by_cases hkro : (w.nodes oid).kro
    · -- the node is cleaned first, and others along with it
      rw [if_pos hkro]
      have hnot : ¬((w.mitigateKRO oid).nodes oid).kro :=
        foldl_cleanKRO_not_kro (cleanKRO_kro w oid) _
      exact ⟨(evolves_foldl_cleanKRO h _).step (.dirty oid hnot), setDirty_writable hnot⟩
    · rw [if_neg hkro]
      exact ⟨h.step (.dirty oid hkro), setDirty_writable hkro⟩
  · exact h

variable {f : Unit → Handler α} {α : Type}

theorem preserves_ensureWritable_bind (hf : Preserves (Prepared w₀ oid) (f ())) :
    Preserves (Evolves w₀) (ensureWritable oid >>= f) :=
  preserves_bind_of_sat (fun _ h => ensureWritable_sat h) fun _ w h => (hf w h).1

theorem preserves_writeNode (f : NodeContent → NodeContent) :
    Preserves (Prepared w₀ oid) (writeNode oid f) :=
  preserves_modify fun _ h => ⟨h.1.step (.write oid h.2 _), (Micro.write oid h.2 _).writable h.2⟩

variable {I : World → Prop}

theorem preserves_get_bind {f : World → Handler α}
    (hf : ∀ w, Preserves I (f w)) : Preserves I (Prog.get >>= f) := fun w h => hf w w h

theorem preserves_readNode_bind {o : ℕ}
    {f : NodeContent → Handler α} (hf : ∀ c, Preserves I (f c)) :
    Preserves I (readNode o >>= f) := fun w h => hf _ w h

theorem preserves_answer (code : ExitCode) (n : ℕ) :
    Preserves I (answer code n) := preserves_pure _

theorem preserves_writeNode_answer (f : NodeContent → NodeContent) (code : ExitCode) (n : ℕ) :
    Preserves (Prepared w₀ oid) (writeNode oid f >>= fun _ => answer code n) :=
  preserves_bind (preserves_writeNode f) fun _ => preserves_answer code n

theorem preserves_nodeSetSlot_bind {slot : Fin 32} {k' : Key}
    (hf : Preserves (Prepared w₀ oid) (f ())) :
    Preserves (Evolves w₀) (nodeSetSlot oid slot k' >>= f) := by
  refine preserves_bind_of_sat (J := fun _ w => Prepared w₀ oid w) (fun w h => ?_)
    fun _ w h => (hf w h).1
  exact sat_bind (ensureWritable_sat h) fun _ w' hw' =>
    preserves_writeNode (fun c => c.setSlot slot k') w' hw'

theorem preserves_swapSlot (slot : Fin 32) (k' : Key) :
    Preserves (Evolves w₀) (swapSlot oid slot k') :=
  preserves_ensureWritable_bind (preserves_readNode_bind fun _ =>
    preserves_bind (preserves_writeNode _) fun _ => preserves_pure _)

theorem preserves_invokeGateOrVoid (k' : Key) (passed : Option Key) :
    Preserves I (invokeGateOrVoid k' passed) := by
  unfold invokeGateOrVoid
  split
  · exact preserves_pure _
  · exact preserves_answer _ _

theorem preserves_checkKeeper (c : NodeContent) :
    Preserves I (checkKeeper c) := by
  unfold checkKeeper
  split
  · exact preserves_invokeGateOrVoid _ _
  · exact preserves_answer _ _

theorem preserves_walkExtended (write : Bool) :
    Preserves (Evolves w₀) (walkExtended k m write) := by
  refine preserves_get_bind fun w => ?_
  split
  · exact preserves_answer _ _
  · split
    · exact preserves_swapSlot _ _
    · exact preserves_pure _

theorem preserves_withSlot {w1 : BitVec 32} {f : Fin 32 → Handler Reply}
    (hf : ∀ slot, Preserves I (f slot)) : Preserves I (withSlot w1 f) := by
  unfold withSlot
  split
  · exact hf _
  · exact preserves_answer _ _

theorem preserves_cloneFrom (keyType : KeyType) (k' : Key) :
    Preserves (Prepared w₀ oid) (cloneFrom oid keyType k') := by
  unfold cloneFrom
  split
  · split
    · refine preserves_bind (preserves_readNode_bind fun _ => preserves_writeNode _) fun _ => ?_
      exact preserves_answer _ _
    · exact preserves_answer _ _
  · exact preserves_answer _ _

theorem preserves_makeGuarded : Preserves I (makeGuarded k m) := by
  unfold makeGuarded
  split
  · exact preserves_answer _ _
  · exact preserves_pure _

theorem preserves_memoryKey : Preserves I (memoryKey k m) := by
  unfold memoryKey
  split
  · exact preserves_answer _ _
  · split
    · exact preserves_answer _ _
    · exact preserves_pure _
  · exact preserves_makeGuarded
  · exact preserves_answer _ _
  · exact preserves_answer _ _

/-- The requests of `NodeKey` that change the node without a call of `node_EnsureWritable`. -/
def nodeWritesUnprepared (m : Message) : Prop :=
  match m.op with
  | .nodeSetL2v => m.w1.toNat < 32
  | .nodeClearKeeper | .nodeSetBlocked | .nodeClearBlocked => True
  | _ => False

/-- The requests of `GPTKey` that change the GPT without a call of `node_EnsureWritable`. -/
def gptWritesUnprepared (m : Message) : Prop :=
  match m.op with
  | .gptSetL2v => m.w1.toNat < 64 ∧ erosPageLgsize ≤ m.w1.toNat
  | .gptClearKeeper | .gptClearBackground => True
  | _ => False

variable {h : Handler Reply}

theorem evolves_unlessOpaque (hh : ¬k.hasPerm memoryOpaque → Evolves w₀ (h w₀).state) :
    Evolves w₀ (unlessOpaque k c h w₀).state := by
  unfold unlessOpaque
  split
  · exact preserves_checkKeeper c w₀ .refl
  · rename_i ho
    exact hh ho

theorem preserves_unlessFetch (hh : Preserves I h) :
    Preserves I (unlessFetch k h) := by
  unfold unlessFetch
  split
  · exact preserves_answer _ _
  · exact hh

theorem preserves_writeNumber (slot : Fin 32) (str : List (BitVec 32)) :
    Preserves (Evolves w₀) (writeNumber oid slot str) := by
  unfold writeNumber
  split
  · exact preserves_ensureWritable_bind (preserves_writeNode_answer _ _ _)
  · exact preserves_answer _ _

/-- A request through a Node key makes changes in order, if it is not one that writes
unprepared, or finds the node writeable. -/
theorem evolves_nodeRequest
    (hok : ¬k.hasPerm memoryOpaque → nodeWritesUnprepared m → w₀.Writable oid) :
    Evolves w₀ (nodeRequest k oid c m w₀).state := by
  have hwrite : ∀ f : NodeContent → NodeContent, ¬k.hasPerm memoryOpaque →
      nodeWritesUnprepared m →
        Evolves w₀ ((writeNode oid f >>= fun _ => answer .ok) w₀).state :=
    fun f ho hm => (preserves_writeNode_answer f _ _ w₀ ⟨.refl, hok ho hm⟩).1
  unfold nodeRequest
  cases hop : m.op with
  | getType =>
    simp only
    split
    · exact preserves_invokeGateOrVoid _ _ w₀ .refl
    · exact preserves_get_bind (fun w => preserves_answer _ _) w₀ .refl
  | nodeGetSlot =>
    exact evolves_unlessOpaque fun _ => preserves_withSlot (fun _ => preserves_pure _) w₀ .refl
  | nodeSwapSlot =>
    exact evolves_unlessOpaque fun _ =>
      preserves_unlessFetch (preserves_withSlot fun slot => preserves_swapSlot slot _) w₀ .refl
  | nodeGetSlotExtended | nodeSwapSlotExtended =>
    simp only
    split
    · exact preserves_checkKeeper c w₀ .refl
    · exact preserves_walkExtended _ w₀ .refl
  | nodeReduce =>
    simp only
    split
    · exact .refl
    · exact .refl
  | nodeWriteNumber =>
    exact evolves_unlessOpaque fun _ =>
      preserves_unlessFetch (preserves_withSlot fun slot => preserves_writeNumber slot _) w₀ .refl
  | nodeGetL2v => exact evolves_unlessOpaque fun _ => .refl
  | nodeSetL2v =>
    refine evolves_unlessOpaque fun ho => ?_
    split
    · rename_i hrange
      exact hwrite _ ho (by simpa [nodeWritesUnprepared, hop] using hrange)
    · exact .refl
  | nodeMakeGuarded => exact evolves_unlessOpaque fun _ => preserves_makeGuarded w₀ .refl
  | nodeGetGuard => exact evolves_unlessOpaque fun _ => .refl
  | nodeSetKeeper =>
    exact evolves_unlessOpaque fun _ =>
      preserves_nodeSetSlot_bind (preserves_writeNode_answer _ _ _) w₀ .refl
  | nodeClearKeeper | nodeSetBlocked | nodeClearBlocked =>
    exact evolves_unlessOpaque fun ho => hwrite _ ho (by simp [nodeWritesUnprepared, hop])
  | nodeClone =>
    exact evolves_unlessOpaque fun _ => preserves_unlessFetch
      (preserves_ensureWritable_bind (preserves_cloneFrom _ _)) w₀ .refl
  | _ => exact preserves_checkKeeper c w₀ .refl

theorem evolves_gptUnlessOpaque (hh : ¬k.hasPerm memoryOpaque → Evolves w₀ (h w₀).state) :
    Evolves w₀ (gptUnlessOpaque k h w₀).state := by
  unfold gptUnlessOpaque
  split
  · exact .refl
  · rename_i ho
    exact hh ho

theorem preserves_setWindow : Preserves (Evolves w₀) (setWindow oid c m) := by
  refine preserves_withSlot fun slot => ?_
  split
  · exact preserves_answer _ _
  · exact preserves_ensureWritable_bind (preserves_writeNode_answer _ _ _)

theorem evolves_gptRequest
    (hok : ¬k.hasPerm memoryOpaque → gptWritesUnprepared m → w₀.Writable oid) :
    Evolves w₀ (gptRequest k oid c m w₀).state := by
  have hwrite : ∀ f : NodeContent → NodeContent, ¬k.hasPerm memoryOpaque →
      gptWritesUnprepared m → Evolves w₀ ((writeNode oid f >>= fun _ => answer .ok) w₀).state :=
    fun f ho hm => (preserves_writeNode_answer f _ _ w₀ ⟨.refl, hok ho hm⟩).1
  unfold gptRequest
  cases hop : m.op with
  | gptGetL2v => exact evolves_gptUnlessOpaque fun _ => .refl
  | gptSetL2v =>
    refine evolves_gptUnlessOpaque fun ho => ?_
    split
    · rename_i hrange
      exact hwrite _ ho (by simpa [gptWritesUnprepared, hop] using hrange)
    · exact .refl
  | gptGetSlot =>
    exact evolves_gptUnlessOpaque fun _ => preserves_withSlot (fun _ => preserves_pure _) w₀ .refl
  | gptSetSlot =>
    exact evolves_gptUnlessOpaque fun _ => preserves_withSlot
      (fun _ => preserves_nodeSetSlot_bind (preserves_answer _ _)) w₀ .refl
  | gptSetWindow => exact evolves_gptUnlessOpaque fun _ => preserves_setWindow w₀ .refl
  | gptClone =>
    exact evolves_gptUnlessOpaque fun _ =>
      preserves_ensureWritable_bind (preserves_cloneFrom _ _) w₀ .refl
  | gptSetKeeper | gptSetBackground =>
    exact evolves_gptUnlessOpaque fun _ =>
      preserves_nodeSetSlot_bind (preserves_writeNode_answer _ _ _) w₀ .refl
  | gptClearKeeper | gptClearBackground =>
    exact evolves_gptUnlessOpaque fun ho => hwrite _ ho (by simp [gptWritesUnprepared, hop])
  | getType => exact preserves_get_bind (fun w => preserves_answer _ _) w₀ .refl
  | _ => exact preserves_memoryKey w₀ .refl

/-- The request calls `node_EnsureWritable` before it changes the node, or the node is writeable
anyway. -/
def WriteOk (w : World) (k : Key) (m : Message) : Prop :=
  ∀ oid, objectOf k = some oid → ¬k.hasPerm memoryOpaque →
    match k.keyType with
    | .node => nodeWritesUnprepared m → w.Writable oid
    | .gpt => gptWritesUnprepared m → w.Writable oid
    | _ => True

theorem evolves_send (htype : k.keyType = .node ∨ k.keyType = .gpt)
    (hsend : send k m = some h) (hok : WriteOk w₀ k m) : Evolves w₀ (h w₀).state := by
  rcases htype with htype | htype
  · obtain rfl : nodeKey k m = h := by simpa [send, htype] using hsend
    unfold nodeKey
    cases hoid : objectOf k with
    | none => exact .refl
    | some oid =>
      refine evolves_nodeRequest fun ho => ?_
      simpa [htype] using hok oid hoid ho
  · obtain rfl : gptKey k m = h := by simpa [send, htype] using hsend
    unfold gptKey
    cases hoid : objectOf k with
    | none => exact .refl
    | some oid =>
      simp only [readNode_bind_apply]
      split
      · exact preserves_invokeGateOrVoid _ _ w₀ .refl
      · refine evolves_gptRequest fun ho => ?_
        simpa [htype] using hok oid hoid ho

end Requests

/-! ## Runs of the system -/

section Runs

/-- The state of the system, with the content at demarcation of the nodes that were dirty then,
which is what the demarcated generation has to hold. -/
structure System where
  world : World
  demarcated : ℕ → Option NodeContent

/-- What can happen to nodes. -/
inductive Event where
  /-- A message to a Node or GPT key. -/
  | message (k : Key) (m : Message)
  /-- The demarcation event of a checkpoint. -/
  | demarcate
  /-- The checkpoint cleans a kernel-read-only node. -/
  | cleanKRO (oid : ℕ)
  /-- The checkpoint comes to its end. -/
  | complete
  /-- A dirty node is cleaned while no checkpoint is active. -/
  | cleanDirty (oid : ℕ)
  /-- A clean node is stolen, and fetched again. -/
  | refetch (oid : ℕ)
  /-- Anything else that changes which objects can be made dirty and which nodes are cleaned
  together. -/
  | environment (canDirty : ℕ → Bool) (potMates : ℕ → List ℕ)

/-- Mark the dirty nodes as kernel-read-only, the scan of all nodes in `DoPhase1Work`. -/
def World.demarcate (w : World) : World :=
  { w with
    ckptActive := true
    written := fun _ => none
    nodes := fun oid =>
      if (w.nodes oid).dirty then { w.nodes oid with kro := true } else w.nodes oid }

/-- Clean a dirty node to the working generation. -/
def World.cleanDirty (w : World) (oid : ℕ) : World :=
  { w with
    nodes := update w.nodes oid { w.nodes oid with dirty := false }
    saved := update w.saved oid (w.nodes oid).content }

/-- Steal a clean node and fetch it again. -/
def World.refetch (w : World) (oid : ℕ) : World := w.setContent oid (w.saved oid)

/-- The steps of the system. -/
inductive SysStep (s : System) : Event → System → Prop where
  | message {k : Key} {m : Message} {h : Handler Reply}
      (htype : k.keyType = .node ∨ k.keyType = .gpt) (hsend : send k m = some h) :
      SysStep s (.message k m) { s with world := (h s.world).state }
  | demarcate (h : s.world.ckptActive = false) :
      SysStep s .demarcate
        ⟨s.world.demarcate, fun oid =>
          if (s.world.nodes oid).dirty then some (s.world.nodes oid).content else none⟩
  | cleanKRO (oid : ℕ) (h : s.world.ckptActive) :
      SysStep s (.cleanKRO oid) { s with world := s.world.cleanKRO oid }
  | complete (h : s.world.ckptActive) (hkro : ∀ oid, ¬(s.world.nodes oid).kro) :
      SysStep s .complete { s with world := { s.world with ckptActive := false } }
  | cleanDirty (oid : ℕ) (h : s.world.ckptActive = false) (hd : (s.world.nodes oid).dirty) :
      SysStep s (.cleanDirty oid) { s with world := s.world.cleanDirty oid }
  | refetch (oid : ℕ) (h : (s.world.nodes oid).dirty = false) :
      SysStep s (.refetch oid) { s with world := s.world.refetch oid }
  | environment (canDirty : ℕ → Bool) (potMates : ℕ → List ℕ) :
      SysStep s (.environment canDirty potMates)
        { s with world := { s.world with canDirty := canDirty, potMates := potMates } }

/-- The event is no message, or a message that makes sure the node is writeable. -/
def EventOk (w : World) : Event → Prop
  | .message k m => WriteOk w k m
  | _ => True

/-- A run all of whose messages are in order. -/
inductive OkSysRun (s : System) : System → Prop where
  | refl : OkSysRun s s
  | step {t u : System} {e : Event} (hrun : OkSysRun s t) (hok : EventOk t.world e)
      (hstep : SysStep t e u) : OkSysRun s u

/-- The checkpoint is intact, and no change is lost. -/
structure Intact (s : System) : Prop where
  /-- The images written for the demarcated generation are those of demarcation. -/
  image : ∀ oid c, s.world.written oid = some c → s.demarcated oid = some c
  /-- The nodes still to be written are dirty, and as they were at demarcation. -/
  pending : ∀ oid, (s.world.nodes oid).kro →
    (s.world.nodes oid).dirty ∧ s.demarcated oid = some (s.world.nodes oid).content
  /-- Every node that was dirty at demarcation is still to be written, or has been. -/
  covered : ∀ oid c, s.demarcated oid = some c →
    (s.world.nodes oid).kro ∨ s.world.written oid = some c
  /-- A node that holds something else than what was saved is dirty. -/
  noLoss : ∀ oid, (s.world.nodes oid).dirty = false →
    (s.world.nodes oid).content = s.world.saved oid
  /-- Nodes are kernel-read-only during a checkpoint only. -/
  inactive : s.world.ckptActive = false → ∀ oid, ¬(s.world.nodes oid).kro

/-- The system before its first checkpoint. -/
structure Initial (s : System) : Prop where
  inactive : s.world.ckptActive = false
  noKRO : ∀ oid, ¬(s.world.nodes oid).kro
  noImage : ∀ oid, s.world.written oid = none ∧ s.demarcated oid = none
  saved : ∀ oid, (s.world.nodes oid).dirty = false →
    (s.world.nodes oid).content = s.world.saved oid

variable {s : System}

theorem Initial.intact (h : Initial s) : Intact s where
  image oid c hc := absurd ((h.noImage oid).1.symm.trans hc) (by simp)
  pending oid hkro := absurd hkro (h.noKRO oid)
  covered oid c hc := absurd ((h.noImage oid).2.symm.trans hc) (by simp)
  noLoss := h.saved
  inactive _ := h.noKRO

theorem intact_cleanKRO (h : Intact s) (oid : ℕ) :
    Intact { s with world := s.world.cleanKRO oid } := by
  by_cases hkro : (s.world.nodes oid).kro
  swap
  · rw [cleanKRO_of_not_kro hkro]
    exact h
  have hdem := (h.pending oid hkro).2
  have hclean : s.world.cleanKRO oid =
      { s.world with
        nodes := update s.world.nodes oid
          { s.world.nodes oid with dirty := false, kro := false }
        saved := update s.world.saved oid (s.world.nodes oid).content
        written := update s.world.written oid (some (s.world.nodes oid).content) } :=
    if_pos hkro
  rw [hclean]
  refine ⟨fun o c hc => ?_, fun o hk => ?_, fun o c hc => ?_, fun o hd => ?_, fun hi o => ?_⟩ <;>
    by_cases ho : o = oid
  · subst ho
    simp only [update_self, Option.some.injEq] at hc
    rw [hdem, hc]
  · simp only [update_of_ne ho] at hc
    exact h.image o c hc
  · subst ho
    simp at hk
  · simp only [update_of_ne ho] at hk ⊢
    exact h.pending o hk
  · subst ho
    right
    simpa using hdem.symm.trans hc
  · simp only [update_of_ne ho]
    exact h.covered o c hc
  · subst ho
    simp
  · simp only [update_of_ne ho] at hd ⊢
    exact h.noLoss o hd
  · subst ho
    simp
  · simp only [update_of_ne ho]
    exact h.inactive hi o

theorem intact_setNode (h : Intact s) {oid : ℕ} (hkro : ¬(s.world.nodes oid).kro) {node : Node}
    (hnode : ¬node.kro) (hdirty : node.dirty = true) :
    Intact { s with world := { s.world with nodes := update s.world.nodes oid node } } := by
  have hk : ∀ o, (update s.world.nodes oid node o).kro ↔ (s.world.nodes o).kro := by
    intro o
    by_cases ho : o = oid
    · subst ho
      simp [hkro, hnode]
    · simp [ho]
  refine ⟨h.image, fun o hkr => ?_, fun o c hc => ?_, fun o hd => ?_, fun hi o => ?_⟩
  · have hne : o ≠ oid := fun he => hkro (he ▸ (hk o).1 hkr)
    simpa [hne] using h.pending o ((hk o).1 hkr)
  · rw [hk]
    exact h.covered o c hc
  · by_cases ho : o = oid
    · subst ho
      simp [hdirty] at hd
    · simp only [update_of_ne ho] at hd ⊢
      exact h.noLoss o hd
  · rw [hk]
    exact h.inactive hi o

theorem intact_evolves (h : Intact s) {w : World} (hw : Evolves s.world w) :
    Intact { s with world := w } := by
  induction hw with
  | refl => exact h
  | step _ hm ih =>
    cases hm with
    | clean oid => exact intact_cleanKRO ih oid
    | dirty oid hkro => exact intact_setNode ih hkro hkro rfl
    | write oid hwr c => exact intact_setNode ih hwr.2 hwr.2 hwr.1

theorem intact_demarcate (h : Intact s) (hi : s.world.ckptActive = false) :
    Intact ⟨s.world.demarcate, fun oid =>
      if (s.world.nodes oid).dirty then some (s.world.nodes oid).content else none⟩ := by
  have hnode : ∀ oid, (s.world.demarcate.nodes oid).content = (s.world.nodes oid).content ∧
      (s.world.demarcate.nodes oid).dirty = (s.world.nodes oid).dirty ∧
        (s.world.demarcate.nodes oid).kro = (s.world.nodes oid).dirty := by
    intro oid
    simp only [World.demarcate]
    split
    · rename_i hd
      exact ⟨rfl, rfl, hd.symm⟩
    · rename_i hd
      exact ⟨rfl, rfl, by simpa [hd] using h.inactive hi oid⟩
  refine ⟨fun o c hc => ?_, fun o hk => ?_, fun o c hc => ?_, fun o hd => ?_, fun hact => ?_⟩
  · simp [World.demarcate] at hc
  · have hd : (s.world.nodes o).dirty = true := by rw [← (hnode o).2.2]; exact hk
    simp only [(hnode o).2.1, (hnode o).1, hd, if_true, and_self]
  · left
    simp only at hc ⊢
    rw [(hnode o).2.2]
    by_contra hd
    rw [if_neg hd] at hc
    cases hc
  · simp only at hd ⊢
    rw [(hnode o).1]
    exact h.noLoss o (by rw [← (hnode o).2.1, hd])
  · simp [World.demarcate] at hact

theorem sysStep_intact {s' : System} {e : Event} (h : Intact s) (hok : EventOk s.world e)
    (hstep : SysStep s e s') : Intact s' := by
  cases hstep with
  | message htype hsend => exact intact_evolves h (evolves_send htype hsend hok)
  | demarcate hi => exact intact_demarcate h hi
  | cleanKRO oid _ => exact intact_cleanKRO h oid
  | complete _ hkro => exact ⟨h.image, h.pending, h.covered, h.noLoss, fun _ => hkro⟩
  | cleanDirty oid hi hd =>
    have hk : ∀ o, ((s.world.cleanDirty oid).nodes o).kro = (s.world.nodes o).kro := by
      intro o
      by_cases ho : o = oid
      · subst ho
        simp [World.cleanDirty]
      · simp [World.cleanDirty, ho]
    refine ⟨h.image, fun o hkr => absurd (hk o ▸ hkr) (h.inactive hi o), fun o c hc => ?_,
      fun o hd' => ?_, fun hi' o => ?_⟩
    · rw [hk]
      exact h.covered o c hc
    · by_cases ho : o = oid
      · subst ho
        simp [World.cleanDirty]
      · simp only [World.cleanDirty, update_of_ne ho] at hd' ⊢
        exact h.noLoss o hd'
    · rw [hk]
      exact h.inactive hi' o
  | refetch oid hd =>
    -- the node is clean, so what was saved is what it holds
    have hsame : s.world.refetch oid = s.world := by
      unfold World.refetch World.setContent
      rw [← h.noLoss oid hd, update_eq_self]
    rw [hsame]
    exact h
  | environment canDirty potMates => exact ⟨h.image, h.pending, h.covered, h.noLoss, h.inactive⟩

/-- In every run whose messages to Node and GPT keys either call `node_EnsureWritable` before they
change the node, or find it writeable, every checkpoint is intact and no change is lost; and such
a message changes a node only while the node is dirty and not kernel-read-only. -/
theorem okRun_intact (s s' : System) (hinit : Initial s) (hrun : OkSysRun s s') :
    Intact s' ∧ ∀ (k : Key) (m : Message) (h : Handler Reply) (oid : ℕ),
      k.keyType = .node ∨ k.keyType = .gpt → send k m = some h → WriteOk s'.world k m →
        ((h s'.world).state.nodes oid).content = (s'.world.nodes oid).content ∨
          (h s'.world).state.Writable oid := by
  constructor
  · induction hrun with
    | refl => exact hinit.intact
    | step _ hok hstep ih => exact sysStep_intact ih hok hstep
  · intro k m h oid htype hsend hok
    exact (evolves_send htype hsend hok).content oid

end Runs

/-- A node that holds void keys, and is dirty, in a system that has made no checkpoint. -/
def dirtySystem : System where
  world :=
    { nodes := fun _ => ⟨⟨fun _ => .void, 0⟩, true, false⟩
      pages := fun _ _ => 0
      canDirty := fun _ => true
      potMates := fun _ => []
      nthPage := fun _ _ => none
      typeCode := fun _ => 0
      ckptActive := false
      saved := fun _ => ⟨fun _ => .void, 0⟩
      written := fun _ => none }
  demarcated := fun _ => none

theorem initial_dirtySystem : Initial dirtySystem :=
  ⟨rfl, fun _ => by simp [dirtySystem], fun _ => ⟨rfl, rfl⟩, fun _ h => by simp [dirtySystem] at h⟩

/-- A Node key without restrictions. -/
def plainNodeKey : Key := ⟨.node, 0, 0, .prep 0⟩

/-- The system after demarcation. -/
def demarcatedSystem : System :=
  ⟨dirtySystem.world.demarcate, fun _ => some ⟨fun _ => .void, 0⟩⟩

theorem sysStep_demarcatedSystem : SysStep dirtySystem .demarcate demarcatedSystem := .demarcate rfl

/-- The system after a keeper is set then. -/
def keeperSystem : System :=
  { demarcatedSystem with
    world := (nodeKey plainNodeKey { op := .nodeSetKeeper } demarcatedSystem.world).state }

theorem okRun_intact_setKeeper : Intact keeperSystem := by
  have hmark : EventOk dirtySystem.world .demarcate := trivial
  have hok : EventOk demarcatedSystem.world (.message plainNodeKey { op := .nodeSetKeeper }) :=
    fun _ _ _ h => by simp [nodeWritesUnprepared] at h
  have hset : SysStep demarcatedSystem (.message plainNodeKey { op := .nodeSetKeeper })
      keeperSystem := .message (.inl rfl) rfl
  have hrun : OkSysRun dirtySystem keeperSystem :=
    .step (.step .refl hmark sysStep_demarcatedSystem) hok hset
  exact (okRun_intact _ _ initial_dirtySystem hrun).1

/-- `setBlocked` after demarcation changes a kernel-read-only node, and the changed node becomes
the image of the demarcated generation. -/
theorem setBlocked_alters_image :
    ∃ s₁ s₂ s₃, SysStep dirtySystem .demarcate s₁ ∧
      SysStep s₁ (.message plainNodeKey { op := .nodeSetBlocked }) s₂ ∧
      SysStep s₂ (.cleanKRO 0) s₃ ∧
      (s₃.world.written 0).map NodeContent.l2vField ≠
        (s₃.demarcated 0).map NodeContent.l2vField := by
  refine ⟨_, _, _, sysStep_demarcatedSystem, .message (.inl rfl) rfl, .cleanKRO 0 rfl, ?_⟩
  decide

end CapROS.NodeKey
