import CapROS.ObjectCache.System

/-!
# Invariants and the operations on nodes

An invariant that says nothing of the node frames is kept by the operations on nodes, if it is kept where they
record locations, collect candidates and make log pots.
-/

namespace CapROS.ObjectCache

open Yielding

/-- What is to be shown of an invariant. `ready` is a condition on the resources with which log pots are made. -/
structure NodeRules (cfg : Config) (I : State → Prop) (ready : Resources → Prop) : Prop where
  nodes : ∀ (s : State) (nodes : ℕ → NodeFrame) (count : ℤ) (cursor : ℕ), I s →
    I { s with nodes := nodes, numKRONodes := count, kroNodeCleanCursor := cursor }
  recordNull : ∀ oid allocCount callCount, Maintains I (recordLocation oid allocCount callCount 0 .node)
  addToClean : ∀ n, Maintains I (addNodeToClean n)
  cleanAPot : ∀ {res : Resources}, ready res → ∀ force, Maintains I (cleanAPotOfNodes cfg res force)
  declare : Maintains I declareDemarcationEvent

namespace NodeRules

variable {cfg : Config} {I : State → Prop} {ready : Resources → Prop} (h : NodeRules cfg I ready)
  {res : Resources} {n : ℕ}

theorem readNode : Maintains I (readNode n) := fun _ hs => hs

include h

theorem updateNode (g : NodeFrame → NodeFrame) : Maintains I (updateNode n g) := fun s hs => h.nodes s _ _ _ hs

theorem nodeClearDirty : Maintains I (nodeClearDirty n) := by
  refine maintains_bind readNode fun _ => maintains_bind (maintains_when fun _ => ?_) fun _ => h.updateNode _
  refine maintains_bind (maintains_modify fun s hs => h.nodes s _ _ _ hs) fun _ => ?_
  exact maintains_get_bind fun _ => maintains_check_bind fun _ => h.updateNode _

theorem nodeClean (hres : ready res) : Maintains I (nodeClean cfg res n) :=
  maintains_bind readNode fun _ => maintains_ite
    (fun _ => maintains_bind (h.recordNull _ _ _) fun _ => maintains_bind h.nodeClearDirty fun _ => maintains_pure _)
    fun _ => maintains_bind (h.addToClean n) fun _ => h.cleanAPot hres false

theorem releaseNodeFrame : Maintains I (releaseNodeFrame n) :=
  maintains_bind readNode fun _ => maintains_check_bind fun _ => maintains_check_bind fun _ => h.updateNode _

theorem ageNodeSteal (hres : ready res) : Maintains I (ageNodeSteal cfg res n) := by
  refine maintains_bind readNode fun _ => maintains_get_bind fun _ => maintains_ite
    (fun _ => maintains_ite (fun _ => maintains_ite (fun _ => maintains_pure _) fun _ => ?_)
      fun _ => h.releaseNodeFrame) fun _ => maintains_pure _
  exact maintains_bind (h.nodeClean hres) fun _ => maintains_when fun _ => h.releaseNodeFrame

theorem cleanAKRONode (hres : ready res) : Maintains I (cleanAKRONode cfg res) := by
  refine maintains_get_bind fun t => maintains_check_bind fun _ => ?_
  split
  · exact maintains_bind (maintains_modify fun s hs => h.nodes s _ _ _ hs) fun _ =>
      maintains_bind (h.nodeClean hres) fun _ => maintains_pure _
  · refine maintains_bind (maintains_modify fun s hs => h.nodes s _ _ _ hs) fun _ => maintains_bind ?_ fun _ =>
      maintains_get_bind fun _ => maintains_check_bind fun _ => maintains_pure _
    exact maintains_get_bind fun _ => maintains_ite (fun _ => maintains_pure _) fun _ =>
      maintains_bind (h.cleanAPot hres true) fun _ => maintains_pure _

variable {ress : ℕ → Resources} (hready : ∀ k, ready (ress k))
include hready

theorem cleanUntilWritable (fuel : ℕ) : Maintains I (cleanUntilWritable cfg ress n fuel) := by
  induction fuel with
  | zero => exact maintains_halt _
  | succ fuel ih =>
    exact maintains_bind readNode fun _ => maintains_ite
      (fun _ => maintains_bind (h.cleanAKRONode (hready fuel)) fun _ => ih) fun _ => maintains_pure _

theorem nodeMitigateKRO : Maintains I (nodeMitigateKRO cfg ress n) := by
  refine maintains_bind readNode fun _ => maintains_check_bind fun _ => maintains_check_bind fun _ =>
    maintains_bind (h.cleanAPot (hready _) false) fun _ => maintains_bind readNode fun _ =>
    maintains_ite (fun _ => ?_) fun _ => maintains_pure _
  exact maintains_bind (h.nodeClean (hready _)) fun _ => maintains_ite (fun _ => maintains_pure _)
    fun _ => h.cleanUntilWritable hready _

theorem ensureWritableNodeActive (sp : Space) : Maintains I (ensureWritableNodeActive cfg ress sp n) := by
  refine maintains_bind ?_ fun _ => maintains_bind readNode fun _ =>
    maintains_bind (maintains_when fun _ => h.nodeMitigateKRO hready) fun _ => h.updateNode _
  exact fun _ hs => sat_check_bind fun _ => sat_check_bind fun _ => sat_check fun _ => hs

theorem ensureWritableNodeHeld (sp : Space) : Maintains I (ensureWritableNodeHeld cfg ress sp n) := by
  refine maintains_bind readNode fun _ => maintains_when fun _ => maintains_bind readNode fun _ =>
    maintains_ite (fun _ => maintains_pure _) fun _ => maintains_check_bind fun _ => maintains_get_bind fun _ =>
    maintains_ite (fun _ => ?_) fun _ => h.ensureWritableNodeActive hready sp
  refine maintains_bind readNode fun _ => maintains_check_bind fun _ => maintains_ite (fun _ => ?_) fun _ =>
    maintains_check_bind fun _ => h.updateNode _
  exact maintains_bind h.declare fun _ => h.ensureWritableNodeActive hready sp

end NodeRules

/-- The operations on nodes, with resources with which they may make log pots. -/
def IsNodeOp (ready : Resources → Prop) : Op → Prop
  | .getNodeFromPot _ _ _ | .createNewNullNode _ _ _ | .storeNode _ _ _ _ | .setNodeAge _ _
  | .declareDemarcationEvent => True
  | .ensureWritableNode res _ _ => ∀ k, ready (res k)
  | .ageNodeSteal res _ | .cleanAPotOfNodes res | .cleanAKRONode res => ready res
  | _ => False

theorem inPhase_maintains {I : State → Prop} {p : CkptState} {m : Kernel Unit} (hm : Maintains I m) :
    Maintains I (inPhase p m) := maintains_get_bind fun _ => maintains_when fun _ => hm

theorem NodeRules.exec {cfg : Config} {I : State → Prop} {ready : Resources → Prop} (h : NodeRules cfg I ready)
    {op : Op} (hop : IsNodeOp ready op) : Maintains I (exec cfg op) := by
  cases op with
  | getNodeFromPot n f obIndex =>
    refine maintains_bind readNode fun nd => maintains_bind (fun _ hs => hs) fun fr =>
      maintains_ite (fun _ => maintains_yield) fun _ => ?_
    cases fr.data with
    | pot nodes => exact h.updateNode _
    | page d => exact maintains_yield
  | createNewNullNode n oid allocCount =>
    exact maintains_bind readNode fun _ => maintains_ite (fun _ => maintains_yield) fun _ => h.updateNode _
  | storeNode n nodeData slots callCount =>
    exact maintains_bind readNode fun _ => maintains_when fun _ => h.updateNode _
  | setNodeAge n objAge => exact h.updateNode fun nd => { nd with objAge }
  | declareDemarcationEvent => exact inPhase_maintains h.declare
  | ensureWritableNode res sp n => exact h.ensureWritableNodeHeld hop sp
  | ageNodeSteal res n => exact h.ageNodeSteal hop
  | cleanAPotOfNodes res => exact maintains_bind (h.cleanAPot hop false) fun _ => maintains_pure _
  | cleanAKRONode res =>
    exact inPhase_maintains (maintains_bind (h.cleanAKRONode hop) fun _ => maintains_pure _)
  | _ => exact hop.elim

end CapROS.ObjectCache
