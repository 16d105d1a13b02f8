import CapROS.ObjectSource.HomePots
import CapROS.RangeKey.RangeTable

/-!
# Tag pots

The frames of a home range are in clusters, and before the frames of a cluster comes a tag pot, with the allocation
counts and the types of these frames (`disk/TagPot.h`). `IOSource_GetObjectType` looks for the tag pot of a frame in the
object hash, and starts to read it if it is not there. The tag pot is in the object hash under the number of the first
frame of its cluster, to which the OID at which the range starts is added.

* `FrameOk`, `tagPots_distinct`: the locations and the identities of frames and tag pots.
-/

namespace CapROS.ObjectSource

open Yielding RangeKey

/-! ## The code -/

def frameToCluster (relFrame : ℕ) : ℕ := relFrame / framesPerCluster

def frameIndexInCluster (relFrame : ℕ) : ℕ := relFrame % framesPerCluster

def clusterToTagPotRelID (cluster : ℕ) : ℕ := cluster * framesPerCluster

def clusterToTagPotRangeLoc (cluster : ℕ) : ℕ := cluster * (framesPerCluster + 1)

def tagTypeMask : ℕ := 0x7f

/-- `ObjectLocator`, for an object whose type is in a tag pot. -/
structure ObjectLocator where
  tagPotPageH : ℕ
  range : ObjectRange
  potEntry : ℕ
  objType : ℕ
  deriving DecidableEq, Repr

def relFrame (rng : ObjectRange) (oid : ℕ) : ℕ := oidToFrame (oid - rng.start)

def tagPotID (rng : ObjectRange) (oid : ℕ) : ℕ :=
  clusterToTagPotRelID (frameToCluster (relFrame rng oid)) + rng.start

/-- The tag pot that is requested. -/
def newTagPot (number : ℕ) (rng : ObjectRange) (oid page : ℕ) : Pot :=
  ⟨page, .tagPot, tagPotID rng oid, true, number, clusterToTagPotRangeLoc (frameToCluster (relFrame rng oid))⟩

/-- `IOSource_GetObjectType`, for the range with this number. The tags are those in the pages. -/
def ioSourceGetObjectType (c : Caller) (tags : ℕ → ℕ → ℕ) (number : ℕ) (rng : ObjectRange) (oid : ℕ) :
    Kernel ObjectLocator := do
  let s ← Prog.get
  -- Is the tag pot in memory?
  match objHLookup s (tagPotID rng oid) .tagPot with
  | some p => do
    objHEnsureNotFetching c p
    let potEntry := frameIndexInCluster (relFrame rng oid)
    pure ⟨p.page, rng, potEntry, tags p.page potEntry &&& tagTypeMask⟩
  | none => do
    let page ← allocateIOReqAndPage c
    let pot := newTagPot number rng oid page
    Prog.modify fun s => { s with hash := pot :: s.hash, queue := s.queue ++ [pot.request] }
    sleepOnPFHQueue c

/-! ## The layout of a range -/

/-- What a range location is for. -/
inductive Content where
  | tagPot (cluster : ℕ)
  | frame (relFrame : ℕ)
  deriving DecidableEq, Repr

/-- The range locations up to that of the last of `n` frames. Before each cluster comes its tag pot. -/
def layout : ℕ → List Content
  | 0 => []
  | n + 1 =>
      layout n ++ ((if framesPerCluster ∣ n then [.tagPot (n / framesPerCluster)] else []) ++ [.frame n])

/-- The frame, and the tag pot of its cluster, are where the layout has them. -/
structure FrameOk (f : ℕ) : Prop where
  frame : ∀ n, f < n → (layout n)[frameToRangeLoc f]? = some (.frame f)
  tagPot : ∀ n, f < n → (layout n)[clusterToTagPotRangeLoc (frameToCluster f)]? = some (.tagPot (frameToCluster f))
  ne_tagPot : ∀ c, frameToRangeLoc f ≠ clusterToTagPotRangeLoc c
  /-- The tag pot has an entry for the frame. -/
  index_lt : frameIndexInCluster f < framesPerCluster
  index : clusterToTagPotRelID (frameToCluster f) + frameIndexInCluster f = f
  place : frameToRangeLoc f = clusterToTagPotRangeLoc (frameToCluster f) + 1 + frameIndexInCluster f
  /-- The location of the frame of a 64-bit OID is below `2 ^ 64`. -/
  fits : ∀ relOid < wordSize, f = oidToFrame relOid → frameToRangeLoc f < wordSize

variable {f g n number oid : ℕ} {c : Caller} {rng : ObjectRange} {tags : ℕ → ℕ → ℕ} {s : State}

theorem framesPerCluster_pos : 0 < framesPerCluster := by decide

theorem frameToRangeLoc_eq (f : ℕ) :
    frameToRangeLoc f = clusterToTagPotRangeLoc (frameToCluster f) + 1 + frameIndexInCluster f := by
  have h := Nat.div_add_mod f framesPerCluster
  rw [frameToRangeLoc, clusterToTagPotRangeLoc, frameToCluster, frameIndexInCluster, Nat.mul_add, Nat.mul_one,
    Nat.mul_comm]
  omega

theorem strictMono_frameToRangeLoc : StrictMono frameToRangeLoc := by
  intro f g hlt
  have h : f / framesPerCluster ≤ g / framesPerCluster := Nat.div_le_div_right hlt.le
  rw [frameToRangeLoc, frameToRangeLoc]
  omega

theorem frameToRangeLoc_mod (f : ℕ) : frameToRangeLoc f % (framesPerCluster + 1) = frameIndexInCluster f + 1 := by
  have hlt : frameIndexInCluster f < framesPerCluster := Nat.mod_lt f framesPerCluster_pos
  rw [frameToRangeLoc_eq, clusterToTagPotRangeLoc, Nat.add_assoc, Nat.mul_comm, Nat.mul_add_mod, Nat.add_comm 1,
    Nat.mod_eq_of_lt (Nat.succ_lt_succ hlt)]

/-- The next frame comes after the layout, and after a tag pot if it is the first one of its cluster. -/
theorem length_layout (n : ℕ) :
    (layout n).length + (if framesPerCluster ∣ n then 1 else 0) = frameToRangeLoc n := by
  induction n with
  | zero => rfl
  | succ n ih =>
    -- the quotient grows at the first frame of a cluster only
    have hdiv : (n + 1) / framesPerCluster = _ := Nat.succ_div
    have hlen : (layout (n + 1)).length = (layout n).length + (if framesPerCluster ∣ n then 1 else 0) + 1 := by
      rw [layout, List.length_append, List.length_append]
      split_ifs <;> rfl
    rw [hlen, ih, frameToRangeLoc, frameToRangeLoc, hdiv]
    omega

theorem layout_mono {m : ℕ} (h : m ≤ n) : layout m <+: layout n := by
  induction n, h using Nat.le_induction with
  | base => exact List.prefix_refl _
  | succ n _ ih => exact ih.trans (List.prefix_append _ _)

theorem getElem?_layout {i : ℕ} {x : Content} (hf : f < n) (h : (layout (f + 1))[i]? = some x) :
    (layout n)[i]? = some x := by
  obtain ⟨hi, hx⟩ := List.getElem?_eq_some_iff.1 h
  rw [← hx]
  exact List.prefix_iff_getElem?.1 (layout_mono hf) i hi

theorem layout_frame (f : ℕ) : (layout (f + 1))[frameToRangeLoc f]? = some (.frame f) := by
  rw [layout, ← length_layout f]
  split_ifs <;> simp

theorem layout_tagPot (c : ℕ) :
    (layout (c * framesPerCluster + 1))[clusterToTagPotRangeLoc c]? = some (.tagPot c) := by
  have hdvd : framesPerCluster ∣ c * framesPerCluster := Nat.dvd_mul_left _ _
  have hlen := length_layout (c * framesPerCluster)
  rw [if_pos hdvd, frameToRangeLoc, Nat.mul_div_cancel c framesPerCluster_pos, Nat.add_right_cancel_iff] at hlen
  rw [layout, if_pos hdvd, Nat.mul_div_cancel c framesPerCluster_pos, clusterToTagPotRangeLoc, Nat.mul_add,
    Nat.mul_one, ← hlen]
  simp

theorem frameOk (f : ℕ) : FrameOk f where
  frame _ h := getElem?_layout h (layout_frame f)
  tagPot _ h := getElem?_layout ((Nat.div_mul_le_self f framesPerCluster).trans_lt h) (layout_tagPot _)
  ne_tagPot c he := by
    have hmod := frameToRangeLoc_mod f
    rw [he, clusterToTagPotRangeLoc, Nat.mul_mod_left] at hmod
    exact Nat.succ_ne_zero _ hmod.symm
  index_lt := Nat.mod_lt f framesPerCluster_pos
  index := Nat.div_add_mod' f framesPerCluster
  place := frameToRangeLoc_eq f
  fits relOid h hf := by
    have hle := Nat.div_le_self f framesPerCluster
    have heq : f = relOid / 256 := hf
    have hsize : wordSize = 18446744073709551616 := rfl
    rw [frameToRangeLoc]
    omega

/-! ## The tag pots in the object hash -/

theorem sat_sleepOnPFHQueue {α : Type} {Q : α → State → Prop} {Y : State → Prop} {E : Halt → State → Prop}
    (hY : Y s) (hE : ∀ e, E e s) : ((sleepOnPFHQueue c : Kernel α) s).Sat Q Y E := by
  by_cases hpfh : c.isPFH = false
  · rw [sleepOnPFHQueue_yield hpfh]
    exact hY
  · rw [sleepOnPFHQueue_halt hpfh]
    exact hE _

theorem sat_allocateIOReqAndPage :
    (allocateIOReqAndPage c s).Sat (fun _ s' => s' = { s with freeIOReqs := s.freeIOReqs - 1 }) (· = s) fun _ s' => s' = s := by
  refine sat_bind (R := fun _ s' => s' = s) ?_ ?_
  · unfold grabPageFrame
    split
    · exact rfl
    · split_ifs <;> exact rfl
  · rintro page _ rfl
    refine sat_ite (fun _ => ?_) fun _ => ?_
    · exact rfl
    · exact sat_sleepOnPFHQueue rfl fun _ => rfl

/-- `IOSource_GetObjectType` returns the tag of the frame in the tag pot under its number. If there is no such pot,
and there are a page frame and an `IORequest` for it, it puts the pot there and requests it. It does nothing else. -/
structure Identified (c : Caller) (tags : ℕ → ℕ → ℕ) (s : State) (number : ℕ) (rng : ObjectRange) (oid : ℕ)
    (o : Outcome Halt State ObjectLocator) : Prop where
  entry : ∀ loc s', o = .done loc s' → loc.potEntry = frameIndexInCluster (relFrame rng oid) ∧
    ∃ p ∈ s.hash, p.page = loc.tagPotPageH ∧ p.obType = .tagPot ∧ p.oid = tagPotID rng oid
  fetch : o.state = s ∨ ∃ page, o.state = s.startFetch (newTagPot number rng oid page)
  hit : ∀ p, objHLookup s (tagPotID rng oid) .tagPot = some p → p.fetching = false →
    ∃ entry, entry = frameIndexInCluster (relFrame rng oid) ∧
      o = .done ⟨p.page, rng, entry, tags p.page entry &&& tagTypeMask⟩ s
  miss : objHLookup s (tagPotID rng oid) .tagPot = none → HasFrame c s → 0 < s.freeIOReqs → c.isPFH = false →
    ∃ page, o = .yield (s.startFetch (newTagPot number rng oid page))

theorem ioSourceGetObjectType_sat : (ioSourceGetObjectType c tags number rng oid s).Sat
    (fun loc s' => s' = s ∧ loc.potEntry = frameIndexInCluster (relFrame rng oid) ∧
      ∃ p ∈ s.hash, p.page = loc.tagPotPageH ∧ p.obType = .tagPot ∧ p.oid = tagPotID rng oid)
    (fun s' => s' = s ∨ ∃ page, s' = s.startFetch (newTagPot number rng oid page))
    (fun _ s' => s' = s ∨ ∃ page, s' = s.startFetch (newTagPot number rng oid page)) := by
  unfold ioSourceGetObjectType
  rw [bind_apply, get_apply, andThen_done]
  cases hlook : objHLookup s (tagPotID rng oid) .tagPot with
  | some p =>
    have hid := List.find?_some hlook
    simp only [decide_eq_true_eq] at hid
    refine sat_bind (R := fun _ s' => s' = s) ?_ ?_
    · exact sat_ite (fun _ => sat_sleepOnPFHQueue (.inl rfl) fun _ => .inl rfl) fun _ => rfl
    · rintro _ _ rfl
      exact ⟨rfl, rfl, p, List.mem_of_find?_eq_some hlook, rfl, hid.2, hid.1⟩
  | none =>
    refine sat_bind (sat_allocateIOReqAndPage.mono (fun _ _ h => h) (fun _ h => .inl h) fun _ _ h => .inl h) ?_
    rintro page _ rfl
    exact sat_sleepOnPFHQueue (.inr ⟨page, rfl⟩) fun _ => .inr ⟨page, rfl⟩

theorem identified : Identified c tags s number rng oid (ioSourceGetObjectType c tags number rng oid s) where
  entry loc s' ho := by
    have hsat := @ioSourceGetObjectType_sat number oid c rng tags s
    rw [ho] at hsat
    exact hsat.2
  fetch := by
    have hsat := @ioSourceGetObjectType_sat number oid c rng tags s
    revert hsat
    cases ioSourceGetObjectType c tags number rng oid s with
    | done loc s' => exact fun h => .inl h.1
    | yield s' | halt e s' => exact id
  hit p hlook hread := by
    refine ⟨_, rfl, ?_⟩
    unfold ioSourceGetObjectType
    rw [bind_apply, get_apply, andThen_done, hlook]
    dsimp only
    rw [bind_apply, objHEnsureNotFetching, hread]
    rfl
  miss hlook hframe hreq hpfh := by
    obtain ⟨page, hpage, hfree⟩ := hframe
    refine ⟨page, ?_⟩
    unfold ioSourceGetObjectType
    rw [bind_apply, get_apply, andThen_done, hlook]
    dsimp only
    rw [bind_apply, allocateIOReqAndPage, bind_apply, grabPageFrame_done hpage hfree, andThen_done, bind_apply, get_apply,
      andThen_done, if_pos hreq]
    exact sleepOnPFHQueue_yield hpfh

theorem mounts_tagPotID (h : rng.Mounts oid) : rng.Mounts (tagPotID rng oid) := by
  have hcluster : clusterToTagPotRelID (frameToCluster (relFrame rng oid)) ≤ relFrame rng oid :=
    Nat.div_mul_le_self _ _
  have hframe : relFrame rng oid ≤ oid - rng.start := Nat.div_le_self _ _
  obtain ⟨hstart, hfin⟩ := h
  constructor
  · exact Nat.le_add_left _ _
  · rw [tagPotID]
    omega

/-- Frames and tag pots are laid out cluster by cluster, and the tag pots of different clusters, or of different ranges
that are disjoint, are cached under different numbers. -/
theorem tagPots_distinct (ranges : Set ObjectRange)
    (hdisj : ∀ rng ∈ ranges, ∀ rng' ∈ ranges, ∀ oid, rng.Mounts oid → rng'.Mounts oid → rng = rng') :
    (∀ f, FrameOk f) ∧ StrictMono frameToRangeLoc ∧ Function.Injective frameToRangeLoc ∧
      (∀ c tags number rng oid s, Identified c tags s number rng oid (ioSourceGetObjectType c tags number rng oid s)) ∧
      ∀ rng ∈ ranges, ∀ rng' ∈ ranges, ∀ oid oid', rng.Mounts oid → rng'.Mounts oid' →
        tagPotID rng oid = tagPotID rng' oid' →
          rng = rng' ∧ frameToCluster (relFrame rng oid) = frameToCluster (relFrame rng' oid') := by
  refine ⟨frameOk, strictMono_frameToRangeLoc, strictMono_frameToRangeLoc.injective,
    fun _ _ _ _ _ _ => identified, ?_⟩
  intro rng hrng rng' hrng' oid oid' hoid hoid' heq
  -- both identities are in their ranges, so equal ones are in one range
  have hboth := mounts_tagPotID hoid'
  rw [← heq] at hboth
  obtain rfl := hdisj rng hrng rng' hrng' _ (mounts_tagPotID hoid) hboth
  exact ⟨rfl, Nat.eq_of_mul_eq_mul_right framesPerCluster_pos (Nat.add_right_cancel heq)⟩

/-- There are two ranges. The frames 0 and 819 of the first one are in different clusters. -/
theorem tagPots_distinct_two : tagPotID ⟨0, 256000⟩ 0 ≠ tagPotID ⟨0, 256000⟩ 209664 ∧
    tagPotID ⟨0, 256000⟩ 209664 ≠ tagPotID ⟨256000, 512000⟩ 256000 := by
  have hdisj : ∀ rng ∈ ({⟨0, 256000⟩, ⟨256000, 512000⟩} : Set ObjectRange),
      ∀ rng' ∈ ({⟨0, 256000⟩, ⟨256000, 512000⟩} : Set ObjectRange), ∀ oid,
      rng.Mounts oid → rng'.Mounts oid → rng = rng' := by
    rintro rng (rfl | rfl) rng' (rfl | rfl) oid ⟨hstart, hfin⟩ ⟨hstart', hfin'⟩
    · rfl
    · exact absurd (hfin.trans_le hstart') (lt_irrefl _)
    · exact absurd (hfin'.trans_le hstart) (lt_irrefl _)
    · rfl
  have hids := (tagPots_distinct _ hdisj).2.2.2.2
  constructor
  · intro heq
    have hcluster := (hids _ (.inl rfl) _ (.inl rfl) 0 209664 ⟨le_rfl, by norm_num⟩ ⟨Nat.zero_le _, by norm_num⟩ heq).2
    revert hcluster
    decide
  · intro heq
    have hrange := (hids _ (.inl rfl) _ (.inr rfl) 209664 256000 ⟨Nat.zero_le _, by norm_num⟩ ⟨le_rfl, by norm_num⟩
      heq).1
    cases hrange

end CapROS.ObjectSource
