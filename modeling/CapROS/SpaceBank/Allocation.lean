import CapROS.ObjSpace.Runs
import CapROS.SpaceBank.Storage

/-!
# Requests to allocate objects that fail

A request for objects can fail because a type is invalid, because the bank or one of its ancestors is at
its limit, because there are no frames, or because the range key refuses an object. The objects that the
request has got by then are deallocated.

* `allocRequest_unchanged_iff`: the failures that leave everything unchanged.
-/

namespace CapROS.SpaceBank

open ObjSpace (BaseType allocFrame releaseFrame)

variable {G : Setting} {S S₁ S' : BankStorage} {bank b type oid : ℕ} {chain : List ℕ} {x : Option ℕ}

structure Unchanged (S S' : BankStorage) : Prop where
  allocCount : ∀ b, (S'.banks.bank b).allocCount = (S.banks.bank b).allocCount
  nodeFrame : ∀ b, (S'.banks.bank b).nodeFrame = (S.banks.bank b).nodeFrame
  allocs : ∀ b type, (S'.banks.bank b).allocs type = (S.banks.bank b).allocs type
  deallocs : ∀ b type, (S'.banks.bank b).deallocs type = (S.banks.bank b).deallocs type
  tree : ∀ b, S'.tree b = S.tree b
  nodes : S'.nodes = S.nodes

/-! ## What the parts leave alone -/

/-- The statistics are the same. -/
def SameStats (S S' : BankStorage) : Prop :=
  ∀ b, (S'.banks.bank b).allocs = (S.banks.bank b).allocs ∧ (S'.banks.bank b).deallocs = (S.banks.bank b).deallocs

/-- The caches and the counts are the same. -/
def SameCounts (S S' : BankStorage) : Prop :=
  ∀ b, (S'.banks.bank b).nodeFrame = (S.banks.bank b).nodeFrame ∧
    (S'.banks.bank b).allocCount = (S.banks.bank b).allocCount

theorem SameStats.refl (S : BankStorage) : SameStats S S := fun _ => ⟨rfl, rfl⟩

theorem SameStats.trans (h : SameStats S S₁) (h' : SameStats S₁ S') : SameStats S S' := fun b =>
  ⟨(h' b).1.trans (h b).1, (h' b).2.trans (h b).2⟩

theorem bank_setBank {β : Type} (S : BankStorage) (bank : ℕ) (f : Bank → β) (v : Bank) (h : f v = f (S.banks.bank bank)) (b : ℕ) :
    f ((S.setBank bank v).banks.bank b) = f (S.banks.bank b) := by
  by_cases hb : b = bank
  · subst hb
    simpa [BankStorage.setBank, Banks.setBank] using h
  · simp [BankStorage.setBank, Banks.setBank, hb]

theorem setTree_sameStats (S : BankStorage) (bank : ℕ) (N : TreeNodes) (T : AllocTree) : SameStats S (S.setTree bank N T) := fun b =>
  ⟨bank_setBank S bank Bank.allocs { S.banks.bank bank with allocTree := T } rfl b,
    bank_setBank S bank Bank.deallocs { S.banks.bank bank with allocTree := T } rfl b⟩

theorem setTree_sameCounts (S : BankStorage) (bank : ℕ) (N : TreeNodes) (T : AllocTree) : SameCounts S (S.setTree bank N T) := fun b =>
  ⟨bank_setBank S bank Bank.nodeFrame { S.banks.bank bank with allocTree := T } rfl b,
    bank_setBank S bank Bank.allocCount { S.banks.bank bank with allocTree := T } rfl b⟩

theorem setNodeFrame_sameStats (S : BankStorage) (bank : ℕ) (frame : MOFrame) : SameStats S (S.setNodeFrame bank frame) := fun b =>
  ⟨bank_setBank S bank Bank.allocs { S.banks.bank bank with nodeFrame := frame } rfl b,
    bank_setBank S bank Bank.deallocs { S.banks.bank bank with nodeFrame := frame } rfl b⟩

theorem setCount_stats (B : Banks) (bank : ℕ) (c : BitVec 64) (b : ℕ) :
    ((B.setCount bank c).bank b).allocs = (B.bank b).allocs ∧
      ((B.setCount bank c).bank b).deallocs = (B.bank b).deallocs := by
  by_cases hb : b = bank
  · subst hb
    simp [Banks.setCount, Banks.setBank]
  · simp [Banks.setCount, Banks.setBank, hb]

variable {B B' : Banks} {count : BitVec 64} {curBank n : ℕ}

theorem reserveLoop_stats (h : reserveLoop count n bank B = .ok (curBank, B')) (b : ℕ) :
    (B'.bank b).allocs = (B.bank b).allocs ∧ (B'.bank b).deallocs = (B.bank b).deallocs := by
  induction n generalizing bank B with
  | zero => cases h
  | succ n ih =>
    rw [reserveLoop] at h
    split at h
    · cases h
      exact ⟨rfl, rfl⟩
    · split at h
      · cases h
        exact ⟨rfl, rfl⟩
      · obtain ⟨ha, hd⟩ := ih h
        obtain ⟨ha', hd'⟩ := setCount_stats B bank ((B.bank bank).allocCount + count) b
        exact ⟨ha.trans ha', hd.trans hd'⟩

theorem unreserveLoop_stats (h : unreserveLoop count curBank n bank B = .ok B') (b : ℕ) :
    (B'.bank b).allocs = (B.bank b).allocs ∧ (B'.bank b).deallocs = (B.bank b).deallocs := by
  induction n generalizing bank B with
  | zero => cases h
  | succ n ih =>
    rw [unreserveLoop] at h
    split at h
    · cases h
      exact ⟨rfl, rfl⟩
    · obtain ⟨ha, hd⟩ := ih h
      obtain ⟨ha', hd'⟩ := setCount_stats B bank ((B.bank bank).allocCount - count) b
      exact ⟨ha.trans ha', hd.trans hd'⟩

variable {baseType : BaseType} {found : Bool}

/-- Taking an object out of the tree leaves the statistics alone, and if it is not there also the rest. -/
theorem allocTreeRemoveOID_keeps (h : allocTreeRemoveOID G S bank baseType oid = .ok (found, S')) :
    SameStats S S' ∧ (found = false → SameCounts S S') := by
  rw [allocTreeRemoveOID] at h
  obtain ⟨⟨result, N, T⟩, -, h⟩ := of_bind_ok h
  cases result with
  | notFound =>
    cases h
    exact ⟨setTree_sameStats S bank N T, fun _ => setTree_sameCounts S bank N T⟩
  | removed =>
    cases h
    exact ⟨setTree_sameStats S bank N T, by simp⟩
  | frameEmpty =>
    obtain ⟨B, hB, h⟩ := of_bind_ok h
    obtain ⟨space, -, h⟩ := of_bind_ok h
    cases h
    refine ⟨fun b => ?_, by simp⟩
    obtain ⟨ha, hd⟩ := unreserveLoop_stats hB b
    obtain ⟨ha', hd'⟩ := setTree_sameStats S bank N T b
    exact ⟨ha.trans ha', hd.trans hd'⟩

theorem removeAll_sameStats {oids : List ℕ} (h : removeAll G bank baseType oids S = .ok S') :
    SameStats S S' := by
  induction oids generalizing S with
  | nil =>
    cases h
    exact .refl _
  | cons oid oids ih =>
    rw [removeAll] at h
    obtain ⟨⟨found, S₁⟩, h₁, h⟩ := of_bind_ok h
    exact (allocTreeRemoveOID_keeps h₁).1.trans (ih h)

theorem returnToFrame_sameStats (h : returnToFrame G S bank oid = .ok S') : SameStats S S' := by
  rw [returnToFrame] at h
  split at h
  · obtain ⟨S₁, h₁, h⟩ := of_bind_ok h
    cases h
    exact (removeAll_sameStats h₁).trans (setNodeFrame_sameStats S₁ bank _)
  · cases h
    exact setNodeFrame_sameStats S bank _

theorem countDealloc_allocs (S : BankStorage) (bank type b : ℕ) :
    ((S.countDealloc bank type).banks.bank b).allocs = (S.banks.bank b).allocs :=
  bank_setBank S bank Bank.allocs
    { S.banks.bank bank with deallocs := Function.update (S.banks.bank bank).deallocs type _ } rfl b

theorem countDealloc_deallocs (S : BankStorage) (bank type : ℕ) :
    ((S.countDealloc bank type).banks.bank bank).deallocs type = (S.banks.bank bank).deallocs type + 1 := by
  simp [BankStorage.countDealloc, BankStorage.setBank, Banks.setBank]

/-- A deallocation is counted if the object is found. Otherwise nothing but the tree may change. -/
theorem bankDeallocOID_spec (h : bankDeallocOID G S bank type oid = .ok (found, S')) :
    (∀ b, (S'.banks.bank b).allocs = (S.banks.bank b).allocs) ∧
      (found = true → (S'.banks.bank bank).deallocs type = (S.banks.bank bank).deallocs type + 1) ∧
      (found = false → SameCounts S S') := by
  rw [bankDeallocOID] at h
  split at h
  · obtain ⟨S₁, h₁, h⟩ := of_bind_ok h
    cases h
    have hstats := returnToFrame_sameStats h₁
    refine ⟨fun b => (countDealloc_allocs S₁ bank type b).trans (hstats b).1, fun _ => ?_, by simp⟩
    rw [countDealloc_deallocs, (hstats bank).2]
  · obtain ⟨⟨found', S₁⟩, h₁, h⟩ := of_bind_ok h
    obtain ⟨hstats, hcounts⟩ := allocTreeRemoveOID_keeps h₁
    cases found' with
    | true =>
      cases h
      refine ⟨fun b => (countDealloc_allocs S₁ bank type b).trans (hstats b).1, fun _ => ?_, by simp⟩
      rw [if_pos rfl, countDealloc_deallocs, (hstats bank).2]
    | false =>
      cases h
      exact ⟨fun b => (hstats b).1, by simp, fun _ => hcounts rfl⟩

/-! ## A frame for the object -/

/-- The bank or one of its ancestors is at its limit. -/
def AtLimit (S : BankStorage) (chain : List ℕ) : Prop := ∃ b ∈ chain, (S.banks.bank b).Refuses 1

/-- The object needs a new frame: it is a page, or all nodes of the bank's frame have been handed out. -/
def NeedsFrame (S : BankStorage) (bank type : ℕ) : Prop :=
  typeToBaseType type = .page ∨ (S.banks.bank bank).nodeFrame.frameMap = 0#32

theorem reserveFrame_sameStats (h : reserveFrame G S bank baseType = .ok (x, S')) :
    SameStats S S' := by
  rw [reserveFrame, bankReserveFrames] at h
  obtain ⟨⟨answer, B⟩, h₁, h₂⟩ := of_bind_ok h
  obtain ⟨⟨curBank, B₁⟩, h₃, h₄⟩ := of_bind_ok h₁
  have hB : ∀ b, (B.bank b).allocs = (S.banks.bank b).allocs ∧ (B.bank b).deallocs = (S.banks.bank b).deallocs := by
    intro b
    obtain ⟨ha, hd⟩ := reserveLoop_stats h₃ b
    dsimp only at h₄
    split at h₄
    · obtain ⟨B₂, h₅, h₆⟩ := of_bind_ok h₄
      cases h₆
      obtain ⟨ha', hd'⟩ := unreserveLoop_stats h₅ b
      exact ⟨ha'.trans ha, hd'.trans hd⟩
    · cases h₄
      exact ⟨ha, hd⟩
  dsimp only at h₂
  split at h₂
  · cases h₂
    exact hB
  · obtain ⟨⟨newFrame, space⟩, -, h₅⟩ := of_bind_ok h₂
    cases h₅
    exact hB

/-- A frame is counted, even if there is none; or a limit has been reached, and nothing has changed. -/
theorem reserveFrame_spec (hanc : Ancestry S.banks bank chain) (hn : chain.length < G.depth)
    (h : reserveFrame G S bank baseType = .ok (x, S')) :
    (AtLimit S chain ∧ x = none ∧ S' = S) ∨
      (¬AtLimit S chain ∧ ∀ b ∈ chain, (S'.banks.bank b).allocCount = (S.banks.bank b).allocCount + 1) := by
  have hreserve : bankReserveFrames G.depth bank 1 S.banks = _ := bankReserveFrames_spec hanc hn
  rw [reserveFrame, hreserve] at h
  by_cases hlimit : ∃ b ∈ chain, (S.banks.bank b).Refuses ((1 : BitVec 32).setWidth 64)
  · rw [if_pos hlimit] at h
    cases h
    exact .inl ⟨hlimit, rfl, rfl⟩
  · rw [if_neg hlimit] at h
    simp only [ok_bind, ne_eq, not_true_eq_false, if_false] at h
    obtain ⟨⟨newFrame, space⟩, -, h⟩ := of_bind_ok h
    cases h
    exact .inr ⟨hlimit, fun b hb => by simp [Banks.addCount, hb]⟩

theorem insertFrame_keeps {newFrame : ℕ} (h : insertFrame G S bank baseType newFrame = .ok S') :
    SameStats S S' ∧ SameCounts S S' := by
  rw [insertFrame] at h
  split at h
  · cases h
    exact ⟨.refl _, fun _ => ⟨rfl, rfl⟩⟩
  · obtain ⟨⟨_, N, T⟩, -, h⟩ := of_bind_ok h
    cases h
    exact ⟨setTree_sameStats S bank N T, setTree_sameCounts S bank N T⟩

variable {map : BitVec 32}

theorem getLsbD_firstBit (h : map ≠ 0#32) : map.getLsbD (firstBit map) = true := by
  rw [firstBit]
  cases hfind : (List.range 32).find? fun k => map.getLsbD k with
  | some k => exact List.find?_some hfind
  | none =>
    refine absurd ?_ h
    ext k hk
    have hnone := List.find?_eq_none.1 hfind k (List.mem_range.2 hk)
    simpa [BitVec.getLsbD_eq_getElem hk] using hnone

theorem without_firstBit_ne (h : map ≠ 0#32) : map &&& ~~~(1#32 <<< firstBit map) ≠ map := by
  intro heq
  have hbit := getLsbD_firstBit h
  have hlt : firstBit map < 32 := BitVec.lt_of_getLsbD hbit
  have hclear : (map &&& ~~~(1#32 <<< firstBit map)).getLsbD (firstBit map) = false := by simp [hlt]
  rw [heq, hbit] at hclear
  cases hclear

/-- What happens before the range key is asked: there is no frame, a frame has been counted, or a node
has been taken out of the bank's frame. -/
inductive Taken (S : BankStorage) (bank type : ℕ) (chain : List ℕ) (x : Option ℕ) (S' : BankStorage) : Prop where
  | refused : NeedsFrame S bank type → AtLimit S chain → x = none → S' = S → Taken S bank type chain x S'
  | counted : NeedsFrame S bank type → ¬AtLimit S chain →
      (S'.banks.bank bank).allocCount = (S.banks.bank bank).allocCount + 1 → Taken S bank type chain x S'
  | fromFrame : ¬NeedsFrame S bank type → x.isSome →
      (S'.banks.bank bank).nodeFrame ≠ (S.banks.bank bank).nodeFrame → Taken S bank type chain x S'

theorem nodeFrame_setNodeFrame (S : BankStorage) (bank : ℕ) (frame : MOFrame) :
    ((S.setNodeFrame bank frame).banks.bank bank).nodeFrame = frame := by
  simp [BankStorage.setNodeFrame, BankStorage.setBank, Banks.setBank]

theorem allocCount_setNodeFrame (S : BankStorage) (bank b : ℕ) (frame : MOFrame) :
    ((S.setNodeFrame bank frame).banks.bank b).allocCount = (S.banks.bank b).allocCount :=
  bank_setBank S bank Bank.allocCount { S.banks.bank bank with nodeFrame := frame } rfl b

theorem takePage_sameStats (h : takePage G S bank = .ok (x, S')) : SameStats S S' := by
  rw [takePage] at h
  obtain ⟨⟨newFrame, S₁⟩, h₁, h₂⟩ := of_bind_ok h
  have hstats := reserveFrame_sameStats h₁
  cases newFrame with
  | none =>
    cases h₂
    exact hstats
  | some newFrame =>
    obtain ⟨S₂, h₃, h₄⟩ := of_bind_ok h₂
    cases h₄
    exact hstats.trans (insertFrame_keeps h₃).1

theorem takePage_spec (hanc : Ancestry S.banks bank chain) (hn : chain.length < G.depth) (hb : bank ∈ chain)
    (hpage : typeToBaseType type = .page) (h : takePage G S bank = .ok (x, S')) : Taken S bank type chain x S' := by
  rw [takePage] at h
  obtain ⟨⟨newFrame, S₁⟩, h₁, h₂⟩ := of_bind_ok h
  rcases reserveFrame_spec hanc hn h₁ with ⟨hlimit, hnone, hS⟩ | ⟨hlimit, hcount⟩
  · subst hnone
    cases h₂
    exact .refused (.inl hpage) hlimit rfl hS
  · cases newFrame with
    | none =>
      cases h₂
      exact .counted (.inl hpage) hlimit (hcount bank hb)
    | some newFrame =>
      obtain ⟨S₂, h₃, h₄⟩ := of_bind_ok h₂
      cases h₄
      exact .counted (.inl hpage) hlimit (((insertFrame_keeps h₃).2 bank).2.trans (hcount bank hb))

theorem takeNode_sameStats (h : takeNode G S bank = .ok (x, S')) : SameStats S S' := by
  rw [takeNode] at h
  obtain ⟨⟨ready, S₁⟩, hready, h₁⟩ := of_bind_ok h
  have hstats : SameStats S S₁ := by
    split at hready
    · obtain ⟨⟨newFrame, S₂⟩, h₂, h₃⟩ := of_bind_ok hready
      have hstats := reserveFrame_sameStats h₂
      cases newFrame with
      | none =>
        cases h₃
        exact hstats
      | some newFrame =>
        obtain ⟨S₃, h₄, h₅⟩ := of_bind_ok h₃
        cases h₅
        exact (hstats.trans (insertFrame_keeps h₄).1).trans (setNodeFrame_sameStats _ _ _)
    · cases hready
      exact .refl _
  dsimp only at h₁
  split at h₁
  · cases h₁
    exact hstats
  · cases h₁
    exact hstats.trans (setNodeFrame_sameStats _ _ _)

theorem takeNode_spec (hanc : Ancestry S.banks bank chain) (hn : chain.length < G.depth) (hb : bank ∈ chain)
    (hnode : typeToBaseType type = .node) (h : takeNode G S bank = .ok (x, S')) : Taken S bank type chain x S' := by
  rw [takeNode] at h
  obtain ⟨⟨ready, S₁⟩, hready, h₁⟩ := of_bind_ok h
  by_cases hempty : (S.banks.bank bank).nodeFrame.frameMap = 0#32
  · have hneeds : NeedsFrame S bank type := .inr hempty
    rw [if_pos hempty] at hready
    obtain ⟨⟨newFrame, S₂⟩, h₂, h₃⟩ := of_bind_ok hready
    rcases reserveFrame_spec hanc hn h₂ with ⟨hlimit, hnone, hS⟩ | ⟨hlimit, hcount⟩
    · subst hnone
      cases h₃
      cases h₁
      exact .refused hneeds hlimit rfl hS
    · cases newFrame with
      | none =>
        cases h₃
        cases h₁
        exact .counted hneeds hlimit (hcount bank hb)
      | some newFrame =>
        obtain ⟨S₃, h₄, h₅⟩ := of_bind_ok h₃
        cases h₅
        cases h₁
        refine .counted hneeds hlimit ?_
        rw [allocCount_setNodeFrame, allocCount_setNodeFrame, ((insertFrame_keeps h₄).2 bank).2, hcount bank hb]
  · rw [if_neg hempty] at hready
    cases hready
    cases h₁
    refine .fromFrame ?_ rfl ?_
    · rintro (hp | he)
      · rw [hnode] at hp
        cases hp
      · exact hempty he
    · rw [nodeFrame_setNodeFrame]
      intro heq
      exact without_firstBit_ne hempty (congrArg MOFrame.frameMap heq)

theorem takeObject_sameStats (h : takeObject G S bank baseType = .ok (x, S')) :
    SameStats S S' := by
  cases baseType with
  | page => exact takePage_sameStats h
  | node => exact takeNode_sameStats h

theorem takeObject_spec (hanc : Ancestry S.banks bank chain) (hn : chain.length < G.depth) (hb : bank ∈ chain)
    (h : takeObject G S bank (typeToBaseType type) = .ok (x, S')) : Taken S bank type chain x S' := by
  cases htype : typeToBaseType type with
  | page =>
    rw [htype] at h
    exact takePage_spec hanc hn hb htype h
  | node =>
    rw [htype] at h
    exact takeNode_spec hanc hn hb htype h

/-! ## One object -/

/-- An object is refused before anything has changed: its type is invalid, or it needs a frame and a limit
has been reached. -/
def RefusedAtOnce (S : BankStorage) (bank type : ℕ) (chain : List ℕ) : Prop :=
  otNumTypes ≤ type ∨ (NeedsFrame S bank type ∧ AtLimit S chain)

theorem Unchanged.refl (S : BankStorage) : Unchanged S S :=
  ⟨fun _ => rfl, fun _ => rfl, fun _ _ => rfl, fun _ _ => rfl, fun _ => rfl, rfl⟩

theorem add_one_ne (c : BitVec 64) : c + 1 ≠ c := by
  intro h
  bv_omega

variable {answer : Answer}

/-- An object that cannot be allocated leaves everything unchanged only if it is refused at once. -/
theorem bankAllocObject_failed (hanc : Ancestry S.banks bank chain) (hn : chain.length < G.depth)
    (hb : bank ∈ chain) (h : bankAllocObject G S bank type = .ok (answer, oid, S')) (ha : answer ≠ .ok) :
    Unchanged S S' ↔ RefusedAtOnce S bank type chain := by
  rw [bankAllocObject] at h
  by_cases htype : otNumTypes ≤ type
  · rw [if_pos htype] at h
    cases h
    exact iff_of_true (.refl _) (.inl htype)
  rw [if_neg htype] at h
  obtain ⟨⟨x, S₁⟩, h₁, h⟩ := of_bind_ok h
  have hstats := takeObject_sameStats h₁
  -- the object is deallocated again
  have hdealloc : ∀ {y}, x = some y → ∃ found, bankDeallocOID G S₁ bank type y = .ok (found, S') := by
    rintro y rfl
    dsimp only at h
    split at h
    · cases h
      exact absurd rfl ha
    · obtain ⟨⟨found, S₂⟩, h₂, h⟩ := of_bind_ok h
      cases h
      exact ⟨found, h₂⟩
  have hnone : x = none → S' = S₁ := by
    rintro rfl
    cases h
    rfl
  have hdeallocs : ∀ {y}, bankDeallocOID G S₁ bank type y = .ok (true, S') → ¬Unchanged S S' := by
    intro y hd hun
    have hcount := (bankDeallocOID_spec hd).2.1 rfl
    rw [(hstats bank).2, hun.deallocs bank type] at hcount
    exact add_one_ne _ hcount.symm
  cases takeObject_spec hanc hn hb h₁ with
  | refused hneeds hlimit hx hS =>
    rw [hnone hx, hS]
    exact iff_of_true (.refl S) (.inr ⟨hneeds, hlimit⟩)
  | counted hneeds hlimit hcount =>
    refine iff_of_false (fun hun => ?_) ?_
    · cases hx : x with
      | none =>
        rw [← hnone hx, hun.allocCount bank] at hcount
        exact add_one_ne _ hcount.symm
      | some y =>
        obtain ⟨found, hd⟩ := hdealloc hx
        cases found with
        | true => exact hdeallocs hd hun
        | false =>
          have hsame := ((bankDeallocOID_spec hd).2.2 rfl bank).2
          rw [hun.allocCount bank, hcount] at hsame
          exact add_one_ne _ hsame.symm
    · rintro (h4 | ⟨-, hl⟩)
      · exact htype h4
      · exact hlimit hl
  | fromFrame hneeds hx hframe =>
    refine iff_of_false (fun hun => ?_) ?_
    · obtain ⟨y, hy⟩ := Option.isSome_iff_exists.1 hx
      obtain ⟨found, hd⟩ := hdealloc hy
      cases found with
      | true => exact hdeallocs hd hun
      | false =>
        have hsame := ((bankDeallocOID_spec hd).2.2 rfl bank).1
        rw [hun.nodeFrame bank] at hsame
        exact hframe hsame.symm
    · rintro (h4 | ⟨hl, -⟩)
      · exact htype h4
      · exact hneeds hl

theorem countAlloc_allocs (S : BankStorage) (bank type type' : ℕ) :
    ((S.countAlloc bank type).banks.bank bank).allocs type' =
      (S.banks.bank bank).allocs type' + if type' = type then 1 else 0 := by
  by_cases htype : type' = type
  · subst htype
    simp [BankStorage.countAlloc, BankStorage.setBank, Banks.setBank]
  · simp [BankStorage.countAlloc, BankStorage.setBank, Banks.setBank, htype]

theorem bankAllocObject_allocs (h : bankAllocObject G S bank type = .ok (answer, oid, S'))
    (type' : ℕ) :
    (S'.banks.bank bank).allocs type' =
      (S.banks.bank bank).allocs type' + if answer = .ok ∧ type' = type then 1 else 0 := by
  rw [bankAllocObject] at h
  split at h
  · cases h
    simp
  · obtain ⟨⟨x, S₁⟩, h₁, h₂⟩ := of_bind_ok h
    have hstats := (takeObject_sameStats h₁ bank).1
    cases x with
    | none =>
      cases h₂
      simp [hstats]
    | some y =>
      dsimp only at h₂
      split at h₂
      · cases h₂
        rw [countAlloc_allocs, hstats]
        simp
      · obtain ⟨⟨found, S₂⟩, h₃, h₄⟩ := of_bind_ok h₂
        cases h₄
        rw [(bankDeallocOID_spec h₃).1 bank, hstats]
        simp

theorem bankAllocObject_ok (hanc : Ancestry S.banks bank chain) (hn : chain.length < G.depth) (hb : bank ∈ chain)
    (h : bankAllocObject G S bank type = .ok (.ok, oid, S')) : ¬RefusedAtOnce S bank type chain := by
  rw [bankAllocObject] at h
  split at h
  · cases h
  · rename_i htype
    obtain ⟨⟨x, S₁⟩, h₁, h₂⟩ := of_bind_ok h
    rintro (h4 | ⟨hneeds, hlimit⟩)
    · exact htype h4
    · cases takeObject_spec hanc hn hb h₁ with
      | refused _ _ hx _ =>
        subst hx
        cases h₂
      | counted _ hlimit' _ => exact hlimit' hlimit
      | fromFrame hneeds' _ _ => exact hneeds' hneeds

/-! ## A request -/

variable {got : List (ℕ × ℕ)}

theorem deallocAll_allocs (h : deallocAll G bank got S = .ok S') :
    (S'.banks.bank bank).allocs = (S.banks.bank bank).allocs := by
  induction got generalizing S with
  | nil =>
    cases h
    rfl
  | cons g got ih =>
    rw [deallocAll] at h
    obtain ⟨⟨found, S₁⟩, h₁, h₂⟩ := of_bind_ok h
    exact (ih h₂).trans ((bankDeallocOID_spec h₁).1 bank)

theorem allocEach_allocs {types : List ℕ} (h : allocEach G bank got types S = .ok (answer, S')) :
    ∃ k ≤ types.length,
      (S'.banks.bank bank).allocs type = (S.banks.bank bank).allocs type + BitVec.ofNat 64 k := by
  induction types generalizing S got with
  | nil =>
    cases h
    exact ⟨0, le_rfl, by simp⟩
  | cons type' types ih =>
    rw [allocEach] at h
    obtain ⟨⟨answer', oid', S₁⟩, h₁, h₂⟩ := of_bind_ok h
    have hallocs := bankAllocObject_allocs h₁ type
    dsimp only at h₂
    split at h₂
    · obtain ⟨k, hk, hcount⟩ := ih h₂
      rw [hallocs] at hcount
      by_cases htype : answer' = .ok ∧ type = type'
      · refine ⟨k + 1, Nat.succ_le_succ hk, ?_⟩
        rw [hcount, if_pos htype, BitVec.add_assoc, Nat.add_comm k 1, BitVec.ofNat_add]
        rfl
      · refine ⟨k, Nat.le_succ_of_le hk, ?_⟩
        simp [hcount, htype]
    · rename_i hanswer
      obtain ⟨S₂, h₃, h₄⟩ := of_bind_ok h₂
      cases h₄
      refine ⟨0, Nat.zero_le _, ?_⟩
      rw [deallocAll_allocs h₃, hallocs]
      simp [hanswer]

theorem AllocCode.types_eq (code : AllocCode) (w : BitVec 32) :
    ∃ types, code.types w = w.toNat % 256 :: types ∧ types.length ≤ 2 := by
  cases code with
  | alloc1 | alloc2 | alloc3 => exact ⟨_, rfl, by simp⟩

/-- A request that fails leaves the banks unchanged exactly if its first object is refused at once. In all
other cases something has been counted that is not taken back. -/
theorem allocRequest_unchanged_iff {code : AllocCode} {w : BitVec 32} {answer : Answer}
    (hanc : Ancestry S.banks bank chain) (hn : chain.length < G.depth) (hb : bank ≠ 0)
    (hrun : allocRequest G S bank code w = .ok (answer, S')) (ha : answer ≠ .ok) :
    Unchanged S S' ↔ RefusedAtOnce S bank (w.toNat % 256) chain := by
  have hmem : bank ∈ chain := by
    cases chain with
    | nil => exact absurd hanc hb
    | cons c chain => exact hanc.1 ▸ List.mem_cons_self
  obtain ⟨types, htypes, hlen⟩ := code.types_eq w
  rw [allocRequest, htypes, allocEach] at hrun
  obtain ⟨⟨answer', oid', S₁⟩, h₁, h₂⟩ := of_bind_ok hrun
  by_cases hanswer : answer' = .ok
  · -- the first object has been counted
    subst hanswer
    dsimp only at h₂
    rw [if_pos rfl] at h₂
    refine iff_of_false (fun hun => ?_) (bankAllocObject_ok hanc hn hmem h₁)
    obtain ⟨k, hk, hcount⟩ := @allocEach_allocs _ _ _ _ (w.toNat % 256) _ _ _ h₂
    rw [bankAllocObject_allocs h₁, if_pos ⟨rfl, rfl⟩, hun.allocs bank] at hcount
    have hnat := congrArg BitVec.toNat hcount
    simp only [BitVec.toNat_add, BitVec.toNat_ofNat] at hnat
    have hone : (1 : BitVec 64).toNat = 1 := rfl
    omega
  · dsimp only at h₂
    rw [if_neg hanswer] at h₂
    obtain ⟨S₂, h₃, h₄⟩ := of_bind_ok h₂
    cases h₃
    cases h₄
    exact bankAllocObject_failed hanc hn hmem h₁ ha

/-! ## Two banks -/

/-- A page or seven nodes to a frame, and the range key gives all capabilities. -/
def sevenNodes : Setting where
  perFrame type := if type = .page then 1 else 7
  getCap _ _ := true
  frameType _ := .page
  mounted _ := true
  fuel := 4
  depth := 3

/-- Two banks, of which bank 1 has this limit and has counted seven frames. There is no range. -/
def noFrames (limit : BitVec 64) : BankStorage where
  nodes :=
    { links := { root := 0, child := fun _ _ => 0, parent := fun _ => 0, color := fun _ => .black }
      value := fun _ => 1
      body := fun _ => { type := fun _ => .page, map := fun _ => 0#16 }
      freehead := RbTree.nullPtr
      top := 2 }
  banks := twoBanks limit 7
  space := ObjSpace.emptySpace

/-- A page and a node are requested from bank 2, when bank 1 is at its limit. -/
theorem allocRequest_unchanged_iff_full : ∃ S',
    allocRequest sevenNodes (noFrames 7) 2 .alloc2 0x100 = .ok (.limitReached, S') ∧ Unchanged (noFrames 7) S' := by
  obtain ⟨S', hrun⟩ : ∃ S', allocRequest sevenNodes (noFrames 7) 2 .alloc2 0x100 = .ok (.limitReached, S') := ⟨_, rfl⟩
  have hanc : Ancestry (noFrames 7).banks 2 [2, 1] := ancestry_twoBanks 7 7
  refine ⟨S', hrun, (allocRequest_unchanged_iff hanc (by decide) (by decide) hrun (by decide)).2 ?_⟩
  exact .inr ⟨.inl rfl, 1, by decide, by decide⟩

/-- A node is allocated and, as the second type is invalid, deallocated again. Both have been counted. -/
theorem allocRequest_changes :
    ∃ G S bank chain S', Ancestry S.banks bank chain ∧ chain.length < G.depth ∧ bank ≠ 0 ∧
      allocRequest G S bank .alloc2 0x401 = .ok (.requestError, S') ∧ ¬Unchanged S S' := by
  refine ⟨sevenNodes, noFrames 10, 2, [2, 1], _, ancestry_twoBanks 10 7, by decide, by decide, rfl, fun h => ?_⟩
  exact absurd (h.allocs 2 1) (by decide)

end CapROS.SpaceBank
