import CapROS.MemoryTree.Slots
import CapROS.PageTable.CacheClass

/-!
# Write authority of page table entries

The hardware lets a process write a page when a page table entry grants it. The authority for that
comes from the memory tree: an entry is filled after a walk from the table that holds it. It is taken
back when a key on the path changes, when the page is cleaned and in a demarcation, and an entry that
is tracking LRU is restored without a walk.

* `authority_run`: the entries have authority in the runs that restore no read-only entry for writing,
  and leave no entry that the keys of the page do not lead to.
* `authority_fails_refill`, `authority_fails_clean`, `authority_fails_page`: what happens otherwise.
-/

namespace CapROS.PageTable

open MemoryTree
open Function (update update_self update_apply update_of_ne)

/-! ## The walk from a table -/

/-- The restrictions of a table. -/
def CPT.trail (c : CPT) : List (BitVec 8) :=
  if c.readOnly then [memoryReadOnly.zeroExtend 8] else []

/-- Where a walk from the table starts. -/
def CPT.start (c : CPT) (offset : ℕ) : Place := ⟨c.producer, offset, c.trail⟩

/-- The entry is for the address `offset` in the object that produces the table. -/
def CPT.Serves (c : CPT) (ndx offset : ℕ) : Prop :=
  offset / erosPageSize = c.producerNdx * 256 + ndx

/-- The `SegWalk` of a page fault at the entry: as `SegWalk_InitFromMT` makes it, or as it was when the
walk came to the producer of the table. -/
structure FromTable (c : CPT) (ndx : ℕ) (wi : SegWalk) : Prop where
  memObj : wi.memObj = c.producer
  serves : c.Serves ndx wi.offset.toNat
  backgroundGPT : wi.backgroundGPT = c.backgroundGPT
  readOnly : isReadOnly wi.restrictions = c.readOnly
  traverseCount : wi.traverseCount < maxSegDepth

/-- A walk from the table, for reading, finds the page at `place`. -/
structure Finds (mem : Memory) (c : CPT) (ndx f offset : ℕ) (place : Place) : Prop where
  serves : c.Serves ndx offset
  translateAt : translateAt mem false erosPageLgsize (maxSegDepth - 1) c.backgroundGPT
    (c.start offset) = .ok place
  object : place.object = .page f

/-- A walk for a write access, from the object and the restrictions of the table, reaches the page
without a read-only restriction. -/
def Authorized (mem : Memory) (c : CPT) (ndx f : ℕ) : Prop :=
  ∃ offset place, c.Serves ndx offset ∧
    translateAt mem true erosPageLgsize (maxSegDepth - 1) c.backgroundGPT (c.start offset) =
      .ok place ∧
    place.object = .page f ∧ readOnlyPath place.trail = false

/-! ## The system -/

/-- The page tables and the memory tree. -/
structure System where
  tables : State
  mem : Memory
  /-- The slots that an entry is registered to depend on, since it was last invalid. -/
  deps : Loc → List (ℕ × Fin 32)

namespace System

/-- An entry is registered to depend on slots. -/
def register (y : System) (loc : Loc) (slots : List (ℕ × Fin 32)) : Loc → List (ℕ × Fin 32) :=
  update y.deps loc
    ((if y.tables.pteAt loc = some .zapped then [] else y.deps loc) ++ slots)

/-- The part of `proc_DoPageFault` that walks from the table to the page and fills the entry. -/
def fault (writeback : Bool) (y : System) (loc : Loc) (c : CPT) (wi : SegWalk) (mva now : ℕ)
    (reclaimed visited : Loc → Bool) : Except Halt System :=
  match walkSeg y.mem erosPageLgsize wi with
  | .error (.halt h) => .error h
  | .error (.fault _) =>
    .ok { y with tables := walk y.tables loc reclaimed, deps := y.register loc [] }
  | .ok wi' =>
    match wi'.memObj with
    | .gpt _ => .error .assertion
    | .page f => do
      let tables ← fillPTE writeback (walk y.tables loc reclaimed) loc c f wi.needWrite mva now visited
      let slots := slotsRead y.mem erosPageLgsize (maxSegDepth - 1 - wi.traverseCount)
        wi.backgroundGPT ⟨wi.memObj, wi.offset.toNat, [wi.restrictions]⟩
      .ok { y with tables, deps := y.register loc slots }

/-- The steps of a run. -/
inductive Op where
  /-- A page fault of a process, or of the kernel's probe of a receive buffer. -/
  | fault (loc : Loc) (wi : SegWalk) (mva now : ℕ) (reclaimed visited : Loc → Bool)
  /-- A page fault at an entry that is tracking LRU. -/
  | refill (loc : Loc) (isWrite : Bool) (mva now : ℕ) (visited : Loc → Bool)
  /-- A key is stored in a slot of a GPT. -/
  | setSlot (o : ℕ) (i : Fin 32) (k : Key) (visited : Loc → Bool)
  | trackReferenced (visited : Loc → Bool)
  /-- `pageH_Clean`. -/
  | clean (f : ℕ) (visited : Loc → Bool)
  /-- The page becomes kernel-read-only in a demarcation. -/
  | makeReadOnly (f : ℕ) (visited : Loc → Bool)
  | allocateCPT (t : ℕ) (producer : MemObj) (producerNdx : ℕ) (backgroundGPT : Option ℕ)
      (readOnly : Bool) (tableCacheAddr : ℕ)
  | releaseCPT (t : ℕ)
  /-- A frame gets another page. -/
  | initPage (f : ℕ) (pg : Page)

namespace Op

/-- Under what conditions the kernel takes the step. -/
def Allowed (y : System) : Op → Prop
  | fault loc wi mva _ _ visited =>
    ∃ c, y.tables.cpt loc.table = some c ∧ c.UsedAt loc.ndx mva ∧ FromTable c loc.ndx wi ∧
      ∀ wi' f, walkSeg y.mem erosPageLgsize wi = .ok wi' → wi'.memObj = .page f →
        y.tables.Covers f visited
  | refill loc _ mva _ visited =>
    ∃ c, y.tables.cpt loc.table = some c ∧ c.UsedAt loc.ndx mva ∧
      (c.pte loc.ndx).trackingLRU = true ∧ y.tables.Covers (c.pte loc.ndx).frame visited
  | setSlot o i _ visited => ∀ loc c, y.tables.cpt loc.table = some c → c.pte loc.ndx ≠ .zapped →
    (o, i) ∈ y.deps loc → visited loc = true
  | clean f visited => y.tables.Covers f visited
  | makeReadOnly f visited => y.tables.Covers f visited
  | allocateCPT t _ _ backgroundGPT _ _ => y.tables.cpt t = none ∧
    ∀ b, backgroundGPT = some b → (y.mem.gpt b).hasBackground = true
  | initPage f _ => ∀ loc, ¬y.tables.MappedBy f loc
  | _ => True

/-- Take the step. -/
def run (writeback : Bool) (y : System) : Op → Except Halt System
  | fault loc wi mva now reclaimed visited =>
    match y.tables.cpt loc.table with
    | some c => y.fault writeback loc c wi mva now reclaimed visited
    | none => .error .nullDeref
  | refill loc isWrite mva now visited =>
    match y.tables.cpt loc.table with
    | some c => do
      let tables ← PageTable.refill writeback y.tables loc c isWrite mva now visited
      .ok { y with tables }
    | none => .error .nullDeref
  | setSlot o i k visited =>
    .ok { y with tables := y.tables.invalidate visited, mem := y.mem.setSlot o i k }
  | trackReferenced visited =>
    .ok { y with tables := y.tables.mapPTEs PTE.trackReferenced visited }
  | clean f visited =>
    let tables := y.tables.mapPTEs PTE.trackDirty visited
    .ok { y with tables := tables.setPage f { y.tables.page f with dirty := false } }
  | makeReadOnly f visited =>
    let tables := y.tables.mapPTEs (PTE.makeRO writeback) visited
    .ok { y with tables := tables.setPage f { y.tables.page f with kro := true } }
  | allocateCPT t producer producerNdx backgroundGPT readOnly tableCacheAddr =>
    let c : CPT :=
      ⟨producer, producerNdx, backgroundGPT, readOnly, tableCacheAddr, fun _ => .zapped⟩
    .ok { y with tables := y.tables.setCPT t (some c) }
  | releaseCPT t => .ok { y with tables := y.tables.setCPT t none }
  | initPage f pg => .ok { y with tables := y.tables.setPage f pg }

/-- The entries that map the page and grant write access were built with a key to it. -/
def WritersMediated (y : System) (f : ℕ) : Prop :=
  ∀ (loc : Loc) c, y.tables.cpt loc.table = some c → (c.pte loc.ndx).Maps f →
    (c.pte loc.ndx).grantsWrite = true → c.producer ≠ .page f

/-- The step does not give or leave write access by one of the slips of the code. -/
def Careful (y : System) : Op → Prop
  | fault loc wi _ _ _ _ => wi.needWrite = true → ∀ c, y.tables.cpt loc.table = some c →
    c.readOnly = true → ∀ p, c.producer ≠ .page p
  | refill loc isWrite _ _ _ => isWrite = true → ∀ c, y.tables.cpt loc.table = some c →
    ∀ offset place, Finds y.mem c loc.ndx (c.pte loc.ndx).frame offset place →
      readOnlyPath place.trail = false
  | clean f _ => WritersMediated y f
  | makeReadOnly f _ => WritersMediated y f
  | _ => True

end Op

/-- No table is allocated. The memory tree is arbitrary. -/
def init (mem : Memory) : System := ⟨.init, mem, fun _ => []⟩

inductive Reach (writeback : Bool) (mem : Memory) : System → Prop where
  | init : Reach writeback mem (init mem)
  | step {y y' : System} (op : Op) : Reach writeback mem y → op.Allowed y →
      op.run writeback y = .ok y' → Reach writeback mem y'

/-- The states that the kernel can reach with careful steps. -/
inductive CarefulReach (writeback : Bool) (mem : Memory) : System → Prop where
  | init : CarefulReach writeback mem (init mem)
  | step {y y' : System} (op : Op) : CarefulReach writeback mem y → op.Allowed y → op.Careful y →
      op.run writeback y = .ok y' → CarefulReach writeback mem y'

end System

/-! ## Entries after a fill -/

variable {s s' : State} {y y' : System} {mem : Memory} {f ndx mva now : ℕ}
  {writeback isWrite : Bool} {c : CPT} {pte : PTE}

/-- A change of an entry that gives no authority. -/
def Reduces (change : PTE → PTE) : Prop :=
  ∀ pte f, (change pte).Maps f →
    pte.Maps f ∧ ((change pte).grantsWrite = true → pte.grantsWrite = true)

theorem reduces_trackReferenced : Reduces PTE.trackReferenced := by
  intro pte f hm
  refine ⟨(keeps_trackReferenced pte f hm).1, fun hw => ?_⟩
  unfold PTE.trackReferenced at hw
  split at hw
  · simp [PTE.grantsWrite] at hw
  · exact hw

theorem grantsWrite_of_makeRO (h : (PTE.makeRO writeback pte).grantsWrite = true) : False := by
  unfold PTE.makeRO at h
  split at h
  · simp [PTE.grantsWrite, apReadOnly, apReadWrite] at h
  case isFalse hw => exact hw h

theorem grantsWrite_of_trackDirty (h : (PTE.trackDirty pte).grantsWrite = true) : False := by
  unfold PTE.trackDirty at h
  split at h
  · simp [PTE.grantsWrite, apReadOnly, apReadWrite] at h
  case isFalse hw => exact hw h

theorem reduces_makeRO : Reduces (PTE.makeRO writeback) := fun pte f hm =>
  ⟨(keeps_makeRO pte f hm).1, fun hw => (grantsWrite_of_makeRO hw).elim⟩

theorem reduces_trackDirty : Reduces PTE.trackDirty := by
  intro pte f hm
  refine ⟨?_, fun hw => (grantsWrite_of_trackDirty hw).elim⟩
  unfold PTE.trackDirty at hm
  split at hm
  case isTrue hw =>
    unfold PTE.grantsWrite at hw
    simp only [Bool.and_eq_true] at hw
    exact ⟨Or.inl hw.1, hm.2⟩
  case isFalse => exact hm

/-- The tables are among those that there were, and each entry came from the one before. -/
def Evolves (s s' : State) (R : Loc → PTE → PTE → Prop) : Prop :=
  ∀ t c', s'.cpt t = some c' → ∃ c, s.cpt t = some c ∧ c' = { c with pte := c'.pte } ∧
    ∀ i, R ⟨t, i⟩ (c.pte i) (c'.pte i)

variable {locs visited : Loc → Bool}

theorem evolves_mapPTEs {change : PTE → PTE} :
    Evolves s (s.mapPTEs change locs) fun loc pte pte' =>
      pte' = if locs loc then change pte else pte := by
  intro t c' hc'
  obtain ⟨c, hc, rfl⟩ := mapPTEs_cpt hc'
  exact ⟨c, hc, rfl, fun i => rfl⟩

variable {R S : Loc → PTE → PTE → Prop}

theorem Evolves.trans {s₁ s₂ s₃ : State} {R' : Loc → PTE → PTE → Prop} (h : Evolves s₁ s₂ R)
    (h' : Evolves s₂ s₃ R') (hS : ∀ loc p₁ p₂ p₃, R loc p₁ p₂ → R' loc p₂ p₃ → S loc p₁ p₃) :
    Evolves s₁ s₃ S := by
  intro t c₃ hc₃
  obtain ⟨c₂, hc₂, heq₃, hR'⟩ := h' t c₃ hc₃
  obtain ⟨c₁, hc₁, heq₂, hR⟩ := h t c₂ hc₂
  refine ⟨c₁, hc₁, ?_, fun i => hS _ _ _ _ (hR i) (hR' i)⟩
  rw [heq₃, heq₂]

theorem Evolves.mono (h : Evolves s s' R)
    (hS : ∀ loc pte pte', R loc pte pte' → S loc pte pte') : Evolves s s' S := by
  intro t c' hc'
  obtain ⟨c, hc, heq, hR⟩ := h t c' hc'
  exact ⟨c, hc, heq, fun i => hS _ _ _ (hR i)⟩

theorem Evolves.refl (s : State) : Evolves s s fun _ pte pte' => pte' = pte :=
  fun _ c hc => ⟨c, hc, rfl, fun _ => rfl⟩

/-- The entry is as it was, or maps nothing. -/
def SameOrUnmapped (_ : Loc) (pte pte' : PTE) : Prop := pte' = pte ∨ ∀ f, ¬pte'.Maps f

variable {loc : Loc}

theorem SameOrUnmapped.trans {p₁ p₂ p₃ : PTE} (h : SameOrUnmapped loc p₁ p₂)
    (h' : SameOrUnmapped loc p₂ p₃) : SameOrUnmapped loc p₁ p₃ := by
  rcases h' with rfl | h'
  · exact h
  · exact Or.inr h'

theorem evolves_constant {pte : PTE} (hpte : ∀ f, ¬pte.Maps f) :
    Evolves s (s.mapPTEs (fun _ => pte) locs) SameOrUnmapped :=
  evolves_mapPTEs.mono fun loc p p' h => by
    split at h
    · exact Or.inr (h ▸ hpte)
    · exact Or.inl h

theorem evolves_invalidate : Evolves s (s.invalidate locs) SameOrUnmapped :=
  evolves_constant fun _ => not_maps_zapped

theorem evolves_walk (s : State) (loc : Loc) (reclaimed : Loc → Bool) :
    Evolves s (walk s loc reclaimed) SameOrUnmapped := by
  unfold walk
  split
  · exact (evolves_constant fun _ => not_maps_inProgress).trans evolves_invalidate
      fun _ _ _ _ => SameOrUnmapped.trans
  · exact evolves_invalidate

variable {coh : Coherence} {pg : Page} {readOnly canCache : Bool}

theorem caNone_flags {unmap : Bool} (h : caNone pg readOnly mva now isWrite unmap = .ok coh) :
    coh.page.dirty = pg.dirty ∧ coh.page.kro = pg.kro := by
  unfold caNone at h
  split at h
  · obtain ⟨-, h⟩ := of_kassert_ok h
    cases h
    exact ⟨rfl, rfl⟩
  · split at h <;> cases h <;> exact ⟨rfl, rfl⟩

theorem considerUncached_flags (h : considerUncached pg readOnly mva now isWrite = .ok coh) :
    coh.page.dirty = pg.dirty ∧ coh.page.kro = pg.kro := by
  unfold considerUncached at h
  split at h
  · exact caNone_flags h
  · cases h
    exact ⟨rfl, rfl⟩

theorem ensureCoherence_flags (h : ensureCoherence pg readOnly mva now isWrite = .ok coh) :
    coh.page.dirty = pg.dirty ∧ coh.page.kro = pg.kro := by
  unfold ensureCoherence at h
  split at h
  · exact caNone_flags h
  · split at h
    · cases h
      cases isWrite <;> exact ⟨rfl, rfl⟩
    · split at h
      · exact considerUncached_flags h
      · cases h
        exact ⟨rfl, rfl⟩
  · split at h
    · cases h
      exact ⟨rfl, rfl⟩
    · exact considerUncached_flags h
  · split at h
    · obtain ⟨-, h⟩ := of_kassert_ok h
      cases h
      exact ⟨rfl, rfl⟩
    · cases h
      exact ⟨rfl, rfl⟩
  · cases h
    exact ⟨rfl, rfl⟩

theorem fillPTE_entries (hrun : fillPTE writeback s loc c f isWrite mva now visited = .ok s') :
    Evolves s s' fun loc' pte pte' =>
      (loc' = loc → pte' = .zapped ∨ ∃ canCache, pte' = .filled writeback f isWrite canCache) ∧
        (loc' ≠ loc → SameOrUnmapped loc' pte pte') := by
  obtain ⟨coh, -, hrun⟩ := of_bind_ok hrun
  simp only at hrun
  generalize hs₁ : (if coh.unmap then s.invalidate visited else s).setPage f coh.page = s₁ at hrun
  have hunmap : Evolves s s₁ SameOrUnmapped := by
    rw [← hs₁]
    cases coh.unmap with
    | true => exact evolves_invalidate
    | false => exact (Evolves.refl s).mono fun _ _ _ => Or.inl
  split at hrun
  case isTrue hzapped =>
    cases hrun
    intro t c' hc'
    obtain ⟨c₀, hc₀, heq, hR⟩ := hunmap t c' hc'
    refine ⟨c₀, hc₀, heq, fun i => ⟨fun hloc => Or.inl ?_, fun _ => hR i⟩⟩
    rw [← hloc, State.pteAt, hc'] at hzapped
    exact Option.some.inj hzapped
  case isFalse =>
    cases hrun
    refine hunmap.trans evolves_mapPTEs fun loc' p₁ p₂ p₃ h h' => ?_
    simp only [beq_iff_eq] at h'
    refine ⟨fun hloc => Or.inr ⟨coh.canCache, ?_⟩, fun hloc => ?_⟩
    · rw [h', if_pos hloc]
    · rw [h', if_neg hloc]
      exact h

theorem fillPTE_pages (hrun : fillPTE writeback s loc c f isWrite mva now visited = .ok s') :
    (∀ g, (s.page g).dirty = true ∧ (s.page g).kro = false →
        (s'.page g).dirty = true ∧ (s'.page g).kro = false) ∧
      (isWrite = true → (s'.page f).dirty = true ∧ (s'.page f).kro = false) := by
  obtain ⟨coh, hcoh, hrun⟩ := of_bind_ok hrun
  obtain ⟨hdirty, hkro⟩ := ensureCoherence_flags hcoh
  have hpage : s'.page = update s.page f coh.page := by
    simp only at hrun
    generalize hs₁ : (if coh.unmap then s.invalidate visited else s).setPage f coh.page = s₁ at hrun
    have hpage₁ : s₁.page = update s.page f coh.page := by
      rw [← hs₁]
      cases coh.unmap <;> rfl
    split at hrun <;> cases hrun
    · exact hpage₁
    · rw [State.mapPTEs_page, hpage₁]
  rw [hpage]
  refine ⟨fun g hg => ?_, fun hw => ?_⟩
  · by_cases hgf : g = f
    · subst hgf
      rw [update_self, hdirty, hkro]
      cases isWrite with
      | true => exact ⟨rfl, rfl⟩
      | false => exact hg
    · rwa [update_of_ne hgf]
  · rw [update_self, hdirty, hkro, if_pos hw]
    exact ⟨rfl, rfl⟩

/-! ## The invariant -/

/-- A walk finds the page that the entry maps, the entry depends on all slots that the walk reads, and
the path is not read only if the entry grants write access. -/
def Rooted (y : System) (t : ℕ) (c : CPT) (i f : ℕ) : Prop :=
  ∃ offset place, Finds y.mem c i f offset place ∧
    (∀ slot ∈ slotsRead y.mem erosPageLgsize (maxSegDepth - 1) c.backgroundGPT (c.start offset),
      slot ∈ y.deps ⟨t, i⟩) ∧
    ((c.pte i).grantsWrite = true → readOnlyPath place.trail = false)

/-- What is to be shown of an entry that maps the page. -/
def EntryInv (y : System) (t : ℕ) (c : CPT) (i f : ℕ) : Prop :=
  Rooted y t c i f ∧
    ((c.pte i).grantsWrite = true →
      (y.tables.page f).dirty = true ∧ (y.tables.page f).kro = false)

structure Inv (y : System) : Prop where
  background : ∀ t c b, y.tables.cpt t = some c → c.backgroundGPT = some b →
    (y.mem.gpt b).hasBackground = true
  rooted : ∀ t c i f, y.tables.cpt t = some c → (c.pte i).Maps f → Rooted y t c i f
  writeable : ∀ t c i f, y.tables.cpt t = some c → (c.pte i).Maps f →
    (c.pte i).grantsWrite = true →
    (y.tables.page f).dirty = true ∧ (y.tables.page f).kro = false

variable {c' : CPT} {t i : ℕ}

theorem Inv.entry (h : Inv y) (hc : y.tables.cpt t = some c)
    (heq : c' = { c with pte := c'.pte }) (hmem : y'.mem = y.mem) (hm : (c.pte i).Maps f)
    (hw : (c'.pte i).grantsWrite = true → (c.pte i).grantsWrite = true)
    (hdeps : ∀ slot ∈ y.deps ⟨t, i⟩, slot ∈ y'.deps ⟨t, i⟩)
    (hpage : (c'.pte i).grantsWrite = true →
      (y.tables.page f).dirty = true ∧ (y.tables.page f).kro = false →
      (y'.tables.page f).dirty = true ∧ (y'.tables.page f).kro = false) : EntryInv y' t c' i f := by
  obtain ⟨offset, place, hfinds, hslots, hro⟩ := h.rooted t c i f hc hm
  refine ⟨?_, fun hw' => hpage hw' (h.writeable t c i f hc hm (hw hw'))⟩
  rw [heq]
  unfold Rooted
  rw [hmem]
  exact ⟨offset, place, ⟨hfinds.serves, hfinds.translateAt, hfinds.object⟩,
    fun slot hslot => hdeps slot (hslots slot hslot), fun h => hro (hw h)⟩

/-- The invariant holds when the tables are among those that there were, and each entry is right. -/
theorem Inv.evolve (h : Inv y)
    (hev : Evolves y.tables y'.tables R)
    (hbackground : ∀ b, (y.mem.gpt b).hasBackground = true → (y'.mem.gpt b).hasBackground = true)
    (hentry : ∀ t c c' i f, y.tables.cpt t = some c → c' = { c with pte := c'.pte } →
      R ⟨t, i⟩ (c.pte i) (c'.pte i) → (c'.pte i).Maps f → EntryInv y' t c' i f) : Inv y' := by
  have hboth (t : ℕ) (c' : CPT) (i f : ℕ) (hc' : y'.tables.cpt t = some c')
      (hm : (c'.pte i).Maps f) : EntryInv y' t c' i f := by
    obtain ⟨c, hc, heq, hR⟩ := hev t c' hc'
    exact hentry t c c' i f hc heq (hR i) hm
  refine ⟨fun t c' b hc' hb => ?_, fun t c' i f hc' hm => (hboth t c' i f hc' hm).1,
    fun t c' i f hc' hm => (hboth t c' i f hc' hm).2⟩
  obtain ⟨c, hc, heq, -⟩ := hev t c' hc'
  rw [heq] at hb
  exact hbackground b (h.background t c b hc hb)

/-! ## The steps -/

theorem not_zapped_of_maps {f : ℕ} (h : pte.Maps f) : pte ≠ .zapped := fun hz =>
  not_maps_zapped (hz ▸ h)

variable {slots : List (ℕ × Fin 32)}

theorem register_mono {loc' : Loc} (h : y.tables.pteAt loc' ≠ some .zapped) :
    ∀ slot ∈ y.deps loc', slot ∈ y.register loc slots loc' := by
  intro slot hslot
  unfold System.register
  by_cases hloc : loc' = loc
  · subst hloc
    rw [update_self, if_neg h]
    exact List.mem_append_left _ hslot
  · rwa [update_of_ne hloc]

theorem register_new :
    ∀ slot ∈ slots, slot ∈ y.register loc slots loc := by
  intro slot hslot
  unfold System.register
  rw [update_self]
  exact List.mem_append_right _ hslot

theorem Inv.same (h : Inv y) (hc : y.tables.cpt t = some c)
    (heq : c' = { c with pte := c'.pte }) (hmem : y'.mem = y.mem)
    (hsame : SameOrUnmapped ⟨t, i⟩ (c.pte i) (c'.pte i)) (hm : (c'.pte i).Maps f)
    (hdeps : y.tables.pteAt ⟨t, i⟩ ≠ some .zapped →
      ∀ slot ∈ y.deps ⟨t, i⟩, slot ∈ y'.deps ⟨t, i⟩)
    (hpage : (y.tables.page f).dirty = true ∧ (y.tables.page f).kro = false →
      (y'.tables.page f).dirty = true ∧ (y'.tables.page f).kro = false) : EntryInv y' t c' i f := by
  rcases hsame with hpte | hunmapped
  · rw [hpte] at hm
    refine h.entry hc heq hmem hm (fun hw => hpte ▸ hw) (hdeps ?_) fun _ => hpage
    simpa [State.pteAt, hc] using not_zapped_of_maps hm
  · exact (hunmapped f hm).elim

@[simp]
theorem walk_page (s : State) (loc : Loc) (reclaimed : Loc → Bool) :
    (walk s loc reclaimed).page = s.page := by
  unfold walk
  split <;> rfl

theorem maps_filled {g : ℕ} (h : (PTE.filled writeback f isWrite canCache).Maps g) : g = f := by
  cases isWrite <;> exact h.2.symm

theorem filled_grantsWrite :
    (PTE.filled writeback f isWrite canCache).grantsWrite = isWrite := by
  cases isWrite <;> rfl

variable {wi wi' : SegWalk}

theorem walkSeg_finds (hfrom : FromTable c ndx wi)
    (hbackground : ∀ b, c.backgroundGPT = some b → (mem.gpt b).hasBackground = true)
    (hwalk : walkSeg mem erosPageLgsize wi = .ok wi') (hpage : wi'.memObj = .page f)
    (hcareful : wi.needWrite = true → c.readOnly = true → ∀ p, c.producer ≠ .page p) :
    ∃ place, Finds mem c ndx f wi.offset.toNat place ∧
      slotsRead mem erosPageLgsize (maxSegDepth - 1) c.backgroundGPT (c.start wi.offset.toNat) =
        slotsRead mem erosPageLgsize (maxSegDepth - 1 - wi.traverseCount) wi.backgroundGPT
          ⟨wi.memObj, wi.offset.toNat, [wi.restrictions]⟩ ∧
      (wi.needWrite = true → readOnlyPath place.trail = false) := by
  have hcount := hfrom.traverseCount
  have hrestr : restrictionsOf [wi.restrictions] = wi.restrictions := by
    simp [restrictionsOf]
  have hat : At mem wi.needWrite wi.backgroundGPT wi.traverseCount wi
      ⟨wi.memObj, wi.offset.toNat, [wi.restrictions]⟩ :=
    ⟨rfl, rfl, hrestr.symm, rfl, rfl, fun b hb => hbackground b (hfrom.backgroundGPT ▸ hb), rfl⟩
  have hmatch := walkSeg_matches erosPageLgsize (maxSegDepth - 1 - wi.traverseCount) hat (by omega)
  rw [hwalk] at hmatch
  cases htrans : translateAt mem wi.needWrite erosPageLgsize (maxSegDepth - 1 - wi.traverseCount)
      wi.backgroundGPT ⟨wi.memObj, wi.offset.toNat, [wi.restrictions]⟩ with
  | error code =>
    rw [htrans] at hmatch
    exact hmatch.elim
  | ok found =>
    rw [htrans] at hmatch
    obtain ⟨_, _, _, hfound, -⟩ := hmatch
    obtain ⟨rest, hrest, hweak⟩ := translateAt_weaken _ htrans
    obtain ⟨htable, hslots⟩ := hweak (maxSegDepth - 1) (Nat.sub_le _ _) c.trail
    have hstart : ({ object := wi.memObj, offset := wi.offset.toNat, trail := c.trail } : Place) =
        c.start wi.offset.toNat := by
      rw [CPT.start, hfrom.memObj]
    rw [hstart, hfrom.backgroundGPT] at htable hslots
    rw [hfrom.backgroundGPT]
    refine ⟨_, ⟨hfrom.serves, htable, hfound.object.symm.trans hpage⟩, hslots, fun hw => ?_⟩
    rw [hw] at htrans
    -- The restrictions of the table were those that the walk went on with.
    have hro : isReadOnly wi.restrictions = false := by
      cases htab : c.readOnly with
      | false => rw [hfrom.readOnly, htab]
      | true =>
        obtain ⟨p, hp⟩ | ⟨o, ho⟩ := page_or_gpt wi.memObj
        · exact absurd (hfrom.memObj.symm.trans hp) (hcareful hw htab p)
        · have hstop : ¬(mem.gpt o).curL2v < erosPageLgsize := not_lt.2 (mem.gpt o).l2v_ge
          have hpath := translateAt_write_readOnly (by exact ho) hstop htrans
          simpa [readOnlyPath] using hpath
    have htab : c.trail = [] := by
      rw [CPT.trail, ← hfrom.readOnly, hro]
      rfl
    obtain ⟨_, _, _, _, _, hdenied⟩ := translateAt_path _ (by simp [readOnlyPath, hro]) htrans
    rw [Bool.and_true, hrest, readOnlyPath_append, Bool.or_eq_false_iff] at hdenied
    rw [htab]
    exact hdenied.2

theorem Inv.fill {s₀ : State} {offset : ℕ} {place : Place}
    (h : Inv y) (hev : Evolves y.tables s₀ SameOrUnmapped) (hpages : s₀.page = y.tables.page)
    (hc : y.tables.cpt loc.table = some c) (hmem : y'.mem = y.mem)
    (hrun : fillPTE writeback s₀ loc c f isWrite mva now visited = .ok y'.tables)
    (hfinds : Finds y.mem c loc.ndx f offset place)
    (hslots : ∀ slot ∈ slotsRead y.mem erosPageLgsize (maxSegDepth - 1) c.backgroundGPT
      (c.start offset), slot ∈ y'.deps loc)
    (hro : isWrite = true → readOnlyPath place.trail = false)
    (hdeps : ∀ loc', loc' ≠ loc → ∀ slot ∈ y.deps loc', slot ∈ y'.deps loc') : Inv y' := by
  have hflags := fillPTE_pages hrun
  rw [hpages] at hflags
  refine h.evolve (R := fun loc' pte pte' =>
      (loc' = loc → pte' = .zapped ∨ ∃ canCache, pte' = .filled writeback f isWrite canCache) ∧
        (loc' ≠ loc → SameOrUnmapped loc' pte pte'))
    (hev.trans (fillPTE_entries hrun) fun loc' p₁ p₂ p₃ hsame hfilled =>
      ⟨hfilled.1, fun hloc => hsame.trans (hfilled.2 hloc)⟩)
    (fun b hb => by rwa [hmem]) fun t c₀ c' i g hc₀ heq hR hm => ?_
  by_cases hloc : (⟨t, i⟩ : Loc) = loc
  · subst hloc
    rcases hR.1 rfl with hzapped | ⟨canCache, hfilled⟩
    · exact absurd (hzapped ▸ hm) not_maps_zapped
    · rw [hfilled] at hm
      have hg : g = f := maps_filled hm
      subst hg
      have hsame : c₀ = c := Option.some.inj (hc₀.symm.trans hc)
      refine ⟨?_, fun hw => hflags.2 ?_⟩
      · rw [heq]
        unfold Rooted
        rw [hmem, hsame]
        refine ⟨offset, place, ⟨hfinds.serves, hfinds.translateAt, hfinds.object⟩, hslots, ?_⟩
        intro hw
        rw [hfilled, filled_grantsWrite] at hw
        exact hro hw
      · rwa [hfilled, filled_grantsWrite] at hw
  · exact h.same hc₀ heq hmem (hR.2 hloc) hm (fun _ => hdeps _ hloc) (hflags.1 g)

theorem Inv.fault {reclaimed : Loc → Bool} (h : Inv y)
    (hc : y.tables.cpt loc.table = some c) (hfrom : FromTable c loc.ndx wi)
    (hcareful : wi.needWrite = true → c.readOnly = true → ∀ p, c.producer ≠ .page p)
    (hrun : y.fault writeback loc c wi mva now reclaimed visited = .ok y') : Inv y' := by
  have hev := evolves_walk y.tables loc reclaimed
  unfold System.fault at hrun
  split at hrun
  · cases hrun
  · -- The entry is left in progress, if it was zapped.
    cases hrun
    refine h.evolve hev (fun b hb => hb) fun t c₀ c' i g hc₀ heq hsame hm => ?_
    exact h.same hc₀ heq rfl hsame hm (fun hz => register_mono hz) fun hg => by rwa [walk_page]
  · rename_i wi' hwalk
    split at hrun
    · cases hrun
    · rename_i f hpage
      obtain ⟨tables, hfill, hrun⟩ := of_bind_ok hrun
      cases hrun
      obtain ⟨place, hfinds, hslots, hro⟩ := walkSeg_finds hfrom
        (fun b hb => h.background _ _ b hc hb) hwalk hpage hcareful
      refine h.fill hev (walk_page _ _ _) hc rfl hfill hfinds (fun slot hslot => ?_) hro
        fun loc' hloc slot hslot => ?_
      · rw [hslots] at hslot
        exact register_new slot hslot
      · simp only [System.register]
        rwa [update_of_ne hloc]

variable {tables : State}

theorem Inv.refill (h : Inv y)
    (hc : y.tables.cpt loc.table = some c) (hlru : (c.pte loc.ndx).trackingLRU = true)
    (hcareful : isWrite = true → ∀ offset place,
      Finds y.mem c loc.ndx (c.pte loc.ndx).frame offset place → readOnlyPath place.trail = false)
    (hrun : PageTable.refill writeback y.tables loc c isWrite mva now visited = .ok tables) :
    Inv { y with tables } := by
  obtain ⟨offset, place, hfinds, hslots, -⟩ := h.rooted _ c _ _ hc ⟨Or.inr hlru, rfl⟩
  refine h.fill ((Evolves.refl _).mono fun _ _ _ => Or.inl) rfl hc rfl hrun hfinds hslots ?_
    fun _ _ _ hslot => hslot
  exact fun hw => hcareful hw offset place hfinds

theorem Inv.setSlot {o : ℕ} {slotNdx : Fin 32} {k : Key} (h : Inv y)
    (hvisited : ∀ loc c, y.tables.cpt loc.table = some c → c.pte loc.ndx ≠ .zapped →
      (o, slotNdx) ∈ y.deps loc → visited loc = true) :
    Inv { y with tables := y.tables.invalidate visited, mem := y.mem.setSlot o slotNdx k } := by
  have hev : Evolves y.tables (y.tables.invalidate visited) fun loc pte pte' =>
      pte' = if visited loc then .zapped else pte := evolves_mapPTEs
  refine h.evolve hev (fun b hb => by rwa [setSlot_hasBackground])
    fun t c c' i f hc heq hpte hm => ?_
  by_cases hv : visited ⟨t, i⟩ = true
  · rw [if_pos hv] at hpte
    exact absurd (hpte ▸ hm) not_maps_zapped
  · rw [if_neg hv] at hpte
    rw [hpte] at hm
    obtain ⟨offset, place, hfinds, hslots, hro⟩ := h.rooted t c i f hc hm
    -- The walk does not read the slot.
    have hslot : (o, slotNdx) ∉ slotsRead y.mem erosPageLgsize (maxSegDepth - 1) c.backgroundGPT
        (c.start offset) := fun hmem =>
      hv (hvisited ⟨t, i⟩ c hc (not_zapped_of_maps hm) (hslots _ hmem))
    obtain ⟨htrans, hread⟩ := translateAt_setSlot (k := k) (maxSegDepth - 1) hslot
    refine ⟨⟨offset, place, ⟨?_, ?_, hfinds.object⟩, fun slot hmem => ?_, fun hw => ?_⟩, fun hw => ?_⟩
    · rw [heq]
      exact hfinds.serves
    · rw [heq]
      exact htrans.trans hfinds.translateAt
    · rw [heq] at hmem
      exact hslots slot (hread ▸ hmem)
    · exact hro (hpte ▸ hw)
    · exact h.writeable t c i f hc hm (hpte ▸ hw)

theorem Inv.change {change : PTE → PTE} (h : Inv y)
    (hchange : Reduces change) :
    Inv { y with tables := y.tables.mapPTEs change visited } := by
  refine h.evolve evolves_mapPTEs (fun b hb => hb) fun t c c' i f hc heq hpte hm => ?_
  by_cases hv : visited ⟨t, i⟩ = true
  · rw [if_pos hv] at hpte
    rw [hpte] at hm
    obtain ⟨hm₀, hw⟩ := hchange _ f hm
    exact h.entry hc heq rfl hm₀ (fun hw' => hw (hpte ▸ hw')) (fun _ hslot => hslot) fun _ hg => hg
  · rw [if_neg hv] at hpte
    exact h.entry hc heq rfl (hpte ▸ hm) (fun hw => hpte ▸ hw) (fun _ hslot => hslot) fun _ hg => hg

/-- A page that becomes clean, or kernel-read-only, is mapped by no entry that grants write access. -/
theorem Inv.protect {change : PTE → PTE} (h : Inv y)
    (hchange : Reduces change) (hprotects : ∀ pte, (change pte).grantsWrite = false)
    (hcov : y.tables.Covers f visited) (hcareful : System.Op.WritersMediated y f) :
    Inv { y with tables := (y.tables.mapPTEs change visited).setPage f pg } := by
  have hmapped : Inv { y with tables := y.tables.mapPTEs change visited } := h.change hchange
  refine ⟨hmapped.background, hmapped.rooted, fun t c' i g hc' hm hw => ?_⟩
  by_cases hg : g = f
  · subst hg
    obtain ⟨c, hc, rfl⟩ := mapPTEs_cpt hc'
    by_cases hv : visited ⟨t, i⟩ = true
    · simp only [if_pos hv] at hw
      exact absurd hw (by rw [hprotects]; decide)
    · -- It was not built with a key to the page.
      simp only [if_neg hv] at hm hw
      have hmediated : y.tables.Mediated g ⟨t, i⟩ := fun c₀ hc₀ =>
        Option.some.inj (hc.symm.trans hc₀) ▸ hcareful ⟨t, i⟩ c hc hm hw
      exact absurd (hcov ⟨t, i⟩ ⟨c, hc, hm⟩ hmediated) hv
  · have hflags := hmapped.writeable t c' i g hc' hm hw
    have hpage : ((y.tables.mapPTEs change visited).setPage f pg).page g = y.tables.page g :=
      update_of_ne hg ..
    rw [hpage]
    exact hflags

theorem Inv.setCPT {new : Option CPT} (h : Inv y)
    (hnew : ∀ c, new = some c → (∀ i, c.pte i = .zapped) ∧
      ∀ b, c.backgroundGPT = some b → (y.mem.gpt b).hasBackground = true) :
    Inv { y with tables := y.tables.setCPT t new } := by
  have hcase (t' : ℕ) (c : CPT) (hc : (y.tables.setCPT t new).cpt t' = some c) :
      y.tables.cpt t' = some c ∨ new = some c := by
    unfold State.setCPT at hc
    by_cases ht : t' = t
    · subst ht
      exact Or.inr (by simpa using hc)
    · exact Or.inl (by simpa [update_of_ne ht] using hc)
  have hunmapped (c : CPT) (i f : ℕ) (hc : new = some c) : ¬(c.pte i).Maps f := by
    rw [(hnew c hc).1]
    exact not_maps_zapped
  constructor
  case background =>
    intro t' c b hc hb
    rcases hcase t' c hc with hc | hc
    · exact h.background t' c b hc hb
    · exact (hnew c hc).2 b hb
  case rooted =>
    intro t' c i f hc hm
    rcases hcase t' c hc with hc | hc
    · exact h.rooted t' c i f hc hm
    · exact absurd hm (hunmapped c i f hc)
  case writeable =>
    intro t' c i f hc hm
    rcases hcase t' c hc with hc | hc
    · exact h.writeable t' c i f hc hm
    · exact absurd hm (hunmapped c i f hc)

theorem Inv.initPage (h : Inv y) (hf : ∀ loc, ¬y.tables.MappedBy f loc) :
    Inv { y with tables := y.tables.setPage f pg } := by
  refine ⟨h.background, h.rooted, fun t c i g hc hm hw => ?_⟩
  have hg : g ≠ f := by
    rintro rfl
    exact hf ⟨t, i⟩ ⟨c, hc, hm⟩
  have hpage : (y.tables.setPage f pg).page g = y.tables.page g := update_of_ne hg ..
  rw [hpage]
  exact h.writeable t c i g hc hm hw

theorem Inv.step {op : System.Op} (h : Inv y) (ha : op.Allowed y) (hcareful : op.Careful y)
    (hrun : op.run writeback y = .ok y') : Inv y' := by
  cases op with
  | fault loc wi mva now reclaimed visited =>
    obtain ⟨c, hc, -, hfrom, -⟩ := ha
    simp only [System.Op.run, hc] at hrun
    exact h.fault hc hfrom (fun hw => hcareful hw c hc) hrun
  | refill loc isWrite mva now visited =>
    obtain ⟨c, hc, -, hlru, -⟩ := ha
    simp only [System.Op.run, hc] at hrun
    obtain ⟨tables, hfill, hrun⟩ := of_bind_ok hrun
    cases hrun
    exact h.refill hc hlru (fun hw => hcareful hw c hc) hfill
  | setSlot o i k visited =>
    cases hrun
    exact h.setSlot ha
  | trackReferenced visited =>
    cases hrun
    exact h.change reduces_trackReferenced
  | clean f visited =>
    cases hrun
    exact h.protect reduces_trackDirty
      (fun pte => by simpa using fun hw => grantsWrite_of_trackDirty hw) ha hcareful
  | makeReadOnly f visited =>
    cases hrun
    exact h.protect reduces_makeRO
      (fun pte => by simpa using fun hw => grantsWrite_of_makeRO hw) ha hcareful
  | allocateCPT t producer producerNdx backgroundGPT readOnly tableCacheAddr =>
    cases hrun
    refine h.setCPT fun c hc => ?_
    cases hc
    exact ⟨fun _ => rfl, ha.2⟩
  | releaseCPT t =>
    cases hrun
    exact h.setCPT fun c hc => nomatch hc
  | initPage f pg =>
    cases hrun
    exact h.initPage ha

theorem inv_run (h : System.CarefulReach writeback mem y) : Inv y := by
  induction h with
  | init =>
    refine ⟨?_, ?_, ?_⟩
    · intro t c b hc
      cases hc
    · intro t c i f hc
      cases hc
    · intro t c i f hc
      cases hc
  | step op _ ha hcareful hrun ih => exact ih.step ha hcareful hrun

theorem maps_of_grantsWrite (h : pte.grantsWrite = true) : pte.Maps pte.frame := by
  unfold PTE.grantsWrite at h
  simp only [Bool.and_eq_true] at h
  exact ⟨Or.inl h.1, rfl⟩

/-- In every run of careful steps, an entry that grants write access maps a page that a walk for a
write access reaches, from the object and restrictions of its table, without a read-only
restriction. The page is dirty and not kernel-read-only. -/
theorem authority_run (h : System.CarefulReach writeback mem y) :
    ∀ (loc : Loc) c, y.tables.cpt loc.table = some c → (c.pte loc.ndx).grantsWrite = true →
      Authorized y.mem c loc.ndx (c.pte loc.ndx).frame ∧
        (y.tables.page (c.pte loc.ndx).frame).dirty = true ∧
        (y.tables.page (c.pte loc.ndx).frame).kro = false := by
  intro loc c hc hw
  have hinv := inv_run h
  have hm := maps_of_grantsWrite hw
  obtain ⟨offset, place, hfinds, -, hro⟩ := hinv.rooted _ c _ _ hc hm
  refine ⟨⟨offset, place, hfinds.serves, ?_, hfinds.object, hro hw⟩, hinv.writeable _ c _ _ hc hm hw⟩
  exact translateAt_write _ hfinds.translateAt (hro hw)

/-! ## Runs of one entry -/

/-- GPT 1 has a key to page 7 in slot 0, with these permissions. -/
def onePageSpace (keyPerms : BitVec 5) : Memory where
  gpt _ :=
    { slot := fun i => if i = 0 then Key.setL2g ⟨.page, keyPerms, 0, .prep 7⟩ 12 else .void
      l2vField := 12
      l2v_ge := Gpt.l2v_ge_page }
  currentCount _ _ := none

/-- The walk of a fault in a table that GPT 1 produces. -/
def gptWalk (needWrite : Bool) : SegWalk := ⟨.gpt 1, 0, needWrite, 0, none, .none, 0, 0, none⟩

/-- A table for the megabyte at 0x2000000. -/
def oneTable (producer : MemObj) (readOnly : Bool) : CPT :=
  ⟨producer, 0, none, readOnly, 0x2000000, fun _ => .zapped⟩

/-- That table is allocated. -/
def withTable (mem : Memory) (c : CPT) : System := ⟨State.init.setCPT 1 (some c), mem, fun _ => []⟩

theorem careful_withTable (mem : Memory) (producer : MemObj) (readOnly : Bool) :
    System.CarefulReach writeback mem (withTable mem (oneTable producer readOnly)) :=
  .step (.allocateCPT 1 producer 0 none readOnly 0x2000000) .init
    ⟨rfl, fun _ hb => nomatch hb⟩ trivial rfl

theorem fromTable_gptWalk (needWrite : Bool) :
    FromTable (oneTable (.gpt 1) false) 0 (gptWalk needWrite) :=
  ⟨rfl, by simp [CPT.Serves, gptWalk, oneTable], rfl, by simp [gptWalk, oneTable, isReadOnly],
    by simp [gptWalk, maxSegDepth]⟩

/-- A fault at the first page of the table. -/
def firstFault (wi : SegWalk) : System.Op :=
  .fault ⟨1, 0⟩ wi 0x2000000 0 (fun _ => false) fun _ => true

theorem firstFault_run (writeback : Bool) (y : System) (c : CPT)
    (hc : y.tables.cpt 1 = some c) (hwalk : walkSeg y.mem erosPageLgsize wi = .ok wi')
    (hpage : wi'.memObj = .page f)
    (hfill : fillPTE writeback (walk y.tables ⟨1, 0⟩ fun _ => false) ⟨1, 0⟩ c f wi.needWrite
      0x2000000 0 (fun _ => true) = .ok tables) :
    ∃ deps, (firstFault wi).run writeback y = .ok { y with tables, deps } := by
  simp only [firstFault, System.Op.run, hc, System.fault, hwalk, hpage, hfill]
  exact ⟨_, rfl⟩

/-- A table is allocated and its first page is written. -/
theorem authority_run_one_page : ∃ y c, System.CarefulReach false (onePageSpace 0) y ∧
    y.tables.cpt 1 = some c ∧ (c.pte 0).grantsWrite = true ∧ Authorized y.mem c 0 7 ∧
    (y.tables.page 7).dirty = true := by
  have hwalk : walkSeg (onePageSpace 0) erosPageLgsize (gptWalk true) =
      .ok ⟨.page 7, 0, true, 0, none, .none, 0, 1, none⟩ := by decide +kernel
  obtain ⟨deps, hrun⟩ := firstFault_run false
    (withTable (onePageSpace 0) (oneTable (.gpt 1) false)) _ rfl hwalk rfl rfl
  have h₂ : System.CarefulReach false (onePageSpace 0) _ :=
    .step (firstFault (gptWalk true)) (careful_withTable _ _ _)
      ⟨_, rfl, by decide, fromTable_gptWalk _, fun _ _ _ _ _ _ _ => rfl⟩
      (fun _ c hc hro => by cases hc; cases hro) hrun
  obtain ⟨hauth, hdirty, -⟩ := authority_run h₂ ⟨1, 0⟩ _ rfl rfl
  exact ⟨_, _, h₂, rfl, rfl, hauth, hdirty⟩

theorem System.CarefulReach.reach (h : System.CarefulReach writeback mem y) :
    System.Reach writeback mem y := by
  induction h with
  | init => exact .init
  | step op _ ha _ hrun ih => exact .step op ih ha hrun

theorem not_authorized_onePageSpace :
    ¬Authorized (onePageSpace memoryReadOnly) (oneTable (.gpt 1) false) 0 f := by
  rintro ⟨offset, place, hserves, htrans, -, -⟩
  have hl2v : ((onePageSpace memoryReadOnly).gpt 1).curL2v = 12 := rfl
  have hoffset : offset / 2 ^ ((onePageSpace memoryReadOnly).gpt 1).curL2v = 0 := by
    simpa [CPT.Serves, oneTable, erosPageSize, hl2v] using hserves
  have hstop : ¬((onePageSpace memoryReadOnly).gpt 1).curL2v < erosPageLgsize :=
    not_lt.2 ((onePageSpace memoryReadOnly).gpt 1).l2v_ge
  rw [show maxSegDepth - 1 = 18 + 1 from rfl, translateAt_gpt (o := 1) rfl hstop] at htrans
  obtain ⟨place', hnext, -⟩ := of_bind_ok htrans
  -- The first slot is selected, and its key is read only.
  obtain ⟨⟨k, va, trail⟩, hslot, hkey⟩ := of_bind_ok hnext
  obtain ⟨window, hsel, rfl⟩ := of_selectSlot_ok hslot
  have hk : k = Key.setL2g ⟨.page, memoryReadOnly, 0, .prep 7⟩ 12 := by
    cases hsel with
    | direct =>
      simp only [CPT.start, hoffset]
      rfl
    | window _ hw htype =>
      simp only [CPT.start, hoffset] at hw
      subst hw
      exact absurd htype (by decide)
  subst hk
  obtain ⟨-, htrail, hro⟩ := of_enterKey_ok hkey
  rw [Bool.and_true, htrail, readOnlyPath_append, Bool.or_eq_false_iff] at hro
  exact absurd hro.2 (by decide)

/-- Page 7 is read with a read-only key, and its entry is made to track LRU. When the page is then
written, the entry grants write access. -/
theorem authority_fails_refill : ∃ y c, System.Reach false (onePageSpace memoryReadOnly) y ∧
    y.tables.cpt 1 = some c ∧ (c.pte 0).grantsWrite = true ∧
    ¬Authorized y.mem c 0 (c.pte 0).frame := by
  have hwalk : walkSeg (onePageSpace memoryReadOnly) erosPageLgsize (gptWalk false) =
      .ok ⟨.page 7, 0, false, 8, none, .none, 0, 1, none⟩ := by decide +kernel
  obtain ⟨deps, hrun⟩ := firstFault_run false
    (withTable (onePageSpace memoryReadOnly) (oneTable (.gpt 1) false)) _ rfl hwalk rfl rfl
  have h₁ : System.Reach false (onePageSpace memoryReadOnly) _ :=
    .step (firstFault (gptWalk false)) (careful_withTable _ _ _).reach
      ⟨_, rfl, by decide, fromTable_gptWalk _, fun _ _ _ _ _ _ _ => rfl⟩ hrun
  have h₂ : System.Reach false (onePageSpace memoryReadOnly) _ :=
    .step (.trackReferenced fun _ => true) h₁ trivial rfl
  have h₃ : System.Reach false (onePageSpace memoryReadOnly) _ :=
    .step (.refill ⟨1, 0⟩ true 0x2000000 0 fun _ => true) h₂
      ⟨_, rfl, by decide, rfl, fun _ _ _ => rfl⟩ rfl
  exact ⟨_, _, h₃, rfl, rfl, not_authorized_onePageSpace⟩

/-- The walk of a fault in a table that page 7 produces. -/
def pageWalk (restrictions : BitVec 8) : SegWalk :=
  ⟨.page 7, 0, true, restrictions, none, .none, 0, 0, none⟩

/-- Page 7 is written in a table that it produces itself. When it is cleaned that entry is not found. -/
theorem authority_fails_clean : ∃ y c, System.Reach false (onePageSpace 0) y ∧
    y.tables.cpt 1 = some c ∧ (c.pte 0).grantsWrite = true ∧ (c.pte 0).frame = 7 ∧
    (y.tables.page 7).dirty = false := by
  have hwalk : walkSeg (onePageSpace 0) erosPageLgsize (pageWalk 0) = .ok (pageWalk 0) := by
    decide +kernel
  obtain ⟨deps, hrun⟩ := firstFault_run false
    (withTable (onePageSpace 0) (oneTable (.page 7) false)) _ rfl hwalk rfl rfl
  have h₁ : System.Reach false (onePageSpace 0) _ :=
    .step (firstFault (pageWalk 0)) (careful_withTable _ _ _).reach
      ⟨_, rfl, by decide, ⟨rfl, by simp [CPT.Serves, pageWalk, oneTable], rfl, by decide, by decide⟩,
        fun _ _ _ _ _ _ _ => rfl⟩ hrun
  have h₂ : System.Reach false (onePageSpace 0) _ :=
    .step (.clean 7 fun l => l.table != 1) h₁
      (fun l _ hmed => by
        rw [bne_iff_ne]
        rintro hl
        exact hmed _ (by rw [hl]; rfl) rfl) rfl
  exact ⟨_, _, h₂, rfl, rfl, rfl, rfl⟩

theorem not_authorized_readOnlyPage {p : ℕ} (hp : c.producer = .page p) (hro : c.readOnly = true) :
    ¬Authorized mem c ndx f := by
  rintro ⟨offset, place, -, htrans, -, hpath⟩
  rw [translateAt_page (p := p) hp] at htrans
  split at htrans <;> cases htrans
  rw [CPT.start, CPT.trail, if_pos hro] at hpath
  exact absurd (show readOnlyPath [memoryReadOnly.zeroExtend 8] = false from hpath) (by decide)

/-- Page 7 is uncached, and produces a read-only table. -/
def uncachedPage : System :=
  let y := withTable (onePageSpace 0) (oneTable (.page 7) true)
  { y with tables := y.tables.setPage 7 ⟨.uncached, 0, false, false⟩ }

/-- Page 7 is written in the read-only table. -/
theorem authority_fails_page : ∃ y c, System.Reach false (onePageSpace 0) y ∧
    y.tables.cpt 1 = some c ∧ (c.pte 0).grantsWrite = true ∧
    ¬Authorized y.mem c 0 (c.pte 0).frame := by
  have hwalk : walkSeg (onePageSpace 0) erosPageLgsize (pageWalk 8) = .ok (pageWalk 8) := by
    decide +kernel
  have h₁ : System.Reach false (onePageSpace 0) uncachedPage :=
    .step (.initPage 7 ⟨.uncached, 0, false, false⟩)
      (careful_withTable _ (.page 7) true).reach (fun _ hm => by
        obtain ⟨c, hc, hm⟩ := hm
        simp only [withTable, State.setCPT, State.init, update_apply] at hc
        split at hc <;> cases hc
        exact not_maps_zapped hm) rfl
  obtain ⟨deps, hrun⟩ := firstFault_run false uncachedPage _ rfl hwalk rfl rfl
  have h₂ : System.Reach false (onePageSpace 0) _ :=
    .step (firstFault (pageWalk 8)) h₁
      ⟨_, rfl, by decide, ⟨rfl, by simp [CPT.Serves, pageWalk, oneTable], rfl, by decide, by decide⟩,
        fun _ _ _ _ _ _ _ => rfl⟩ hrun
  exact ⟨_, _, h₂, rfl, rfl, not_authorized_readOnlyPage rfl rfl⟩

end CapROS.PageTable
