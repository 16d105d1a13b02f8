import CapROS.PageTable.Basic

/-!
# Cache classes of pages

* `Describes.noAlias`: no page is mapped cached and writeable at one modified virtual address while it
  is mapped cached at another.
* `Keeps`: the changes of an entry in place that every cache class allows (`keeps_trackReferenced`,
  `keeps_makeRO`, `keeps_trackDirty`).
* `Op.Careful`, `describes_run`: the classes describe the mappings in the runs that track no uncached
  entry for writing, and unmap no page that is left in a table it produces itself.
* `describes_fails_trackDirty`, `describes_fails_unmediated`: what happens otherwise.
-/

namespace CapROS.PageTable

/-- The entries at this place of the table are used at one modified virtual address only. -/
def CPT.OnlyAt (c : CPT) (ndx mva : ℕ) : Prop :=
  c.readOnly = false ∧ c.tableCacheAddr + ndx * erosPageSize = mva

/-- What a cache class says of an entry that maps the page. -/
def EntryOk : CacheAddr → CPT → ℕ → PTE → Prop
  | .none, _, _, _ => False
  | .oneReader a, c, i, pte => pte.ap = apReadOnly ∧ c.OnlyAt i a
  | .writeable a, c, i, _ => c.OnlyAt i a
  | .readers, _, _, pte => pte.ap = apReadOnly
  | .uncached, _, _, pte => pte.cacheable = false

/-- The cache class of the page describes its mappings. -/
def Describes (s : State) (f : ℕ) : Prop :=
  ∀ t c i, s.cpt t = some c → (c.pte i).Maps f → EntryOk (s.page f).cacheAddr c i (c.pte i)

/-- The page is not mapped cached and writeable at one modified virtual address and cached at
another. -/
def NoAlias (s : State) (f : ℕ) : Prop :=
  ∀ t c i mva t' c' i' mva', s.cpt t = some c → s.cpt t' = some c' →
    (c.pte i).Maps f → (c'.pte i').Maps f → c.UsedAt i mva → c'.UsedAt i' mva' →
    (c.pte i).cacheable = true → (c.pte i).ap = apReadWrite → (c'.pte i').cacheable = true →
    mva = mva'

variable {s s' : State} {f ndx mva now : ℕ} {writeback isWrite : Bool} {c : CPT} {pte : PTE}

theorem CPT.OnlyAt.eq {a : ℕ} (h : c.OnlyAt ndx a) (hu : c.UsedAt ndx mva) : mva = a := by
  unfold CPT.UsedAt at hu
  rw [h.1] at hu
  exact hu.trans h.2

theorem Describes.noAlias (h : Describes s f) : NoAlias s f := by
  intro t c i mva t' c' i' mva' hc hc' hm hm' hu hu' hcache hrw hcache'
  have hok := h t c i hc hm
  have hok' := h t' c' i' hc' hm'
  have hne : apReadWrite ≠ apReadOnly := by decide
  cases hclass : (s.page f).cacheAddr with
  | none =>
    rw [hclass] at hok
    exact hok.elim
  | oneReader a =>
    rw [hclass] at hok
    exact absurd (hrw.symm.trans hok.1) hne
  | writeable a =>
    -- Both entries are at the address of the class.
    rw [hclass] at hok hok'
    exact (hok.eq hu).trans (hok'.eq hu').symm
  | readers =>
    rw [hclass] at hok
    exact absurd (hrw.symm.trans hok) hne
  | uncached =>
    rw [hclass] at hok
    rw [show (c.pte i).cacheable = false from hok] at hcache
    cases hcache

/-! ## Changes in place -/

/-- A change of an entry leaves it a mapping of the same page at most, and as each class allows. -/
def Keeps (change : PTE → PTE) (pte : PTE) : Prop :=
  ∀ f, (change pte).Maps f → pte.Maps f ∧
    ((change pte).ap = pte.ap ∨ (change pte).ap = apReadOnly) ∧
    (change pte).cacheable = pte.cacheable

variable {ca : CacheAddr} {change : PTE → PTE}

theorem EntryOk.keeps (h : EntryOk ca c ndx pte)
    (hap : (change pte).ap = pte.ap ∨ (change pte).ap = apReadOnly)
    (hcache : (change pte).cacheable = pte.cacheable) : EntryOk ca c ndx (change pte) := by
  cases ca with
  | none => exact h
  | oneReader a => exact ⟨hap.elim (fun e => e.trans h.1) id, h.2⟩
  | writeable a => exact h
  | readers => exact hap.elim (fun e => e.trans h) id
  | uncached => exact hcache.trans h

theorem entryOk_withPTEs (p : ℕ → PTE) :
    EntryOk ca { c with pte := p } ndx pte ↔ EntryOk ca c ndx pte := by
  cases ca <;> rfl

theorem not_maps_zapped : ¬PTE.zapped.Maps f := by
  simp [PTE.Maps, PTE.zapped, PTE.trackingLRU]

theorem not_maps_inProgress : ¬PTE.inProgress.Maps f := by
  simp [PTE.Maps, PTE.inProgress, PTE.trackingLRU]

theorem keeps_trackReferenced (pte : PTE) : Keeps PTE.trackReferenced pte := by
  intro f hm
  unfold PTE.trackReferenced at hm ⊢
  split
  case isTrue hv =>
    rw [if_pos hv] at hm
    exact ⟨⟨Or.inl hv, hm.2⟩, Or.inl rfl, rfl⟩
  case isFalse hv =>
    rw [if_neg hv] at hm
    exact ⟨hm, Or.inl rfl, rfl⟩

theorem keeps_makeRO (pte : PTE) : Keeps (PTE.makeRO writeback) pte := by
  intro f hm
  unfold PTE.makeRO at hm ⊢
  split
  case isTrue hw =>
    rw [if_pos hw] at hm
    exact ⟨hm, Or.inr rfl, rfl⟩
  case isFalse hw =>
    rw [if_neg hw] at hm
    exact ⟨hm, Or.inl rfl, rfl⟩

/-- Tracking for writing makes an entry cacheable, which it has to be already. -/
theorem keeps_trackDirty (h : pte.grantsWrite = true → pte.cacheable = true) :
    Keeps PTE.trackDirty pte := by
  intro f hm
  unfold PTE.trackDirty at hm ⊢
  split
  case isTrue hw =>
    rw [if_pos hw] at hm
    have hvalid : pte.valid = true := by
      unfold PTE.grantsWrite at hw
      simp only [Bool.and_eq_true] at hw
      exact hw.1
    exact ⟨⟨Or.inl hvalid, hm.2⟩, Or.inr rfl, (h hw).symm⟩
  case isFalse hw =>
    rw [if_neg hw] at hm
    exact ⟨hm, Or.inl rfl, rfl⟩

variable {locs visited : Loc → Bool} {t g : ℕ}

theorem mapPTEs_cpt (h : (s.mapPTEs change locs).cpt t = some c) :
    ∃ c₀, s.cpt t = some c₀ ∧ c = { c₀ with
      pte := fun i => if locs ⟨t, i⟩ then change (c₀.pte i) else c₀.pte i } := by
  obtain ⟨c₀, hc₀, hc⟩ := Option.map_eq_some_iff.1 h
  exact ⟨c₀, hc₀, hc.symm⟩

theorem Describes.mapPTEs (h : Describes s f)
    (hkeeps : ∀ loc, locs loc = true → ∀ c, s.cpt loc.table = some c → Keeps change (c.pte loc.ndx)) :
    Describes (s.mapPTEs change locs) f := by
  intro t c i hc hm
  obtain ⟨c₀, hc₀, rfl⟩ := mapPTEs_cpt hc
  by_cases hloc : locs ⟨t, i⟩ = true
  · simp only [if_pos hloc] at hm ⊢
    obtain ⟨hm₀, hap, hcache⟩ := hkeeps _ hloc c₀ hc₀ f hm
    exact (entryOk_withPTEs _).2 ((h t c₀ i hc₀ hm₀).keeps hap hcache)
  · simp only [if_neg hloc] at hm ⊢
    exact (entryOk_withPTEs _).2 (h t c₀ i hc₀ hm)

theorem Describes.invalidate (h : Describes s f) :
    Describes (s.invalidate locs) f :=
  h.mapPTEs fun _ _ _ _ _ hm => absurd hm not_maps_zapped

/-! ## Filling an entry -/

/-- The cache class has to change in a way that unmaps the page. -/
def CacheAddr.Unmaps (readOnly : Bool) (mva : ℕ) (isWrite : Bool) : CacheAddr → Prop
  | .none => False
  | .oneReader a => isWrite = true ∧ ¬(readOnly = false ∧ a = mva)
  | .writeable a => ¬(readOnly = false ∧ a = mva)
  | .readers => isWrite = true
  | .uncached => False

/-- A table where the entry `ndx` may be filled for the address. -/
def CPT.Fits (c : CPT) (ndx : ℕ) (readOnly : Bool) (mva : ℕ) : Prop :=
  c.readOnly = readOnly ∧ (readOnly = false → c.OnlyAt ndx mva)

/-- What is to be shown of the outcome of `ensureCoherence`: the entries that stay and the new entry
are as the new class allows. -/
structure Coherent (ca : CacheAddr) (readOnly : Bool) (mva : ℕ) (isWrite : Bool)
    (coh : Coherence) : Prop where
  unmap : coh.unmap = true → ca.Unmaps readOnly mva isWrite
  stays : coh.unmap = false → ∀ c i pte, EntryOk ca c i pte → EntryOk coh.page.cacheAddr c i pte
  new : ∀ c i writeback f, c.Fits i readOnly mva →
    EntryOk coh.page.cacheAddr c i (.filled writeback f isWrite coh.canCache)

theorem filled_ap_read (writeback canCache : Bool) :
    (PTE.filled writeback f false canCache).ap = apReadOnly := rfl

variable {coh : Coherence} {pg : Page} {readOnly : Bool}

theorem caNone_coherent {unmap : Bool} (h : caNone pg readOnly mva now isWrite unmap = .ok coh)
    (hunmap : unmap = true → ca.Unmaps readOnly mva isWrite)
    (hnone : unmap = false → ca = .none) : Coherent ca readOnly mva isWrite coh := by
  have hstays {pg' : Page} (hu : unmap = false) (c : CPT) (i : ℕ) (pte : PTE)
      (hok : EntryOk ca c i pte) : EntryOk pg'.cacheAddr c i pte := by
    rw [hnone hu] at hok
    exact hok.elim
  unfold caNone at h
  cases isWrite with
  | true =>
    obtain ⟨hro, h⟩ := of_kassert_ok h
    cases h
    exact ⟨hunmap, hstays, fun c i wb f hfit => hfit.2 hro⟩
  | false =>
    cases readOnly with
    | true =>
      cases h
      exact ⟨hunmap, hstays, fun c i wb f _ => filled_ap_read wb _⟩
    | false =>
      cases h
      exact ⟨hunmap, hstays, fun c i wb f hfit => ⟨filled_ap_read wb _, hfit.2 rfl⟩⟩

theorem considerUncached_coherent (h : considerUncached pg readOnly mva now isWrite = .ok coh)
    (hunmap : ca.Unmaps readOnly mva isWrite) : Coherent ca readOnly mva isWrite coh := by
  unfold considerUncached at h
  split at h
  · exact caNone_coherent h (fun _ => hunmap) (fun e => nomatch e)
  · cases h
    refine ⟨fun _ => hunmap, fun e => (nomatch e), fun c i wb f _ => ?_⟩
    cases isWrite <;> rfl

theorem ensureCoherence_spec (h : ensureCoherence pg readOnly mva now isWrite = .ok coh) :
    Coherent pg.cacheAddr readOnly mva isWrite coh := by
  unfold ensureCoherence at h
  cases hca : pg.cacheAddr with
  | none =>
    rw [hca] at h
    exact caNone_coherent h (fun e => nomatch e) (fun _ => rfl)
  | oneReader a =>
    simp only [hca] at h
    split at h
    case isTrue hsame =>
      cases h
      refine ⟨fun e => (nomatch e), fun _ c i pte hok => ?_, fun c i wb f hfit => ?_⟩
      · cases isWrite with
        | true => exact hok.2
        | false => simpa [hca] using hok
      · have hat : c.OnlyAt i a := by
          rw [hsame.2]
          exact hfit.2 hsame.1
        cases isWrite with
        | true => exact hat
        | false =>
          simp only [Bool.false_eq_true, if_false, hca]
          exact ⟨filled_ap_read wb _, hat⟩
    case isFalse hdiff =>
      split at h
      case isTrue hw => exact considerUncached_coherent h ⟨hw, hdiff⟩
      case isFalse hw =>
        cases h
        refine ⟨fun e => (nomatch e), fun _ c i pte hok => hok.1, fun c i wb f _ => ?_⟩
        rw [Bool.not_eq_true] at hw
        subst hw
        exact filled_ap_read wb _
  | writeable a =>
    simp only [hca] at h
    split at h
    case isTrue hsame =>
      cases h
      refine ⟨fun e => (nomatch e), fun _ c i pte hok => ?_, fun c i wb f hfit => ?_⟩
      · rw [hca]
        exact hok
      · rw [hca, hsame.2]
        exact hfit.2 hsame.1
    case isFalse hdiff => exact considerUncached_coherent h hdiff
  | readers =>
    simp only [hca] at h
    split at h
    case isTrue hw =>
      -- As for a class of no mappings, after they have been unmapped.
      have h' : caNone pg readOnly mva now isWrite true = .ok coh := by
        unfold caNone
        rw [if_pos hw]
        exact h
      exact caNone_coherent h' (fun _ => hw) (fun e => nomatch e)
    case isFalse hw =>
      cases h
      rw [Bool.not_eq_true] at hw
      subst hw
      refine ⟨fun e => (nomatch e), fun _ c i pte hok => ?_, fun c i wb f _ => ?_⟩
      · rw [hca]
        exact hok
      · rw [hca]
        exact filled_ap_read wb _
  | uncached =>
    rw [hca] at h
    cases h
    refine ⟨fun e => (nomatch e), fun _ c i pte hok => ?_, fun c i wb f _ => ?_⟩
    · rw [hca]
      exact hok
    · rw [hca]
      cases isWrite <;> rfl

variable {loc : Loc}

theorem coherent_others (h : ∀ g, Describes s g)
    (hcoh : Coherent (s.page f).cacheAddr readOnly mva isWrite coh) (hcov : s.Covers f visited)
    (hmed : (s.page f).cacheAddr.Unmaps readOnly mva isWrite →
      ∀ l, s.MappedBy f l → l ≠ loc → s.Mediated f l) {i : ℕ}
    (hc : ((if coh.unmap then s.invalidate visited else s).setPage f coh.page).cpt t = some c)
    (hm : (c.pte i).Maps g) (hne : g = f → (⟨t, i⟩ : Loc) ≠ loc) :
    EntryOk (((if coh.unmap then s.invalidate visited else s).setPage f coh.page).page g).cacheAddr
      c i (c.pte i) := by
  rw [State.setPage_cpt] at hc
  by_cases hg : g = f
  · subst hg
    have hpage : ((if coh.unmap then s.invalidate visited else s).setPage g coh.page).page g =
        coh.page := Function.update_self ..
    rw [hpage]
    cases hu : coh.unmap with
    | false =>
      simp only [hu, Bool.false_eq_true, if_false] at hc
      exact hcoh.stays hu c i _ (h g t c i hc hm)
    | true =>
      -- All other entries that map the page have been invalidated.
      simp only [hu, if_true] at hc
      obtain ⟨c₀, hc₀, rfl⟩ := mapPTEs_cpt hc
      by_cases hv : visited ⟨t, i⟩ = true
      · simp only [if_pos hv] at hm
        exact absurd hm not_maps_zapped
      · simp only [if_neg hv] at hm
        have hmapped : s.MappedBy g ⟨t, i⟩ := ⟨c₀, hc₀, hm⟩
        exact absurd (hcov _ hmapped (hmed (hcoh.unmap hu) _ hmapped (hne rfl))) hv
  · have hpage : ((if coh.unmap then s.invalidate visited else s).setPage f coh.page).page g =
        s.page g := by
      cases coh.unmap <;> exact Function.update_of_ne hg ..
    rw [hpage]
    split at hc
    · exact (h g).invalidate t c i hc hm
    · exact h g t c i hc hm

theorem CPT.UsedAt.onlyAt (h : c.UsedAt ndx mva) (hro : c.readOnly = false) :
    c.OnlyAt ndx mva := by
  unfold CPT.UsedAt at h
  rw [hro] at h
  exact ⟨hro, h.symm⟩

theorem header_stays {b : Bool} {c₁ : CPT}
    {p : ℕ → PTE} (hp : s.cpt t = some { c with pte := p })
    (h : ((if b then s.invalidate visited else s).setPage f pg).cpt t = some c₁) :
    ∃ q, c₁ = { c with pte := q } := by
  rw [State.setPage_cpt] at h
  split at h
  · obtain ⟨c₀, hc₀, rfl⟩ := mapPTEs_cpt h
    rw [hp] at hc₀
    cases hc₀
    exact ⟨_, rfl⟩
  · rw [hp] at h
    cases h
    exact ⟨p, rfl⟩

theorem fillPTE_describes (h : ∀ g, Describes s g)
    (hc : ∃ p, s.cpt loc.table = some { c with pte := p }) (hu : c.UsedAt loc.ndx mva)
    (hcov : s.Covers f visited)
    (hmed : (s.page f).cacheAddr.Unmaps c.readOnly mva isWrite →
      ∀ l, s.MappedBy f l → l ≠ loc → s.Mediated f l)
    (hrun : fillPTE writeback s loc c f isWrite mva now visited = .ok s') :
    ∀ g, Describes s' g := by
  obtain ⟨coh, hcoh, hrun⟩ := of_bind_ok hrun
  -- That the page becomes dirty does not matter here.
  have hspec : Coherent (s.page f).cacheAddr c.readOnly mva isWrite coh := by
    have := ensureCoherence_spec hcoh
    cases isWrite <;> exact this
  have hothers {g t i : ℕ} {c' : CPT} := coherent_others (c := c') (g := g) (t := t) (i := i)
    h hspec hcov hmed
  simp only at hrun
  generalize hs₁ : (if coh.unmap then s.invalidate visited else s).setPage f coh.page = s₁ at *
  intro g t c' i hc' hm
  split at hrun
  case isTrue hzapped =>
    cases hrun
    refine hothers hc' hm fun _ hloc => ?_
    -- The entry was zapped, and maps nothing.
    rw [← hloc, State.pteAt, hc'] at hzapped
    have hpte : c'.pte i = .zapped := Option.some.inj hzapped
    rw [hpte] at hm
    exact not_maps_zapped hm
  case isFalse =>
    cases hrun
    obtain ⟨c₁, hc₁, rfl⟩ := mapPTEs_cpt hc'
    rw [entryOk_withPTEs]
    by_cases hloc : (⟨t, i⟩ : Loc) = loc
    · simp only [hloc, beq_self_eq_true, if_true] at hm ⊢
      have hgf : g = f := by
        have hframe : f = g := by
          have := hm.2
          cases isWrite <;> exact this
        exact hframe.symm
      subst hgf
      have hpage : s₁.page g = coh.page := by
        rw [← hs₁]
        exact Function.update_self ..
      have hfit : c₁.Fits i c.readOnly mva := by
        obtain ⟨p, hp⟩ := hc
        subst hloc
        obtain ⟨q, rfl⟩ := header_stays hp (hs₁ ▸ hc₁)
        exact ⟨rfl, hu.onlyAt⟩
      have hnew := hspec.new c₁ i writeback g hfit
      rw [← hpage] at hnew
      exact hnew
    · simp only [beq_iff_eq, hloc, if_false] at hm ⊢
      exact hothers hc₁ hm fun _ => hloc

/-! ## Runs -/

/-- If filling the entry unmaps the page, then all its other entries were built with a key. -/
def State.UnmapsAll (s : State) (loc : Loc) (f : ℕ) (isWrite : Bool) (mva : ℕ) : Prop :=
  ∀ c, s.cpt loc.table = some c → (s.page f).cacheAddr.Unmaps c.readOnly mva isWrite →
    ∀ l, s.MappedBy f l → l ≠ loc → s.Mediated f l

/-- The step unmaps all that it has to, and tracks no uncached entry for writing. -/
def Op.Careful (s : State) : Op → Prop
  | .fault loc f isWrite mva _ _ _ => s.UnmapsAll loc f isWrite mva
  | .refill loc isWrite mva _ _ =>
    ∀ c, s.cpt loc.table = some c → s.UnmapsAll loc (c.pte loc.ndx).frame isWrite mva
  | .clean _ visited => ∀ loc, visited loc = true → ∀ c, s.cpt loc.table = some c →
    (c.pte loc.ndx).grantsWrite = true → (c.pte loc.ndx).cacheable = true
  | _ => True

theorem Describes.setPage (h : Describes s f)
    (hpg : pg.cacheAddr = (s.page g).cacheAddr) : Describes (s.setPage g pg) f := by
  intro t c i hc hm
  have hok := h t c i hc hm
  by_cases hfg : f = g
  · subst hfg
    have hpage : (s.setPage f pg).page f = pg := Function.update_self ..
    rwa [hpage, hpg]
  · have hpage : (s.setPage g pg).page f = s.page f := Function.update_of_ne hfg ..
    rwa [hpage]

theorem Describes.setPage_unmapped (h : ∀ g, Describes s g)
    (hf : ∀ loc, ¬s.MappedBy f loc) (g : ℕ) : Describes (s.setPage f pg) g := by
  intro t c i hc hm
  by_cases hgf : g = f
  · subst hgf
    exact absurd ⟨c, hc, hm⟩ (hf ⟨t, i⟩)
  · have hpage : (s.setPage f pg).page g = s.page g := Function.update_of_ne hgf ..
    rw [hpage]
    exact h g t c i hc hm

theorem Describes.setCPT {o : Option CPT} (h : Describes s f)
    (ho : ∀ c i, o = some c → ¬(c.pte i).Maps f) : Describes (s.setCPT t o) f := by
  intro t' c i hc hm
  by_cases ht : t' = t
  · subst ht
    have hcpt : (s.setCPT t' o).cpt t' = o := Function.update_self ..
    exact absurd hm (ho c i (hcpt.symm.trans hc))
  · have hcpt : (s.setCPT t o).cpt t' = s.cpt t' := Function.update_of_ne ht ..
    exact h t' c i (hcpt.symm.trans hc) hm

/-- The same pages and tables, and no mappings but those that there were. -/
structure Fewer (s s' : State) : Prop where
  page : s'.page = s.page
  mapped : ∀ {g l}, s'.MappedBy g l → s.MappedBy g l
  mediated : ∀ {g l}, s'.MappedBy g l → s.Mediated g l → s'.Mediated g l
  header : ∀ t c, s.cpt t = some c → ∃ p, s'.cpt t = some { c with pte := p }

theorem fewer_mapPTEs
    (hchange : ∀ pte g, (change pte).Maps g → pte.Maps g) : Fewer s (s.mapPTEs change locs) where
  page := rfl
  mapped := by
    rintro g l ⟨c, hc, hm⟩
    obtain ⟨c₀, hc₀, rfl⟩ := mapPTEs_cpt hc
    refine ⟨c₀, hc₀, ?_⟩
    simp only at hm
    split at hm
    · exact hchange _ g hm
    · exact hm
  mediated := by
    rintro g l - hmed c hc
    obtain ⟨c₀, hc₀, rfl⟩ := mapPTEs_cpt hc
    exact hmed c₀ hc₀
  header _ _ hc := ⟨_, congrArg (Option.map _) hc⟩

theorem Fewer.trans {s₁ s₂ s₃ : State} (h : Fewer s₁ s₂) (h' : Fewer s₂ s₃) : Fewer s₁ s₃ where
  page := h'.page.trans h.page
  mapped hm := h.mapped (h'.mapped hm)
  mediated hm hmed := h'.mediated hm (h.mediated (h'.mapped hm) hmed)
  header t c hc := by
    obtain ⟨p, hp⟩ := h.header t c hc
    exact h'.header t { c with pte := p } hp

theorem fewer_invalidate : Fewer s (s.invalidate locs) :=
  fewer_mapPTEs fun _ _ hm => absurd hm not_maps_zapped

theorem fewer_walk (s : State) (loc : Loc) (reclaimed : Loc → Bool) :
    Fewer s (walk s loc reclaimed) := by
  unfold walk
  split
  · exact (fewer_mapPTEs fun _ _ hm => absurd hm not_maps_inProgress).trans fewer_invalidate
  · exact fewer_invalidate

theorem Describes.walk {reclaimed : Loc → Bool} (h : Describes s f) :
    Describes (PageTable.walk s loc reclaimed) f := by
  unfold PageTable.walk
  split
  · exact (h.mapPTEs fun _ _ _ _ _ hm => absurd hm not_maps_inProgress).invalidate
  · exact h.invalidate

theorem describes_step (h : ∀ g, Describes s g) (op : Op) (ha : op.Allowed s)
    (hcareful : op.Careful s) (hrun : op.run writeback s = .ok s') : ∀ g, Describes s' g := by
  cases op with
  | walkFails loc reclaimed =>
    cases hrun
    exact fun g => (h g).walk
  | fault loc f isWrite mva now reclaimed visited =>
    obtain ⟨hcov, c, hc, hu⟩ := ha
    simp only [Op.run, hc] at hrun
    have hfewer := fewer_walk s loc reclaimed
    refine fillPTE_describes (fun g => (h g).walk) (hfewer.header _ c hc) hu ?_ ?_ hrun
    · exact fun l hm hmed => hcov l (hfewer.mapped hm) (by
        intro c' hc'
        obtain ⟨p, hp⟩ := hfewer.header _ c' hc'
        exact hmed { c' with pte := p } hp)
    · rw [hfewer.page]
      exact fun hunmaps l hm hne =>
        hfewer.mediated hm (hcareful c hc hunmaps l (hfewer.mapped hm) hne)
  | refill loc isWrite mva now visited =>
    obtain ⟨c, hc, hu, -, hcov⟩ := ha
    simp only [Op.run, hc] at hrun
    exact fillPTE_describes h ⟨c.pte, hc⟩ hu hcov (hcareful c hc c hc) hrun
  | invalidate visited =>
    cases hrun
    exact fun g => (h g).invalidate
  | trackReferenced visited =>
    cases hrun
    exact fun g => (h g).mapPTEs fun _ _ _ _ => keeps_trackReferenced _
  | clean f visited =>
    cases hrun
    exact fun g => ((h g).mapPTEs fun l hl c hc => keeps_trackDirty (hcareful l hl c hc)).setPage rfl
  | makeReadOnly f visited =>
    cases hrun
    exact fun g => ((h g).mapPTEs fun _ _ _ _ => keeps_makeRO _).setPage rfl
  | allocateCPT t producer producerNdx backgroundGPT readOnly tableCacheAddr =>
    cases hrun
    refine fun g => (h g).setCPT fun c i hc hm => ?_
    cases hc
    exact not_maps_zapped hm
  | releaseCPT t =>
    cases hrun
    exact fun g => (h g).setCPT fun c i hc => nomatch hc
  | initDataPage f | initDevicePage f =>
    cases hrun
    exact Describes.setPage_unmapped h ha

/-- The states that the kernel can reach with careful steps. -/
inductive CarefulReach (writeback : Bool) : State → Prop where
  | init : CarefulReach writeback .init
  | step {s s' : State} (op : Op) : CarefulReach writeback s → op.Allowed s → op.Careful s →
      op.run writeback s = .ok s' → CarefulReach writeback s'

/-- As long as the steps are careful, the cache class of each page describes its mappings, and no page
is mapped cached and writeable at one address and cached at another. -/
theorem describes_run (h : CarefulReach writeback s) (f : ℕ) : Describes s f ∧ NoAlias s f := by
  have hall : ∀ g, Describes s g := by
    induction h with
    | init => exact fun _ _ _ _ hc => nomatch hc
    | step op _ ha hcareful hrun ih => exact describes_step ih op ha hcareful hrun
  exact ⟨hall f, (hall f).noAlias⟩

/-- A table for the megabyte at 0x2000000 is allocated, and page 7 is written there. -/
theorem describes_run_one_writer : ∃ s, CarefulReach false s ∧
    (s.page 7).cacheAddr = .writeable 0x2000000 ∧ Describes s 7 ∧ NoAlias s 7 := by
  have h₁ : CarefulReach false _ :=
    .step (.allocateCPT 1 (.gpt 1) 0 none false 0x2000000) .init rfl trivial rfl
  have h₂ : CarefulReach false _ :=
    .step (.fault ⟨1, 0⟩ 7 true 0x2000000 0 (fun _ => false) fun _ => true) h₁
      ⟨fun _ _ _ => rfl, _, rfl, by decide⟩ (fun _ _ hunmaps => hunmaps.elim) rfl
  exact ⟨_, h₂, rfl, describes_run h₂ 7⟩

/-- Page 7 is written at two addresses within a tenth of a second, and becomes uncached. When it is
cleaned, its entry becomes cacheable. -/
theorem describes_fails_trackDirty : ∃ s, Reach false s ∧ (s.page 7).cacheAddr = .uncached ∧
    s.pteAt ⟨2, 0⟩ = some ⟨7, apReadOnly, true, false, true⟩ ∧ ¬Describes s 7 := by
  have h₁ : Reach false _ :=
    .step (.allocateCPT 1 (.gpt 1) 0 none false 0x2000000) .init rfl rfl
  have h₂ : Reach false _ := .step (.allocateCPT 2 (.gpt 2) 0 none false 0x4000000) h₁ rfl rfl
  have h₃ : Reach false _ :=
    .step (.fault ⟨1, 0⟩ 7 true 0x2000000 0 (fun _ => false) fun _ => true) h₂
      ⟨fun _ _ _ => rfl, _, rfl, by decide⟩ rfl
  -- The entry that is being filled is zapped with the others, and the fault is taken again.
  have h₄ : Reach false _ :=
    .step (.fault ⟨2, 0⟩ 7 true 0x4000000 1 (fun _ => false) fun _ => true) h₃
      ⟨fun _ _ _ => rfl, _, rfl, by decide⟩ rfl
  have h₅ : Reach false _ :=
    .step (.fault ⟨2, 0⟩ 7 true 0x4000000 1 (fun _ => false) fun _ => true) h₄
      ⟨fun _ _ _ => rfl, _, rfl, by decide⟩ rfl
  have h₆ : Reach false _ := .step (.clean 7 fun _ => true) h₅ (fun _ _ _ => rfl) rfl
  refine ⟨_, h₆, rfl, rfl, fun h => ?_⟩
  have hok := h 2 _ 0 rfl (by decide)
  exact absurd (show true = false from hok) (by decide)

/-- Page 7 is mapped by a table that it produces itself. When it is written at another address, that
entry is not found. -/
theorem describes_fails_unmediated : ∃ s, Reach false s ∧ ¬NoAlias s 7 := by
  have h₁ : Reach false _ :=
    .step (.allocateCPT 1 (.page 7) 0 none false 0x2000000) .init rfl rfl
  have h₂ : Reach false _ := .step (.allocateCPT 2 (.gpt 2) 0 none false 0x4000000) h₁ rfl rfl
  have h₃ : Reach false _ :=
    .step (.fault ⟨1, 0⟩ 7 true 0x2000000 0 (fun _ => false) fun _ => true) h₂
      ⟨fun _ _ _ => rfl, _, rfl, by decide⟩ rfl
  have h₄ : Reach false _ :=
    .step (.fault ⟨2, 0⟩ 7 true 0x4000000 200000000 (fun _ => false) fun l => l.table != 1) h₃
      ⟨fun l _ hmed => by
        rw [bne_iff_ne]
        rintro hl
        exact hmed _ (by rw [hl]; rfl) rfl, _, rfl, by decide⟩ rfl
  have h₅ : Reach false _ :=
    .step (.fault ⟨2, 0⟩ 7 true 0x4000000 200000000 (fun _ => false) fun l => l.table != 1) h₄
      ⟨fun l _ hmed => by
        rw [bne_iff_ne]
        rintro hl
        exact hmed _ (by rw [hl]; rfl) rfl, _, rfl, by decide⟩ rfl
  refine ⟨_, h₅, fun h => ?_⟩
  have := h 1 _ 0 0x2000000 2 _ 0 0x4000000 rfl rfl (by decide) (by decide) (by decide) (by decide)
    rfl rfl rfl
  exact absurd this (by decide)

end CapROS.PageTable
