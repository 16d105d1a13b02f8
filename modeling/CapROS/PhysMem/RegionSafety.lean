import CapROS.PhysMem.Regions

/-!
# Blocks of physical memory are apart

What `physMem_Alloc` does to the table of regions, as a block that is cut from the area of one of them.

* `physMemAlloc_iff`: in a run of calls that are as they should be, the next call does what it is for just if it is
  as it should be too.
-/

namespace CapROS.PhysMem.Regions

open BuddyBlocks (add_le_of_dvd)

variable {arch : Arch} {s : System} {mc : PmemConstraint arch} {pmemInfo pmemInfo' : List PmemInfo} {r : PmemInfo}
  {rgn nBytes addr : ℕ}

/-! ## Blocks that are cut from a region -/

theorem cut_single {r' : PmemInfo} (hr : pmemInfo[rgn]? = some r) (hblock : blockAt addr nBytes ⊆ r.area)
    (hsub : r'.area ⊆ r.area) (hdisj : Disjoint r'.area (blockAt addr nBytes)) :
    Pool.Cut PmemInfo.area pmemInfo (pmemInfo.set rgn r') rgn r r' [] (blockAt addr nBytes) where
  entry := hr
  result := (List.append_nil _).symm
  block_subset := hblock
  kept_subset := hsub
  extra_subset := by
    rw [Pool.all_nil]
    exact Set.empty_subset _
  kept_block := hdisj
  extra_block := by
    rw [Pool.all_nil]
    exact Set.empty_disjoint _
  kept_extra := by
    rw [Pool.all_nil]
    exact Set.disjoint_empty _
  extra_apart := List.Pairwise.nil

theorem blockAt_subset (hmem : r.type = .memory) (hbase : r.allocBase ≤ addr)
    (hbound : addr + nBytes ≤ r.allocBound) : blockAt addr nBytes ⊆ r.area :=
  fun _ hx => ⟨hmem, hbase.trans hx.1, hx.2.trans_le hbound⟩

section Cut

variable (hr : pmemInfo[rgn]? = some r) (hmem : r.type = .memory) (hbase : r.allocBase ≤ addr)
  (hbound : addr + nBytes ≤ r.allocBound)

include hr hmem hbase hbound

theorem cut_end :
    Pool.Cut PmemInfo.area pmemInfo (pmemInfo.set rgn { r with allocBound := addr }) rgn r
      { r with allocBound := addr } [] (blockAt addr nBytes) := by
  apply cut_single hr (blockAt_subset hmem hbase hbound)
  · rintro x ⟨-, hlo, hhi⟩
    have hhi : x < addr := hhi
    exact ⟨hmem, hlo, by omega⟩
  · refine Set.disjoint_left.2 fun x ⟨_, _, hhi⟩ hblock => ?_
    exact absurd hblock.1 (not_le.2 hhi)

theorem cut_begin :
    Pool.Cut PmemInfo.area pmemInfo (pmemInfo.set rgn { r with allocBase := addr + nBytes }) rgn r
      { r with allocBase := addr + nBytes } [] (blockAt addr nBytes) := by
  apply cut_single hr (blockAt_subset hmem hbase hbound)
  · rintro x ⟨-, hlo, hhi⟩
    have hlo : addr + nBytes ≤ x := hlo
    exact ⟨hmem, by omega, hhi⟩
  · refine Set.disjoint_left.2 fun x ⟨_, hlo, _⟩ hblock => ?_
    exact absurd hblock.2 (not_lt.2 hlo)

/-- The block is taken from the middle, and the memory from `split` on, but not what is in the block, is a region of
its own. -/
theorem cut_middle {split : ℕ} :
    Pool.Cut PmemInfo.area pmemInfo
      (pmemInfo.set rgn { r with bound := split, allocBound := addr } ++
        [⟨split, r.allocBound, .memory, max split (addr + nBytes), r.allocBound⟩]) rgn r
      { r with bound := split, allocBound := addr }
      [⟨split, r.allocBound, .memory, max split (addr + nBytes), r.allocBound⟩] (blockAt addr nBytes) := by
  have hnew : ∀ x ∈ PmemInfo.area ⟨split, r.allocBound, .memory, max split (addr + nBytes), r.allocBound⟩,
      addr + nBytes ≤ x ∧ x < r.allocBound := fun x hx => ⟨(le_max_right _ _).trans hx.2.1, hx.2.2⟩
  have hkept : ∀ x ∈ PmemInfo.area { r with bound := split, allocBound := addr },
      r.allocBase ≤ x ∧ x < addr := fun x hx => hx.2
  refine ⟨hr, rfl, blockAt_subset hmem hbase hbound, ?_, ?_, ?_, ?_, ?_, List.pairwise_singleton _ _⟩
  · intro x hx
    obtain ⟨hlo, hhi⟩ := hkept x hx
    exact ⟨hmem, hlo, by omega⟩
  · rw [Pool.all_singleton]
    intro x hx
    obtain ⟨hlo, hhi⟩ := hnew x hx
    exact ⟨hmem, by omega, hhi⟩
  · refine Set.disjoint_left.2 fun x hx hblock => ?_
    exact absurd hblock.1 (not_le.2 (hkept x hx).2)
  · rw [Pool.all_singleton]
    refine Set.disjoint_left.2 fun x hx hblock => ?_
    exact absurd hblock.2 (not_lt.2 (hnew x hx).1)
  · rw [Pool.all_singleton]
    refine Set.disjoint_left.2 fun x hx hx' => ?_
    have hhi := (hkept x hx).2
    have hlo := (hnew x hx').1
    omega

end Cut

/-! ## What one call does -/

/-- A block is taken from region `rgn` as it should be. -/
structure Taken (pmemInfo : List PmemInfo) (nBytes : ℕ) (mc : PmemConstraint arch) (rgn : ℕ) (r : PmemInfo)
    (addr : ℕ) (pmemInfo' : List PmemInfo) : Prop where
  aligned : mc.align ∣ addr
  in_region : r.allocBase ≤ addr ∧ addr + nBytes ≤ r.allocBound
  in_constraint : mc.base ≤ addr ∧ addr + nBytes ≤ mc.bound
  cut : ∃ r' extra, Pool.Cut PmemInfo.area pmemInfo pmemInfo' rgn r r' extra (blockAt addr nBytes)
  words : ∀ e ∈ pmemInfo', e ∈ pmemInfo ∨ e.allocBase < arch.span ∧ e.allocBound < arch.span

/-- If the test of a region does not wrap, there is an aligned place for the block in the region and in the
constraint. -/
theorem Suits.place (h : Suits arch nBytes mc r) (hn : nBytes ≤ min r.allocBound mc.bound) :
    ∃ t, mc.align ∣ t ∧ max r.allocBase mc.base ≤ t ∧ t + nBytes ≤ min r.allocBound mc.bound := by
  obtain ⟨-, -, hplace⟩ := h
  have hlt : min r.allocBound mc.bound < arch.span := (min_le_right _ _).trans_lt mc.bound_lt
  rw [Arch.sub_of_le hn hlt] at hplace
  have hle := alignDown_le (x := min r.allocBound mc.bound - nBytes) (A := mc.align)
  exact ⟨_, dvd_alignDown, hplace, by omega⟩

theorem words_set {r' : PmemInfo} (h : r'.allocBase < arch.span ∧ r'.allocBound < arch.span) :
    ∀ e ∈ pmemInfo.set rgn r', e ∈ pmemInfo ∨ e.allocBase < arch.span ∧ e.allocBound < arch.span := by
  intro e he
  obtain he | rfl := List.mem_or_eq_of_mem_set he
  · exact .inl he
  · exact .inr h

theorem splitRegion_eq {base split : ℕ} (hr : pmemInfo[rgn]? = some r) (hroom : pmemInfo.length < maxPmemInfo) :
    splitRegion arch pmemInfo rgn r nBytes base split = .ok (base,
      pmemInfo.set rgn { r with bound := split, allocBound := base } ++
        [⟨split, r.allocBound, .memory, max split (arch.add base nBytes), r.allocBound⟩]) := by
  have hrgn : rgn < pmemInfo.length := (List.getElem?_eq_some_iff.1 hr).1
  unfold splitRegion physMemAddRegion newRegion
  rw [if_neg (not_le.2 hroom), if_pos rfl]
  simp only [List.length_append, List.length_singleton, Nat.add_sub_cancel]
  rw [List.set_append_right _ _ le_rfl, Nat.sub_self, List.set_cons_zero, List.set_append_left _ _ hrgn]

theorem takeBlock_of_fits (hp : Preferred pmemInfo nBytes mc rgn r) (hdvd : mc.align ∣ nBytes)
    (hf : Fits pmemInfo nBytes mc r) (hw : r.allocBase < arch.span ∧ r.allocBound < arch.span) :
    ∃ addr pmemInfo', takeBlock arch pmemInfo rgn r nBytes mc (max (alignUp arch r.allocBase mc.align) mc.base)
      (min (alignDown r.allocBound mc.align) mc.bound) = .ok (addr, pmemInfo') ∧
      Taken pmemInfo nBytes mc rgn r addr pmemInfo' := by
  obtain ⟨t, ht, hlo, hhi⟩ := hp.suits.place hf.size
  obtain ⟨hmem, -, -⟩ := hp.suits
  obtain ⟨hbase, hmcbase⟩ := max_le_iff.1 hlo
  obtain ⟨hbound, hmcbound⟩ := le_min_iff.1 hhi
  have htlt : t < arch.span := by
    omega
  have hup : alignUp arch r.allocBase mc.align ≤ t := alignUp_le mc.align_dvd_span ht hbase htlt
  have hleup : r.allocBase ≤ alignUp arch r.allocBase mc.align := le_alignUp mc.align_dvd_span ht hbase htlt
  have hdown : t + nBytes ≤ alignDown r.allocBound mc.align :=
    le_alignDown mc.align_pos (Nat.dvd_add ht hdvd) hbound
  have hledown : alignDown r.allocBound mc.align ≤ r.allocBound := alignDown_le
  unfold takeBlock
  by_cases hend : alignDown r.allocBound mc.align ≤ mc.bound
  · -- From the end of the region.
    rw [min_eq_left hend, if_pos rfl, Arch.sub_of_le (by omega) (by omega)]
    exact ⟨_, _, rfl, Nat.dvd_sub dvd_alignDown hdvd, ⟨by omega, by omega⟩, ⟨by omega, by omega⟩,
      ⟨_, _, cut_end hp.entry hmem (by omega) (by omega)⟩, words_set ⟨hw.1, by dsimp only; omega⟩⟩
  have hmid : mc.bound < alignDown r.allocBound mc.align := not_le.1 hend
  rw [min_eq_right hmid.le, if_neg hmid.ne]
  by_cases hbegin : mc.base ≤ alignUp arch r.allocBase mc.align
  · -- From its beginning.
    rw [max_eq_left hbegin, if_pos rfl, Arch.add_of_lt (by omega)]
    exact ⟨_, _, rfl, dvd_alignUp, ⟨hleup, by omega⟩, ⟨hbegin, by omega⟩,
      ⟨_, _, cut_begin hp.entry hmem hleup (by omega)⟩, words_set ⟨by dsimp only; omega, hw.2⟩⟩
  have hafter : alignUp arch r.allocBase mc.align < mc.base := not_le.1 hbegin
  have hends := hf.ends hmid hafter
  rw [max_eq_right hafter.le, if_neg hafter.ne']
  by_cases hsplit : alignUp arch mc.base erosPageSize < r.allocBound
  · -- From the middle: the region is split.
    rw [if_pos hsplit] at hends ⊢
    rw [splitRegion_eq hp.entry hends.2, Arch.add_of_lt (by omega)]
    refine ⟨_, _, rfl, hends.1, ⟨by omega, by omega⟩, ⟨le_rfl, by omega⟩,
      ⟨_, _, cut_middle hp.entry hmem (by omega) (by omega)⟩, fun e he => ?_⟩
    obtain he | he := List.mem_append.1 he
    · obtain he | rfl := List.mem_or_eq_of_mem_set he
      · exact .inl he
      · exact .inr ⟨hw.1, by dsimp only; omega⟩
    · rw [List.mem_singleton.1 he]
      exact .inr ⟨by dsimp only; omega, hw.2⟩
  · -- From the end of the constraint.
    rw [if_neg hsplit] at hends ⊢
    rw [Arch.sub_of_le (by omega) mc.bound_lt]
    exact ⟨_, _, rfl, Nat.dvd_sub hends hdvd, ⟨by omega, by omega⟩, ⟨by omega, by omega⟩,
      ⟨_, _, cut_end hp.entry hmem (by omega) (by omega)⟩, words_set ⟨hw.1, by dsimp only; omega⟩⟩

theorem check_pos {p : Prop} [Decidable p] (h : p) : check p = .ok () := if_pos h

theorem check_neg {p : Prop} [Decidable p] (h : ¬ p) : check p = .error .assertion := if_neg h

theorem physMemAlloc_none (hdvd : mc.align ∣ nBytes) (h : ∀ rgn r, ¬ Preferred pmemInfo nBytes mc rgn r) :
    physMemAlloc arch pmemInfo nBytes mc = .ok (failed arch, pmemInfo) := by
  have hchoose : physMemChooseRegion arch pmemInfo nBytes mc = none := by
    apply Option.eq_none_iff_forall_ne_some.2
    intro target htarget
    exact h target.1 target.2 (preferred_of_choose htarget)
  unfold physMemAlloc
  rw [check_pos (Nat.mod_eq_zero_of_dvd hdvd), hchoose]
  rfl

theorem physMemAlloc_some (hdvd : mc.align ∣ nBytes) (hp : Preferred pmemInfo nBytes mc rgn r) :
    physMemAlloc arch pmemInfo nBytes mc =
      (takeBlock arch pmemInfo rgn r nBytes mc (max (alignUp arch r.allocBase mc.align) mc.base)
        (min (alignDown r.allocBound mc.align) mc.bound)).bind fun p =>
      (check (max (alignUp arch r.allocBase mc.align) mc.base ≤ p.1)).bind fun _ =>
      (check (arch.add p.1 nBytes ≤ min (alignDown r.allocBound mc.align) mc.bound)).bind fun _ => .ok p := by
  unfold physMemAlloc
  rw [check_pos (Nat.mod_eq_zero_of_dvd hdvd), physMemChooseRegion_eq hp]
  rfl

theorem Taken.returns (h : Taken pmemInfo nBytes mc rgn r addr pmemInfo') (hdvd : mc.align ∣ nBytes)
    (hp : Preferred pmemInfo nBytes mc rgn r)
    (htake : takeBlock arch pmemInfo rgn r nBytes mc (max (alignUp arch r.allocBase mc.align) mc.base)
      (min (alignDown r.allocBound mc.align) mc.bound) = .ok (addr, pmemInfo')) :
    physMemAlloc arch pmemInfo nBytes mc = .ok (addr, pmemInfo') := by
  obtain ⟨hlo, hhi⟩ := h.in_constraint
  obtain ⟨hbase, hbound⟩ := h.in_region
  have hend : addr + nBytes < arch.span := hhi.trans_lt mc.bound_lt
  have hup : alignUp arch r.allocBase mc.align ≤ addr :=
    alignUp_le mc.align_dvd_span h.aligned hbase (by omega)
  have hdown : addr + nBytes ≤ alignDown r.allocBound mc.align :=
    le_alignDown mc.align_pos (Nat.dvd_add h.aligned hdvd) hbound
  rw [physMemAlloc_some hdvd hp, htake]
  simp only [Except.bind]
  rw [check_pos (max_le hup hlo), Arch.add_of_lt hend, check_pos (le_min hdown hhi)]

/-! ## Runs -/

/-- What holds of the table and the blocks in a run. -/
structure Inv (arch : Arch) (s : System) : Prop where
  words : ∀ r ∈ s.pmemInfo, r.allocBase < arch.span ∧ r.allocBound < arch.span
  apart : Pool.Apart PmemInfo.area s.pmemInfo
  blocks : ∀ b ∈ s.blocks, Disjoint (blockAt b.1 b.2) (available s.pmemInfo)

theorem Inv.alloc_cases (h : Inv arch s) (hok : CallOk s.pmemInfo nBytes mc) :
    physMemAlloc arch s.pmemInfo nBytes mc = .ok (failed arch, s.pmemInfo) ∨
    ∃ rgn r addr pmemInfo', Taken s.pmemInfo nBytes mc rgn r addr pmemInfo' ∧
      Preferred s.pmemInfo nBytes mc rgn r ∧
      physMemAlloc arch s.pmemInfo nBytes mc = .ok (addr, pmemInfo') := by
  by_cases hex : ∃ rgn r, Preferred s.pmemInfo nBytes mc rgn r
  · obtain ⟨rgn, r, hp⟩ := hex
    have hw := h.words r (List.mem_of_getElem? hp.entry)
    obtain ⟨addr, pmemInfo', htake, htaken⟩ := takeBlock_of_fits hp hok.multiple (hok.fits rgn r hp) hw
    exact .inr ⟨rgn, r, addr, pmemInfo', htaken, hp, htaken.returns hok.multiple hp htake⟩
  · exact .inl (physMemAlloc_none hok.multiple fun rgn r hp => hex ⟨rgn, r, hp⟩)

theorem Taken.shrinks (h : Taken pmemInfo nBytes mc rgn r addr pmemInfo') (ha : Pool.Apart PmemInfo.area pmemInfo) :
    ∃ X, blockAt addr nBytes ⊆ X ∧ X ⊆ available pmemInfo ∧ available pmemInfo' = available pmemInfo \ X := by
  obtain ⟨r', extra, hcut⟩ := h.cut
  exact ⟨_, hcut.shrinks ha⟩

theorem Taken.allocated (h : Taken s.pmemInfo nBytes mc rgn r addr pmemInfo')
    (hp : Preferred s.pmemInfo nBytes mc rgn r) (hs : Inv arch s) : Allocated s nBytes mc addr pmemInfo' where
  aligned := h.aligned
  in_region := ⟨r, List.mem_of_getElem? hp.entry, hp.suits.1, h.in_region⟩
  in_constraint := h.in_constraint
  disjoint := by
    intro b hb
    obtain ⟨X, hblock, hX, -⟩ := h.shrinks hs.apart
    exact (hs.blocks b hb).mono_right (hblock.trans hX)
  shrinks := h.shrinks hs.apart

theorem Taken.inv (h : Taken s.pmemInfo nBytes mc rgn r addr pmemInfo') (hs : Inv arch s) :
    Inv arch ⟨pmemInfo', (addr, nBytes) :: s.blocks⟩ where
  words := by
    intro e he
    obtain he | he := h.words e he
    · exact hs.words e he
    · exact he
  apart := by
    obtain ⟨r', extra, hcut⟩ := h.cut
    exact hcut.apart hs.apart
  blocks := by
    obtain ⟨X, hblock, hX, heq⟩ := h.shrinks hs.apart
    have hleft : available pmemInfo' ⊆ available s.pmemInfo := heq ▸ Set.sdiff_subset
    intro b hb
    obtain rfl | hb := List.mem_cons.1 hb
    · refine Set.disjoint_left.2 fun x hx hx' => ?_
      change x ∈ available pmemInfo' at hx'
      rw [heq] at hx'
      exact hx'.2 (hblock hx)
    · exact (hs.blocks b hb).mono_right hleft

theorem Inv.addRegion {base bound : ℕ} {type : MemoryType} (h : Inv arch s) (hbase : base < arch.span)
    (hbound : bound < arch.span) (hnew : Disjoint (newRegion base bound type).area (available s.pmemInfo))
    (hblocks : ∀ b ∈ s.blocks, Disjoint (newRegion base bound type).area (blockAt b.1 b.2))
    (hr : physMemAddRegion s.pmemInfo base bound type = some pmemInfo) :
    Inv arch { s with pmemInfo := pmemInfo } := by
  unfold physMemAddRegion at hr
  split at hr
  · exact absurd hr (Option.some_ne_none _).symm
  obtain rfl := Option.some.inj hr
  refine ⟨fun e he => ?_, h.apart.append_singleton hnew, fun b hb => ?_⟩
  · obtain he | he := List.mem_append.1 he
    · exact h.words e he
    rw [List.mem_singleton.1 he]
    unfold newRegion
    split
    · exact ⟨hbase, hbound⟩
    · exact ⟨arch.span_pos, arch.span_pos⟩
  · refine Set.disjoint_left.2 fun x hx hx' => ?_
    obtain hx' | hx' := Pool.mem_all_append.1 hx'
    · exact Set.disjoint_left.1 (h.blocks b hb) hx hx'
    · rw [Pool.all_singleton] at hx'
      exact Set.disjoint_left.1 (hblocks b hb) hx' hx

theorem Run.inv (h : Run arch s) : Inv arch s := by
  induction h with
  | start pmemInfo hwords hapart => exact ⟨hwords, hapart, fun b hb => absurd hb List.not_mem_nil⟩
  | addRegion _ base bound type hbase hbound hnew hblocks hr ih => exact ih.addRegion hbase hbound hnew hblocks hr
  | @alloc s _ mc nBytes hn hok addr pmemInfo hr ih =>
    obtain hfail | ⟨rgn, r, addr', pmemInfo', htaken, -, hret⟩ := ih.alloc_cases hok
    · -- Nothing is changed.
      obtain ⟨rfl, rfl⟩ := Prod.mk.inj (Except.ok.inj (hr.symm.trans hfail))
      rw [if_pos rfl]
      exact ih
    · obtain ⟨rfl, rfl⟩ := Prod.mk.inj (Except.ok.inj (hr.symm.trans hret))
      have hinv := htaken.inv ih
      split
      · exact ⟨hinv.words, hinv.apart, fun b hb => hinv.blocks b (List.mem_cons_of_mem _ hb)⟩
      · exact hinv

theorem Inv.meets (h : Inv arch s) (hok : CallOk s.pmemInfo nBytes mc) : Meets s nBytes mc := by
  obtain hfail | ⟨rgn, r, addr, pmemInfo', htaken, hp, hret⟩ := h.alloc_cases hok
  · exact ⟨_, _, hfail, .inl ⟨rfl, rfl⟩⟩
  · exact ⟨addr, pmemInfo', hret, .inr (htaken.allocated hp h)⟩

/-! ## The other calls -/

theorem eq_of_set_eq_self {r' : PmemInfo} (hr : pmemInfo[rgn]? = some r) (h : pmemInfo.set rgn r' = pmemInfo) :
    r' = r := by
  have hset : (pmemInfo.set rgn r')[rgn]? = some r' :=
    List.getElem?_set_self (List.getElem?_eq_some_iff.1 hr).1
  rw [h, hr] at hset
  exact (Option.some.inj hset).symm

/-- What is asked of a block that a call returns, as far as it is needed here. -/
def Sound (pmemInfo : List PmemInfo) (nBytes : ℕ) (mc : PmemConstraint arch) (addr : ℕ)
    (pmemInfo' : List PmemInfo) : Prop :=
  addr = failed arch ∧ pmemInfo' = pmemInfo ∨ mc.align ∣ addr ∧ addr + nBytes ≤ mc.bound

/-- From the end of the region: a size for which the subtraction wraps gives an address above all memory. -/
theorem size_of_end (hr : pmemInfo[rgn]? = some r) (hdvd : mc.align ∣ nBytes) (hn : nBytes < arch.span)
    (h : Sound pmemInfo nBytes mc (arch.sub (alignDown r.allocBound mc.align) nBytes)
      (pmemInfo.set rgn { r with allocBound := arch.sub (alignDown r.allocBound mc.align) nBytes })) :
    nBytes ≤ alignDown r.allocBound mc.align := by
  by_contra hgt
  have hlt := not_le.1 hgt
  rw [Arch.sub_of_lt hlt hn] at h
  obtain ⟨hfail, hsame⟩ | ⟨-, hin⟩ := h
  · -- The address of a failure: then the alignment is 1, and the region ends at the last address.
    rw [failed_eq] at hfail
    have hnext : nBytes = alignDown r.allocBound mc.align + 1 := by omega
    have hone : mc.align ∣ 1 := by
      rw [hnext] at hdvd
      exact (Nat.dvd_add_right dvd_alignDown).1 hdvd
    have hdown : alignDown r.allocBound mc.align = r.allocBound := by
      rw [Nat.dvd_one.1 hone, alignDown, Nat.div_one, Nat.mul_one]
    have hsame := congrArg PmemInfo.allocBound (eq_of_set_eq_self hr hsame)
    dsimp only at hsame
    omega
  · have := mc.bound_lt
    omega

theorem size_of_begin (hs : Suits arch nBytes mc r) (hw : r.allocBound < arch.span)
    (h : Sound pmemInfo nBytes mc (alignUp arch r.allocBase mc.align) pmemInfo') : nBytes ≤ mc.bound := by
  obtain ⟨hfail, -⟩ | ⟨-, hin⟩ := h
  · -- A multiple of the alignment that is the last address: then the region begins there, and is empty.
    exfalso
    rw [failed_eq] at hfail
    have hmul : mc.align ∣ alignUp arch r.allocBase mc.align := dvd_alignUp
    have hroom := add_le_of_dvd hmul mc.align_dvd_span (by omega)
    have hone : mc.align = 1 := by
      have := mc.align_pos
      omega
    have hlt := hs.2.1
    rw [hone, alignUp, alignDown, Nat.div_one, Nat.mul_one, Nat.sub_self, Arch.add,
      Nat.mod_eq_of_lt (by omega)] at hfail
    omega
  · omega

theorem bound_of_last (hr : pmemInfo[rgn]? = some r) (hdvd : mc.align ∣ nBytes) (hn : nBytes < arch.span)
    (hsplit : r.allocBound ≤ alignUp arch mc.base erosPageSize)
    (h : Sound pmemInfo nBytes mc (arch.sub mc.bound nBytes)
      (pmemInfo.set rgn { r with allocBound := arch.sub mc.bound nBytes })) :
    nBytes ≤ mc.bound ∧ mc.align ∣ mc.bound := by
  obtain ⟨hfail, hsame⟩ | ⟨halign, hin⟩ := h
  · -- The last address is not below the end of the region, but it is no page boundary.
    exfalso
    have hsame := congrArg PmemInfo.allocBound (eq_of_set_eq_self hr hsame)
    rw [failed_eq] at hfail
    dsimp only at hsame
    have hlt : alignUp arch mc.base erosPageSize < arch.span :=
      alignDown_le.trans_lt (Nat.mod_lt _ arch.span_pos)
    have hmul : erosPageSize ∣ alignUp arch mc.base erosPageSize := dvd_alignUp
    have hroom := add_le_of_dvd hmul (page_dvd_span arch) hlt
    have hpage : erosPageSize = 4096 := rfl
    omega
  · have hsize : nBytes ≤ mc.bound := by
      by_contra hgt
      rw [Arch.sub_of_lt (not_le.1 hgt) hn] at hin
      omega
    refine ⟨hsize, ?_⟩
    rw [Arch.sub_of_le hsize mc.bound_lt] at halign
    have hsum := Nat.dvd_add halign hdvd
    rwa [Nat.sub_add_cancel hsize] at hsum

theorem fits_of_takeBlock (hp : Preferred pmemInfo nBytes mc rgn r) (hdvd : mc.align ∣ nBytes)
    (hn : nBytes < arch.span) (hw : r.allocBound < arch.span)
    (htake : takeBlock arch pmemInfo rgn r nBytes mc (max (alignUp arch r.allocBase mc.align) mc.base)
      (min (alignDown r.allocBound mc.align) mc.bound) = .ok (addr, pmemInfo'))
    (h : Sound pmemInfo nBytes mc addr pmemInfo') : Fits pmemInfo nBytes mc r := by
  have hbounds := hp.suits.2.1
  have hledown : alignDown r.allocBound mc.align ≤ r.allocBound := alignDown_le
  unfold takeBlock at htake
  by_cases hend : alignDown r.allocBound mc.align ≤ mc.bound
  · rw [min_eq_left hend, if_pos rfl] at htake
    obtain ⟨rfl, rfl⟩ := Prod.mk.inj (Except.ok.inj htake)
    have hsize := size_of_end hp.entry hdvd hn h
    exact ⟨le_min (hsize.trans hledown) (hsize.trans hend), fun hmid => absurd hend (not_le.2 hmid)⟩
  have hmid : mc.bound < alignDown r.allocBound mc.align := not_le.1 hend
  rw [min_eq_right hmid.le, if_neg hmid.ne] at htake
  by_cases hbegin : mc.base ≤ alignUp arch r.allocBase mc.align
  · rw [max_eq_left hbegin, if_pos rfl] at htake
    obtain ⟨rfl, rfl⟩ := Prod.mk.inj (Except.ok.inj htake)
    have hsize := size_of_begin hp.suits hw h
    exact ⟨le_min (by omega) hsize, fun _ hafter => absurd hbegin (not_le.2 hafter)⟩
  have hafter : alignUp arch r.allocBase mc.align < mc.base := not_le.1 hbegin
  rw [max_eq_right hafter.le, if_neg hafter.ne'] at htake
  by_cases hsplit : alignUp arch mc.base erosPageSize < r.allocBound
  · rw [if_pos hsplit] at htake
    have hroom : pmemInfo.length < maxPmemInfo := by
      by_contra hfull
      unfold splitRegion physMemAddRegion at htake
      rw [if_pos (not_lt.1 hfull)] at htake
      cases htake
    rw [splitRegion_eq hp.entry hroom] at htake
    obtain ⟨rfl, -⟩ := Prod.mk.inj (Except.ok.inj htake)
    obtain ⟨hfail, -⟩ | ⟨halign, hin⟩ := h
    · -- The constraint begins before it ends, so not at the last address.
      exfalso
      rw [failed_eq] at hfail
      omega
    · refine ⟨le_min (by omega) (by omega), fun _ _ => ?_⟩
      rw [if_pos hsplit]
      exact ⟨halign, hroom⟩
  · rw [if_neg hsplit] at htake
    obtain ⟨rfl, rfl⟩ := Prod.mk.inj (Except.ok.inj htake)
    obtain ⟨hsize, hbound⟩ := bound_of_last hp.entry hdvd hn (not_lt.1 hsplit) h
    refine ⟨le_min (by omega) hsize, fun _ _ => ?_⟩
    rw [if_neg hsplit]
    exact hbound

theorem Inv.callOk (h : Inv arch s) (hn : nBytes < arch.span) (hm : Meets s nBytes mc) :
    CallOk s.pmemInfo nBytes mc := by
  obtain ⟨addr, pmemInfo', hret, hres⟩ := hm
  have hdvd : mc.align ∣ nBytes := by
    by_contra hnot
    unfold physMemAlloc at hret
    rw [check_neg (fun hmod => hnot (Nat.dvd_of_mod_eq_zero hmod))] at hret
    cases hret
  have hsound : Sound s.pmemInfo nBytes mc addr pmemInfo' :=
    hres.imp id fun hall => ⟨hall.aligned, hall.in_constraint.2⟩
  refine ⟨hdvd, fun rgn r hp => ?_⟩
  have hw := (h.words r (List.mem_of_getElem? hp.entry)).2
  rw [physMemAlloc_some hdvd hp] at hret
  obtain ⟨p, htake, hret⟩ := of_bind_ok hret
  obtain ⟨-, -, hret⟩ := of_bind_ok hret
  obtain ⟨-, -, hret⟩ := of_bind_ok hret
  obtain rfl := Except.ok.inj hret
  exact fits_of_takeBlock hp hdvd hn hw htake hsound

/-- In any run of calls that are as they should be, the next call fails without an effect, or allocates a new block
that is aligned and in one region and in the constraint, just if it is as it should be too. -/
theorem physMemAlloc_iff (h : Run arch s) (mc : PmemConstraint arch) (hn : nBytes < arch.span) :
    Meets s nBytes mc ↔ CallOk s.pmemInfo nBytes mc :=
  ⟨h.inv.callOk hn, h.inv.meets⟩

theorem callOk_of_choose (hdvd : mc.align ∣ nBytes)
    (hchoose : physMemChooseRegion arch pmemInfo nBytes mc = some (rgn, r)) (hf : Fits pmemInfo nBytes mc r) :
    CallOk pmemInfo nBytes mc := by
  refine ⟨hdvd, fun rgn' r' hp => ?_⟩
  obtain ⟨-, rfl⟩ := (preferred_of_choose hchoose).unique hp
  exact hf

/-- Memory from 1 MB to 2 MB. -/
def oneMegabyte : PmemInfo := ⟨0x100000, 0x200000, .memory, 0x100000, 0x200000⟩

/-- Pages in the middle of it. -/
def middlePages : PmemConstraint .arm where
  base := 0x120000
  bound := 0x140000
  align := 0x1000
  base_lt := by decide
  bound_lt := by decide
  align_pow := ⟨12, by decide, rfl⟩

theorem run_oneMegabyte : Run .arm ⟨[oneMegabyte], []⟩ := by
  refine .start [oneMegabyte] (fun r hr => ?_) (List.pairwise_singleton _ _)
  rw [List.mem_singleton.1 hr]
  decide

/-- After two pages have been taken from the end, three are taken from the middle. -/
theorem physMemAlloc_iff_middle :
    Meets ⟨[{ oneMegabyte with allocBound := 0x1fe000 }], [(0x1fe000, 0x2000)]⟩ 0x3000 middlePages := by
  have hret : physMemAlloc .arm [oneMegabyte] 0x2000 (physMemPages .arm) =
      .ok (0x1fe000, [{ oneMegabyte with allocBound := 0x1fe000 }]) := by decide +kernel
  have hfirst : Run .arm ⟨[{ oneMegabyte with allocBound := 0x1fe000 }], [(0x1fe000, 0x2000)]⟩ := by
    refine run_oneMegabyte.alloc (physMemPages .arm) 0x2000 (by decide) ?_ hret
    refine callOk_of_choose (by decide) rfl ⟨by decide, fun hmid => ?_⟩
    exact absurd hmid (by decide)
  refine (physMemAlloc_iff hfirst middlePages (by decide)).2 ?_
  refine callOk_of_choose (by decide) rfl ⟨by decide, fun _ _ => ?_⟩
  decide

/-- A request for more than there is below the end of the region: the subtraction wraps, the region is taken to have
room, and an address above all memory is returned. -/
theorem physMemAlloc_wraps :
    Run .arm ⟨[oneMegabyte], []⟩ ∧ (physMemPages .arm).align ∣ 0x300000 ∧
    physMemAlloc .arm [oneMegabyte] 0x300000 (physMemPages .arm) =
      .ok (0xfff00000, [{ oneMegabyte with allocBound := 0xfff00000 }]) ∧
    ¬ Meets ⟨[oneMegabyte], []⟩ 0x300000 (physMemPages .arm) := by
  refine ⟨run_oneMegabyte, by decide, by decide +kernel, fun hm => ?_⟩
  have hok := run_oneMegabyte.inv.callOk (by decide) hm
  have hsize := (hok.fits 0 oneMegabyte (preferred_of_choose rfl)).size
  revert hsize
  decide

end CapROS.PhysMem.Regions
