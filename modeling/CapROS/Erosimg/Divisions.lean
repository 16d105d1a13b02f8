import CapROS.Erosimg.Reopening
import Mathlib.Data.Finset.Card

/-!
# Which calls keep the division table in order

* `divisions_proper`: what holds in the runs of such calls; `divisions_nested`: it does not hold in all runs.
-/

namespace CapROS.Erosimg

open Function (update update_self update_apply update_of_ne)

/-- The division does not reach beyond the sectors that can be numbered. -/
def NoWrap (start sz : UInt32) : Prop := start.toNat + sz.toNat < 2 ^ 32

instance (start sz : UInt32) : Decidable (NoWrap start sz) := by
  unfold NoWrap
  infer_instance

/-- The division is not empty and lies inside the place, and does not reach to its ends. -/
def Division.Inside (d : Division) (start stop : UInt32) : Prop := d.start < d.stop ∧ start < d.start ∧ d.stop < stop

instance (d : Division) (start stop : UInt32) : Decidable (d.Inside start stop) := by
  unfold Division.Inside
  infer_instance

/-- The places that are looked at for a division, from `start` on. -/
def examined (v : Volume) (sz : UInt32) : ℕ → UInt32 → List UInt32
  | 0, _ => []
  | fuel + 1, start =>
    start ::
      match firstCollision v start sz with
      | none => []
      | some d => examined v sz fuel d.stop

/-- At this place the division does not reach too far, and the division that it collides with there, if there is one,
ends after the start of the place. -/
def GoesOn (v : Volume) (sz start : UInt32) : Prop :=
  NoWrap start sz ∧ (firstCollision v start sz).all (fun d => decide (start < d.stop)) = true

instance (v : Volume) (sz start : UInt32) : Decidable (GoesOn v sz start) := by
  unfold GoesOn
  infer_instance

/-- The calls that keep the table in order. -/
def Proper (σ : System) : Op → Prop
  | .addFixed _ start sz =>
    NoWrap start sz ∧ ∀ i < σ.volume.topDiv, ¬ (σ.volume.divTable i).Inside start (start + sz)
  | .addAdjustable _ sz => ∀ p ∈ examined σ.volume sz (σ.volume.topDiv + 2) 0, GoesOn σ.volume sz p
  | .delete ndx => σ.volume.topDiv < ndivent ∧ ∀ i < σ.volume.topDiv, ndx ≤ i → i + 1 < σ.volume.topDiv →
    σ.volume.divNeedsInit i = σ.volume.divNeedsInit (i + 1)
  | .reopen => Closable σ.volume

instance (σ : System) : (op : Op) → Decidable (Proper σ op)
  | .addFixed _ start sz => inferInstanceAs (Decidable (NoWrap start sz ∧
      ∀ i < σ.volume.topDiv, ¬ (σ.volume.divTable i).Inside start (start + sz)))
  -- the list is searched: there are too many sectors to try them all
  | .addAdjustable _ sz => List.decidableBAll (GoesOn σ.volume sz) (examined σ.volume sz (σ.volume.topDiv + 2) 0)
  | .delete ndx => inferInstanceAs (Decidable (σ.volume.topDiv < ndivent ∧ ∀ i < σ.volume.topDiv, ndx ≤ i →
      i + 1 < σ.volume.topDiv → σ.volume.divNeedsInit i = σ.volume.divNeedsInit (i + 1)))
  | .reopen => inferInstanceAs (Decidable (Closable σ.volume))

/-- What a run keeps. -/
structure Inv (σ : System) : Prop where
  sound : Sound σ
  disk : OnDisk σ.volume

variable {σ σ' : System} {v v' : Volume} {type : DivType} {start sz : UInt32} {ndx i : ℕ} {e : Added} {d : Division}

theorem toNat_add_of_noWrap (h : NoWrap start sz) : (start + sz).toNat = start.toNat + sz.toNat := by
  rw [UInt32.toNat_add]
  exact Nat.mod_eq_of_lt h

theorem disjoint_of_passes (hw : NoWrap start sz) (ho : ¬ d.Overlaps start (start + sz))
    (hi : ¬ d.Inside start (start + sz)) (hpos : d.start < d.stop) :
    d.stop.toNat ≤ start.toNat ∨ start.toNat + sz.toNat ≤ d.start.toNat := by
  have hnew := toNat_add_of_noWrap hw
  simp only [Division.Overlaps, Division.Inside, ne_eq, ge_iff_le, gt_iff_lt, UInt32.le_iff_toNat_le,
    UInt32.lt_iff_toNat_lt, ← UInt32.toNat_inj, hnew] at ho hi hpos
  omega

theorem Sound.added {flags : UInt8} (h : Sound σ) (hw : NoWrap start sz)
    (hin : ∀ i < σ.volume.topDiv, ¬ (σ.volume.divTable i).Inside start (start + sz))
    (hover : ¬ (sz ≠ 0 ∧ ∃ i ∈ List.range σ.volume.topDiv, (σ.volume.divTable i).Overlaps start (start + sz)))
    (hflags : flags = σ.volume.nextFlags) (htop : v.topDiv = σ.volume.topDiv + 1)
    (htable : v.divTable = update σ.volume.divTable σ.volume.topDiv
      ((σ.volume.divTable σ.volume.topDiv).place type start (start + sz)))
    (hinit : v.divNeedsInit = update σ.volume.divNeedsInit σ.volume.topDiv true) :
    Sound ⟨v, σ.added ++ [⟨type, start.toNat, sz.toNat, flags, true⟩]⟩ := by
  refine ⟨?_, ?_, ?_⟩
  · rw [htop, h.count, List.length_append]
    rfl
  · intro i hi
    rw [htop] at hi
    rw [htable, hinit]
    by_cases heq : i = σ.volume.topDiv
    · rw [heq, update_self, update_self]
      refine ⟨⟨type, start.toNat, sz.toNat, flags, true⟩, ?_, rfl, rfl, toNat_add_of_noWrap hw, rfl, rfl, hflags.symm,
        rfl⟩
      rw [h.count]
      exact List.getElem?_concat_length
    · rw [update_of_ne heq, update_of_ne heq]
      obtain ⟨e, he, his⟩ := h.entries i (by omega)
      refine ⟨e, ?_, his⟩
      rw [List.getElem?_append_left (List.getElem?_eq_some_iff.1 he).1]
      exact he
  · refine List.pairwise_append.2 ⟨h.disjoint, List.pairwise_singleton _ _, fun e he d hd hpos hsz => ?_⟩
    obtain rfl := List.mem_singleton.1 hd
    obtain ⟨i, hi⟩ := List.mem_iff_getElem?.1 he
    have hlt : i < σ.volume.topDiv := by
      rw [h.count]
      exact (List.getElem?_eq_some_iff.1 hi).1
    obtain ⟨e', he', his⟩ := h.entries i hlt
    obtain rfl : e = e' := Option.some.inj (hi.symm.trans he')
    have hnonempty : (σ.volume.divTable i).start < (σ.volume.divTable i).stop := by
      rw [UInt32.lt_iff_toNat_lt, his.start, his.stop]
      exact Nat.lt_add_of_pos_right hpos
    have h := disjoint_of_passes hw (fun ho => hover ⟨?_, i, List.mem_range.2 hlt, ho⟩) (hin i hlt) hnonempty
    · rwa [his.start, his.stop] at h
    · rintro rfl
      exact lt_irrefl 0 hsz

theorem namesTable_noteDivTable {hdr : ℕ → UInt8} (h : NamesTable hdr) : NamesTable (noteDivTable hdr type start) := by
  unfold noteDivTable
  split_ifs with ht h0
  · rw [NamesTable, h0] at h
    exact absurd h (by decide)
  · rw [NamesTable, ← h]
    exact Bytes.getField_setField_of_disjoint (.inl (by decide))
  · exact h

/-- The volume after a division has been added. -/
def Volume.withDivision (v : Volume) (type : DivType) (start sz : UInt32) : Volume :=
  { v with
    topDiv := v.topDiv + 1
    divTable := update v.divTable v.topDiv ((v.divTable v.topDiv).place type start (start + sz))
    volHdr := noteDivTable v.volHdr type start
    needSyncHdr := true
    divNeedsInit := update v.divNeedsInit v.topDiv true
    needSyncDivisions := true }

theorem doAddDivision_ends (v : Volume) (type : DivType) (start sz : UInt32) :
    Ends (fun r => r = (v.topDiv, v.withDivision type start sz) ∧
      ¬ (sz ≠ 0 ∧ ∃ i ∈ List.range v.topDiv, (v.divTable i).Overlaps start (start + sz)))
      (doAddDivision v type start sz) := by
  unfold doAddDivision
  split_ifs with hfull hover
  · trivial
  · trivial
  · exact ⟨rfl, hover⟩

theorem OnDisk.withDivision (h : OnDisk v) : OnDisk (v.withDivision type start sz) := by
  have hold : ∀ i < v.topDiv, (v.withDivision type start sz).divTable i = v.divTable i :=
    fun i hi => update_of_ne hi.ne _ _
  refine ⟨fun i hi => ?_, ?_, namesTable_noteDivTable h.hdr, h.fileHdr, h.size, fun _ _ => ⟨rfl, rfl⟩,
    fun hno => by cases hno⟩
  · rcases Nat.lt_succ_iff_lt_or_eq.1 hi with hlt | rfl
    · rw [hold i hlt]
      exact h.formattable i hlt
    · simp only [Volume.withDivision, update_self]
      exact ⟨rfl, rfl⟩
  · obtain ⟨i, hi, hd⟩ := h.first
    refine ⟨i, Nat.lt_succ_of_lt hi, ?_⟩
    rw [hold i hi]
    exact hd

theorem doAddDivision_spec (h : Inv σ) (hw : NoWrap start sz)
    (hin : ∀ i < σ.volume.topDiv, ¬ (σ.volume.divTable i).Inside start (start + sz)) :
    Ends (fun r => (r.2.divTable r.1).start = start ∧
      Inv ⟨r.2, σ.added ++ [⟨type, start.toNat, sz.toNat, σ.volume.nextFlags, true⟩]⟩)
      (doAddDivision σ.volume type start sz) := by
  refine (doAddDivision_ends σ.volume type start sz).mono ?_
  rintro _ ⟨rfl, hover⟩
  refine ⟨?_, h.sound.added hw hin hover rfl rfl rfl rfl, h.disk.withDivision⟩
  simp only [Volume.withDivision, update_self, Division.place_start]

/-! ## The search for a place -/

theorem firstCollision_some (h : firstCollision v start sz = some d) :
    ∃ i < v.topDiv, d = v.divTable i ∧ d.Collides start (start + sz) := by
  obtain ⟨i, hi, rfl⟩ := Option.map_eq_some_iff.1 h
  have hmem := List.mem_of_find?_eq_some hi
  have hc := List.find?_some hi
  exact ⟨i, List.mem_range.1 hmem, rfl, of_decide_eq_true hc⟩

theorem firstCollision_none (h : firstCollision v start sz = none) (hi : i < v.topDiv) :
    ¬ (v.divTable i).Collides start (start + sz) := by
  have hf := List.find?_eq_none.1 (Option.map_eq_none_iff.1 h) i (List.mem_range.2 hi)
  simpa using hf

/-- The divisions that end after a place. -/
def later (v : Volume) (start : UInt32) : Finset ℕ :=
  (Finset.range v.topDiv).filter fun i => start < (v.divTable i).stop

theorem searchPlace_spec : ∀ {fuel : ℕ} {start : UInt32}, (later v start).card < fuel →
    (∀ p ∈ examined v sz fuel start, GoesOn v sz p) →
    ∃ p ∈ examined v sz fuel start, searchPlace v sz fuel start = .ok p ∧ firstCollision v p sz = none := by
  intro fuel
  induction fuel with
  | zero => exact fun h => absurd h (Nat.not_lt_zero _)
  | succ fuel ih =>
    intro start hcard hex
    simp only [examined, List.forall_mem_cons] at hex
    obtain ⟨⟨-, hgo⟩, hrest⟩ := hex
    unfold searchPlace
    cases hc : firstCollision v start sz with
    | none => exact ⟨start, List.mem_cons_self, rfl, hc⟩
    | some d =>
      rw [hc] at hgo hrest
      have hlt : start < d.stop := by simpa using hgo
      obtain ⟨i, hi, rfl, -⟩ := firstCollision_some hc
      have hless : (later v (v.divTable i).stop).card < fuel := ?_
      · obtain ⟨p, hp, hs⟩ := ih hless hrest
        refine ⟨p, ?_, hs⟩
        rw [examined, hc]
        exact List.mem_cons_of_mem _ hp
      refine lt_of_lt_of_le (Finset.card_lt_card ?_) (Nat.le_of_lt_succ hcard)
      refine Finset.ssubset_iff_subset_ne.2 ⟨fun k hk => ?_, fun heq => ?_⟩
      · obtain ⟨hk, hkd⟩ := Finset.mem_filter.1 hk
        exact Finset.mem_filter.2 ⟨hk, UInt32.lt_trans hlt hkd⟩
      · have hmem : i ∈ later v start := Finset.mem_filter.2 ⟨Finset.mem_range.2 hi, hlt⟩
        rw [← heq] at hmem
        exact UInt32.lt_irrefl _ (Finset.mem_filter.1 hmem).2

theorem addAdjustableDivision_eq (type : DivType)
    (hp : ∀ p ∈ examined v sz (v.topDiv + 2) 0, GoesOn v sz p) : ∃ p ∈ examined v sz (v.topDiv + 2) 0,
      addAdjustableDivision v type sz = doAddDivision v type p sz ∧
        ∀ i < v.topDiv, ¬ (v.divTable i).Inside p (p + sz) := by
  have hcard : (later v 0).card < v.topDiv + 2 := by
    have hle := Finset.card_filter_le (Finset.range v.topDiv) fun i => (0 : UInt32) < (v.divTable i).stop
    rw [Finset.card_range] at hle
    exact lt_of_le_of_lt hle (by omega)
  obtain ⟨p, hmem, hs, hnone⟩ := searchPlace_spec hcard hp
  refine ⟨p, hmem, ?_, fun i hi hin => ?_⟩
  · unfold addAdjustableDivision
    rw [hs, ok_bind]
  · obtain ⟨h₁, h₂, h₃⟩ := hin
    exact firstCollision_none hnone hi (.inl ⟨UInt32.le_of_lt h₂, UInt32.lt_trans h₁ h₃⟩)

theorem addAdjustableDivision_spec (h : Inv σ) (hp : Proper σ (.addAdjustable type sz)) :
    Ends (fun r => Inv ⟨r.2, σ.added ++ [⟨type, (r.2.divTable r.1).start.toNat, sz.toNat, σ.volume.nextFlags, true⟩]⟩)
      (addAdjustableDivision σ.volume type sz) := by
  obtain ⟨p, hmem, heq, hin⟩ := addAdjustableDivision_eq type hp
  rw [heq]
  refine (doAddDivision_spec h (hp p hmem).1 hin).mono fun r hr => ?_
  rw [hr.1]
  exact hr.2

/-! ## Deleting -/

theorem delDivision_spec (h : Inv σ) (hp : Proper σ (.delete ndx)) :
    Ends (fun v => Inv ⟨v, σ.added.eraseIdx ndx⟩) (delDivision σ.volume ndx) := by
  obtain ⟨hroom, hflags⟩ := hp
  unfold delDivision
  split_ifs with hndx htype hfull
  · trivial
  · trivial
  · omega
  · replace hndx : ndx < σ.volume.topDiv := Nat.lt_of_not_le hndx
    rw [not_or] at htype
    simp only
    generalize htable : update (fun i => if ndx ≤ i ∧ i + 1 < σ.volume.topDiv then
      σ.volume.divTable (i + 1) else σ.volume.divTable i) σ.volume.topDiv _ = table
    -- The entries after the deleted one move down, and the last one stays where it was too.
    have hbelow : ∀ i < ndx, table i = σ.volume.divTable i := fun i hi => by
      rw [← htable, update_of_ne (by omega), if_neg (by omega)]
    have hmoved : ∀ i, ndx ≤ i → i + 1 < σ.volume.topDiv → table i = σ.volume.divTable (i + 1) := fun i hi hi' => by
      rw [← htable, update_of_ne (by omega), if_pos ⟨hi, hi'⟩]
    have hlast : table (σ.volume.topDiv - 1) = σ.volume.divTable (σ.volume.topDiv - 1) := by
      rw [← htable, update_of_ne (by omega), if_neg (by omega)]
    have hcases : ∀ i < σ.volume.topDiv - 1, ∃ k < σ.volume.topDiv, table i = σ.volume.divTable k := by
      intro i hi
      rcases Nat.lt_or_ge i ndx with hlt | hge
      · exact ⟨i, by omega, hbelow i hlt⟩
      · exact ⟨i + 1, by omega, hmoved i hge (by omega)⟩
    refine ⟨⟨?_, fun i hi => ?_, h.sound.disjoint.sublist (List.eraseIdx_sublist _ _)⟩, ?_⟩
    · rw [List.length_eraseIdx_of_lt (by rwa [← h.sound.count]), ← h.sound.count]
    · simp only at hi ⊢
      rw [List.getElem?_eraseIdx]
      split_ifs with hlt
      · rw [hbelow i hlt]
        exact h.sound.entries i (by omega)
      · rw [hmoved i (by omega) (by omega), hflags i (by omega) (by omega) (by omega)]
        exact h.sound.entries (i + 1) (by omega)
    · refine ⟨fun i hi => ?_, ?_, h.disk.hdr, h.disk.fileHdr, h.disk.size, fun k hk => ⟨rfl, (h.disk.flags k hk).2⟩,
        fun hno => ⟨fun i hi => ?_, .inl ?_⟩⟩
      · obtain ⟨k, hk, heq⟩ := hcases i hi
        simp only [heq]
        exact h.disk.formattable k hk
      · obtain ⟨i, hi, hd⟩ := h.disk.first
        rcases Nat.lt_trichotomy i ndx with hlt | rfl | hgt
        · refine ⟨i, by simp only; omega, ?_⟩
          simp only [hbelow i hlt]
          exact hd
        · exact absurd hd.1 htype.2
        · refine ⟨i - 1, by simp only; omega, ?_⟩
          have heq := hmoved (i - 1) (by omega) (by omega)
          rw [Nat.sub_add_cancel (by omega)] at heq
          simp only [heq]
          exact hd
      · obtain ⟨k, hk, heq⟩ := hcases i hi
        simp only [heq]
        exact (h.disk.table hno).1 k hk
      · simp only [hlast]
        exact (h.disk.table hno).1 _ (by omega)

/-! ## Runs -/

theorem reopen_spec (h : Inv σ) (hp : Proper σ .reopen) : Ends Inv (Op.run σ .reopen) := by
  have hop : Op.run σ .reopen = (do
      let file ← close σ.volume
      openVolume file) >>= fun v => .ok ⟨v, σ.added.map fun e => { e with needsInit := false }⟩ := by
    simp only [Op.run]
    rw [bind_assoc]
  rw [hop]
  refine (reopened h.disk hp).bind fun v hv => ?_
  obtain ⟨htop, hdiv, hflags, hdisk, -⟩ := hv
  refine ⟨⟨?_, fun i hi => ?_, ?_⟩, hdisk⟩
  · rw [htop, h.sound.count, List.length_map]
  · simp only at hi ⊢
    rw [htop] at hi
    obtain ⟨e, he, his⟩ := h.sound.entries i hi
    rw [List.getElem?_map, he, hdiv i (hi.trans hp.notFull), hflags i]
    exact ⟨_, rfl, his.type, his.start, his.stop, his.startOid, his.endOid, his.flags, rfl⟩
  · exact List.pairwise_map.2 h.sound.disjoint

theorem Inv.run {op : Op} (h : Inv σ) (hp : Proper σ op) : Ends Inv (op.run σ) := by
  cases op with
  | addFixed type start sz => exact (doAddDivision_spec h hp.1 hp.2).bind fun _ hr => hr.2
  | addAdjustable type sz => exact (addAdjustableDivision_spec h hp).bind fun _ hr => hr
  | delete ndx => exact (delDivision_spec h hp).bind fun _ hr => hr
  | reopen => exact reopen_spec h hp

/-! ## A new volume -/

theorem writeBootImage_spec (boot : Option (List UInt8)) (htop : 0 < v.topDiv) (hname : NamesTable v.volHdr) :
    Ends (fun v' => v'.divTable = v.divTable ∧ v'.topDiv = v.topDiv ∧ v'.needSyncDivisions = v.needSyncDivisions ∧
      v'.divNeedsInit = update v.divNeedsInit 0 false ∧ v.file.size ≤ v'.file.size ∧
        NamesTable v'.volHdr ∧ NamesTable v'.file.bytes) (writeBootImage v boot) := by
  refine Ends.bind (P := fun (v₁ : Volume) => v₁ = { v with
      file := v₁.file, divNeedsInit := update v.divNeedsInit 0 false } ∧ v.file.size ≤ v₁.file.size) ?_ ?_
  · cases boot with
    | some image =>
      simp only [writeBootSectors, writeBoot]
      split_ifs
      · trivial
      · refine ⟨rfl, ?_⟩
        unfold File.write
        split_ifs
        · exact le_max_left _ _
        · exact le_rfl
    | none =>
      rw [writeBootSectors, zeroDivision, if_neg (Nat.not_le.2 htop)]
      exact zeroSectors_spec.bind fun file hfile => ⟨rfl, hfile.1⟩
  · rintro v₁ ⟨hv₁, hsize⟩
    rw [hv₁]
    simp only
    split
    case h_1 => trivial
    case h_2 buf hr =>
      generalize hhdr : countSectors _ = hdr
      have hname' : NamesTable hdr := by
        rw [← hhdr]
        apply namesTable_countSectors
        rw [NamesTable, Bytes.getField_setField_of_disjoint (.inl (by decide)), Bytes.getField_write, ← hname]
        right
        have := List.length_take_le 8 buf
        simp only [divTableAt]
        omega
      split
      case h_1 => trivial
      case h_2 f hw =>
        obtain ⟨hb, hs⟩ := File.write_overwrite hr (by rw [Cells.length_read]; decide) hw
        refine ⟨rfl, rfl, rfl, rfl, hsize.trans hs.ge, hname', ?_⟩
        rw [hb]
        refine namesTable_congr hname' fun k hk => ?_
        have h := Cells.write_read_add (f := v₁.file.bytes) (g := hdr) (a := 0) (b := 0) hk
        rwa [Nat.zero_add] at h

theorem addFixedDivision_ok (v : Volume) (type : DivType) (start sz : UInt32) (hroom : v.topDiv < ndivent)
    (hover : ∀ i < v.topDiv, ¬ (v.divTable i).Overlaps start (start + sz)) :
    ∃ v', addFixedDivision v type start sz = .ok (v.topDiv, v') ∧ v'.topDiv = v.topDiv + 1 ∧
      v'.divTable = update v.divTable v.topDiv ((v.divTable v.topDiv).place type start (start + sz)) ∧
        v'.volHdr = noteDivTable v.volHdr type start ∧
          v'.divNeedsInit = update v.divNeedsInit v.topDiv true ∧ v'.needSyncDivisions = true := by
  rw [addFixedDivision, doAddDivision, if_neg (Nat.not_le.2 hroom), if_neg]
  · exact ⟨_, rfl, rfl, rfl, rfl, rfl, rfl⟩
  · rintro ⟨-, i, hi, ho⟩
    exact hover i (List.mem_range.1 hi) ho

theorem create_spec {heapHdr : ℕ → UInt8} {heapTable : ℕ → Division} {iplSysId : ℕ} {boot : Option (List UInt8)}
    {x : Except Stop Volume} (hx : create heapHdr heapTable iplSysId boot = x) :
    Ends (fun v => Inv ⟨v, standardItems heapTable⟩) x := by
  rw [← hx]
  unfold create
  generalize hv : newVolume heapHdr heapTable iplSysId = v
  have htop : v.topDiv = 0 := by rw [← hv]; rfl
  have htable : v.divTable = heapTable := by rw [← hv]; rfl
  have hhdr : v.volHdr = newHdr heapHdr iplSysId := by rw [← hv]; rfl
  have hinit : v.divNeedsInit = fun _ => false := by rw [← hv]; rfl
  obtain ⟨v₁, hv₁, htop₁, htable₁, hhdr₁, hinit₁, -⟩ := addFixedDivision_ok v .boot 0 64
    (by rw [htop]; decide) (by rw [htop]; exact fun i hi => absurd hi (Nat.not_lt_zero i))
  rw [htop, htable] at htable₁
  rw [htop, hinit] at hinit₁
  rw [htop] at htop₁
  obtain ⟨v₂, hv₂, htop₂, htable₂, hhdr₂, hinit₂, hsync₂⟩ := addFixedDivision_ok v₁ .divTbl 64 8
    (by rw [htop₁]; decide) (by
      rw [htop₁, htable₁]
      intro i hi
      rw [Nat.lt_one_iff.1 hi, update_self]
      rw [Division.Overlaps, Division.place_start, Division.place_stop]
      decide)
  rw [hv₁, ok_bind]
  simp only
  rw [hv₂, ok_bind]
  simp only
  rw [htop₁] at htop₂ htable₂ hinit₂
  replace htop₂ : v₂.topDiv = 2 := htop₂
  have ht0 : v₂.divTable 0 = (heapTable 0).place .boot 0 64 := by
    rw [htable₂, update_of_ne (by decide), htable₁, update_self]
    rfl
  have ht1 : v₂.divTable 1 = (heapTable 1).place .divTbl 64 72 := by
    rw [htable₂, update_self, htable₁, update_of_ne (by decide)]
    rfl
  have hname : NamesTable v₂.volHdr := by
    rw [hhdr₂, hhdr₁, hhdr]
    exact Bytes.getField_setField (by decide)
  have hoids : Formattable v₂ := by
    intro i hi
    obtain rfl | rfl : i = 0 ∨ i = 1 := by omega
    · rw [ht0]
      exact ⟨rfl, rfl⟩
    · rw [ht1]
      exact ⟨rfl, rfl⟩
  refine (initDivisions_spec hoids).bind fun v₃ h₃ => ?_
  have hk₃ := h₃.keeps
  have hsize : tablePlace + pageSize ≤ v₃.file.size := by
    have hfull := h₃.full 1 (by rw [htop₂]; decide) (by rw [hinit₂]; exact update_self _ _ _)
    rw [ht1, Division.place_start, Division.place_stop] at hfull
    exact hfull (by decide) (by decide)
  have hflags₃ : ∀ k, v₃.divNeedsInit k = false := by
    intro k
    rw [← Bool.not_eq_true]
    intro hk
    obtain ⟨hk, hmem⟩ := (h₃.flags k).1 hk
    rw [hinit₂, hinit₁] at hk
    simp only [update_apply] at hk
    rw [List.mem_range, htop₂] at hmem
    split_ifs at hk <;> omega
  refine (writeBootImage_spec boot (by rw [hk₃.topDiv, htop₂]; decide) (hk₃.volHdr ▸ hname)).bind
    fun v₄ h₄ => ?_
  obtain ⟨hd₄, ht₄, hs₄, hf₄, hsize₄, hn₄, hfile₄⟩ := h₄
  have hdiv : v₄.divTable = v₂.divTable := hd₄.trans hk₃.divTable
  have htop₄ : v₄.topDiv = 2 := (ht₄.trans hk₃.topDiv).trans htop₂
  have hfirst : ∃ i < v₄.topDiv, (v₄.divTable i).type = DivType.divTbl.code ∧
      (v₄.divTable i).start.toNat = diskBootstrapSectors := by
    refine ⟨1, by omega, ?_⟩
    rw [hdiv, ht1]
    exact ⟨rfl, rfl⟩
  have htables : ∀ i < v₄.topDiv, (v₄.divTable i).type = DivType.divTbl.code → ¬ Clobbers (v₄.divTable i).start := by
    intro i hi
    rw [hdiv]
    obtain rfl | rfl : i = 0 ∨ i = 1 := by omega
    · rw [ht0, Division.place_type]
      exact fun ht => absurd ht (by decide)
    · rw [ht1, Division.place_start]
      exact fun _ => by decide
  have hsync₄ : v₄.needSyncDivisions = true := (hs₄.trans hk₃.needSyncDivisions).trans hsync₂
  refine (syncDivTables_spec htables hfirst hfile₄ (fun hno => by rw [hsync₄] at hno; cases hno)).mono fun v₅ h₅ => ?_
  obtain ⟨hv₅, hsize₅, hname₅, -, htable₅⟩ := h₅
  have hd₅ : v₅.divTable = v₂.divTable := by rw [hv₅]; exact hdiv
  have htop₅ : v₅.topDiv = 2 := by rw [hv₅]; exact htop₄
  have hi₅ : ∀ k, v₅.divNeedsInit k = false := by
    intro k
    rw [hv₅]
    simp only [hf₄, update_apply, hflags₃, ite_self]
  refine ⟨⟨htop₅, fun i hi => ?_, ?_⟩, ?_⟩
  · simp only at hi ⊢
    rw [hd₅, hi₅]
    obtain rfl | rfl : i = 0 ∨ i = 1 := by omega
    · rw [ht0]
      exact ⟨_, rfl, rfl, rfl, rfl, rfl, rfl, rfl, rfl⟩
    · rw [ht1]
      exact ⟨_, rfl, rfl, rfl, rfl, rfl, rfl, rfl, rfl⟩
  · simp only [standardItems, List.pairwise_pair]
    exact fun _ _ => .inl (by decide)
  · refine ⟨fun i hi => ?_, ?_, ?_, hname₅, ?_, fun k hk => ?_, fun _ => ⟨fun i hi => ?_, .inr ?_⟩⟩
    · simp only at hi ⊢
      rw [hd₅]
      exact hoids i (by omega)
    · simp only
      rw [hd₅, htop₅]
      exact ⟨1, by decide, by rw [ht1]; exact ⟨rfl, rfl⟩⟩
    · rw [hv₅]
      exact hn₄
    · exact (hsize.trans hsize₄).trans hsize₅
    · rw [hi₅ k] at hk
      cases hk
    · simp only at hi ⊢
      rw [hd₅]
      obtain rfl | rfl : i = 0 ∨ i = 1 := by omega
      · rw [ht0, Division.place_type]
        decide
      · rw [ht1, Division.place_type]
        decide
    · simp only
      rw [hd₅, ← hdiv]
      exact htable₅

/-- **The division table** is right in every run of such calls. -/
theorem divisions_proper {o : Except Stop System} (h : Run Proper o) : Correct o := by
  have hinv : Ends Inv o := by
    induction h with
    | init heapHdr heapTable iplSysId boot =>
      generalize hx : create heapHdr heapTable iplSysId boot = x
      exact (create_spec hx).map fun _ hv => hv
    | step _ hp ih => exact Inv.run ih hp
  match o, hinv with
  | .ok σ, hi => exact hi.sound
  | .error (.fatal _ _), _ => trivial

/-- A division is added at a place of its own and another one after the first two divisions; the former is deleted, a
third one is added, and the volume is closed and opened. -/
theorem divisions_proper_reopened : ∃ σ, runFrom Proper [.addFixed .kernel 100 16, .addAdjustable .object 24, .delete 2,
    .addAdjustable .log 8, .reopen] = some σ ∧ Correct (.ok σ) := by
  have hrun : (runFrom Proper [.addFixed .kernel 100 16, .addAdjustable .object 24, .delete 2,
    .addAdjustable .log 8, .reopen]).isSome := by decide +kernel
  obtain ⟨σ, hσ⟩ := Option.isSome_iff_exists.1 hrun
  exact ⟨σ, hσ, divisions_proper (run_of_runFrom hσ)⟩

/-- A division is added around another one. -/
theorem divisions_nested : ¬ ∀ o, Run (fun _ _ => True) o → Correct o := by
  intro hall
  have hrun : (runFrom (fun _ _ => True) [.addFixed .object 100 10, .addFixed .object 90 30]).map
      (fun σ => σ.added.map fun e => (e.start, e.size)) = some [(0, 64), (64, 8), (100, 10), (90, 30)] := by
    decide +kernel
  obtain ⟨σ, hσ, hv⟩ := Option.map_eq_some_iff.1 hrun
  have hsound : Sound σ := hall _ (run_of_runFrom hσ)
  have hpair : (σ.added.map fun e => (e.start, e.size)).Pairwise fun p q =>
      0 < p.2 → 0 < q.2 → p.1 + p.2 ≤ q.1 ∨ q.1 + q.2 ≤ p.1 := List.pairwise_map.2 hsound.disjoint
  rw [hv] at hpair
  revert hpair
  decide

end CapROS.Erosimg
