import CapROS.Erosimg.Runs

/-!
# Closing and opening a volume
-/

namespace CapROS.Erosimg

open Bytes

variable {f f' : File} {v v' : Volume} {offset n i : ℕ} {buf l : List UInt8}

/-! ## The file -/

theorem File.read_some (h : f.read offset n = some buf) :
    buf = Cells.read f.bytes offset n ∧ offset < 2 ^ 31 ∧ offset + n ≤ f.size := by
  unfold File.read at h
  split at h
  case isTrue hc => exact ⟨(Option.some.inj h).symm, hc⟩
  case isFalse => cases h

theorem File.write_some (h : f.write offset buf = some f') :
    f'.bytes = Cells.write f.bytes offset buf ∧ f'.size = max f.size (offset + buf.length) ∧ offset < 2 ^ 31 := by
  unfold File.write at h
  split at h
  case isTrue hc =>
    obtain rfl := Option.some.inj h
    exact ⟨rfl, rfl, hc⟩
  case isFalse => cases h

theorem File.write_overwrite (hr : f.read offset n = some buf) (hl : l.length ≤ n)
    (hw : f.write offset (overwrite buf l) = some f') :
    f'.bytes = Cells.write f.bytes offset l ∧ f'.size = f.size := by
  obtain ⟨rfl, -, hsize⟩ := File.read_some hr
  obtain ⟨hb, hs, -⟩ := File.write_some hw
  obtain ⟨m, rfl⟩ : ∃ m, n = l.length + m := ⟨n - l.length, by omega⟩
  constructor
  · rw [hb, overwrite, Cells.write_append, Cells.drop_read]
    refine Cells.write_read fun i hi _ => ?_
    exact (Cells.write_of_le hi).symm
  · rw [hs]
    apply max_eq_left
    simp only [overwrite, List.length_append, List.length_drop, Cells.length_read]
    omega

/-! ## Initialising -/

/-- Only the file and the flags are changed, and the file does not become smaller. -/
structure Keeps (v v' : Volume) : Prop where
  volHdr : v'.volHdr = v.volHdr
  needSyncHdr : v'.needSyncHdr = v.needSyncHdr
  divTable : v'.divTable = v.divTable
  topDiv : v'.topDiv = v.topDiv
  needSyncDivisions : v'.needSyncDivisions = v.needSyncDivisions
  size : v.file.size ≤ v'.file.size

theorem Keeps.refl (v : Volume) : Keeps v v := ⟨rfl, rfl, rfl, rfl, rfl, le_rfl⟩

variable {v₁ v₂ v₃ : Volume}

theorem Keeps.trans (h : Keeps v₁ v₂) (h' : Keeps v₂ v₃) : Keeps v₁ v₃ :=
  ⟨h'.volHdr.trans h.volHdr, h'.needSyncHdr.trans h.needSyncHdr, h'.divTable.trans h.divTable,
    h'.topDiv.trans h.topDiv, h'.needSyncDivisions.trans h.needSyncDivisions, h.size.trans h'.size⟩

/-- A computation ends with a fatal diagnostic, or in a state with this property. -/
def Ends {α : Type} (P : α → Prop) : Except Stop α → Prop
  | .ok a => P a
  | .error (.fatal _ _) => True
  | .error _ => False

variable {α β : Type} {P : α → Prop} {Q : β → Prop} {x : Except Stop α}

theorem Ends.bind {k : α → Except Stop β}
    (h : Ends P x) (hk : ∀ a, P a → Ends Q (k a)) : Ends Q (x >>= k) := by
  match x, h with
  | .ok a, h => exact hk a h
  | .error (.fatal _ _), _ => trivial

theorem Ends.map {k : α → β} (h : Ends P x)
    (hk : ∀ a, P a → Q (k a)) : Ends Q (x.map k) := by
  match x, h with
  | .ok a, h => exact hk a h
  | .error (.fatal _ _), _ => trivial

theorem Ends.mono {Q : α → Prop} (h : Ends P x) (hpq : ∀ a, P a → Q a) :
    Ends Q x := by
  match x, h with
  | .ok a, h => exact hpq a h
  | .error (.fatal _ _), _ => trivial

theorem Ends.foldlM {P : List β → α → Prop} {step : α → β → Except Stop α} {all : List β}
    (hstep : ∀ bs b a, b ∈ all → P bs a → Ends (P (bs ++ [b])) (step a b)) :
    ∀ (bs bs' : List β) (a : α), (∀ b ∈ bs', b ∈ all) → P bs a → Ends (P (bs ++ bs')) (bs'.foldlM step a) := by
  intro bs bs'
  induction bs' generalizing bs with
  | nil =>
    intro a _ h
    rw [List.append_nil]
    exact h
  | cons b bs' ih =>
    intro a hall h
    rw [List.forall_mem_cons] at hall
    rw [List.foldlM_cons]
    refine (hstep bs b a hall.1 h).bind fun a' h' => ?_
    rw [List.append_cons]
    exact ih (bs ++ [b]) a' hall.2 h'

theorem zeroSectors_spec : ∀ {n i : ℕ} {f : File}, Ends (fun f' => f.size ≤ f'.size ∧
    (0 < n → (i + n) * sectorSize ≤ 2 ^ 31 → (i + n) * sectorSize ≤ f'.size)) (zeroSectors n i f) := by
  intro n
  induction n with
  | zero =>
    intro i f
    exact ⟨le_rfl, fun h => absurd h (lt_irrefl 0)⟩
  | succ n ih =>
    intro i f
    unfold zeroSectors
    split
    case h_1 => trivial
    case h_2 f₁ hw =>
      obtain ⟨-, hs, -⟩ := File.write_some hw
      rw [List.length_replicate] at hs
      refine ih.mono fun f' hf' => ⟨by omega, fun _ hbound => ?_⟩
      rcases Nat.eq_zero_or_pos n with rfl | hn
      · have hmod : u32 (i * sectorSize) = i * sectorSize := Nat.mod_eq_of_lt (by
          simp only [sectorSize] at hbound ⊢
          omega)
        rw [hmod] at hs
        simp only [sectorSize] at hs ⊢
        omega
      · have heq : i + 1 + n = i + (n + 1) := by omega
        rw [heq] at hf'
        exact hf'.2 hn hbound

/-- The flags of the divisions of a list are cleared, and the file reaches to the end of those that had one. -/
structure Initialised (divs : List ℕ) (v v' : Volume) : Prop where
  keeps : Keeps v v'
  flags : ∀ k, v'.divNeedsInit k = true ↔ v.divNeedsInit k = true ∧ k ∉ divs
  same : (∀ k ∈ divs, v.divNeedsInit k = false) → v' = v
  full : ∀ k ∈ divs, v.divNeedsInit k = true → (v.divTable k).start < (v.divTable k).stop →
    (v.divTable k).stop.toNat * sectorSize ≤ 2 ^ 31 → (v.divTable k).stop.toNat * sectorSize ≤ v'.file.size

/-- The OIDs of each division are those of whole frames. -/
def Formattable (v : Volume) : Prop := ∀ i < v.topDiv,
  (v.divTable i).startOid.toNat % objectsPerFrame = 0 ∧ (v.divTable i).endOid.toNat % objectsPerFrame = 0

theorem Keeps.formattable (h : Keeps v v') (hv : Formattable v) : Formattable v' := by
  intro i hi
  rw [h.topDiv] at hi
  rw [h.divTable]
  exact hv i hi

variable {oid : UInt64}

theorem findOid_some {types : List DivType} (h : v.findOid types oid = some i) : i < v.topDiv ∧
    (v.divTable i).type ∈ types.map DivType.code ∧ (v.divTable i).Contains oid := by
  have hp := of_decide_eq_true (List.find?_some h :)
  exact ⟨List.mem_range.1 (List.mem_of_find?_eq_some h), hp⟩

/-- The entry of a pot is looked for where the first division of objects with this OID has it. -/
theorem findPagePotEntry_eq (h : Formattable v) (hi : v.findOid [.object] oid = some i) :
    findPagePotEntry v oid = .ok ((v.file.read (pageVolOffset (v.divTable i)
      (relFrame (v.divTable i) oid / framesPerCluster * rangeLocsPerCluster)) pageSize).map fun data =>
        (data, pageVolOffset (v.divTable i) (relFrame (v.divTable i) oid / framesPerCluster * rangeLocsPerCluster),
          relFrame (v.divTable i) oid % framesPerCluster)) := by
  obtain ⟨hlt, ht, hc⟩ := findOid_some hi
  have hmod := (h i hlt).1
  have ht' : (v.divTable i).type = DivType.object.code := List.mem_singleton.1 ht
  simp only [findPagePotEntry, hi, pagePotVolOffset, check, if_pos hmod, if_pos ht', if_pos hc, ok_bind]

theorem writePagePotEntry_keeps {pot : VolPagePot} (h : Formattable v) :
    Ends (fun r => Keeps v r.2 ∧ r.2.divNeedsInit = v.divNeedsInit) (writePagePotEntry v oid pot) := by
  unfold writePagePotEntry
  cases hi : v.findOid [.object] oid with
  | none =>
    rw [findPagePotEntry, hi]
    exact ⟨.refl v, rfl⟩
  | some i =>
    rw [findPagePotEntry_eq h hi, ok_bind]
    split
    case h_1 => exact ⟨.refl v, rfl⟩
    case h_2 =>
      split
      case h_1 => trivial
      case h_2 f hw => exact ⟨⟨rfl, rfl, rfl, rfl, rfl, (File.write_some hw).2.1.ge.trans' (le_max_left _ _)⟩, rfl⟩

theorem formatFrames_spec {P : UInt64 → Volume → Prop} {endOid : UInt64} (hend : endOid.toNat % objectsPerFrame = 0)
    (hstep : ∀ oid v, oid < endOid → oid.toNat % objectsPerFrame = 0 → P oid v →
      Ends (fun r => P (oid + 256) r.2) (writePagePotEntry v oid ⟨0, frmTypeDPage, tagIsZero⟩)) :
    ∀ {fuel : ℕ} {oid : UInt64} {v : Volume}, oid.toNat % objectsPerFrame = 0 →
      (endOid.toNat - oid.toNat) / objectsPerFrame < fuel → P oid v →
        Ends (fun v' => ∃ oid', endOid ≤ oid' ∧ P oid' v') (formatFrames endOid fuel oid v) := by
  intro fuel
  induction fuel with
  | zero => exact fun _ hf => absurd hf (Nat.not_lt_zero _)
  | succ fuel ih =>
    intro oid v hoid hf hP
    rw [formatFrames]
    split_ifs with hlt
    · refine (hstep oid v hlt hoid hP).bind fun r hr => ?_
      -- Both are numbers of whole frames, so the next one is not beyond the end.
      have hnext : (oid + 256).toNat = oid.toNat + objectsPerFrame := by
        have hlt' := UInt64.lt_iff_toNat_lt.1 hlt
        have hle := endOid.toNat_lt
        rw [UInt64.toNat_add]
        simp only [objectsPerFrame, UInt64.reduceToNat] at hoid hend ⊢
        omega
      refine ih ?_ ?_ hr
      · rw [hnext, Nat.add_mod_right]
        exact hoid
      · rw [hnext, Nat.sub_add_eq]
        have hlt' := UInt64.lt_iff_toNat_lt.1 hlt
        simp only [objectsPerFrame] at hf hoid hend ⊢
        omega
    · exact ⟨oid, UInt64.not_lt.1 hlt, hP⟩

theorem writeLogPageFrom_keeps {lid : UInt64} : ∀ {divs : List ℕ} {v : Volume},
    Ends (fun v' => Keeps v v' ∧ v'.divNeedsInit = v.divNeedsInit) (writeLogPageFrom lid buf divs v) := by
  intro divs
  induction divs with
  | nil => exact ⟨.refl _, rfl⟩
  | cons div divs ih =>
    intro v
    rw [writeLogPageFrom]
    split_ifs with hd
    · simp only [logFrameVolOffset, check, if_pos hd.2, ok_bind]
      split
      case h_1 => trivial
      case h_2 f hw =>
        have hk : Keeps v { v with file := f } :=
          ⟨rfl, rfl, rfl, rfl, rfl, (File.write_some hw).2.1.ge.trans' (le_max_left _ _)⟩
        exact ih.mono fun v' hv' => ⟨hk.trans hv'.1, hv'.2⟩
    · exact ih

/-- How a division is formatted, by its type. -/
def formatDivision (v : Volume) (i : ℕ) : Except Stop Volume :=
  if (v.divTable i).type = DivType.object.code ∨ (v.divTable i).type = DivType.kernel.code then
    formatObjectDivision v i
  else if (v.divTable i).type = DivType.log.code then formatLogDivision v i
  else .ok v

theorem initDivision_eq (v : Volume) (i : ℕ) : initDivision v i =
    if v.divNeedsInit i = true then
      zeroDivision v i >>= fun v => formatDivision v i >>= fun v =>
        .ok { v with divNeedsInit := Function.update v.divNeedsInit i false }
    else .ok v := by
  unfold initDivision
  split
  case isTrue =>
    refine congrArg (zeroDivision v i >>= ·) (funext fun v => ?_)
    unfold formatDivision
    simp only
    split_ifs
    all_goals rfl
  case isFalse => rfl

theorem formatDivision_keeps (h : Formattable v) (hi : i < v.topDiv) :
    Ends (fun v' => Keeps v v' ∧ v'.divNeedsInit = v.divNeedsInit) (formatDivision v i) := by
  unfold formatDivision
  split_ifs
  · rw [formatObjectDivision, if_neg (Nat.not_le.2 hi)]
    refine (formatFrames_spec (P := fun _ v' => Keeps v v' ∧ v'.divNeedsInit = v.divNeedsInit) (h i hi).2
      (fun oid v' _ _ hv' => ?_) (h i hi).1 (Nat.lt_succ_self _) ⟨.refl v, rfl⟩).mono fun v' hv' => hv'.choose_spec.2
    exact (writePagePotEntry_keeps (hv'.1.formattable h)).mono fun r hr => ⟨hv'.1.trans hr.1, hr.2.trans hv'.2⟩
  · rw [formatLogDivision, if_neg (Nat.not_le.2 hi)]
    split_ifs
    · refine writeLogPageFrom_keeps.bind fun v₁ h₁ => ?_
      exact writeLogPageFrom_keeps.mono fun v₂ h₂ => ⟨h₁.1.trans h₂.1, h₂.2.trans h₁.2⟩
    · exact ⟨.refl v, rfl⟩
  · exact ⟨.refl v, rfl⟩

theorem initDivision_spec (h : Formattable v) (hi : i < v.topDiv) :
    Ends (Initialised [i] v) (initDivision v i) := by
  rw [initDivision_eq]
  split
  case isTrue hflag =>
    rw [zeroDivision, if_neg (Nat.not_le.2 hi)]
    refine Ends.bind (P := fun v₁ => ∃ file, v₁ = { v with
        file := file, divNeedsInit := Function.update v.divNeedsInit i false } ∧ v.file.size ≤ file.size ∧
        ((v.divTable i).start < (v.divTable i).stop → (v.divTable i).stop.toNat * sectorSize ≤ 2 ^ 31 →
          (v.divTable i).stop.toNat * sectorSize ≤ file.size)) ?_ ?_
    · refine Ends.bind zeroSectors_spec fun file hfile => ⟨file, rfl, hfile.1, fun hlt hle => ?_⟩
      have hlt' := UInt32.lt_iff_toNat_lt.1 hlt
      rw [Nat.add_sub_cancel' hlt'.le] at hfile
      exact hfile.2 (Nat.sub_pos_of_lt hlt') hle
    · rintro v₁ ⟨file, rfl, hsize, hfull⟩
      have hform : Formattable { v with file := file, divNeedsInit := Function.update v.divNeedsInit i false } := h
      refine (formatDivision_keeps hform hi).bind fun v₂ h₂ => ?_
      obtain ⟨hk, hinit⟩ := h₂
      refine ⟨⟨hk.volHdr, hk.needSyncHdr, hk.divTable, hk.topDiv, hk.needSyncDivisions, hsize.trans hk.size⟩,
        fun k => ?_, fun hf => ?_, fun k hk' _ hlt hle => ?_⟩
      · simp only [hinit]
        by_cases hki : k = i
        · simp [hki]
        · simp [hki]
      · rw [hf i List.mem_cons_self] at hflag
        cases hflag
      · obtain rfl := List.mem_singleton.1 hk'
        exact (hfull hlt hle).trans hk.size
  case isFalse hflag =>
    refine ⟨.refl v, fun k => ?_, fun _ => rfl, fun k hk hf => ?_⟩
    · rw [List.mem_singleton]
      refine (and_iff_left_of_imp ?_).symm
      rintro hf rfl
      exact hflag hf
    · obtain rfl := List.mem_singleton.1 hk
      exact absurd hf hflag

theorem Initialised.append {divs divs' : List ℕ} (h : Initialised divs v₁ v₂)
    (h' : Initialised divs' v₂ v₃) : Initialised (divs ++ divs') v₁ v₃ := by
  refine ⟨h.keeps.trans h'.keeps, fun k => ?_, fun hf => ?_, fun k hk hf hlt hle => ?_⟩
  · rw [h'.flags, h.flags, List.mem_append, not_or, and_assoc]
  · obtain rfl := h.same fun k hk => hf k (List.mem_append_left _ hk)
    exact h'.same fun k hk => hf k (List.mem_append_right _ hk)
  · by_cases hkd : k ∈ divs
    · exact (h.full k hkd hf hlt hle).trans h'.keeps.size
    · have hk' := (List.mem_append.1 hk).resolve_left hkd
      rw [← h.keeps.divTable] at hlt hle ⊢
      exact h'.full k hk' ((h.flags k).2 ⟨hf, hkd⟩) hlt hle

theorem initDivisions_spec (h : Formattable v) :
    Ends (Initialised (List.range v.topDiv) v) (initDivisions v) := by
  have hnil : Initialised [] v v := ⟨.refl v, fun k => by simp, fun _ => rfl, fun k hk => by simp at hk⟩
  refine Ends.foldlM (P := fun divs v' => Initialised divs v v') (fun divs i v' hi hv' => ?_) [] _ v
    (fun _ hb => hb) hnil
  have hi' : i < v'.topDiv := by
    rw [hv'.keeps.topDiv]
    exact List.mem_range.1 hi
  exact (initDivision_spec (hv'.keeps.formattable h) hi').mono fun _ h₂ => hv'.append h₂

/-! ## The header and the tables -/

/-- Where the first division table is. -/
def tablePlace : ℕ := diskBootstrapSectors * sectorSize

/-- The table is written at this place over the header or over a part of the first table. -/
def Clobbers (start : UInt32) : Prop :=
  let offset := u32 (start.toNat * sectorSize)
  offset = 0 ∨ offset ≠ tablePlace ∧ tablePlace < offset + ndivent * divisionSize ∧
    offset < tablePlace + ndivent * divisionSize

instance (start : UInt32) : Decidable (Clobbers start) := by
  unfold Clobbers
  infer_instance

/-- The file has these bytes in the place of the first division table. -/
def File.HasTable (f : File) (l : List UInt8) : Prop := Cells.read f.bytes tablePlace (ndivent * divisionSize) = l

/-- The header that is in the file names the first division table. -/
def NamesTable (mem : ℕ → UInt8) : Prop := getField mem divTableAt 4 = diskBootstrapSectors

theorem namesTable_congr {mem mem' : ℕ → UInt8} (h : NamesTable mem) (hsame : ∀ k < volHdrSize, mem' k = mem k) :
    NamesTable mem' := by
  rw [NamesTable, ← h]
  refine getField_congr fun k _ hk => hsame k ?_
  simp only [divTableAt, volHdrSize] at hk ⊢
  omega

theorem namesTable_countSectors (h : NamesTable v.volHdr) : NamesTable (countSectors v) := by
  rw [NamesTable, ← h]
  exact getField_setField_of_disjoint (.inl (by decide))

/-- This byte is one of those of a table that is written in this sector. -/
def InTable (start : UInt32) (x : ℕ) : Prop := u32 (start.toNat * sectorSize) ≤ x ∧
  x < u32 (start.toNat * sectorSize) + ndivent * divisionSize

/-- The bytes are the same after the header and outside the division tables. -/
def SameOutside (v : Volume) (f f' : File) : Prop := ∀ x, volHdrSize ≤ x →
  (∀ i < v.topDiv, (v.divTable i).type = DivType.divTbl.code → ¬ InTable (v.divTable i).start x) →
    f'.bytes x = f.bytes x

theorem syncHdr_spec (hsize : tablePlace ≤ v.file.size) (hmem : NamesTable v.volHdr)
    (hfile : v.needSyncHdr = false → NamesTable v.file.bytes) : ∃ v', syncHdr v = .ok v' ∧
      v'.divTable = v.divTable ∧ v'.topDiv = v.topDiv ∧ v'.needSyncDivisions = v.needSyncDivisions ∧
        v'.file.size = v.file.size ∧ NamesTable v'.file.bytes ∧ SameOutside v v.file v'.file ∧
          ∀ l, v.file.HasTable l → v'.file.HasTable l := by
  unfold syncHdr
  split
  case isTrue =>
    have hread : v.file.read 0 pageSize = some (Cells.read v.file.bytes 0 pageSize) :=
      if_pos ⟨by decide, le_trans (by decide) hsize⟩
    rw [hread]
    obtain ⟨f', hw⟩ : ∃ f', v.file.write 0 (overwrite (Cells.read v.file.bytes 0 pageSize)
        (Cells.read (countSectors v) 0 volHdrSize)) = some f' := ⟨_, if_pos (by decide)⟩
    obtain ⟨hb, hs⟩ := File.write_overwrite hread (by rw [Cells.length_read]; decide) hw
    simp only [hw, Option.getD_some]
    refine ⟨_, rfl, rfl, rfl, rfl, hs, ?_, fun x hx _ => ?_, fun l hl => ?_⟩
    · rw [hb]
      refine namesTable_congr (namesTable_countSectors hmem) fun k hk => ?_
      have h := Cells.write_read_add (f := v.file.bytes) (g := countSectors v) (a := 0) (b := 0) hk
      rwa [Nat.zero_add] at h
    · simp only [hb]
      exact Cells.write_of_le (by rwa [Cells.length_read, Nat.zero_add])
    · rw [File.HasTable, hb, Cells.read_write_above (by rw [Cells.length_read]; decide)]
      exact hl
  case isFalse hno =>
    rw [Bool.not_eq_true] at hno
    exact ⟨v, rfl, rfl, rfl, rfl, rfl, hfile hno, fun _ _ _ => rfl, fun _ hl => hl⟩

theorem u32_sector (start : UInt32) : sectorSize ∣ u32 (start.toNat * sectorSize) := by
  have hdvd : sectorSize ∣ 2 ^ 32 := by decide
  exact (Nat.dvd_mod_iff hdvd).2 (Nat.dvd_mul_left _ _)

theorem syncDivTable_spec (hc : (v.divTable i).type = DivType.divTbl.code → ¬ Clobbers (v.divTable i).start) :
    Ends (fun f' => f.size ≤ f'.size ∧ (NamesTable f.bytes → NamesTable f'.bytes) ∧
      (∀ x, ((v.divTable i).type = DivType.divTbl.code → ¬ InTable (v.divTable i).start x) →
        f'.bytes x = f.bytes x) ∧ (f.HasTable (tableBytes v.divTable) → f'.HasTable (tableBytes v.divTable)) ∧
        ((v.divTable i).type = DivType.divTbl.code → (v.divTable i).start.toNat = diskBootstrapSectors →
          f'.HasTable (tableBytes v.divTable))) (syncDivTable v f i) := by
  unfold syncDivTable
  simp only
  split
  case isTrue ht =>
    replace hc := hc ht
    have hdvd := u32_sector (v.divTable i).start
    unfold Clobbers at hc
    have hplace : (v.divTable i).start.toNat = diskBootstrapSectors →
        u32 ((v.divTable i).start.toNat * sectorSize) = tablePlace := by
      intro h
      rw [h]
      decide
    simp only [InTable]
    generalize u32 ((v.divTable i).start.toNat * sectorSize) = offset at hc hdvd hplace ⊢
    have hlen := length_tableBytes v.divTable
    split
    case h_1 => trivial
    case h_2 buf hr =>
      split
      case h_1 => trivial
      case h_2 f' hw =>
        obtain ⟨hb, hs⟩ := File.write_overwrite hr (by rw [hlen]; decide) hw
        have hsame : offset = tablePlace → f'.HasTable (tableBytes v.divTable) := by
          rintro rfl
          rw [File.HasTable, hb, ← hlen]
          exact Cells.read_write _ _ _
        have h0 : offset ≠ 0 := fun h => hc (.inl h)
        have hsec : sectorSize ≤ offset := Nat.le_of_dvd (Nat.pos_of_ne_zero h0) hdvd
        refine ⟨hs.ge, fun hn => namesTable_congr hn fun k hk => ?_, fun x hx => ?_, fun ht => ?_,
          fun _ hst => hsame (hplace hst)⟩
        · rw [hb]
          refine Cells.write_of_lt (lt_of_lt_of_le ?_ hsec)
          exact hk.trans (by decide)
        · rw [hb]
          rcases Nat.lt_or_ge x offset with hlt | hge
          · exact Cells.write_of_lt hlt
          · exact Cells.write_of_le (by rw [hlen]; exact Nat.le_of_not_lt fun hlt => hx ht ⟨hge, hlt⟩)
        · by_cases heq : offset = tablePlace
          · exact hsame heq
          · rw [File.HasTable, hb]
            by_cases hbelow : offset + ndivent * divisionSize ≤ tablePlace
            · rw [Cells.read_write_above (by rw [hlen]; exact hbelow)]
              exact ht
            · rw [Cells.read_write_below]
              · exact ht
              · by_contra hlt
                exact hc (.inr ⟨heq, by omega, by omega⟩)
  case isFalse ht => exact ⟨le_rfl, id, fun _ _ => rfl, id, fun h => absurd h ht⟩

theorem syncDivTables_spec (hc : ∀ i < v.topDiv, (v.divTable i).type = DivType.divTbl.code →
    ¬ Clobbers (v.divTable i).start) (hfirst : ∃ i < v.topDiv, (v.divTable i).type = DivType.divTbl.code ∧
      (v.divTable i).start.toNat = diskBootstrapSectors) (hname : NamesTable v.file.bytes)
    (htable : v.needSyncDivisions = false → v.file.HasTable (tableBytes v.divTable)) :
    Ends (fun v' => v' = { v with file := v'.file, needSyncDivisions := false } ∧ v.file.size ≤ v'.file.size ∧
      NamesTable v'.file.bytes ∧ SameOutside v v.file v'.file ∧ v'.file.HasTable (tableBytes v.divTable))
      (syncDivTables v) := by
  unfold syncDivTables
  split
  case isTrue =>
    obtain ⟨i, hi, hti, hsi⟩ := hfirst
    refine Ends.bind (P := fun f' => v.file.size ≤ f'.size ∧ NamesTable f'.bytes ∧ SameOutside v v.file f' ∧
      f'.HasTable (tableBytes v.divTable)) ?_ fun f' hf' => ⟨rfl, hf'⟩
    have hloop : Ends (fun f' : File => v.file.size ≤ f'.size ∧ NamesTable f'.bytes ∧ SameOutside v v.file f' ∧
        (i ∈ [] ++ List.range v.topDiv → f'.HasTable (tableBytes v.divTable)))
        ((List.range v.topDiv).foldlM (syncDivTable v) v.file) := by
      refine Ends.foldlM (P := fun divs (f' : File) => v.file.size ≤ f'.size ∧ NamesTable f'.bytes ∧
        SameOutside v v.file f' ∧ (i ∈ divs → f'.HasTable (tableBytes v.divTable))) (fun divs k f' hk hf' => ?_) [] _
        v.file (fun _ hb => hb) ⟨le_rfl, hname, fun _ _ _ => rfl, fun hm => by simp at hm⟩
      refine (syncDivTable_spec (hc k (List.mem_range.1 hk))).mono fun f'' hf'' => ?_
      obtain ⟨h₁, h₂, hout, h₃, h₄⟩ := hf''
      refine ⟨hf'.1.trans h₁, h₂ hf'.2.1, fun x hx hx' => ?_, fun hm => ?_⟩
      · rw [hout x (hx' k (List.mem_range.1 hk))]
        exact hf'.2.2.1 x hx hx'
      rcases List.mem_append.1 hm with hm | hm
      · exact h₃ (hf'.2.2.2 hm)
      · obtain rfl := List.mem_singleton.1 hm
        exact h₄ hti hsi
    exact hloop.mono fun f' hf' => ⟨hf'.1, hf'.2.1, hf'.2.2.1, hf'.2.2.2 (List.mem_range.2 hi)⟩
  case isFalse hno =>
    rw [Bool.not_eq_true] at hno
    refine ⟨?_, le_rfl, hname, fun _ _ _ => rfl, htable hno⟩
    rw [← hno]

variable {t : ℕ → Division}

theorem openVolume_spec {top : ℕ} (hname : NamesTable f.bytes)
    (htable : f.HasTable (tableBytes t)) (htop : top < ndivent) (hend : (t top).type = DivType.unused.code)
    (hused : ∀ i < top, (t i).type ≠ DivType.unused.code) :
    Ends (fun v => v.file = f ∧ NamesTable v.volHdr ∧ v.needSyncHdr = false ∧ v.topDiv = top ∧
      (∀ i < ndivent, v.divTable i = t i) ∧ (∀ i, v.divNeedsInit i = false) ∧ v.needSyncDivisions = false)
      (openVolume f) := by
  unfold openVolume
  split
  case h_1 => trivial
  case h_2 hdr hr =>
    obtain ⟨rfl, -, -⟩ := File.read_some hr
    have hmem : NamesTable (memory (Cells.read f.bytes 0 volHdrSize)) := by
      refine namesTable_congr hname fun k hk => ?_
      have h := Cells.write_read_add (f := fun _ => (0 : UInt8)) (g := f.bytes) (a := 0) (b := 0) hk
      rwa [Nat.zero_add] at h
    have hplace : u32 (sectorSize * diskBootstrapSectors) = tablePlace := by decide
    split
    case h_1 => trivial
    case h_2 table ht =>
      rw [hmem, hplace] at ht
      obtain ⟨rfl, -, -⟩ := File.read_some ht
      rw [htable]
      have hfind : (List.range ndivent).find?
          (fun i => decide ((tableOf (tableBytes t) i).type = DivType.unused.code)) = some top := by
        rw [List.find?_range_eq_some]
        refine ⟨?_, List.mem_range.2 htop, fun i hi => ?_⟩
        · rw [tableOf_tableBytes t htop]
          exact decide_eq_true hend
        · rw [tableOf_tableBytes t (hi.trans htop)]
          simpa using hused i hi
      refine ⟨rfl, hmem, rfl, ?_, fun i hi => tableOf_tableBytes t hi, fun _ => rfl, rfl⟩
      simp only [hfind, Option.getD_some]

/-! ## Closing and opening -/

/-- What is in the file agrees with what is in memory, as far as it does not have to be written. -/
structure OnDisk (v : Volume) : Prop where
  formattable : Formattable v
  first : ∃ i < v.topDiv, (v.divTable i).type = DivType.divTbl.code ∧
    (v.divTable i).start.toNat = diskBootstrapSectors
  hdr : NamesTable v.volHdr
  fileHdr : NamesTable v.file.bytes
  size : tablePlace + pageSize ≤ v.file.size
  flags : ∀ k, v.divNeedsInit k = true → v.needSyncHdr = true ∧ v.needSyncDivisions = true
  /-- If the table does not have to be written, it is in the file, or a division has been deleted: then the entry after
  the last one is still used. -/
  table : v.needSyncDivisions = false → (∀ i < v.topDiv, (v.divTable i).type ≠ DivType.unused.code) ∧
    ((v.divTable v.topDiv).type ≠ DivType.unused.code ∨ v.file.HasTable (tableBytes v.divTable))

/-- The volume can be closed: the table is not full, the entry after the last one is the first that is unused, and no
division table is written over the header or over a part of the first one. -/
structure Closable (v : Volume) : Prop where
  notFull : v.topDiv < ndivent
  unused : (v.divTable v.topDiv).type = DivType.unused.code
  used : ∀ i < v.topDiv, (v.divTable i).type ≠ DivType.unused.code
  tables : ∀ i < v.topDiv, (v.divTable i).type = DivType.divTbl.code → ¬ Clobbers (v.divTable i).start

instance (v : Volume) : Decidable (Closable v) :=
  decidable_of_iff (v.topDiv < ndivent ∧ (v.divTable v.topDiv).type = DivType.unused.code ∧
    (∀ i < v.topDiv, (v.divTable i).type ≠ DivType.unused.code) ∧
      ∀ i < v.topDiv, (v.divTable i).type = DivType.divTbl.code → ¬ Clobbers (v.divTable i).start)
    ⟨fun h => ⟨h.1, h.2.1, h.2.2.1, h.2.2.2⟩, fun h => ⟨h.1, h.2, h.3, h.4⟩⟩

theorem tableBytes_congr {t' : ℕ → Division} (h : ∀ i < ndivent, t' i = t i) : tableBytes t' = tableBytes t := by
  unfold tableBytes
  rw [List.flatMap_def, List.flatMap_def]
  refine congrArg List.flatten (List.map_congr_left fun i hi => ?_)
  rw [h i (List.mem_range.1 hi)]

/-- **The same table** is there when the volume is closed and opened again, and the file is as it was after the
initialisation, but for the header and the tables. -/
theorem reopened (h : OnDisk v) (hc : Closable v) : Ends (fun v' => v'.topDiv = v.topDiv ∧
    (∀ i < ndivent, v'.divTable i = v.divTable i) ∧ (∀ i, v'.divNeedsInit i = false) ∧ OnDisk v' ∧
      ∃ v₁, initDivisions v = .ok v₁ ∧ v₁.file.size ≤ v'.file.size ∧ SameOutside v v₁.file v'.file)
    (do
      let file ← close v
      openVolume file) := by
  refine Ends.bind (P := fun f => NamesTable f.bytes ∧ f.HasTable (tableBytes v.divTable) ∧
    tablePlace + pageSize ≤ f.size ∧ ∃ v₁, initDivisions v = .ok v₁ ∧ v₁.file.size ≤ f.size ∧
      SameOutside v v₁.file f) ?_ ?_
  · unfold close
    have hspec := initDivisions_spec h.formattable
    generalize hinit : initDivisions v = x at hspec
    refine Ends.bind (P := fun v₁ => Initialised (List.range v.topDiv) v v₁ ∧ x = .ok v₁) ?_ fun v₁ hv₁ => ?_
    · match x, hspec with
      | .ok v₁, h₁ => exact ⟨h₁, rfl⟩
      | .error (.fatal _ _), _ => trivial
    obtain ⟨h₁, rfl⟩ := hv₁
    have hk := h₁.keeps
    have hsize : tablePlace ≤ v₁.file.size := by
      have := h.size
      have := hk.size
      omega
    -- What does not have to be written is not changed by the initialisation.
    have hsame : v.needSyncHdr = false ∨ v.needSyncDivisions = false → v₁ = v := by
      intro hno
      refine h₁.same fun k _ => ?_
      rw [← Bool.not_eq_true]
      intro hf
      obtain ⟨h₂, h₃⟩ := h.flags k hf
      rw [h₂, h₃] at hno
      simp at hno
    obtain ⟨v₂, hv₂, ht₂, htop₂, hsync₂, hsize₂, hname₂, hout₂, htable₂⟩ := syncHdr_spec hsize (hk.volHdr ▸ h.hdr) (by
      intro hno
      rw [hk.needSyncHdr] at hno
      rw [hsame (.inl hno)]
      exact h.fileHdr)
    rw [hv₂, ok_bind]
    have hdiv : v₂.divTable = v.divTable := ht₂.trans hk.divTable
    have htop : v₂.topDiv = v.topDiv := htop₂.trans hk.topDiv
    refine Ends.bind (syncDivTables_spec (by rw [hdiv, htop]; exact hc.tables) (by rw [hdiv, htop]; exact h.first)
      hname₂ fun hno => ?_) fun v₃ hv₃ => ?_
    · rw [hsync₂, hk.needSyncDivisions] at hno
      rw [hdiv]
      apply htable₂
      rw [hsame (.inr hno)]
      exact (h.table hno).2.resolve_left fun hu => hu hc.unused
    · obtain ⟨-, hs₃, hn₃, hout₃, ht₃⟩ := hv₃
      refine ⟨hn₃, hdiv ▸ ht₃, ?_, v₁, rfl, hsize₂.ge.trans hs₃, fun x hx hx' => ?_⟩
      · have := h.size
        have := hk.size
        omega
      · rw [hout₃ x hx (by rwa [hdiv, htop]), hout₂ x hx (by rwa [hk.divTable, hk.topDiv])]
  · rintro f ⟨hn, ht, hs, hfile⟩
    refine (openVolume_spec hn ht hc.notFull hc.unused hc.used).mono fun v' hv' => ?_
    obtain ⟨rfl, hh, -, htop, hdiv, hflags, -⟩ := hv'
    have hlow : ∀ i < v'.topDiv, v'.divTable i = v.divTable i := fun i hi =>
      hdiv i ((htop ▸ hi).trans hc.notFull)
    have hnoflag : ∀ k, ¬ v'.divNeedsInit k = true := fun k hk => by
      rw [hflags k] at hk
      cases hk
    refine ⟨htop, hdiv, hflags, ⟨?_, ?_, hh, hn, hs, fun k hk => absurd hk (hnoflag k), fun _ => ⟨?_, .inr ?_⟩⟩, hfile⟩
    · intro i hi
      rw [hlow i hi]
      exact h.formattable i (htop ▸ hi)
    · obtain ⟨i, hi, hd⟩ := h.first
      rw [← htop] at hi
      refine ⟨i, hi, ?_⟩
      rwa [hlow i hi]
    · intro i hi
      rw [hlow i hi]
      exact hc.used i (htop ▸ hi)
    · rw [tableBytes_congr hdiv]
      exact ht

end CapROS.Erosimg
