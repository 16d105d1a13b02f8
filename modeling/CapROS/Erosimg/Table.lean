import CapROS.Erosimg.Objects

/-!
# The division table

How divisions are added and deleted, and how a volume is created, closed and opened (`erosimg/Volume.c`). The file
is only written when the volume is created and when it is closed: then new divisions are zeroed and formatted, and the
header and the tables are written.

* `doAddDivision`, `addFixedDivision`, `addAdjustableDivision`, `delDivision`.
* `create`, `close`, `openVolume`: the life of a volume, with `DISK_BOOTSTRAP_SECTORS` (64) and `EROS_PAGE_SECTORS`
  (8) sectors in its first divisions.
-/

namespace CapROS.Erosimg

open Bytes

/-! ## Adding and deleting -/

/-- The test of `vol_DoAddDivision`: a place of a division that is not empty is taken, by its ends. -/
def Division.Overlaps (d : Division) (start stop : UInt32) : Prop :=
  d.start ≠ d.stop ∧ (start ≥ d.start ∧ start < d.stop ∨ stop > d.start ∧ stop ≤ d.stop)

instance (d : Division) (start stop : UInt32) : Decidable (d.Overlaps start stop) := by
  unfold Division.Overlaps
  infer_instance

/-- The entry of a new division. -/
def Division.place (d : Division) (type : DivType) (start stop : UInt32) : Division :=
  { d with type := type.code, start := start, stop := stop, startOid := 0, endOid := 0 }

@[simp] theorem Division.place_type (d : Division) (type : DivType) (start stop : UInt32) :
    (d.place type start stop).type = type.code := rfl

@[simp] theorem Division.place_start (d : Division) (type : DivType) (start stop : UInt32) :
    (d.place type start stop).start = start := rfl

@[simp] theorem Division.place_stop (d : Division) (type : DivType) (start stop : UInt32) :
    (d.place type start stop).stop = stop := rfl

/-- What `vol_DoAddDivision` notes in the header of a new division table. -/
def noteDivTable (volHdr : ℕ → UInt8) (type : DivType) (start : UInt32) : ℕ → UInt8 :=
  if type = .divTbl then
    if getField volHdr divTableAt 4 = 0 then setField volHdr divTableAt 4 start.toNat
    else setField volHdr altDivTableAt 4 start.toNat
  else volHdr

/-- `vol_DoAddDivision`. -/
def doAddDivision (v : Volume) (type : DivType) (start sz : UInt32) : Except Stop (ℕ × Volume) :=
  if ndivent ≤ v.topDiv then .error (.fatal 4 "Too many divisions\n")
  else if sz ≠ 0 ∧ ∃ i ∈ List.range v.topDiv, (v.divTable i).Overlaps start (start + sz) then
    .error (.fatal 4 "Division range error\n")
  else
    .ok (v.topDiv,
      { v with
        topDiv := v.topDiv + 1
        divTable := Function.update v.divTable v.topDiv ((v.divTable v.topDiv).place type start (start + sz))
        volHdr := noteDivTable v.volHdr type start
        needSyncHdr := true
        divNeedsInit := Function.update v.divNeedsInit v.topDiv true
        needSyncDivisions := true })

/-- The test of `vol_AddAdjustableDivision`: the division starts or ends in the place. -/
def Division.Collides (d : Division) (start stop : UInt32) : Prop :=
  d.start ≥ start ∧ d.start < stop ∨ d.stop > start ∧ d.stop ≤ stop

instance (d : Division) (start stop : UInt32) : Decidable (d.Collides start stop) := by
  unfold Division.Collides
  infer_instance

/-- The first division that starts or ends in a place. -/
def firstCollision (v : Volume) (start sz : UInt32) : Option Division :=
  (v.find fun d => d.Collides start (start + sz)).map v.divTable

/-- The search of `vol_AddAdjustableDivision`. It starts again from the first division after each collision. Each place
but the first is the end of a division, so that one that is looked at after as many places is looked at for ever. -/
def searchPlace (v : Volume) (sz : UInt32) : ℕ → UInt32 → Except Stop UInt32
  | 0, _ => .error .unending
  | fuel + 1, start =>
    match firstCollision v start sz with
    | none => .ok start
    | some d => searchPlace v sz fuel d.stop

/-- `vol_AddAdjustableDivision`. -/
def addAdjustableDivision (v : Volume) (type : DivType) (sz : UInt32) : Except Stop (ℕ × Volume) := do
  let start ← searchPlace v sz (v.topDiv + 2) 0
  doAddDivision v type start sz

/-- `vol_AddFixedDivision`. -/
def addFixedDivision (v : Volume) (type : DivType) (start sz : UInt32) : Except Stop (ℕ × Volume) :=
  doAddDivision v type start sz

/-- `vol_DelDivision`. -/
def delDivision (v : Volume) (ndx : ℕ) : Except Stop Volume :=
  if v.topDiv ≤ ndx then .error (.fatal 1 "Attempt to delete nonexistent division\n")
  else if (v.divTable ndx).type = DivType.boot.code ∨ (v.divTable ndx).type = DivType.divTbl.code then
    .error (.fatal 1 "Division type %s cannot be deleted\n")
  else if ndivent ≤ v.topDiv then .error .wildPointer
  else
    let divTable := fun i => if ndx ≤ i ∧ i + 1 < v.topDiv then v.divTable (i + 1) else v.divTable i
    .ok
      { v with
        divTable := Function.update divTable v.topDiv { divTable v.topDiv with type := DivType.unused.code }
        topDiv := v.topDiv - 1
        needSyncHdr := true }

/-! ## Initialising divisions -/

/-- The loop of `vol_ZeroDivision`, for `n` sectors from sector `i` on. -/
def zeroSectors : ℕ → ℕ → File → Except Stop File
  | 0, _, f => .ok f
  | n + 1, i, f =>
    match f.write (u32 (i * sectorSize)) (List.replicate sectorSize 0) with
    | none => .error (.fatal 1 "Couldn't zero division %d\n")
    | some f => zeroSectors n (i + 1) f

/-- `vol_ZeroDivision`. -/
def zeroDivision (v : Volume) (ndx : ℕ) : Except Stop Volume :=
  if v.topDiv ≤ ndx then .error (.fatal 1 "Attempt to zero nonexistent division\n")
  else do
    let d := v.divTable ndx
    let file ← zeroSectors (d.stop.toNat - d.start.toNat) d.start.toNat v.file
    .ok { v with file := file, divNeedsInit := Function.update v.divNeedsInit ndx false }

/-- The loop of `vol_FormatObjectDivision`, from `oid` on. If it has not ended after as many turns as there are frames,
the OID has wrapped round, and it does not end. -/
def formatFrames (endOid : UInt64) : ℕ → UInt64 → Volume → Except Stop Volume
  | 0, oid, v => if oid < endOid then .error .unending else .ok v
  | fuel + 1, oid, v =>
    if oid < endOid then do
      let (_, v) ← writePagePotEntry v oid ⟨0, frmTypeDPage, tagIsZero⟩
      formatFrames endOid fuel (oid + 256) v
    else .ok v

/-- `vol_FormatObjectDivision`. -/
def formatObjectDivision (v : Volume) (ndx : ℕ) : Except Stop Volume :=
  if v.topDiv ≤ ndx then .error (.fatal 1 "Attempt to format nonexistent division\n")
  else
    let d := v.divTable ndx
    formatFrames d.endOid ((d.endOid.toNat - d.startOid.toNat) / objectsPerFrame + 1) d.startOid v

/-- The page of a `CkptRoot` as `InitCkptRoot` sets it: `CkptRootVersion` and `IntegrityByteValue`. -/
def ckptRootPage : List UInt8 :=
  toBytes 4 1 ++ List.replicate 200 0 ++ [0xf7] ++ List.replicate (pageSize - 205) 0

/-- `vol_FormatLogDivision`, with `CKPT_ROOT_0` and `CKPT_ROOT_1`. -/
def formatLogDivision (v : Volume) (ndx : ℕ) : Except Stop Volume :=
  if v.topDiv ≤ ndx then .error (.fatal 1 "Attempt to format nonexistent division\n")
  else if (v.divTable ndx).startOid = 0 then do
    let v ← writeLogPage v 0 ckptRootPage
    writeLogPage v 256 ckptRootPage
  else .ok v

/-- What `vol_InitDivisions` does for one division. -/
def initDivision (v : Volume) (i : ℕ) : Except Stop Volume :=
  if v.divNeedsInit i = true then do
    let v ← zeroDivision v i
    let type := (v.divTable i).type
    let v ←
      if type = DivType.object.code ∨ type = DivType.kernel.code then formatObjectDivision v i
      else if type = DivType.log.code then formatLogDivision v i
      else .ok v
    .ok { v with divNeedsInit := Function.update v.divNeedsInit i false }
  else .ok v

/-- `vol_InitDivisions`. -/
def initDivisions (v : Volume) : Except Stop Volume :=
  (List.range v.topDiv).foldlM initDivision v

/-! ## The header and the tables -/

/-- The header with the number of sectors that the divisions need. -/
def countSectors (v : Volume) : ℕ → UInt8 :=
  setField v.volHdr volSectorsAt 4 ((List.range v.topDiv).foldl (fun n i => max n (v.divTable i).stop.toNat) 0)

/-- A page whose first bytes are replaced by others. -/
def overwrite (page l : List UInt8) : List UInt8 := l ++ page.drop l.length

/-- `vol_SyncHdr`. It does not look whether the page can be read and written. -/
def syncHdr (v : Volume) : Except Stop Volume :=
  if v.needSyncHdr = true then
    match v.file.read 0 pageSize with
    | none => .error .indeterminate
    | some buf =>
      let volHdr := countSectors v
      .ok
        { v with
          file := (v.file.write 0 (overwrite buf (Cells.read volHdr 0 volHdrSize))).getD v.file
          volHdr := volHdr
          needSyncHdr := false }
  else .ok v

/-- What `vol_SyncDivTables` does for one division. -/
def syncDivTable (v : Volume) (file : File) (div : ℕ) : Except Stop File :=
  let d := v.divTable div
  if d.type = DivType.divTbl.code then
    let divStart := u32 (d.start.toNat * sectorSize)
    match file.read divStart pageSize with
    | none => .error (.fatal 1 "Unable to read division table\n")
    | some buf =>
      match file.write divStart (overwrite buf (tableBytes v.divTable)) with
      | none => .error (.fatal 1 "Unable to write division table\n")
      | some file => .ok file
  else .ok file

/-- `vol_SyncDivTables`. -/
def syncDivTables (v : Volume) : Except Stop Volume :=
  if v.needSyncDivisions = true then do
    let file ← (List.range v.topDiv).foldlM (syncDivTable v) v.file
    .ok { v with file := file, needSyncDivisions := false }
  else .ok v

/-! ## The life of a volume -/

/-- `vol_WriteImageAtDivisionOffset`, for division 0 and offset 0. The file image is extended with zeros to whole
sectors. It does not look whether the image can be written. -/
def writeBoot (v : Volume) (image : List UInt8) : Except Stop Volume :=
  let secs := (image.length + sectorSize - 1) / sectorSize
  let imageBuf := image ++ List.replicate (secs * sectorSize - image.length) 0
  let d := v.divTable 0
  let divStart := u32 (d.start.toNat * sectorSize)
  if u32 (d.stop.toNat * sectorSize) < u32 (divStart + imageBuf.length) then
    .error (.fatal 1 "Image will not fit in division %d\n")
  else
    .ok { v with
      file := (v.file.write divStart imageBuf).getD v.file
      divNeedsInit := Function.update v.divNeedsInit 0 false }

/-- The boot sectors: an image, or zeros. -/
def writeBootSectors (v : Volume) : Option (List UInt8) → Except Stop Volume
  | some image => writeBoot v image
  | none => zeroDivision v 0

/-- `vol_WriteBootImage`. -/
def writeBootImage (v : Volume) (boot : Option (List UInt8)) : Except Stop Volume := do
  let v ← writeBootSectors v boot
  match v.file.read 0 pageSize with
  | none => .error (.fatal 1 "Unable to read boot sector\n")
  | some buf =>
    let flags := getField v.volHdr bootFlagsAt 4
    -- Only the bit `VF_BOOT` is changed.
    let flags := if boot.isSome then flags - flags % 2 + 1 else flags - flags % 2
    let volHdr := setField (Cells.write v.volHdr 0 (buf.take 8)) bootFlagsAt 4 flags
    let volHdr := countSectors { v with volHdr := volHdr }
    match v.file.write 0 (overwrite buf (Cells.read volHdr 0 volHdrSize)) with
    | none => .error (.fatal 1 "Unable to read boot sector\n")
    | some file => .ok { v with file := file, volHdr := volHdr, needSyncHdr := false }

/-- The header of a new volume, with the code, the flags and the unused field as they are in memory: its version, the
size of a page, no division tables, no flags, the boot sectors, no sectors, the identifier and the signature. -/
def newHdr (heap : ℕ → UInt8) (iplSysId : ℕ) : ℕ → UInt8 :=
  Cells.write (Cells.write heap 8
    (toBytes 4 1 ++ toBytes 4 pageSize ++ toBytes 4 0 ++ toBytes 4 0 ++ toBytes 4 0 ++ toBytes 4 diskBootstrapSectors ++
      toBytes 4 0)) 40 (toBytes 8 iplSysId ++ [0x45, 0x52, 0x4f, 0x53])

/-- The volume of `vol_Create` before divisions are added. The file is empty, and the table is as it was in memory. -/
def newVolume (heapHdr : ℕ → UInt8) (heapTable : ℕ → Division) (iplSysId : ℕ) : Volume where
  file := ⟨fun _ => 0, 0⟩
  volHdr := newHdr heapHdr iplSysId
  needSyncHdr := true
  divTable := heapTable
  topDiv := 0
  divNeedsInit := fun _ => false
  needSyncDivisions := false

/-- `vol_Create`, with the standard items. -/
def create (heapHdr : ℕ → UInt8) (heapTable : ℕ → Division) (iplSysId : ℕ) (boot : Option (List UInt8)) :
    Except Stop Volume := do
  let (_, v) ← addFixedDivision (newVolume heapHdr heapTable iplSysId) .boot 0 64
  let (_, v) ← addFixedDivision v .divTbl 64 8
  let v ← initDivisions v
  let v ← writeBootImage v boot
  syncDivTables v

/-- `vol_Close`: the file that is left. -/
def close (v : Volume) : Except Stop File := do
  let v ← initDivisions v
  let v ← syncHdr v
  let v ← syncDivTables v
  .ok v.file

/-- `vol_Open`. The headers of the log, which it reads too, are left out. -/
def openVolume (file : File) : Except Stop Volume :=
  match file.read 0 volHdrSize with
  | none => .error (.fatal 3 "Couldn't read volume header\n")
  | some hdr =>
    match file.read (u32 (sectorSize * getField (memory hdr) divTableAt 4)) (ndivent * divisionSize) with
    | none => .error (.fatal 3 "Couldn't read primary division table\n")
    | some table =>
      .ok
        { file := file
          volHdr := memory hdr
          needSyncHdr := false
          divTable := tableOf table
          topDiv := ((List.range ndivent).find? fun i => (tableOf table i).type = DivType.unused.code).getD 0
          divNeedsInit := fun _ => false
          needSyncDivisions := false }

end CapROS.Erosimg
