import CapROS.Erosimg.Basic

/-!
# The objects of a volume

Where the tags of objects and the pages of the log are written (`erosimg/Volume.c`, `disk/TagPot.h`). A range of
objects is in clusters of 819 frames. Before the frames of a cluster there is a tag pot, a page with the allocation
count and the tag of each of them.
-/

namespace CapROS.Erosimg

open Bytes

def framesPerCluster : ℕ := 819

def rangeLocsPerCluster : ℕ := framesPerCluster + 1

/-- `OIDToFrame(oid - startOid)`, for an object of the division. -/
def relFrame (d : Division) (oid : UInt64) : ℕ := (oid.toNat - d.startOid.toNat) / objectsPerFrame

def frameToRangeLoc (frame : ℕ) : ℕ := frame + frame / framesPerCluster + 1

/-- The place that is `page` pages after the start of the division, with 32 bits. -/
def pageVolOffset (d : Division) (page : ℕ) : ℕ :=
  u32 (u32 (d.start.toNat * sectorSize) + u32 (u32 page * pageSize))

/-! ## Tags -/

def frmTypeDPage : UInt8 := 0

def tagIsZero : UInt8 := 0x80

structure VolPagePot where
  count : UInt32
  type : UInt8
  isZero : UInt8
  deriving DecidableEq, Repr

/-- `&tagPot.count[i]`. -/
def countAt (i : ℕ) : ℕ := 4 * i

/-- `&tagPot.tags[i]`. -/
def tagAt (i : ℕ) : ℕ := 4 * framesPerCluster + i

/-- `vol_GetOidPagePotVolOffset`. -/
def pagePotVolOffset (d : Division) (oid : UInt64) : Except Stop ℕ := do
  check (d.type = DivType.object.code)
  check (d.Contains oid)
  check (d.startOid.toNat % objectsPerFrame = 0)
  .ok (pageVolOffset d (relFrame d oid / framesPerCluster * rangeLocsPerCluster))

/-- `vol_FindPagePotEntry`: the bytes of the pot, where it is, and the index of the frame in it. -/
def findPagePotEntry (v : Volume) (oid : UInt64) : Except Stop (Option (List UInt8 × ℕ × ℕ)) :=
  match v.findOid [.object] oid with
  | none => .ok none
  | some div => do
    let d := v.divTable div
    check (d.startOid.toNat % objectsPerFrame = 0)
    let offset ← pagePotVolOffset d oid
    .ok ((v.file.read offset pageSize).map fun data => (data, offset, relFrame d oid % framesPerCluster))

/-- The pot with another entry. -/
def setPagePotEntry (data : List UInt8) (i : ℕ) (pot : VolPagePot) : List UInt8 :=
  Cells.read (Cells.write (setField (memory data) (countAt i) 4 pot.count.toNat) (tagAt i) [pot.type ||| pot.isZero])
    0 pageSize

/-- `vol_WritePagePotEntry`. -/
def writePagePotEntry (v : Volume) (oid : UInt64) (pot : VolPagePot) : Except Stop (Bool × Volume) := do
  match ← findPagePotEntry v oid with
  | none => .ok (false, v)
  | some (data, offset, i) =>
    match v.file.write offset (setPagePotEntry data i pot) with
    | none => .error (.fatal 5 "Volume write failed at offset %d.\n")
    | some file => .ok (true, { v with file := file })

/-! ## Pages of the log -/

/-- `vol_GetLogFrameVolOffset`. -/
def logFrameVolOffset (d : Division) (loc : UInt64) : Except Stop ℕ := do
  check (d.Contains loc)
  .ok (pageVolOffset d (u32 (loc.toNat - d.startOid.toNat) / objectsPerFrame))

/-- The loop of `vol_WriteLogPage`, for the divisions that are left. It does not stop at the first one. -/
def writeLogPageFrom (lid : UInt64) (buf : List UInt8) : List ℕ → Volume → Except Stop Volume
  | [], v => .ok v
  | div :: divs, v =>
    let d := v.divTable div
    if d.type = DivType.log.code ∧ d.Contains lid then do
      let offset ← logFrameVolOffset d lid
      match v.file.write offset buf with
      | none => .error (.fatal 5 "Volume write failed at offset %d.\n")
      | some file => writeLogPageFrom lid buf divs { v with file := file }
    else writeLogPageFrom lid buf divs v

/-- `vol_WriteLogPage`. -/
def writeLogPage (v : Volume) (lid : UInt64) (buf : List UInt8) : Except Stop Volume :=
  writeLogPageFrom lid buf (List.range v.topDiv) v

end CapROS.Erosimg
