import CapROS.Theory.Bytes
import CapROS.Kernel.Types

/-!
# Volumes

The data of the library for disk volumes (`erosimg/Volume.c`, `disk/LowVolume.h`). A volume is a file. Its first
page has the volume header, and a page that the header names has the table of the divisions; a division is a run
of sectors.

* `File`: the file, `File.read` and `File.write`.
* `ofBytes_tableBytes`: the table is read back from its bytes.
-/

namespace CapROS.Erosimg

open Bytes

/-- The ways in which the programs end, or do not. -/
inductive Stop where
  /-- `diag_fatal`, with the format of its message. -/
  | fatal (code : ℕ) (msg : String)
  | assertion
  /-- An element outside an array is used. -/
  | wildPointer
  /-- What an indeterminate buffer has is used. -/
  | indeterminate
  /-- A loop does not end. -/
  | unending
  deriving DecidableEq, Repr

/-- `assert(p)`. -/
def check (p : Prop) [Decidable p] : Except Stop Unit :=
  if p then .ok () else .error .assertion

/-- `EROS_PAGE_SIZE`. -/
def pageSize : ℕ := 4096

/-- `EROS_SECTOR_SIZE`. -/
def sectorSize : ℕ := 512

/-- `EROS_PAGE_SECTORS`. -/
def pageSectors : ℕ := 8

/-- `EROS_OBJECTS_PER_FRAME`. -/
def objectsPerFrame : ℕ := 256

def ndivent : ℕ := 64

def diskBootstrapSectors : ℕ := 64

/-- A number as a `uint32_t`. -/
def u32 (n : ℕ) : ℕ := n % 2 ^ 32

/-! ## The file -/

/-- The file of a volume. -/
structure File where
  bytes : ℕ → UInt8
  size : ℕ

/-- `vol_Read`. The offset is cast to `int`, and a negative one cannot be sought. -/
def File.read (f : File) (offset n : ℕ) : Option (List UInt8) :=
  if offset < 2 ^ 31 ∧ offset + n ≤ f.size then some (Cells.read f.bytes offset n) else none

/-- `vol_Write`. -/
def File.write (f : File) (offset : ℕ) (buf : List UInt8) : Option File :=
  if offset < 2 ^ 31 then some ⟨Cells.write f.bytes offset buf, max f.size (offset + buf.length)⟩ else none

/-! ## Divisions -/

inductive DivType where
  | unused
  | boot
  | divTbl
  | kernel
  | log
  | object
  | failStart
  deriving DecidableEq, Repr

/-- The number of a type, as it is in a division table. -/
def DivType.code : DivType → UInt8
  | .unused => 0
  | .boot => 1
  | .divTbl => 2
  | .kernel => 3
  | .log => 4
  | .object => 5
  | .failStart => 6

/-- `Division`. Its sectors are those from `start` up to `stop`, which the source calls `end`. -/
structure Division where
  startOid : UInt64
  endOid : UInt64
  start : UInt32
  stop : UInt32
  type : UInt8
  flags : UInt8
  unused1 : UInt16
  unused2 : UInt32
  deriving DecidableEq, Repr

/-- `div_contains`. -/
def Division.Contains (d : Division) (oid : UInt64) : Prop := ¬ oid < d.startOid ∧ ¬ d.endOid ≤ oid

instance (d : Division) (oid : UInt64) : Decidable (d.Contains oid) := by
  unfold Division.Contains
  infer_instance

/-- `sizeof(Division)`. -/
def divisionSize : ℕ := 32

/-- The bytes of an entry. -/
def Division.bytes (d : Division) : List UInt8 :=
  toBytes 8 d.startOid.toNat ++ (toBytes 8 d.endOid.toNat ++ (toBytes 4 d.start.toNat ++ (toBytes 4 d.stop.toNat ++
    (toBytes 1 d.type.toNat ++ (toBytes 1 d.flags.toNat ++ (toBytes 2 d.unused1.toNat ++
      toBytes 4 d.unused2.toNat))))))

/-- The entry at `a` in memory. -/
def Division.ofMem (mem : ℕ → UInt8) (a : ℕ) : Division where
  startOid := .ofNat (getField mem a 8)
  endOid := .ofNat (getField mem (a + 8) 8)
  start := .ofNat (getField mem (a + 16) 4)
  stop := .ofNat (getField mem (a + 20) 4)
  type := .ofNat (getField mem (a + 24) 1)
  flags := .ofNat (getField mem (a + 25) 1)
  unused1 := .ofNat (getField mem (a + 26) 2)
  unused2 := .ofNat (getField mem (a + 28) 4)

/-- Bytes in memory, from address 0 on. -/
def memory (l : List UInt8) : ℕ → UInt8 := Cells.write (fun _ => 0) 0 l

/-- The bytes of the table. -/
def tableBytes (divTable : ℕ → Division) : List UInt8 :=
  (List.range ndivent).flatMap fun i => (divTable i).bytes

/-- The table in these bytes. -/
def tableOf (l : List UInt8) (i : ℕ) : Division := .ofMem (memory l) (i * divisionSize)

/-! ## The volume -/

/-- `Volume`. The header is kept as the bytes of `VolHdr`. What is only used by code that is not compiled is left
out. -/
structure Volume where
  file : File
  volHdr : ℕ → UInt8
  needSyncHdr : Bool
  divTable : ℕ → Division
  topDiv : ℕ
  divNeedsInit : ℕ → Bool
  needSyncDivisions : Bool

/-- `sizeof(VolHdr)`, and the places of the fields in it. -/
def volHdrSize : ℕ := 52

/-- `volHdr.DivTable`. -/
def divTableAt : ℕ := 16

/-- `volHdr.AltDivTable`. -/
def altDivTableAt : ℕ := 20

/-- `volHdr.BootFlags`. -/
def bootFlagsAt : ℕ := 24

/-- `volHdr.VolSectors`. -/
def volSectorsAt : ℕ := 32

/-- The number of the first division that a loop over the table finds. -/
def Volume.find (v : Volume) (p : Division → Bool) : Option ℕ :=
  (List.range v.topDiv).find? fun i => p (v.divTable i)

/-- The first division of this type with the object. -/
def Volume.findOid (v : Volume) (types : List DivType) (oid : UInt64) : Option ℕ :=
  v.find fun d => decide (d.type ∈ types.map DivType.code ∧ d.Contains oid)

/-! ## The bytes of the table -/

variable {mem mem' : ℕ → UInt8} {a n m v i : ℕ} {l r : List UInt8}

theorem Division.length_bytes (d : Division) : d.bytes.length = divisionSize := by
  simp [Division.bytes, divisionSize]

theorem Division.ofMem_of_read {d : Division} (h : Cells.read mem a divisionSize = d.bytes) :
    Division.ofMem mem a = d := by
  obtain ⟨h₁, h⟩ := getField_of_read (m := 24) h
  obtain ⟨h₂, h⟩ := getField_of_read (m := 16) h
  obtain ⟨h₃, h⟩ := getField_of_read (m := 12) h
  obtain ⟨h₄, h⟩ := getField_of_read (m := 8) h
  obtain ⟨h₅, h⟩ := getField_of_read (m := 7) h
  obtain ⟨h₆, h⟩ := getField_of_read (m := 6) h
  obtain ⟨h₇, h⟩ := getField_of_read (m := 4) h
  obtain ⟨h₈, -⟩ := getField_of_read (m := 0) (l := []) (by rw [List.append_nil]; exact h)
  unfold Division.ofMem
  rw [h₁, h₂, h₃, h₄, h₅, h₆, h₇, h₈]
  have m₁ : d.startOid.toNat % 256 ^ 8 = d.startOid.toNat := Nat.mod_eq_of_lt d.startOid.toNat_lt
  have m₂ : d.endOid.toNat % 256 ^ 8 = d.endOid.toNat := Nat.mod_eq_of_lt d.endOid.toNat_lt
  have m₃ : d.start.toNat % 256 ^ 4 = d.start.toNat := Nat.mod_eq_of_lt d.start.toNat_lt
  have m₄ : d.stop.toNat % 256 ^ 4 = d.stop.toNat := Nat.mod_eq_of_lt d.stop.toNat_lt
  have m₅ : d.type.toNat % 256 ^ 1 = d.type.toNat := Nat.mod_eq_of_lt d.type.toNat_lt
  have m₆ : d.flags.toNat % 256 ^ 1 = d.flags.toNat := Nat.mod_eq_of_lt d.flags.toNat_lt
  have m₇ : d.unused1.toNat % 256 ^ 2 = d.unused1.toNat := Nat.mod_eq_of_lt d.unused1.toNat_lt
  have m₈ : d.unused2.toNat % 256 ^ 4 = d.unused2.toNat := Nat.mod_eq_of_lt d.unused2.toNat_lt
  rw [m₁, m₂, m₃, m₄, m₅, m₆, m₇, m₈]
  simp

theorem tableOf_tableBytes (t : ℕ → Division) (hi : i < ndivent) : tableOf (tableBytes t) i = t i := by
  apply Division.ofMem_of_read
  have h := Cells.read_write_flatMap (fun _ => 0) 0 (fun i => (t i).bytes) (fun i => (t i).length_bytes) hi
  rwa [Nat.zero_add] at h

theorem length_tableBytes (t : ℕ → Division) : (tableBytes t).length = ndivent * divisionSize :=
  Cells.length_flatMap_range fun i => (t i).length_bytes

end CapROS.Erosimg
