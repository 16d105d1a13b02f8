import CapROS.Theory.Bytes

/-!
# The directory

`base/domain/directory/directory.c`. The entries lie in pages of memory from `first_entry` on, which has address 0
here. The keys are in the slots of a supernode; an entry has the number of its slot.

* `find`, `lookup`, `unlink`: an entry is looked for, and its key is read or the entry is marked as not in use.
* `processRequest`: a request.

A loop has an argument `fuel` and results in `none` when it takes more turns.
-/

namespace CapROS.Directory

open Cells Bytes

def EROS_PAGE_SIZE : ℕ := 4096

def MAXNAMLEN : ℕ := 255

abbrev Memory := ℕ → UInt8

/-! ## The fields of `struct direct` -/

section Fields

variable (mem : Memory) (dp : ℕ)

def d_entno : ℕ := getField mem dp 4

def d_reclen : ℕ := getField mem (dp + 4) 2

def d_inuse : UInt8 := mem (dp + 6)

def d_namlen : ℕ := (mem (dp + 7)).toNat

/-- The address of the name. -/
def d_name : ℕ := dp + 8

def setEntno (v : ℕ) : Memory := setField mem dp 4 v

def setReclen (v : ℕ) : Memory := setField mem (dp + 4) 2 v

def setInuse (v : UInt8) : Memory := write mem (dp + 6) [v]

def setNamlen (v : ℕ) : Memory := write mem (dp + 7) [UInt8.ofNat v]

def DIRSIZ : ℕ := 8 + (d_namlen mem dp + 1 + 3) / 4 * 4

def NEXTDIR : ℕ := dp + d_reclen mem dp

/-- An entry that is not in use, with the length `reclen`. -/
def setFree (reclen : ℕ) : Memory :=
  let mem := setReclen mem dp reclen
  let mem := setInuse mem dp 0
  let mem := setNamlen mem dp 0
  write mem (d_name dp) [0, 0, 0, 0]

end Fields

/-- `template`: the entries "." and "..". -/
def template : List UInt8 :=
  toBytes 4 0 ++ toBytes 2 12 ++ [1, 1] ++ [46, 0, 0, 0] ++
    (toBytes 4 1 ++ toBytes 2 (EROS_PAGE_SIZE - 12) ++ [1, 2] ++ [46, 46, 0, 0])

/-- `blank_page`. -/
def blank_page : List UInt8 := toBytes 4 0 ++ toBytes 2 EROS_PAGE_SIZE ++ [0, 0] ++ [0, 0, 0, 0]

/-! ## The numbers of entries -/

/-- The number of words of `freeMap`. -/
def max_w : ℕ := 1024

/-- The loops of `alloc_dirent`, from the word `w` on. -/
def findClear (freeMap : ℕ → BitVec 32) : ℕ → ℕ → Option (ℕ × ℕ)
  | 0, _ => none
  | n + 1, w =>
    if freeMap w ≠ BitVec.allOnes 32 then
      match (List.range 32).find? fun bit => !(freeMap w).getLsbD bit with
      | some bit => some (w, bit)
      | none => findClear freeMap n (w + 1)
    else findClear freeMap n (w + 1)

/-- `alloc_dirent`. `range` is whether the supernode allocates the slot. -/
def alloc_dirent (freeMap : ℕ → BitVec 32) (range : Bool) : (ℕ → BitVec 32) × ℕ :=
  match findClear freeMap max_w 0 with
  | none => (freeMap, 0)
  | some (w, bit) =>
    (Function.update freeMap w (freeMap w ||| BitVec.twoPow 32 bit), if range = true then w * 32 + bit else 0)

/-- `free_dirent`. -/
def free_dirent (freeMap : ℕ → BitVec 32) (ndx : ℕ) : ℕ → BitVec 32 :=
  Function.update freeMap (ndx / 32) (freeMap (ndx / 32) &&& ~~~BitVec.twoPow 32 (ndx % 32))

/-! ## Looking for an entry -/

/-- The name at `a` is `name`, for `strcmp`. -/
def strEq (mem : Memory) (a : ℕ) (name : List UInt8) : Prop :=
  read mem a name.length = name ∧ mem (a + name.length) = 0

instance (mem : Memory) (a : ℕ) (name : List UInt8) : Decidable (strEq mem a name) :=
  inferInstanceAs (Decidable (_ ∧ _))

/-- `find`, from `dp` on. -/
def find (mem : Memory) (dir_top : ℕ) (name : List UInt8) : ℕ → ℕ → Option (Option ℕ)
  | 0, _ => none
  | fuel + 1, dp =>
    if dp ≠ dir_top then
      if d_inuse mem dp ≠ 0 ∧ d_namlen mem dp = name.length ∧ strEq mem (d_name dp) name then some (some dp)
      else find mem dir_top name fuel (NEXTDIR mem dp)
    else some none

/-! ## Looking for space -/

/-- The loop of `coalesce_page`: the memory, and `free` at the end. -/
def coalesceLoop (dp : ℕ) : ℕ → Memory → ℕ → ℕ → ℕ → Option (Memory × ℕ)
  | 0, _, _, _, _ => none
  | fuel + 1, mem, offset, bytes, free =>
    if bytes < EROS_PAGE_SIZE then
      -- `dp` stays where it is.
      if d_inuse mem dp = 0 then coalesceLoop dp fuel mem offset (bytes + d_reclen mem dp) (free + 0)
      else
        let truelen := DIRSIZ mem dp
        let dp_free := (d_reclen mem dp + 2 ^ 32 - DIRSIZ mem dp) % 2 ^ 32
        let (mem, offset) :=
          if offset ≠ bytes then (write mem (dp + offset) (read mem dp truelen), offset + truelen) else (mem, offset)
        let mem := setReclen mem (dp + offset) truelen
        coalesceLoop dp fuel mem offset (bytes + d_reclen mem dp) ((free + dp_free) % 2 ^ 32)
    else some (mem, free)

/-- `coalesce_page`: the memory and the entry at the tail. -/
def coalesce_page (fuel : ℕ) (mem : Memory) (dp : ℕ) : Option (Memory × ℕ) :=
  (coalesceLoop dp fuel mem 0 0 0).map fun out => (setFree out.1 (dp + out.2) out.2, dp + out.2)

/-- How the inner loop of `find_space` ends. -/
inductive PageScan where
  /-- With the entry at `dp`. -/
  | found (mem : Memory) (dp : ℕ)
  | pageEnd (dp free_bytes : ℕ)

/-- The free bytes of an entry, for `find_space`. -/
def freeBytes (mem : Memory) (dp : ℕ) : ℕ :=
  let free := (d_reclen mem dp + 2 ^ 32 - DIRSIZ mem dp) % 2 ^ 32
  if d_inuse mem dp = 0 then (free + DIRSIZ mem dp) % 2 ^ 32 else free

/-- The entry at `dp` gets its true length, and the rest is a new entry. -/
def splitEntry (mem : Memory) (dp free : ℕ) : Memory × ℕ :=
  let mem := setReclen mem dp (DIRSIZ mem dp)
  let dp := NEXTDIR mem dp
  (setFree mem dp free, dp)

/-- The inner loop of `find_space`. -/
def scanPage (mem : Memory) (len : ℕ) : ℕ → ℕ → ℕ → ℕ → Option PageScan
  | 0, _, _, _ => none
  | fuel + 1, dp, bytes, free_bytes =>
    if bytes < EROS_PAGE_SIZE then
      let free := freeBytes mem dp
      if d_inuse mem dp = 0 ∧ len ≤ free then some (.found mem dp)
      else if d_inuse mem dp ≠ 0 ∧ len ≤ free then
        some (.found (splitEntry mem dp free).1 (splitEntry mem dp free).2)
      else scanPage mem len fuel (NEXTDIR mem dp) (bytes + d_reclen mem dp) ((free_bytes + free) % 2 ^ 32)
    else some (.pageEnd dp free_bytes)

/-- `find_space`, from the page at `dp` on: the memory and the entry. -/
def find_space (mem : Memory) (dir_top len : ℕ) : ℕ → ℕ → Option (Option (Memory × ℕ))
  | 0, _ => none
  | fuel + 1, dp =>
    if dp ≠ dir_top then
      match scanPage mem len fuel dp 0 0 with
      | none => none
      | some (.found mem dp) => some (some (mem, dp))
      | some (.pageEnd dp' free_bytes) =>
        if len ≤ free_bytes then (coalesce_page fuel mem dp).map some else find_space mem dir_top len fuel dp'
    else some none

/-! ## The requests -/

inductive Code where
  | ok
  /-- `RC_capros_IndexedKeyStore_NotFound`. -/
  | notFound
  /-- `RC_capros_IndexedKeyStore_Exists`. -/
  | exists
  /-- `RC_capros_IndexedKeyStore_NoSpace`. -/
  | noSpace
  deriving DecidableEq

/-- An answer, with the key for `lookup`. -/
structure Response (Key : Type*) where
  code : Code
  key : Option Key
  deriving DecidableEq

inductive Request (Key : Type*) where
  /-- `OC_capros_IndexedKeyStore_get`. -/
  | get
  /-- `OC_capros_IndexedKeyStore_put`, of a key. `range` is whether the supernode can allocate a slot. -/
  | put (key : Key) (range : Bool)
  /-- `OC_capros_IndexedKeyStore_delete`. -/
  | delete

/-- A message: the bytes that were sent, and the request. -/
structure Msg (Key : Type*) where
  data : List UInt8
  request : Request Key

/-- The name in a message, as a string in `state->name`. -/
def Msg.name {Key : Type*} (msg : Msg Key) : List UInt8 := (msg.data.take MAXNAMLEN).takeWhile (· ≠ 0)

/-- `state_t`, the memory with the entries and the slots of the supernode. -/
structure State (Key : Type*) where
  mem : Memory
  dir_top : ℕ
  freeMap : ℕ → BitVec 32
  slots : ℕ → Key

/-- The length of a new entry, in `link`. -/
def entryLen (name : List UInt8) : ℕ := (name.length + 4) / 4 * 4 + 8

/-- The fields that `insert_dirent` writes. -/
def writeEntry (mem : Memory) (dp entno : ℕ) (name : List UInt8) : Memory :=
  let mem := setEntno mem dp entno
  let mem := setInuse mem dp 1
  let mem := setNamlen mem dp name.length
  let mem := write mem (d_name dp) name
  -- The overhead is counted in the length to which the name is padded.
  let padlen := (name.length + 4) / 4 * 4 + 8
  write mem (d_name dp + name.length) (List.replicate (padlen - name.length) 0)

variable {Key : Type*}

namespace State

/-- `Initialize`, with the keys for "." and "..". -/
def init (void self parent : Key) : State Key where
  mem := write (fun _ => 0) 0 template
  dir_top := EROS_PAGE_SIZE
  freeMap := (alloc_dirent (alloc_dirent (fun _ => 0) true).1 true).1
  slots := Function.update (Function.update (fun _ => void) 1 parent) 0 self

def lookup (fuel : ℕ) (s : State Key) (name : List UInt8) : Option (State Key × Response Key) :=
  (find s.mem s.dir_top name fuel 0).map fun out =>
    match out with
    | none => (s, ⟨.notFound, none⟩)
    | some dp => (s, ⟨.ok, some (s.slots (d_entno s.mem dp))⟩)

def unlink (fuel : ℕ) (void : Key) (s : State Key) (name : List UInt8) : Option (State Key × Response Key) :=
  (find s.mem s.dir_top name fuel 0).map fun out =>
    match out with
    | none => (s, ⟨.notFound, none⟩)
    | some dp =>
      ({ s with
          mem := setInuse s.mem dp 0
          freeMap := free_dirent s.freeMap (d_entno s.mem dp)
          slots := Function.update s.slots (d_entno s.mem dp) void }, ⟨.ok, none⟩)

/-- `insert_dirent`, into the entry at `dp`. -/
def insert_dirent (s : State Key) (dp : ℕ) (name : List UInt8) (key : Key) (range : Bool) :
    State Key × Response Key :=
  let (freeMap, entno) := alloc_dirent s.freeMap range
  if entno = 0 then ({ s with freeMap := freeMap }, ⟨.noSpace, none⟩)
  else
    ({ s with
        mem := writeEntry s.mem dp entno name
        freeMap := freeMap
        slots := Function.update s.slots entno key }, ⟨.ok, none⟩)

/-- A new page at the end of the directory. -/
def newPage (s : State Key) : State Key :=
  { s with mem := write s.mem s.dir_top blank_page, dir_top := s.dir_top + EROS_PAGE_SIZE }

/-- `link`. The directory can grow up to the address `limit`. -/
def link (fuel limit : ℕ) (s : State Key) (name : List UInt8) (key : Key) (range : Bool) :
    Option (State Key × Response Key) :=
  match find s.mem s.dir_top name fuel 0 with
  | none => none
  | some (some _) => some (s, ⟨.exists, none⟩)
  | some none =>
    match find_space s.mem s.dir_top (entryLen name) fuel 0 with
    | none => none
    | some (some (mem, dp)) => some (insert_dirent { s with mem := mem } dp name key range)
    | some none =>
      if s.dir_top + EROS_PAGE_SIZE ≤ limit then some (s.newPage.insert_dirent s.dir_top name key range) else none

def processRequest (fuel limit : ℕ) (void : Key) (s : State Key) (msg : Msg Key) :
    Option (State Key × Response Key) :=
  match msg.request with
  | .get => s.lookup fuel msg.name
  | .put key range => s.link fuel limit msg.name key range
  | .delete => s.unlink fuel void msg.name

end State

end CapROS.Directory
